import RansomTag.Ftl.Calls

/-!
# Errors of the version lookup

What `FTL_Read` and `DATA_Write` do when the search for the current version of
a page fails, or the read of its spare area.  A variable that such a failure
leaves unset may hold anything.  A call that does not use it leaves it where it is,
and behaves the same whatever it holds.
-/

namespace RansomTag

open Program

section

variable [Platform]

/-! ## The calls after `PMT_Search` -/

/-- What `PMT_Search` returns: its status, and the location if it was stored. -/
abbrev SearchResult := Status × Option (Nat × Nat)

/-- The local variables `block` and `page`. -/
def foundLocation (found : Option (Nat × Nat)) : Ftl (Nat × Nat) :=
  match found with
  | some location => pure location
  | none => do
      let block ← unsetLocal
      let page ← unsetLocal
      pure (block, page)

/-- `FTL_Read` from there on. -/
def ftlReadFound (addr : Nat) (flag mft : Bool) (r : SearchResult) :
    Ftl (Status × Option Buffer) := do
  let location ← foundLocation r.2
  if mft = false ∧ flag = false ∧ r.1 = .success then
    let r ← ubiRead location.1 location.2
    pure (r.status, r.data)
  else if mft then ftlReadMft addr location.1 location.2
  else ftlReadBackup location.1 location.2 r.1

theorem ftlRead_eq (addr : Nat) (flag mft : Bool) :
    ftlRead addr flag mft = pmtSearch addr >>= ftlReadFound addr flag mft := by
  unfold ftlRead
  refine bind_congr fun r => ?_
  obtain ⟨ret, found⟩ := r
  cases found <;> rfl

/-- The lookup of `DATA_Write` from there on. -/
def dataOldVersionFound (flag mft : Bool) (r : SearchResult) : Ftl (Bool × Nat × Status) := do
  let old ← foundLocation r.2
  if old.1 ≠ invalidBlock ∧ old.2 ≠ invalidPage then
    let read ← ubiRead old.1 old.2
    let oldLogicAddr := pmNodeSetBlockPage old.1 old.2
    match read.spare with
    | some oldSpare =>
        if mft = false ∧ read.status = .success ∧ oldSpare.w2 ≠ invalidPmNode then
          pure (flag, oldSpare.w2, read.status)
        else pure (flag, oldLogicAddr, read.status)
    | none => pure (flag, oldLogicAddr, read.status)
  else
    let oldLogicAddr ← unsetLocal
    pure (false, oldLogicAddr, r.1)

theorem dataOldVersion_eq (addr : Nat) {flag mft : Bool} (h : flag ∨ mft) :
    dataOldVersion addr flag mft = pmtSearch addr >>= dataOldVersionFound flag mft := by
  unfold dataOldVersion
  rw [if_pos h]
  refine bind_congr fun r => ?_
  obtain ⟨ret, found⟩ := r
  cases found <;> rfl

/-- `DATA_Write` once the old version is known. -/
def dataWriteVersion (addr : Nat) (buffer : Option Buffer) (isHot mft : Bool)
    (version : Bool × Nat × Status) : Ftl Status := do
  let s ← get
  let dataJournal := s.rootTable.journal isHot
  let ret ←
    if pmNodePage dataJournal < pagePerPhyBlock - 1 then
      ubiReadStatus (pmNodeBlock dataJournal)
    else pure version.2.2
  assert (ret = .success)
  match buffer with
  | some buffer =>
      let block := pmNodeBlock dataJournal
      let page := pmNodePage dataJournal
      let link := newLink version.1 mft version.2.1
      let isBackup := newBackup version.1 mft version.2.1
      let s ← get
      let spare : Spare := ⟨addr, s.data.edition isHot, link, link⟩
      let edition := (s.data.edition isHot + 1) % 4294967296
      modify fun s => { s with data := (s.data.setMeta isHot page spare).setEdition isHot edition }
      let ret ← ubiWrite block page buffer spare
      let ret ← if ret = .success then pmtUpdate addr block page isBackup else pure ret
      if ret = .success then
        modify fun s => { s with
          rootTable := s.rootTable.setJournal isHot (pmNodeSetBlockPage block (page + 1)) }
      let s ← get
      if pmNodePage (s.rootTable.journal isHot) = pagePerPhyBlock - 1 then
        ubiWrite block (pagePerPhyBlock - 1) (.ofSpares (s.data.metaTable isHot)) .null
      else pure ret
  | none => pmtUpdate addr invalidBlock invalidPage version.1

theorem dataWrite_eq (addr : Nat) (buffer : Option Buffer) (isHot flag mft : Bool) :
    dataWrite addr buffer isHot flag mft =
      dataOldVersion addr flag mft >>= dataWriteVersion addr buffer isHot mft := rfl

/-! ## What a caller may rely on -/

/-- A state with other values in the variables that are not set. -/
@[simps] def FtlState.withUnset (s : FtlState) (unset : Nat → Nat) : FtlState := { s with unset := unset }

/-- The run does not use a variable that is not set: it reads none of them, whatever
comes of the value, and its result is the same whatever they hold. -/
def IgnoresUnset {α : Type} (m : Ftl α) (s : FtlState) : Prop :=
  ∃ result : Except Stop (α × FtlState),
    ∀ unset, m (s.withUnset unset) = result.map fun r => (r.1, r.2.withUnset unset)

/-- The calls that look up the version of a page. -/
inductive VersionCall where
  | read (flag mft : Bool)
  | write (buffer : Option Buffer) (isHot flag mft : Bool)

namespace VersionCall

def flag : VersionCall → Bool
  | read flag _ => flag
  | write _ _ flag _ => flag

def mft : VersionCall → Bool
  | read _ mft => mft
  | write _ _ _ mft => mft

/-- The error is kept: the call does not succeed, uses nothing that was not
set, and `DATA_Write` does not take the page for one without an old version. -/
def KeepsError (addr : Nat) (r : SearchResult) (s : FtlState) : VersionCall → Prop
  | read flag mft =>
      (∀ unset data s',
        ftlReadFound addr flag mft r (s.withUnset unset) ≠ .ok ((.success, data), s')) ∧
      IgnoresUnset (ftlReadFound addr flag mft r) s
  | write buffer isHot flag mft =>
      (∀ unset s', (dataOldVersionFound flag mft r >>= dataWriteVersion addr buffer isHot mft)
        (s.withUnset unset) ≠ .ok (.success, s')) ∧
      IgnoresUnset (dataOldVersionFound flag mft r) s ∧
      ∀ unset version s', dataOldVersionFound flag mft r (s.withUnset unset) = .ok (version, s') →
        version.1 = flag

/-- The page whose spare area the call reads for the version of the page found
at `location`. -/
def spareLocation (addr : Nat) (s : FtlState) (location : Nat × Nat) :
    VersionCall → Option (Nat × Nat)
  | read _ true =>
      if addr = (s.api.lastAddr + 1) % 4294967296 then none
      else if s.api.lastpage ≠ location.2 ∨ s.api.lastblock ≠ location.1 then some location
      else some (pmNodeBlock s.api.backupmft, pmNodePage s.api.backupmft)
  | _ => some location

/-- A lookup that went wrong, and the state that it left: the search failed, for
whatever reason, or the read of the spare area. -/
inductive LookupFails (call : VersionCall) (addr : Nat) : SearchResult → FtlState → Prop where
  | search (s : FtlState) : LookupFails call addr (.failure, none) s
  | spare {s₀ s : FtlState} {location place : Nat × Nat}
      (hsearch : pmtSearch addr s₀ = .ok ((.success, some location), s))
      (hplace : call.spareLocation addr s location = some place)
      (hread : ubiRead place.1 place.2 s = .ok (⟨.failure, none, none⟩, s)) :
      LookupFails call addr (.success, some location) s

/-- The search succeeded, and the call is a write that stops because its journal has
no page to offer. -/
def SurvivesFailure (r : SearchResult) (s : FtlState) : VersionCall → Prop
  | read _ _ => False
  | write _ isHot _ _ => r.1 = .success ∧
      ¬ (pmNodePage (s.rootTable.journal isHot) < pagePerPhyBlock - 1 ∧
        pmNodeBlock (s.rootTable.journal isHot) < ubiCapacity)

end VersionCall

/-! ## Reads and unset variables -/

/-- What `UBI_Read` returns. -/
def readPage (flash : Flash) (block page : Nat) : Except Stop ReadResult :=
  if block ≠ invalidBlock ∧ page ≠ invalidPage then
    if block < ubiCapacity then
      match flash.page block page with
      | .programmed data spare => .ok ⟨.success, some data, some spare⟩
      | _ => .ok ⟨.failure, none, none⟩
    else .error .assertion
  else if block = invalidBlock ∧ page = invalidPage then .ok ⟨.success, some .zeros, none⟩
  else .error .assertion

theorem ubiRead_apply (block page : Nat) (s : FtlState) :
    ubiRead block page s = (readPage s.flash block page).map fun r => (r, s) := by
  unfold ubiRead readPage
  by_cases hvalid : block ≠ invalidBlock ∧ page ≠ invalidPage
  · rw [if_pos hvalid, if_pos hvalid]
    by_cases hb : block < ubiCapacity
    · simp only [assert, hb, if_true]
      change (match s.flash.page block page with
        | .programmed data spare => pure ⟨.success, some data, some spare⟩
        | _ => pure ⟨.failure, none, none⟩ : Ftl ReadResult) s = _
      cases s.flash.page block page <;> rfl
    · simp only [assert, hb, if_false]
      rfl
  · rw [if_neg hvalid, if_neg hvalid]
    by_cases hnone : block = invalidBlock ∧ page = invalidPage
    · simp only [assert, if_pos hnone]
      rfl
    · simp only [assert, if_neg hnone]
      rfl

section

variable {E : Stop → Prop} {s : FtlState}

theorem wp_ubiRead {block page : Nat} {Q : ReadResult → FtlState → Prop} :
    wp (ubiRead block page) Q E s ↔
      match readPage s.flash block page with
      | .ok r => Q r s
      | .error e => E e := by
  unfold wp
  rw [ubiRead_apply]
  cases readPage s.flash block page <;> rfl

/-- A block behind the last one stops the firmware. -/
theorem readPage_outside (flash : Flash) : readPage flash ubiCapacity 0 = .error .assertion := by
  have hcap := Platform.ubiCapacity_le
  have hne : ubiCapacity ≠ invalidBlock ∧ 0 ≠ invalidPage := by
    constructor
    · simp only [invalidBlock]
      omega
    · decide
  unfold readPage
  rw [if_pos hne, if_neg (Nat.lt_irrefl _)]

theorem readPage_inside (flash : Flash) {block : Nat} (hb : block < ubiCapacity) :
    ∃ r, readPage flash block 0 = .ok r := by
  have hcap := Platform.ubiCapacity_le
  have hne : block ≠ invalidBlock ∧ 0 ≠ invalidPage := by
    constructor
    · simp only [invalidBlock]
      omega
    · decide
  unfold readPage
  rw [if_pos hne, if_pos hb]
  cases flash.page block 0 with
  | erased => exact ⟨_, rfl⟩
  | programmed data spare => exact ⟨_, rfl⟩
  | torn => exact ⟨_, rfl⟩

/-- A read that fails names a block, and fills nothing. -/
theorem readPage_fails {flash : Flash} {block page : Nat} {r : ReadResult}
    (h : readPage flash block page = .ok r) (hfail : r.status = .failure) :
    block ≠ invalidBlock ∧ page ≠ invalidPage ∧ block < ubiCapacity ∧ r = ⟨.failure, none, none⟩ := by
  unfold readPage at h
  by_cases hvalid : block ≠ invalidBlock ∧ page ≠ invalidPage
  · rw [if_pos hvalid] at h
    by_cases hb : block < ubiCapacity
    · rw [if_pos hb] at h
      refine ⟨hvalid.1, hvalid.2, hb, ?_⟩
      cases hpage : flash.page block page with
      | programmed data spare =>
          rw [hpage] at h
          cases h
          cases hfail
      | erased =>
          rw [hpage] at h
          cases h
          rfl
      | torn =>
          rw [hpage] at h
          cases h
          rfl
    · rw [if_neg hb] at h
      cases h
  · rw [if_neg hvalid] at h
    by_cases hnone : block = invalidBlock ∧ page = invalidPage
    · rw [if_pos hnone] at h
      cases h
      cases hfail
    · rw [if_neg hnone] at h
      cases h

theorem readPage_of_ubiRead {block page : Nat} {r : ReadResult} {s' : FtlState}
    (h : ubiRead block page s = .ok (r, s')) : readPage s.flash block page = .ok r := by
  rw [ubiRead_apply] at h
  cases hread : readPage s.flash block page with
  | error e =>
      rw [hread] at h
      cases h
  | ok r' =>
      rw [hread] at h
      cases h
      rfl

omit [Platform] in
theorem wp_foundLocation_none {unset : Nat → Nat} {Q : Nat × Nat → FtlState → Prop} :
    wp (foundLocation none) Q E (s.withUnset unset) ↔
      Q (unset 0 % 4294967296, unset 1 % 4294967296) (s.withUnset fun i => unset (i + 2)) :=
  Iff.rfl

omit [Platform] in
theorem wp_foundLocation_some {location : Nat × Nat} {Q : Nat × Nat → FtlState → Prop} :
    wp (foundLocation (some location)) Q E s ↔ Q location s := Iff.rfl

/-- The first two variables hold a location. -/
def unsetAt (block page : Nat) (i : Nat) : Nat := if i = 0 then block else page

omit [Platform] in
theorem not_ignoresUnset_of_stop {α : Type} {m : Ftl α} {u v : Nat → Nat}
    (hok : wp m (fun _ _ => True) (fun _ => False) (s.withUnset u))
    (hstop : wp m (fun _ _ => False) (fun _ => True) (s.withUnset v)) :
    ¬ IgnoresUnset m s := by
  rintro ⟨result, h⟩
  unfold wp at hok hstop
  rw [h u] at hok
  rw [h v] at hstop
  cases result with
  | error e => exact hok
  | ok r => exact hstop

omit [Platform] in
theorem not_ignoresUnset_of_api {α : Type} {m : Ftl α} {u v : Nat → Nat}
    {P R : ApiRam → Prop} (h : wp m (fun _ s' => P s'.api) (fun _ => False) (s.withUnset u))
    (h' : wp m (fun _ s' => R s'.api) (fun _ => False) (s.withUnset v))
    (hne : ∀ api, P api → ¬ R api) : ¬ IgnoresUnset m s := by
  rintro ⟨result, hsame⟩
  unfold wp at h h'
  rw [hsame u] at h
  rw [hsame v] at h'
  cases result with
  | error e => exact h
  | ok r => exact hne r.2.api h h'

omit [Platform] in
/-- A run that reads the first of the variables uses it. -/
theorem not_ignoresUnset_of_consumed {α : Type} {m : Ftl α} {a : α}
    (h : ∀ unset, m (s.withUnset unset) = .ok (a, s.withUnset fun i => unset (i + 1))) :
    ¬ IgnoresUnset m s := by
  rintro ⟨result, hsame⟩
  have hrun := (hsame id).symm.trans (h id)
  cases result with
  | error e => cases hrun
  | ok r =>
      have hunset : r.2.withUnset id = s.withUnset fun i => id (i + 1) :=
        congrArg Prod.snd (Except.ok.inj hrun)
      have hfirst : 0 = 0 + 1 := congrFun (congrArg FtlState.unset hunset) 0
      cases hfirst

end

/-! ## A search that fails -/

section

variable {s : FtlState} {addr : Nat} {flag mft : Bool} {E : Stop → Prop}

theorem wp_ftlReadFound_search {u : Nat → Nat} {Q : Status × Option Buffer → FtlState → Prop} :
    wp (ftlReadFound addr flag mft (.failure, none)) Q E (s.withUnset u) ↔
      wp (if mft then ftlReadMft addr (u 0 % 4294967296) (u 1 % 4294967296)
        else ftlReadBackup (u 0 % 4294967296) (u 1 % 4294967296) .failure) Q E
          (s.withUnset fun i => u (i + 2)) := by
  unfold ftlReadFound
  rw [wp_bind, wp_foundLocation_none, if_neg (by simp)]

theorem ubiCapacity_mod : ubiCapacity % 4294967296 = ubiCapacity := by
  have hcap := Platform.ubiCapacity_le
  exact Nat.mod_eq_of_lt (by omega)

theorem ubiCapacity_ne_invalidBlock : ubiCapacity ≠ invalidBlock := by
  have hcap := Platform.ubiCapacity_le
  simp only [invalidBlock]
  omega

/-- A tagged read compares the location that it did not get. -/
theorem ftlReadFound_search_tagged :
    ¬ IgnoresUnset (ftlReadFound addr flag false (.failure, none)) s := by
  apply not_ignoresUnset_of_stop (u := unsetAt invalidBlock invalidPage)
    (v := unsetAt ubiCapacity 0)
  · rw [wp_ftlReadFound_search]
    simp [ftlReadBackup, unsetAt]
  · have hne : ubiCapacity ≠ invalidBlock ∧ 0 ≠ invalidPage :=
      ⟨ubiCapacity_ne_invalidBlock, by decide⟩
    rw [wp_ftlReadFound_search]
    simp only [unsetAt, if_true, one_ne_zero, if_false, ubiCapacity_mod, Nat.zero_mod,
      Bool.false_eq_true, ftlReadBackup]
    rw [if_pos hne, wp_bind, wp_ubiRead, FtlState.withUnset_flash, readPage_outside]
    trivial

/-- An MFT read takes it for the current version. -/
theorem ftlReadFound_search_mft :
    ¬ IgnoresUnset (ftlReadFound addr flag true (.failure, none)) s := by
  by_cases hnext : addr = (s.api.lastAddr + 1) % 4294967296
  · apply not_ignoresUnset_of_stop (u := unsetAt invalidBlock invalidPage)
      (v := unsetAt ubiCapacity 0)
    · rw [wp_ftlReadFound_search]
      simp only [unsetAt, if_true, one_ne_zero, if_false, ftlReadMft]
      rw [wp_bind, wp_get, FtlState.withUnset_api, if_pos hnext, wp_bind]
      exact wp_ubiRead_invalid.mpr trivial
    · rw [wp_ftlReadFound_search]
      simp only [unsetAt, if_true, one_ne_zero, if_false, ubiCapacity_mod, Nat.zero_mod, ftlReadMft]
      rw [wp_bind, wp_get, FtlState.withUnset_api, if_pos hnext, wp_bind, wp_ubiRead, FtlState.withUnset_flash,
        readPage_outside]
      trivial
  · -- the cursor follows the location, whichever block it names
    have hcursor : ∀ b < 3, b ≠ s.api.lastblock →
        wp (ftlReadFound addr flag true (.failure, none)) (fun _ s' => s'.api.lastblock = b)
          (fun _ => False) (s.withUnset (unsetAt b 0)) := by
      intro b hb hother
      have hcap := Platform.ubiCapacity_ge
      have hin : b < ubiCapacity := by omega
      obtain ⟨r, hr⟩ := readPage_inside s.flash hin
      have hmod : b % 4294967296 = b := Nat.mod_eq_of_lt (by omega)
      rw [wp_ftlReadFound_search]
      simp only [unsetAt, if_true, one_ne_zero, if_false, hmod, Nat.zero_mod, ftlReadMft]
      rw [wp_bind, wp_get, FtlState.withUnset_api, if_neg hnext, wp_bind, wp_modify,
        if_pos (Or.inr (Ne.symm hother)), wp_bind, wp_modify, wp_bind, wp_ubiRead]
      simp only [FtlState.withUnset_flash, hr]
      obtain ⟨status, data, spare⟩ := r
      cases spare with
      | none => exact (rfl : b = b)
      | some spare => exact (rfl : b = b)
    obtain ⟨b, b', hb, hb', hne, hb0, hb1⟩ : ∃ b b', b < 3 ∧ b' < 3 ∧ b ≠ b' ∧
        b ≠ s.api.lastblock ∧ b' ≠ s.api.lastblock := by
      by_cases h0 : s.api.lastblock = 0
      · exact ⟨1, 2, by omega, by omega, by omega, by omega, by omega⟩
      · by_cases h1 : s.api.lastblock = 1
        · exact ⟨0, 2, by omega, by omega, by omega, by omega, by omega⟩
        · exact ⟨0, 1, by omega, by omega, by omega, by omega, by omega⟩
    exact not_ignoresUnset_of_api (P := fun api => api.lastblock = b)
      (R := fun api => api.lastblock = b') (hcursor b hb hb0) (hcursor b' hb' hb1)
      fun api h h' => hne (h.symm.trans h')

/-- A write takes it for the place of the old version. -/
theorem dataOldVersionFound_search :
    ¬ IgnoresUnset (dataOldVersionFound flag mft (.failure, none)) s := by
  apply not_ignoresUnset_of_stop (u := unsetAt invalidBlock invalidPage)
    (v := unsetAt ubiCapacity 0)
  · unfold dataOldVersionFound
    rw [wp_bind, wp_foundLocation_none]
    simp only [unsetAt, if_true, one_ne_zero, if_false]
    rw [if_neg (by simp), wp_bind, wp_unsetLocal]
    trivial
  · have hne : ubiCapacity ≠ invalidBlock ∧ 0 ≠ invalidPage :=
      ⟨ubiCapacity_ne_invalidBlock, by decide⟩
    unfold dataOldVersionFound
    rw [wp_bind, wp_foundLocation_none]
    simp only [unsetAt, if_true, one_ne_zero, if_false, ubiCapacity_mod, Nat.zero_mod]
    rw [if_pos hne, wp_bind, wp_ubiRead, FtlState.withUnset_flash, readPage_outside]
    trivial

end

/-! ## A read of the spare area that fails -/

section

variable {s : FtlState} {addr : Nat} {location : Nat × Nat}

/-- A tagged read returns the status of the read, behind the link that it did not
get. -/
theorem ftlReadFound_spare_tagged (flag : Bool) (hflag : flag = true)
    (hread : readPage s.flash location.1 location.2 = .ok ⟨.failure, none, none⟩)
    (u : Nat → Nat) :
    ftlReadFound addr flag false (.success, some location) (s.withUnset u) =
      .ok ((.failure, none), s.withUnset fun i => u (i + 1)) := by
  obtain ⟨hb, hp, -, -⟩ := readPage_fails hread rfl
  have hwp : wp (ftlReadFound addr flag false (.success, some location))
      (fun a s' => a = (.failure, none) ∧ s' = s.withUnset fun i => u (i + 1)) (fun _ => False)
      (s.withUnset u) := by
    unfold ftlReadFound
    rw [wp_bind, wp_foundLocation_some]
    simp only [hflag, Bool.true_eq_false, false_and, and_false, if_false, Bool.false_eq_true,
      ftlReadBackup]
    rw [if_pos ⟨hb, hp⟩, wp_bind, wp_ubiRead, FtlState.withUnset_flash, hread]
    simp only [wp_bind, spareAfter, wp_unsetLocal]
    split
    · exact ⟨rfl, rfl⟩
    · exact ⟨rfl, rfl⟩
  obtain ⟨a, s', hrun, rfl, rfl⟩ := exists_ok_of_wp hwp
  exact hrun

/-- An MFT read keeps the link that it did not get. -/
theorem ftlReadFound_spare_mft {flag : Bool} {place : Nat × Nat}
    (hplace : (VersionCall.read flag true).spareLocation addr s location = some place)
    (hread : readPage s.flash place.1 place.2 = .ok ⟨.failure, none, none⟩) :
    ¬ IgnoresUnset (ftlReadFound addr flag true (.success, some location)) s := by
  have hlink : ∀ link, link = 0 ∨ link = 4 →
      wp (ftlReadFound addr flag true (.success, some location))
        (fun _ s' => s'.api.backupmft = link) (fun _ => False) (s.withUnset fun _ => link) := by
    intro link hlink
    have hsmall : pmNodeBlock link < 2049 ∧ link ≠ invalidPmNode ∧ link % 4294967296 = link := by
      rcases hlink with rfl | rfl
      · decide
      · decide
    unfold ftlReadFound
    rw [wp_bind, wp_foundLocation_some]
    simp only [Bool.true_eq_false, false_and, if_false, if_true, ftlReadMft]
    unfold VersionCall.spareLocation at hplace
    by_cases hnext : addr = (s.api.lastAddr + 1) % 4294967296
    · simp [hnext] at hplace
    · simp only [if_neg hnext] at hplace
      rw [wp_bind, wp_get, FtlState.withUnset_api, if_neg hnext, wp_bind, wp_modify]
      by_cases hother : s.api.lastpage ≠ location.2 ∨ s.api.lastblock ≠ location.1
      · rw [if_pos hother] at hplace
        obtain rfl := Option.some.inj hplace
        rw [if_pos hother, wp_bind, wp_modify, wp_bind, wp_ubiRead]
        simp only [FtlState.withUnset_flash, hread]
        have hkeep : ¬ (link = invalidPmNode ∨ pmNodeBlock link > 2048) := by
          rintro (h | h)
          · exact hsmall.2.1 h
          · omega
        simp only [wp_bind, spareAfter, wp_unsetLocal, wp_modify, wp_pure, FtlState.withUnset_unset,
          hsmall.2.2, if_neg hkeep]
      · rw [if_neg hother] at hplace
        obtain rfl := Option.some.inj hplace
        rw [if_neg hother, wp_bind, wp_ubiRead]
        simp only [FtlState.withUnset_flash, hread]
        simp only [wp_bind, spareAfter, wp_unsetLocal, wp_modify, wp_pure, FtlState.withUnset_unset,
          hsmall.2.2, if_pos hsmall.1]
  exact not_ignoresUnset_of_api (P := fun api => api.backupmft = 0)
    (R := fun api => api.backupmft = 4) (hlink 0 (Or.inl rfl)) (hlink 4 (Or.inr rfl))
    fun api h h' => by omega

/-- A write links to the current version and goes on. -/
theorem dataOldVersionFound_spare {flag mft : Bool}
    (hread : readPage s.flash location.1 location.2 = .ok ⟨.failure, none, none⟩)
    (u : Nat → Nat) :
    dataOldVersionFound flag mft (.success, some location) (s.withUnset u) =
      .ok ((flag, pmNodeSetBlockPage location.1 location.2, .failure), s.withUnset u) := by
  obtain ⟨hb, hp, -, -⟩ := readPage_fails hread rfl
  have hwp : wp (dataOldVersionFound flag mft (.success, some location))
      (fun a s' => a = (flag, pmNodeSetBlockPage location.1 location.2, .failure) ∧
        s' = s.withUnset u) (fun _ => False) (s.withUnset u) := by
    unfold dataOldVersionFound
    rw [wp_bind, wp_foundLocation_some, if_pos ⟨hb, hp⟩, wp_bind, wp_ubiRead,
      FtlState.withUnset_flash, hread]
    exact ⟨rfl, rfl⟩
  obtain ⟨a, s', hrun, rfl, rfl⟩ := exists_ok_of_wp hwp
  exact hrun

end

/-! ## The write goes on -/

section

variable {s : FtlState} {addr : Nat}

omit [Platform] in
theorem wp_trivial {α : Type} (m : Ftl α) : wp m (fun _ _ => True) (fun _ => True) s := by
  unfold wp
  cases m s <;> trivial

/-- A cluster that was brought into the cache is there. -/
theorem pmtEnsureCached_cached (cluster : Nat) :
    wp (pmtEnsureCached cluster) (fun ret s' => ret = .success →
      pmNodeIsCached (s'.rootTable.pageMappingNodes cluster) = true) (fun _ => True) s := by
  have hslot : ∀ i block page (t : FtlState), wp (pmtLoadSlot i block page cluster)
      (fun ret s' => ret = .success →
        pmNodeIsCached (s'.rootTable.pageMappingNodes cluster) = true) (fun _ => True) t := by
    intro i block page t
    unfold pmtLoadSlot
    rw [wp_bind, wp_ubiRead]
    cases readPage t.flash block page with
    | error e => trivial
    | ok r =>
        simp only
        by_cases hok : r.status = .success
        · rw [if_pos hok, wp_bind, wp_modify, wp_pure]
          intro _
          simp only [Ram.set_apply, if_true]
          exact pmNodeIsCached_cacheAddr i
        · rw [if_neg hok]
          exact fun h => absurd h hok
  unfold pmtEnsureCached
  rw [wp_bind, wp_get]
  by_cases hcached : pmNodeIsCached (s.rootTable.pageMappingNodes cluster) = false
  · rw [if_pos hcached]
    unfold pmtLoad
    rw [wp_bind, wp_get]
    by_cases hfull : emptySlot s.pmt pmtCacheCount 0 = pmtCacheCount
    · simp only [hfull, if_true]
      rw [wp_bind]
      refine wp_mono_post (wp_trivial dataCommit) fun ret t _ => ?_
      split
      · rw [wp_bind, wp_get]
        exact hslot _ _ _ t
      · next hfail =>
          rw [wp_pure]
          exact fun h => absurd h hfail
    · simp only [hfull, if_false]
      exact hslot _ _ _ s
  · rw [if_neg hcached, wp_pure]
    intro _
    simpa using hcached

theorem pmtSearch_cached {s₀ : FtlState} {location : Nat × Nat}
    (h : pmtSearch addr s₀ = .ok ((.success, some location), s)) :
    pmNodeIsCached (s.rootTable.pageMappingNodes (clusterIndex addr)) = true := by
  have hwp : wp (pmtSearch addr) (fun r s' => r.1 = .success →
      pmNodeIsCached (s'.rootTable.pageMappingNodes (clusterIndex addr)) = true)
      (fun _ => True) s₀ := by
    unfold pmtSearch
    rw [wp_bind]
    refine wp_mono_post (pmtEnsureCached_cached (clusterIndex addr)) fun ret t hret => ?_
    by_cases hok : ret = .success
    · rw [if_pos hok, wp_bind, wp_get, wp_bind, wp_assert]
      split
      · rw [wp_bind, wp_assert]
        split
        · simp only [wp_ite, wp_pure]
          split
          · exact fun _ => hret hok
          · exact fun _ => hret hok
        · trivial
      · trivial
    · rw [if_neg hok, wp_pure]
      exact fun hsuccess => absurd hsuccess hok
  exact of_wp_ok hwp h rfl

/-- An update of a cached cluster returns `STATUS_SUCCESS`. -/
theorem pmtUpdate_cached {block page : Nat} {isBackup : Bool}
    (hcached : pmNodeIsCached (s.rootTable.pageMappingNodes (clusterIndex addr)) = true)
    (hpage : block = invalidBlock ↔ page = invalidPage) :
    wp (pmtUpdate addr block page isBackup) (fun ret _ => ret = .success) (fun _ => False) s := by
  unfold pmtUpdate pmtEnsureCached
  rw [wp_bind, wp_bind, wp_get, if_neg (by simp [hcached]), wp_pure, if_pos rfl, wp_bind,
    wp_pmtSetWord hcached hpage, wp_pure]

/-- With a page to offer `DATA_Write` returns `STATUS_SUCCESS`, whatever the
lookup returned. -/
theorem dataWriteVersion_success {buffer : Option Buffer} {isHot mft : Bool}
    {version : Bool × Nat × Status}
    (hcached : pmNodeIsCached (s.rootTable.pageMappingNodes (clusterIndex addr)) = true)
    (hroom : pmNodePage (s.rootTable.journal isHot) < pagePerPhyBlock - 1)
    (hblock : pmNodeBlock (s.rootTable.journal isHot) < ubiCapacity) :
    wp (dataWriteVersion addr buffer isHot mft version) (fun ret _ => ret = .success)
      (fun _ => False) s := by
  have hcap := Platform.ubiCapacity_le
  unfold dataWriteVersion
  rw [wp_bind, wp_get]
  simp only [if_pos hroom]
  rw [wp_bind, wp_ubiReadStatus hblock, wp_bind, wp_assert, if_pos rfl]
  cases buffer with
  | none => exact pmtUpdate_cached hcached (by simp)
  | some buffer =>
      have hpage : pmNodeBlock (s.rootTable.journal isHot) = invalidBlock ↔
          pmNodePage (s.rootTable.journal isHot) = invalidPage := by
        simp only [invalidBlock, invalidPage, pagePerPhyBlock] at *
        omega
      simp only []
      rw [wp_bind, wp_get, wp_bind, wp_modify, wp_bind, wp_ubiWrite hblock, if_pos rfl, wp_bind]
      refine wp_mono_post (pmtUpdate_cached hcached hpage) ?_
      rintro _ t rfl
      rw [if_pos rfl, wp_bind, wp_modify, wp_bind, wp_get]
      split
      · exact (wp_ubiWrite hblock).mpr rfl
      · rfl

/-- Without one the assertion on the status stops it. -/
theorem dataWriteVersion_stops {buffer : Option Buffer} {isHot mft : Bool}
    {isBackup : Bool} {old : Nat}
    (hroom : ¬ (pmNodePage (s.rootTable.journal isHot) < pagePerPhyBlock - 1 ∧
      pmNodeBlock (s.rootTable.journal isHot) < ubiCapacity)) :
    wp (dataWriteVersion addr buffer isHot mft (isBackup, old, .failure)) (fun _ _ => False)
      (fun _ => True) s := by
  unfold dataWriteVersion
  rw [wp_bind, wp_get]
  by_cases hpage : pmNodePage (s.rootTable.journal isHot) < pagePerPhyBlock - 1
  · simp only [if_pos hpage]
    have hblock : ¬ pmNodeBlock (s.rootTable.journal isHot) < ubiCapacity :=
      fun hb => hroom ⟨hpage, hb⟩
    unfold ubiReadStatus
    rw [wp_bind, wp_bind, wp_assert, if_neg hblock]
    trivial
  · simp only [if_neg hpage]
    rw [wp_bind, wp_pure, wp_bind, wp_assert, if_neg (by decide)]
    trivial

end

/-! ## Every failure -/

namespace VersionCall

variable {addr : Nat} {r : SearchResult} {s : FtlState}

/-- No read with the tag or with `mft` keeps an error. -/
theorem not_keepsError_read {flag mft : Bool} (htag : flag = true ∨ mft = true)
    (hfails : (read flag mft).LookupFails addr r s) :
    ¬ (read flag mft).KeepsError addr r s := by
  intro h
  cases hfails with
  | search =>
      cases mft with
      | false => exact ftlReadFound_search_tagged h.2
      | true => exact ftlReadFound_search_mft h.2
  | @spare _ _ location place _ hplace hread =>
      have hpage := readPage_of_ubiRead hread
      cases mft with
      | true => exact ftlReadFound_spare_mft hplace hpage h.2
      | false =>
          have hflag : flag = true := htag.resolve_right Bool.false_ne_true
          obtain rfl : location = place := Option.some.inj hplace
          exact not_ignoresUnset_of_consumed (ftlReadFound_spare_tagged flag hflag hpage) h.2

/-- A write whose spare read failed keeps the error exactly where its journal has no
page to offer. -/
theorem keepsError_write_iff {buffer : Option Buffer} {isHot flag mft : Bool}
    {location : Nat × Nat}
    (hcached : pmNodeIsCached (s.rootTable.pageMappingNodes (clusterIndex addr)) = true)
    (hpage : readPage s.flash location.1 location.2 = .ok ⟨.failure, none, none⟩) :
    (write buffer isHot flag mft).KeepsError addr (.success, some location) s ↔
      ¬ (pmNodePage (s.rootTable.journal isHot) < pagePerPhyBlock - 1 ∧
        pmNodeBlock (s.rootTable.journal isHot) < ubiCapacity) := by
  have hrun : ∀ u, dataOldVersionFound flag mft (.success, some location) (s.withUnset u) =
      .ok ((flag, pmNodeSetBlockPage location.1 location.2, .failure), s.withUnset u) :=
    dataOldVersionFound_spare hpage
  constructor
  · rintro ⟨hstatus, -⟩ hroom
    have hgoes : wp (dataWriteVersion addr buffer isHot mft
        (flag, pmNodeSetBlockPage location.1 location.2, .failure))
        (fun ret _ => ret = .success) (fun _ => False) (s.withUnset s.unset) :=
      dataWriteVersion_success hcached hroom.1 hroom.2
    obtain ⟨_, s', hok, rfl⟩ := exists_ok_of_wp hgoes
    exact hstatus s.unset s' ((bind_of_ok (hrun s.unset)).trans hok)
  · intro hroom
    refine ⟨fun u s' hok => ?_, ⟨.ok ((flag, pmNodeSetBlockPage location.1 location.2, .failure),
      s), hrun⟩, fun u version s' hok => ?_⟩
    · have hstop : wp (dataWriteVersion addr buffer isHot mft
          (flag, pmNodeSetBlockPage location.1 location.2, .failure)) (fun _ _ => False)
          (fun _ => True) (s.withUnset u) := dataWriteVersion_stops hroom
      rw [bind_of_ok (hrun u)] at hok
      exact of_wp_ok hstop hok
    · rw [hrun u] at hok
      cases hok
      rfl

end VersionCall

/-- An error of the version lookup is kept by a write whose search succeeded and that
stops for want of a page, and by no other call. -/
theorem VersionCall.keepsError_iff {call : VersionCall} {addr : Nat} {r : SearchResult}
    {s : FtlState} (htag : call.flag = true ∨ call.mft = true)
    (hfails : call.LookupFails addr r s) :
    call.KeepsError addr r s ↔ call.SurvivesFailure r s := by
  cases call with
  | read flag mft => exact ⟨fun h => not_keepsError_read htag hfails h, False.elim⟩
  | write buffer isHot flag mft =>
      cases hfails with
      | search =>
          exact ⟨fun h => absurd h.2.1 dataOldVersionFound_search, fun h => absurd h.1 (by decide)⟩
      | @spare _ _ location place hsearch hplace hread =>
          obtain rfl : location = place := Option.some.inj hplace
          exact (keepsError_write_iff (pmtSearch_cached hsearch) (readPage_of_ubiRead hread)).trans
            (and_iff_right rfl).symm

end

section

attribute [local instance] k9wag08

/-- Nothing is cached, and no page of the mapping can be read. -/
def mappingLost : FtlState :=
  let s := FtlState.powerOn .blank fun _ => 4294967295
  { s with
    rootTable := { s.rootTable with pageMappingNodes := .const (pmNodeSetBlockPage 6 0) }
    pmt := { s.pmt with
      cacheOrigin := .const invalidPmNode
      cacheCluster := .const invalidCluster } }

/-- The search fails, and the MFT read returns zeros with `STATUS_SUCCESS`. -/
theorem ftlRead_success_without_mapping :
    (∃ s', pmtSearch 1 mappingLost = .ok ((.failure, none), s')) ∧
      ∃ s', ftlRead 1 false true mappingLost = .ok ((.success, some .zeros), s') := by
  refine ⟨⟨_, rfl⟩, ?_⟩
  rw [ftlRead_eq]
  exact ⟨_, rfl⟩

/-- The mapping is cached, and the page that it names cannot be read. -/
def pageLost : FtlState :=
  let s := FtlState.powerOn .blank fun _ => 0
  { s with
    rootTable := { s.rootTable with pageMappingNodes := .const (pmCacheAddr 0) }
    pmt := { s.pmt with nodeCaches := .const (.const (pmNodeSetBlockPage 20 5)) } }

/-- The same, and the hot journal has no page left for data. -/
def pageLostJournalFull : FtlState :=
  { pageLost with
    rootTable := pageLost.rootTable.setJournal true (pmNodeSetBlockPage 7 (pagePerPhyBlock - 1)) }

theorem ubiRead_pageLostJournalFull :
    ubiRead 20 5 pageLostJournalFull = .ok (⟨.failure, none, none⟩, pageLostJournalFull) := by
  have hvalid : 20 ≠ invalidBlock ∧ 5 ≠ invalidPage := by decide
  have hinside : 20 < ubiCapacity := by decide
  rw [ubiRead_apply]
  unfold readPage
  rw [if_pos hvalid, if_pos hinside]
  rfl

/-- A tagged write over a page whose spare area is lost stops at its full journal. -/
theorem keepsError_full_journal :
    (VersionCall.write (some .zeros) true true false).KeepsError 1 (.success, some (20, 5))
      pageLostJournalFull := by
  have hsearch : pmtSearch 1 pageLostJournalFull =
      .ok ((.success, some (20, 5)), pageLostJournalFull) := rfl
  have hplace : (VersionCall.write (some .zeros) true true false).spareLocation 1
      pageLostJournalFull (20, 5) = some (20, 5) := rfl
  exact (VersionCall.keepsError_iff (Or.inl rfl)
    (.spare hsearch hplace ubiRead_pageLostJournalFull)).mpr ⟨rfl, by decide⟩

end

end RansomTag

import RansomTag.Ftl.Retention

/-!
# Space in the journals

A write that fills its journal must find a data block with stale pages and no
flag, or the journal stays full.  Tagged writes withdraw one block after the
other from the search, and nothing bounds them between two mounts.
-/

namespace RansomTag

open Program

section

variable [Platform]

/-! ## What a write is meant to find and to leave -/

/-- The search of `DATA_Reclaim` ends at a block that it may take. -/
def FindsFreeBlock (s : FtlState) (isHot : Bool) : Prop :=
  ∃ db, dataVictim s isHot = some db ∧ s.blockDirtyTable db < backupFlag ∧
    db ≠ pmNodeBlock (s.rootTable.journal !isHot) ∧ db ≠ pmNodeBlock s.rootTable.reclaimJournal

/-- `FTL_Write` has space in the journals: `DATA_Write` starts below the metadata
page and stays in the block, a reclaim finds a block that it may take, and
neither journal is full afterwards. -/
structure HasSpace (s : FtlState) (addr : Nat) (buffer : Option Buffer) (flag mft : Bool) :
    Prop where
  starts : StartsNonFull s addr
  stays : ∀ isHot t ret t', hdiIsHotPage addr s = .ok (isHot, t) →
    dataWrite addr buffer isHot flag mft t = .ok (ret, t') →
    pmNodeBlock (t'.rootTable.journal isHot) = pmNodeBlock (t.rootTable.journal isHot)
  reclaims : ∀ isHot t t', hdiIsHotPage addr s = .ok (isHot, t) →
    dataWrite addr buffer isHot flag mft t = .ok (.success, t') →
    dataIsFull t'.rootTable isHot = true → FindsFreeBlock t' isHot
  leaves : ∀ s', ftlWrite addr buffer flag mft s = .ok (.success, s') → s'.NonFull

/-- A condition on the writes; the other calls are about pages of the device. -/
def StoreCall.WritesWith
    (P : FtlState → Nat → Option Buffer → Bool → Bool → Prop) : StoreCall → FtlState → Prop
  | .write addr buffer flag mft, s => addr < ftlCapacity ∧ P s addr buffer flag mft
  | .trim _ last, _ => last < ftlCapacity
  | .flush, _ => True
  | .read addr _ _, _ => addr < ftlCapacity

/-- The calls of the interface under a condition on the writes. -/
def writesWith (P : FtlState → Nat → Option Buffer → Bool → Bool → Prop) :
    Commands FtlState Stop Status StoreCall Unit where
  exec := StoreCall.exec
  Allowed := StoreCall.WritesWith P
  model _ _ := ()

/-- The states of a mount after the format, with a condition on the writes. -/
abbrev RunWith (P : FtlState → Nat → Option Buffer → Bool → Bool → Prop) (s : FtlState) : Prop :=
  (writesWith P).Run (fun s _ => FirstMount s fun _ => none) s ()

/-- The states of a mount after the format. -/
abbrev AnyRun (s : FtlState) : Prop := RunWith (fun _ _ _ _ _ => True) s

/-! ## Runs with space -/

/-- The invariant, and no journal is full. -/
structure SpaceInv (s : FtlState) : Prop where
  inv : FtlInv s
  room : ∀ isHot, s.view.journalPage isHot < 63

variable {s s' t u : FtlState} {v v' : DataView} {isHot flag mft isBackup isBackup' : Bool}
  {addr start last link old old' n db : Nat} {buffer : Option Buffer} {data : Buffer}

omit [Platform] in
/-- What holds for a stream and for the other one. -/
theorem forall_stream {P : Bool → Prop} (isHot : Bool) :
    (∀ i, P i) ↔ P isHot ∧ P (!isHot) := by
  cases isHot <;> simp [Bool.forall_bool, and_comm]

theorem SpaceInv.starts (h : SpaceInv s) : StartsNonFull s addr :=
  startsNonFull_iff.mpr (h.room _)

theorem nonFull_iff : s.NonFull ↔ ∀ isHot, s.view.journalPage isHot < 63 := by
  unfold FtlState.NonFull
  simp [dataIsFull_eq, and_comm]

theorem FirstMount.space (h : FirstMount s fun _ => none) : SpaceInv s := by
  refine ⟨h.mounted.inv, fun isHot => ?_⟩
  rw [h.mounted.journals]
  decide

theorem SpaceInv.of_view (h : SpaceInv s) (hinv : FtlInv s') (api : ApiRam)
    (hview : s'.view = { s.view with api := api }) : SpaceInv s' := by
  refine ⟨hinv, fun isHot => ?_⟩
  rw [hview]
  exact h.room isHot

theorem SpaceInv.touched (h : SpaceInv s) : SpaceInv (s.touched addr) :=
  h.of_view h.inv.touched s.api FtlState.touched_same.1

/-! ### One page -/

omit [Platform] in
/-- Whether the old block is flagged does not depend on the unset local. -/
theorem DataView.OldVersion.newBackup_eq (h : v.OldVersion addr flag mft isBackup old)
    (h' : v.OldVersion addr flag mft isBackup' old') :
    newBackup isBackup mft old = newBackup isBackup' mft old' := by
  unfold DataView.OldVersion at h h'
  by_cases hmapped : v.mapping addr = invalidPmNode
  · rw [if_pos hmapped] at h h'
    rw [h, h']
    unfold newBackup
    split <;> split <;> rfl
  · rw [if_neg hmapped] at h h'
    obtain ⟨rfl, hold⟩ := h
    obtain ⟨rfl, hold'⟩ := h'
    by_cases hkept : isBackup' ∨ mft
    · rw [hold hkept, hold' hkept]
    · unfold newBackup
      rw [if_neg fun hno => hkept hno.1, if_neg fun hno => hkept hno.1]

omit [Platform] in
theorem DataView.journal_wroteFull_other {spare : Spare} :
    (v.wroteFull isHot data spare isBackup).journal (!isHot) = v.journal (!isHot) := by
  unfold DataView.wroteFull
  split <;> cases isHot <;> rfl

theorem DataView.journalBlock_wroteFull {spare : Spare} (h : DataInv v none)
    (hq : v.journalPage isHot < 63) :
    (v.wroteFull isHot data spare isBackup).journalBlock isHot = v.journalBlock isHot := by
  have hcap := Platform.ubiCapacity_le
  obtain ⟨hb, hb'⟩ := h.range isHot
  have hjournal : (v.wroteFull isHot data spare isBackup).journal isHot =
      pmNodeSetBlockPage (v.journalBlock isHot) (v.journalPage isHot + 1) := by
    unfold DataView.wroteFull
    split <;> cases isHot <;> rfl
  exact (congrArg pmNodeBlock hjournal).trans (pmNodeBlock_set (by omega) (by omega))

/-- Both journals after a write, before the reclaim. -/
theorem DataWritten.journals (h : DataWritten s t 63 isHot addr data link isBackup)
    (hs : SpaceInv s) : t.view.journalPage isHot = s.view.journalPage isHot + 1 ∧
      t.view.journalBlock isHot = s.view.journalBlock isHot ∧
      t.view.journal (!isHot) = s.view.journal (!isHot) := by
  obtain ⟨spare, _, _, hview⟩ := h.view
  rw [hview]
  exact ⟨DataView.journalPage_wroteFull hs.inv.data (hs.room isHot),
    DataView.journalBlock_wroteFull hs.inv.data (hs.room isHot),
    DataView.journal_wroteFull_other⟩

theorem DataWritten.canReclaim_iff (h : DataWritten s t 63 isHot addr data link isBackup) :
    t.view.CanReclaim isHot ↔ (s.view.update addr
      (pmNodeSetBlockPage (s.view.journalBlock isHot) (s.view.journalPage isHot))
        isBackup).CanReclaim isHot := by
  obtain ⟨spare, rfl, _, hview⟩ := h.view
  rw [hview]
  unfold DataView.wroteFull
  split <;> cases isHot <;> exact Iff.rfl

theorem SpaceInv.dataWrite (h : SpaceInv s) (haddr : addr < ftlCapacity) (data : Buffer)
    (flag mft : Bool) : ∃ t isBackup old,
      dataWrite addr (some data) (s.isHot addr) flag mft (s.touched addr) = .ok (.success, t) ∧
      s.view.OldVersion addr flag mft isBackup old ∧
      DataWritten (s.touched addr) t 63 (s.isHot addr) addr data (newLink isBackup mft old)
        (newBackup isBackup mft old) := by
  have hview : (s.touched addr).view = s.view := FtlState.touched_same.1
  have hwrite : wp (RansomTag.dataWrite addr (some data) (s.isHot addr) flag mft) _
      (fun _ => False) (s.touched addr) :=
    dataWrite_spec (h.inv.touched.base.complete 64) h.inv.touched.data haddr (h.touched.room _)
  obtain ⟨_, t, hok, rfl, isBackup, old, hold, hwritten⟩ := exists_ok_of_wp hwrite
  rw [hview] at hold
  exact ⟨t, isBackup, old, hok, hold, hwritten⟩

/-- What `FTL_Write` still has to do after `DATA_Write`. -/
theorem ftlWrite_after
    (h : RansomTag.dataWrite addr buffer (s.isHot addr) flag mft (s.touched addr) =
      .ok (.success, t)) :
    ftlWrite addr buffer flag mft s =
      if dataIsFull t.rootTable (s.isHot addr) then
        (do
          let ret ← dataReclaim (s.isHot addr)
          if ret = Status.success then dataCommit else pure ret) t
      else .ok (.success, t) := by
  have hget : (get : Ftl FtlState) t = .ok (t, t) := rfl
  unfold ftlWrite
  rw [bind_of_ok hdiIsHotPage_eq]
  unfold ftlWriteStream
  rw [bind_of_ok h, if_pos rfl, bind_of_ok hget]
  split <;> rfl

/-! ### The victim -/

/-- The search ends in any case; what it must not find is the reclaim block. -/
theorem findsFreeBlock_iff (hd : DataInv t.view (some isHot)) :
    FindsFreeBlock t isHot ↔ dataVictim t isHot ≠ some t.view.reclaimBlock := by
  constructor
  · rintro ⟨db, hvictim, _, _, hne⟩ hself
    rw [hvictim] at hself
    exact hne (Option.some.inj hself)
  · intro hno
    obtain ⟨i, hvictim, hi, _, hother, hle, _⟩ := dataVictim_ends hd
    refine ⟨i, hvictim, ?_, hother, fun hself => ?_⟩
    · rw [blockDirtyTable_eq hi]
      simp only [backupFlag]
      omega
    · rw [hself] at hvictim
      exact hno hvictim

theorem findsFreeBlock_of_canReclaim (hd : DataInv t.view (some isHot))
    (hcan : t.view.CanReclaim isHot) : FindsFreeBlock t isHot := by
  rw [findsFreeBlock_iff hd]
  intro hself
  obtain ⟨i, hvictim, _, _, _, _, hstale⟩ := dataVictim_ends hd
  rw [hvictim] at hself
  have hpos := hstale hcan
  rw [Option.some.inj hself, hd.reclaim_clean] at hpos
  omega

/-- A reclaim that leaves room in the journal found a block with stale pages. -/
theorem ReclaimDone.canReclaim_iff (h : ReclaimDone t u isHot) :
    t.view.CanReclaim isHot ↔ u.view.journalPage isHot < 63 := by
  obtain ⟨db, hmoved, hstale⟩ := h.moved
  have hvictim := hmoved.victim
  rw [hmoved.room]
  constructor
  · intro hcan
    have hpos := hstale hcan
    omega
  · intro hroom
    refine ⟨db, hmoved.range.1, hmoved.range.2, ?_, by omega, hvictim⟩
    rintro rfl
    have hclosed := hmoved.closed
    unfold DataView.opened at hclosed
    split at hclosed
    · exact nomatch hclosed
    · cases isHot <;> simp at hclosed

/-! ### The whole write -/

/-- A write that does not fill its journal. -/
theorem SpaceInv.written (h : SpaceInv s) (haddr : addr < ftlCapacity)
    (hw : DataWritten (s.touched addr) t 63 (s.isHot addr) addr data link isBackup)
    (hfull : s.view.journalPage (s.isHot addr) + 1 ≠ 63) : SpaceInv t := by
  have hview : (s.touched addr).view = s.view := FtlState.touched_same.1
  obtain ⟨hself, _, hother⟩ := hw.journals h.touched
  have hinv := hw.inv h.inv.touched.data haddr (h.touched.room _)
  rw [hview] at hself hother hinv
  unfold DataView.shutBy at hinv
  rw [if_neg hfull] at hinv
  refine ⟨⟨hw.ok, hinv⟩, (forall_stream (s.isHot addr)).mpr ⟨?_, ?_⟩⟩
  · have hroom := h.room (s.isHot addr)
    omega
  · have hroom := h.room (!s.isHot addr)
    unfold DataView.journalPage at hroom ⊢
    rw [hother]
    exact hroom

/-- A write that fills its journal closes it. -/
theorem SpaceInv.filled (h : SpaceInv s) (haddr : addr < ftlCapacity)
    (hw : DataWritten (s.touched addr) t 63 (s.isHot addr) addr data link isBackup)
    (hfull : s.view.journalPage (s.isHot addr) + 1 = 63) :
    DataInv t.view (some (s.isHot addr)) := by
  have hview : (s.touched addr).view = s.view := FtlState.touched_same.1
  have hinv := hw.inv h.inv.touched.data haddr (h.touched.room _)
  rw [hview] at hinv
  unfold DataView.shutBy at hinv
  rwa [if_pos hfull] at hinv

/-- The reclaim and the commit after such a write, if the search finds a block. -/
theorem SpaceInv.reclaimed (h : SpaceInv s) (haddr : addr < ftlCapacity)
    (hrun : RansomTag.dataWrite addr (some data) (s.isHot addr) flag mft (s.touched addr) =
      .ok (.success, t))
    (hw : DataWritten (s.touched addr) t 63 (s.isHot addr) addr data link isBackup)
    (hfull : s.view.journalPage (s.isHot addr) + 1 = 63)
    (hfinds : FindsFreeBlock t (s.isHot addr)) :
    ∃ u s', ReclaimDone t u (s.isHot addr) ∧ DataCommitted u s' 63 ∧
      ftlWrite addr (some data) flag mft s = .ok (.success, s') := by
  have hinv := h.filled haddr hw hfull
  have hview : (s.touched addr).view = s.view := FtlState.touched_same.1
  obtain ⟨hself, _, _⟩ := hw.journals h.touched
  rw [hview, hfull] at hself
  have hno : dataVictim t (s.isHot addr) ≠ some t.view.reclaimBlock :=
    (findsFreeBlock_iff hinv).mp hfinds
  have hreclaim : wp (dataReclaim (s.isHot addr)) _ (fun _ => False) t :=
    dataReclaim_ends hw.ok hinv fun hyes => absurd hyes hno
  obtain ⟨_, u, hu, rfl, hdone⟩ := exists_ok_of_wp hreclaim
  have hcommit : wp dataCommit _ (fun _ => False) u := dataCommit_spec hdone.ok
  obtain ⟨_, s', hs', rfl, hcommitted⟩ := exists_ok_of_wp hcommit
  refine ⟨u, s', hdone, hcommitted, ?_⟩
  rw [ftlWrite_after hrun, dataIsFull_eq, hself, if_pos (by decide), bind_of_ok hu, if_pos rfl]
  exact hs'

theorem SpaceInv.committed (h : SpaceInv s)
    (hw : DataWritten (s.touched addr) t 63 (s.isHot addr) addr data link isBackup)
    (hu : ReclaimDone t u (s.isHot addr)) (hs' : DataCommitted u s' 63) :
    (∀ i, s'.view.journalPage i < 63) ↔ t.view.CanReclaim (s.isHot addr) := by
  have hview : (s.touched addr).view = s.view := FtlState.touched_same.1
  obtain ⟨_, _, hother⟩ := hw.journals h.touched
  obtain ⟨db, hmoved, _⟩ := hu.moved
  have hroom := h.room (!s.isHot addr)
  have hkept : u.view.journalPage (!s.isHot addr) < 63 := by
    rw [hview] at hother
    unfold DataView.journalPage at hroom ⊢
    rw [hmoved.other, hother]
    exact hroom
  rw [hs'.view hu.ok.tables hu.ok.pmt, hu.canReclaim_iff, forall_stream (s.isHot addr)]
  exact and_iff_left hkept

theorem SpaceInv.trims (h : SpaceInv s) (haddr : addr < ftlCapacity) (flag mft : Bool) :
    ∃ t isBackup, RansomTag.dataWrite addr none (s.isHot addr) flag mft (s.touched addr) =
      .ok (.success, t) ∧ DataTrimmed (s.touched addr) t 63 addr isBackup ∧ SpaceInv t := by
  have htrim : wp (RansomTag.dataWrite addr none (s.isHot addr) flag mft) _ (fun _ => False)
      (s.touched addr) :=
    dataTrim_spec (h.inv.touched.base.complete 64) h.inv.touched.data haddr
  obtain ⟨_, t, hok, rfl, isBackup, _, _, htrimmed⟩ := exists_ok_of_wp htrim
  refine ⟨t, isBackup, hok, htrimmed, ⟨htrimmed.ok, ?_⟩, fun i => ?_⟩
  · rw [htrimmed.view]
    exact h.inv.touched.data.trimmed haddr
  · rw [htrimmed.view]
    exact h.touched.room i

/-- A write has space if its `DATA_Write` stays in the block, what it fills can be
reclaimed, and no journal stays full. -/
theorem SpaceInv.hasSpace (h : SpaceInv s)
    (hok : RansomTag.dataWrite addr buffer (s.isHot addr) flag mft (s.touched addr) =
      .ok (.success, t))
    (hblock : t.view.journalBlock (s.isHot addr) = (s.touched addr).view.journalBlock (s.isHot addr))
    (hfinds : dataIsFull t.rootTable (s.isHot addr) = true → FindsFreeBlock t (s.isHot addr))
    (hleaves : ∀ s', ftlWrite addr buffer flag mft s = .ok (.success, s') → s'.NonFull) :
    HasSpace s addr buffer flag mft := by
  have hhot : ∀ isHot u, hdiIsHotPage addr s = .ok (isHot, u) →
      isHot = s.isHot addr ∧ u = s.touched addr := by
    intro isHot u hrun
    rw [hdiIsHotPage_eq] at hrun
    obtain ⟨hisHot, hu⟩ : s.isHot addr = isHot ∧ s.touched addr = u := by simpa using hrun
    exact ⟨hisHot.symm, hu.symm⟩
  refine ⟨h.starts, ?_, ?_, hleaves⟩
  · intro isHot u ret t' hrun hwrite
    obtain ⟨rfl, rfl⟩ := hhot isHot u hrun
    rw [hok] at hwrite
    obtain ⟨_, rfl⟩ : Status.success = ret ∧ t = t' := by simpa using hwrite
    exact hblock
  · intro isHot u t' hrun hwrite
    obtain ⟨rfl, rfl⟩ := hhot isHot u hrun
    rw [hok] at hwrite
    obtain rfl : t = t' := by simpa using hwrite
    exact hfinds

theorem SpaceInv.hasSpace_trim (h : SpaceInv s) (haddr : addr < ftlCapacity) :
    HasSpace s addr none flag mft := by
  obtain ⟨t, isBackup, hok, htrimmed, ht⟩ := h.trims haddr flag mft
  have hfull : dataIsFull t.rootTable (s.isHot addr) = false := by
    rw [dataIsFull_eq]
    simp [ht.room _]
  refine h.hasSpace hok ?_ ?_ ?_
  · rw [htrimmed.view]
    rfl
  · intro hyes
    rw [hfull] at hyes
    exact nomatch hyes
  · intro s' hrun
    rw [ftlWrite_after hok, hfull, if_neg (by simp)] at hrun
    obtain rfl : t = s' := by simpa using hrun
    exact nonFull_iff.mpr ht.room

theorem SpaceInv.hasSpace_write (h : SpaceInv s) (haddr : addr < ftlCapacity) :
    HasSpace s addr (some data) flag mft ↔ FindsVictim s addr (some data) flag mft := by
  have hview : (s.touched addr).view = s.view := FtlState.touched_same.1
  obtain ⟨t, isBackup, old, hok, hold, hw⟩ := h.dataWrite haddr data flag mft
  obtain ⟨hself, hblock, _⟩ := hw.journals h.touched
  have hcan := hw.canReclaim_iff
  rw [hview] at hself hcan
  constructor
  · intro hspace isBackup' old' _ hold' hfull
    rw [hold'.newBackup_eq hold, ← hcan]
    have hyes : dataIsFull t.rootTable (s.isHot addr) = true := by
      rw [dataIsFull_eq, hself, hfull]
      decide
    have hfinds := hspace.reclaims _ _ _ hdiIsHotPage_eq hok hyes
    obtain ⟨u, s', hu, hs', hwrite⟩ := h.reclaimed haddr hok hw hfull hfinds
    exact (h.committed hw hu hs').mp (nonFull_iff.mp (hspace.leaves s' hwrite))
  · intro hvictim
    have hvictim' := hvictim isBackup old (by simp) hold
    by_cases hfull : s.view.journalPage (s.isHot addr) + 1 = 63
    · have hyes := hcan.mpr (hvictim' hfull)
      have hfinds := findsFreeBlock_of_canReclaim (h.filled haddr hw hfull) hyes
      obtain ⟨u, s'', hu, hs'', hwrite⟩ := h.reclaimed haddr hok hw hfull hfinds
      refine h.hasSpace hok hblock (fun _ => hfinds) fun s' hrun => ?_
      rw [hwrite] at hrun
      obtain rfl : s'' = s' := by simpa using hrun
      exact nonFull_iff.mpr ((h.committed hw hu hs'').mpr hyes)
    · have ht := h.written haddr hw hfull
      have hno : dataIsFull t.rootTable (s.isHot addr) = false := by
        rw [dataIsFull_eq]
        simp [ht.room _]
      refine h.hasSpace hok hblock (fun hyes => ?_) fun s' hrun => ?_
      · rw [hno] at hyes
        exact nomatch hyes
      · rw [ftlWrite_after hok, hno, if_neg (by simp)] at hrun
        obtain rfl : t = s' := by simpa using hrun
        exact nonFull_iff.mpr ht.room

theorem SpaceInv.hasSpace_iff (h : SpaceInv s) (haddr : addr < ftlCapacity) :
    HasSpace s addr buffer flag mft ↔ FindsVictim s addr buffer flag mft := by
  cases buffer with
  | none => exact iff_of_true (h.hasSpace_trim haddr) findsVictim_trim
  | some data => exact h.hasSpace_write haddr

/-! ### Every call -/

theorem SpaceInv.write (h : SpaceInv s) (haddr : addr < ftlCapacity)
    (hvictim : FindsVictim s addr buffer flag mft) :
    wp (ftlWrite addr buffer flag mft) (fun ret s' => ret = .success ∧ SpaceInv s')
      (fun _ => False) s := by
  have hwrite : wp (ftlWrite addr buffer flag mft) _ (fun _ => False) s :=
    ftlWrite_spec h.inv haddr h.starts fun hno => absurd hvictim hno
  obtain ⟨_, s', hok, rfl, hwritten⟩ := exists_ok_of_wp hwrite
  rw [wp_iff_of_ok hok]
  have hleaves := ((h.hasSpace_iff haddr).mpr hvictim).leaves s' hok
  exact ⟨rfl, hwritten.inv h.inv haddr h.starts, nonFull_iff.mp hleaves⟩

theorem SpaceInv.trim (h : SpaceInv s) (hrange : n = 0 ∨ start + n ≤ ftlCapacity) :
    wp (ftlTrimFrom n start) (fun _ s' => SpaceInv s') (fun _ => False) s := by
  induction n generalizing start s with
  | zero => exact h
  | succ n ih =>
      unfold ftlTrimFrom
      rw [wp_bind]
      refine wp_mono_post (h.write (by omega) findsVictim_trim) ?_
      rintro _ t ⟨rfl, ht⟩
      rw [if_pos rfl]
      exact ih ht (by omega)

/-- One case for each call. -/
theorem writesWith_keeps : (writesWith FindsVictim).Keeps fun s _ => SpaceInv s := by
  intro c s _ h hallowed
  cases c with
  | write addr buffer flag mft =>
      exact wp_mono (h.write hallowed.1 hallowed.2) (fun _ _ ht => ht.2) fun _ _ => trivial
  | trim start last =>
      have hlast : last < ftlCapacity := hallowed
      exact wp_mono (h.trim (by omega)) (fun _ _ ht => ht) fun _ _ => trivial
  | flush =>
      refine wp_mono_post (ftlFlush_spec h.inv.base) ?_
      rintro _ s' ⟨_, hcommit⟩
      exact h.of_view (hcommit.inv h.inv) s.api (hcommit.view h.inv.base.tables h.inv.base.pmt)
  | read addr flag mft =>
      change wp (StoreCall.read addr flag mft).exec _ _ _
      unfold StoreCall.exec
      rw [wp_bind]
      refine wp_mono_post (ftlRead_any h.inv.base hallowed) ?_
      intro _ s' hdone
      exact h.of_view (hdone.inv h.inv) s'.api (hdone.view h.inv.base)

theorem RunWith.write {P : FtlState → Nat → Option Buffer → Bool → Bool → Prop} {ret : Status}
    (h : RunWith P s) (haddr : addr < ftlCapacity) (hP : P s addr buffer flag mft)
    (hrun : ftlWrite addr buffer flag mft s = .ok (ret, s')) : RunWith P s' := by
  have hallowed : (writesWith P).Allowed (.write addr buffer flag mft) s := ⟨haddr, hP⟩
  exact .step h hallowed hrun

theorem RunWith.space (h : RunWith FindsVictim s) : SpaceInv s :=
  h.keeps (fun _ _ hstart => hstart.space) writesWith_keeps

/-- As long as each write that filled its journal left an unflagged block with
stale pages besides the other journal, a write has space exactly if it does. -/
theorem ftlWrite_hasSpace_iff (h : RunWith FindsVictim s) (haddr : addr < ftlCapacity) :
    HasSpace s addr buffer flag mft ↔ FindsVictim s addr buffer flag mft :=
  (RunWith.space h).hasSpace_iff haddr

theorem findsVictim_of_room (h : s.view.journalPage (s.isHot addr) + 1 ≠ 63) :
    FindsVictim s addr buffer flag mft :=
  fun _ _ _ _ hfull => absurd hfull h

/-- The write itself leaves the count of the block as it is. -/
theorem findsVictim_of_block (hdb : dataStartBlock ≤ db) (hdb' : db < ubiCapacity)
    (hother : db ≠ s.view.journalBlock (!s.isHot addr))
    (hold : db ≠ pmNodeBlock (s.view.mapping addr)) (hstale : 0 < s.view.dirty db)
    (hfree : s.view.dirty db ≤ maxDirtyPages) : FindsVictim s addr buffer flag mft := by
  intro isBackup old _ _ _
  have hcount : ∀ w isBackup, (s.view.update addr w isBackup).dirty db = s.view.dirty db :=
    fun w isBackup => if_neg fun h => hold h.2
  refine ⟨db, hdb, hdb', hother, ?_, ?_⟩
  · rw [hcount]
    exact hstale
  · rw [hcount]
    exact hfree

/-- The state after `n` tagged writes of page 0, where none of them fills its journal. -/
def FtlState.afterTagged : Nat → FtlState → Option FtlState
  | 0, s => some s
  | n + 1, s =>
      if s.view.journalPage (s.isHot 0) + 1 ≠ 63 ∧ 0 < ftlCapacity then
        (ftlSucceeded (ftlWrite 0 (some .zeros) true false s)).bind (afterTagged n)
      else none

theorem RunWith.afterTagged (h : RunWith FindsVictim s) (hafter : s.afterTagged n = some s') :
    RunWith FindsVictim s' := by
  induction n generalizing s with
  | zero =>
      cases hafter
      exact h
  | succ n ih =>
      obtain ⟨⟨hroom, haddr⟩, hrest⟩ := Option.ite_none_right_eq_some.mp hafter
      obtain ⟨t, hwrite, hafter⟩ := Option.bind_eq_some_iff.mp hrest
      exact ih (RunWith.write h haddr (findsVictim_of_room hroom) (ftlSucceeded_eq_some hwrite))
        hafter

end

section

attribute [local instance] k9wag08

/-- The device after 86 tagged writes of its first page, 62 of them to the hot journal. -/
def ftlJournalFills : Option FtlState := ftlFirstMount.bind (FtlState.afterTagged 86)

theorem ftlJournalFills_victim : ∃ s, ftlJournalFills = some s ∧
    s.view.journalPage (s.isHot 0) + 1 = 63 ∧ 300 ≠ s.view.journalBlock (!s.isHot 0) ∧
      300 ≠ pmNodeBlock (s.view.mapping 0) ∧ s.view.dirty 300 = 63 := by
  have hfills : (ftlJournalFills.any fun s =>
      decide (s.view.journalPage (s.isHot 0) + 1 = 63 ∧ 300 ≠ s.view.journalBlock (!s.isHot 0) ∧
        300 ≠ pmNodeBlock (s.view.mapping 0) ∧ s.view.dirty 300 = 63)) = true := by
    decide +kernel
  obtain ⟨s, hs, hfacts⟩ := (Option.any_eq_true _ _).mp hfills
  exact ⟨s, hs, of_decide_eq_true hfacts⟩

/-- The next tagged write fills the hot journal, and its reclaim finds a block. -/
theorem ftlWrite_hasSpace_reclaim : ∃ s, ftlJournalFills = some s ∧
    s.view.journalPage (s.isHot 0) + 1 = 63 ∧ HasSpace s 0 (some .zeros) true false := by
  have haddr : 0 < ftlCapacity := by decide
  obtain ⟨s, hs, hfills, hother, hold, hstale⟩ := ftlJournalFills_victim
  obtain ⟨s₀, hstart, hafter⟩ := Option.bind_eq_some_iff.mp hs
  have hrun : RunWith FindsVictim s := RunWith.afterTagged (.start (ftlFirstMount_start hstart)) hafter
  have hvictim : FindsVictim s 0 (some .zeros) true false :=
    findsVictim_of_block (by decide) (by decide) hother hold (by omega) (by rw [hstale])
  exact ⟨s, hs, hfills, (ftlWrite_hasSpace_iff hrun haddr).mpr hvictim⟩

end

section

variable [Platform] {s s' t u : FtlState} {v v' : DataView} {isHot flag mft isBackup : Bool}
  {addr link old : Nat} {data : Buffer}

/-! ## Tagged writes of one page -/

/-- The data blocks that the flags and the journals leave to the reclaim. -/
def DataView.freeBlocks (v : DataView) : Finset ℕ :=
  (Finset.range ubiCapacity).filter fun b =>
    dataStartBlock ≤ b ∧ v.dirty b < backupFlag ∧ b ≠ v.journalBlock true ∧
      b ≠ v.journalBlock false

/-- A bound on the tagged writes of one page that still find space. -/
def DataView.writesLeft (v : DataView) : Nat :=
  64 * v.freeBlocks.card + (63 - v.journalPage true) + (63 - v.journalPage false)

/-- Only page `addr` is mapped, and each journal with a page in it is flagged, or
will be with the next tagged write. -/
structure OneTagged (s : FtlState) (addr : Nat) : Prop where
  space : SpaceInv s
  link : ∃ data link, s.view.entry addr = some (data, link) ∧
    (link = invalidPmNode ∨ pmNodeBlock link ≤ 2048)
  others : ∀ a, a < ftlCapacity → a ≠ addr → s.view.entry a = none
  journals : ∀ i, s.view.journalPage i = 0 ∨ backupFlag ≤ s.view.dirty (s.view.journalBlock i) ∨
    pmNodeBlock (s.view.mapping addr) = s.view.journalBlock i

theorem mem_freeBlocks {b : Nat} : b ∈ v.freeBlocks ↔ dataStartBlock ≤ b ∧ b < ubiCapacity ∧
    v.dirty b < backupFlag ∧ ∀ i, b ≠ v.journalBlock i := by
  unfold DataView.freeBlocks
  rw [Finset.mem_filter, Finset.mem_range, Bool.forall_bool]
  tauto

omit [Platform] in
theorem newLink_bounded : newLink isBackup mft old = invalidPmNode ∨
    pmNodeBlock (newLink isBackup mft old) ≤ 2048 := by
  unfold newLink
  split
  · split
    · exact .inl rfl
    · exact .inr (by omega)
  · exact .inl rfl

omit [Platform] in
theorem DataView.mapping_wroteFull {spare : Spare} :
    (v.wroteFull isHot data spare isBackup).mapping spare.w0 =
      pmNodeSetBlockPage (v.journalBlock isHot) (v.journalPage isHot) := by
  unfold DataView.wroteFull
  split <;> cases isHot <;> simp [DataView.wrote, DataView.closed, DataView.program,
    DataView.setMeta, DataView.setJournal, DataView.update, DataView.journalBlock,
    DataView.journalPage, DataView.journal]

/-- The page is mapped to the journal that it was written to. -/
theorem DataWritten.mapping_block (h : DataWritten s t 63 isHot addr data link isBackup)
    (hs : SpaceInv s) : pmNodeBlock (t.view.mapping addr) = s.view.journalBlock isHot := by
  have hcap := Platform.ubiCapacity_le
  have hroom := hs.room isHot
  obtain ⟨hb, hb'⟩ := hs.inv.data.range isHot
  obtain ⟨spare, rfl, _, hview⟩ := h.view
  rw [hview, DataView.mapping_wroteFull]
  exact pmNodeBlock_set (by omega) (by omega)

/-- The tagged write of the page flags the block of its old version. -/
theorem OneTagged.backup (h : OneTagged s addr) (haddr : addr < ftlCapacity)
    (hold : s.view.OldVersion addr true false isBackup old) :
    newBackup isBackup false old = true ∧ s.view.mapping addr ≠ invalidPmNode := by
  have hcap := Platform.ubiCapacity_le
  obtain ⟨data, link, hentry, hlink⟩ := h.link
  have hmapped : s.view.mapping addr ≠ invalidPmNode := by
    intro hno
    rw [(DataView.entry_eq_none h.space.inv.data.core haddr).mpr hno] at hentry
    exact nomatch hentry
  obtain ⟨_, _, hb', _, data', spare', hprog, _⟩ :=
    h.space.inv.data.core.mapped_word haddr hmapped
  obtain rfl : spare'.w2 = link := by
    unfold DataView.entry at hentry
    rw [if_neg hmapped, hprog] at hentry
    exact (by simpa using hentry : _ ∧ _).2
  unfold DataView.OldVersion at hold
  rw [if_neg hmapped] at hold
  obtain ⟨rfl, hlinked⟩ := hold
  have hsmall : pmNodeBlock old ≤ 2048 := by
    rw [hlinked (.inl rfl)]
    unfold DataView.oldLink
    rw [hprog]
    dsimp only
    split
    · next hkept => exact hlink.resolve_left hkept.2
    · omega
  unfold newBackup
  rw [if_neg (by omega)]
  exact ⟨rfl, hmapped⟩

/-- The journals that a tagged write leaves are flagged, but for an empty one and
the one that it wrote to. -/
theorem OneTagged.flagged (h : OneTagged s addr)
    (hw : DataWritten s t 63 isHot addr data link true)
    (hmapped : s.view.mapping addr ≠ invalidPmNode) (i : Bool)
    (hpage : s.view.journalPage i ≠ 0) : backupFlag ≤ t.view.dirty (s.view.journalBlock i) := by
  obtain ⟨spare, rfl, _, hview⟩ := hw.view
  obtain ⟨hb, hb'⟩ := h.space.inv.data.range i
  rw [hview, DataView.dirty_wroteFull]
  apply h.space.inv.data.core.update_flag hb hb'
  rcases h.journals i with hzero | hflag | hblock
  · exact absurd hzero hpage
  · exact .inl hflag
  · exact .inr ⟨rfl, hmapped, hblock.symm⟩

theorem DataView.writesLeft_eq (v : DataView) (isHot : Bool) : v.writesLeft =
    64 * v.freeBlocks.card + (63 - v.journalPage isHot) + (63 - v.journalPage (!isHot)) := by
  unfold DataView.writesLeft
  cases isHot
  · rw [Bool.not_false]
    omega
  · rfl

/-- A step that keeps the flags and the journals withdraws no block. -/
theorem freeBlocks_subset (hkeep : KeepsFlagged v v') (hjournals : ∀ i b, b ∈ v'.freeBlocks →
    b ≠ v.journalBlock i) : v'.freeBlocks ⊆ v.freeBlocks := by
  intro b hb
  obtain ⟨hlow, hhigh, hfree, _⟩ := mem_freeBlocks.mp hb
  refine mem_freeBlocks.mpr ⟨hlow, hhigh, ?_, fun i => hjournals i b hb⟩
  by_contra hflag
  have hkept := (hkeep b hlow hhigh (by omega)).1
  omega

/-- The reclaim gives the stream a block without a flag. -/
theorem ReclaimDone.journal_unflagged (hu : ReclaimDone t u isHot)
    (hinv : DataInv t.view (some isHot)) :
    t.view.dirty (u.view.journalBlock isHot) < backupFlag := by
  obtain ⟨db, hmoved, _⟩ := hu.moved
  obtain ⟨hb, hb'⟩ := hu.inv.range isHot
  have hapart : u.view.journalBlock isHot ≠ t.view.journalBlock (!isHot) := by
    have hother : t.view.journalBlock (!isHot) = u.view.journalBlock (!isHot) :=
      (congrArg pmNodeBlock hmoved.other).symm
    rw [hother]
    exact hu.inv.apart_not isHot
  by_contra hflag
  have hflag' : backupFlag ≤ t.view.dirty (u.view.journalBlock isHot) := by omega
  have hclosed : t.view.opened (some isHot) (u.view.journalBlock isHot) = none := by
    unfold DataView.opened
    rw [if_neg]
    · cases isHot
      · rw [if_neg fun hyes => hapart hyes.2, if_neg (by simp)]
      · rw [if_neg (by simp), if_neg fun hyes => hapart hyes.2]
    · intro hself
      rw [hself, hinv.reclaim_clean] at hflag'
      exact absurd hflag' (by decide)
  -- a closed block keeps its last page, and that of a journal is erased
  obtain ⟨table, spare, hlast, _⟩ := hinv.core.closed _ hb hb' hclosed (by
    simp only [backupFlag] at hflag'
    omega)
  have hkept := (hmoved.keepsFlagged hinv.reclaim_clean _ hb hb' hflag').2 _ _ _ hlast
  have hopen := hu.inv.opened_journal isHot (by simp)
  obtain ⟨_, _, hpage⟩ := hu.inv.core.range _ _ hopen
  rw [hu.inv.core.free _ _ hopen 63 hpage (by decide)] at hkept
  exact nomatch hkept

/-- What `DATA_Write` leaves of the journals and the flags. -/
structure TaggedWrite (s t : FtlState) (isHot : Bool) (addr : Nat) : Prop where
  block : t.view.journalBlock isHot = s.view.journalBlock isHot
  page : t.view.journalPage isHot = s.view.journalPage isHot + 1
  otherBlock : t.view.journalBlock (!isHot) = s.view.journalBlock (!isHot)
  otherPage : t.view.journalPage (!isHot) = s.view.journalPage (!isHot)
  mapping : pmNodeBlock (t.view.mapping addr) = s.view.journalBlock isHot
  keeps : KeepsFlagged s.view t.view
  flagged : ∀ i, s.view.journalPage i = 0 ∨ backupFlag ≤ t.view.dirty (s.view.journalBlock i)

theorem OneTagged.taggedWrite (h : OneTagged s addr)
    (hw : DataWritten s t 63 isHot addr data link true)
    (hmapped : s.view.mapping addr ≠ invalidPmNode) : TaggedWrite s t isHot addr := by
  obtain ⟨hpage, hblock, hother⟩ := hw.journals h.space
  have hflagged : ∀ i, s.view.journalPage i = 0 ∨
      backupFlag ≤ t.view.dirty (s.view.journalBlock i) := by
    intro i
    by_cases hzero : s.view.journalPage i = 0
    · exact .inl hzero
    · exact .inr (h.flagged hw hmapped i hzero)
  obtain ⟨spare, _, _, hview⟩ := hw.view
  refine ⟨hblock, hpage, congrArg pmNodeBlock hother, congrArg pmNodePage hother,
    hw.mapping_block h.space, ?_, hflagged⟩
  rw [hview]
  exact h.space.inv.data.keepsFlagged_wroteFull (h.space.room isHot)

namespace TaggedWrite

/-- Without a reclaim one page of the journal is gone. -/
theorem journals (h : TaggedWrite s t isHot addr) (i : Bool) : t.view.journalPage i = 0 ∨
    backupFlag ≤ t.view.dirty (t.view.journalBlock i) ∨
      pmNodeBlock (t.view.mapping addr) = t.view.journalBlock i := by
  revert i
  refine (forall_stream isHot).mpr ⟨?_, ?_⟩
  · rw [h.block]
    exact .inr (.inr h.mapping)
  · rw [h.otherPage, h.otherBlock]
    exact (h.flagged _).imp_right .inl

theorem writesLeft (h : TaggedWrite s t isHot addr) (hroom : s.view.journalPage isHot < 63) :
    t.view.writesLeft < s.view.writesLeft := by
  have hsubset : t.view.freeBlocks ⊆ s.view.freeBlocks := by
    refine freeBlocks_subset h.keeps ((forall_stream isHot).mpr ⟨?_, ?_⟩)
    · rw [← h.block]
      exact fun b hb => (mem_freeBlocks.mp hb).2.2.2 isHot
    · rw [← h.otherBlock]
      exact fun b hb => (mem_freeBlocks.mp hb).2.2.2 (!isHot)
  have hcard := Finset.card_le_card hsubset
  rw [t.view.writesLeft_eq isHot, s.view.writesLeft_eq isHot, h.page, h.otherPage]
  omega

/-- A reclaim finds a block without a live page, and the new journal is empty. -/
theorem room_reclaimed (h : TaggedWrite s t isHot addr)
    (hfull : s.view.journalPage isHot + 1 = 63) (hinv : DataInv t.view (some isHot))
    (hothers : ∀ a, a < ftlCapacity → a ≠ addr → t.view.entry a = none)
    (hu : ReclaimDone t u isHot) : u.view.journalPage isHot = 0 := by
  have hcap := Platform.ubiCapacity_le
  obtain ⟨db, hmoved, _⟩ := hu.moved
  obtain ⟨hb, hb'⟩ := hmoved.range
  have hvictim := hmoved.victim
  have hlive : t.view.live db = 0 := by
    refine Occupancy.eq_zero_iff.mpr fun a ha hself => ?_
    by_cases haa : a = addr
    · -- the journal of the page is flagged
      rw [haa, h.mapping] at hself
      rcases h.flagged isHot with hzero | hflag
      · omega
      · rw [hself] at hflag
        simp only [backupFlag] at hflag
        omega
    · rw [(DataView.entry_eq_none hinv.core ha).mp (hothers a ha haa), pmNodeBlock_invalid] at hself
      omega
  have hcount := hinv.core.count db hb hb' (by
    simp only [backupFlag]
    omega)
  rw [hmoved.closed, hlive] at hcount
  rw [hmoved.room]
  simp only [Option.getD_none] at hcount
  omega

theorem other_reclaimed (h : TaggedWrite s t isHot addr) (hinv : DataInv t.view (some isHot))
    (hu : ReclaimDone t u isHot) : u.view.journalPage (!isHot) = 0 ∨
      backupFlag ≤ u.view.dirty (u.view.journalBlock (!isHot)) := by
  obtain ⟨db, hmoved, _⟩ := hu.moved
  obtain ⟨hb, hb'⟩ := hu.inv.range (!isHot)
  have hblock : u.view.journalBlock (!isHot) = s.view.journalBlock (!isHot) :=
    (congrArg pmNodeBlock hmoved.other).trans h.otherBlock
  have hpage : u.view.journalPage (!isHot) = s.view.journalPage (!isHot) :=
    (congrArg pmNodePage hmoved.other).trans h.otherPage
  rw [hblock] at hb hb'
  rw [hblock, hpage]
  refine (h.flagged _).imp_right fun hflag => ?_
  exact (hmoved.keepsFlagged hinv.reclaim_clean _ hb hb' hflag).1

/-- The reclaim takes one block away from those that are left. -/
theorem writesLeft_reclaimed (h : TaggedWrite s t isHot addr)
    (hfull : s.view.journalPage isHot + 1 = 63) (hinv : DataInv t.view (some isHot))
    (hu : ReclaimDone t u isHot) : u.view.writesLeft < s.view.writesLeft := by
  obtain ⟨db, hmoved, _⟩ := hu.moved
  obtain ⟨hb, hb'⟩ := hu.inv.range isHot
  have hkeep : KeepsFlagged t.view u.view := hmoved.keepsFlagged hinv.reclaim_clean
  have hunflagged := hu.journal_unflagged hinv
  have hotherBlock : u.view.journalBlock (!isHot) = s.view.journalBlock (!isHot) :=
    (congrArg pmNodeBlock hmoved.other).trans h.otherBlock
  have hotherPage : u.view.journalPage (!isHot) = s.view.journalPage (!isHot) :=
    (congrArg pmNodePage hmoved.other).trans h.otherPage
  have hflag : backupFlag ≤ t.view.dirty (s.view.journalBlock isHot) := by
    rcases h.flagged isHot with hzero | hflag
    · omega
    · exact hflag
  obtain ⟨hj, hj'⟩ := hinv.range isHot
  rw [h.block] at hj hj'
  have hsubset : u.view.freeBlocks ⊆ s.view.freeBlocks := by
    refine freeBlocks_subset (h.keeps.trans hkeep) ((forall_stream isHot).mpr ⟨?_, ?_⟩)
    · rintro b hmem rfl
      have hno := (mem_freeBlocks.mp hmem).2.2.1
      have hyes := (hkeep _ hj hj' hflag).1
      omega
    · rw [← hotherBlock]
      exact fun b hmem => (mem_freeBlocks.mp hmem).2.2.2 (!isHot)
  -- the new journal was free, and no longer is
  have hnew : u.view.journalBlock isHot ∈ s.view.freeBlocks := by
    refine mem_freeBlocks.mpr ⟨hb, hb', ?_, (forall_stream isHot).mpr ⟨?_, ?_⟩⟩
    · by_contra hyes
      have hkept := (h.keeps _ hb hb' (by omega)).1
      omega
    · intro hself
      rw [hself] at hunflagged
      omega
    · rw [← hotherBlock]
      exact hu.inv.apart_not isHot
  have hgone : u.view.journalBlock isHot ∉ u.view.freeBlocks :=
    fun hmem => (mem_freeBlocks.mp hmem).2.2.2 isHot rfl
  have hcard : u.view.freeBlocks.card < s.view.freeBlocks.card :=
    Finset.card_lt_card (Finset.ssubset_iff_subset_ne.mpr ⟨hsubset, fun hsame => hgone (hsame ▸ hnew)⟩)
  rw [u.view.writesLeft_eq isHot, s.view.writesLeft_eq isHot, hotherPage]
  omega

end TaggedWrite

theorem OneTagged.step (h : OneTagged s addr) (haddr : addr < ftlCapacity)
    (hwritten : StreamWritten s s' isHot addr data link true)
    (hlink : link = invalidPmNode ∨ pmNodeBlock link ≤ 2048)
    (hmapped : s.view.mapping addr ≠ invalidPmNode) (hspace : SpaceInv s') :
    OneTagged s' addr ∧ s'.view.writesLeft < s.view.writesLeft := by
  have hroom := h.space.room isHot
  have hentry : ∀ a, a < ftlCapacity →
      s'.view.entry a = if a = addr then some (data, link) else s.view.entry a :=
    fun a ha => hwritten.entry h.space.inv haddr hroom ha
  have hself : s'.view.entry addr = some (data, link) := by rw [hentry addr haddr, if_pos rfl]
  have hothers : ∀ a, a < ftlCapacity → a ≠ addr → s'.view.entry a = none := by
    intro a ha hne
    rw [hentry a ha, if_neg hne]
    exact h.others a ha hne
  obtain ⟨t, hw, hrest⟩ := hwritten.steps
  have htagged := h.taggedWrite hw hmapped
  split at hrest
  · next hfull =>
      obtain ⟨u, hu, hs'⟩ := hrest
      have hview : s'.view = u.view := hs'.view hu.ok.tables hu.ok.pmt
      obtain ⟨db, hmoved, _⟩ := hu.moved
      have hinv := hw.inv h.space.inv.data haddr hroom
      unfold DataView.shutBy at hinv
      rw [if_pos hfull] at hinv
      have hothers' : ∀ a, a < ftlCapacity → a ≠ addr → t.view.entry a = none := by
        intro a ha hne
        rw [← hmoved.entry a ha, ← hview]
        exact hothers a ha hne
      refine ⟨⟨hspace, ⟨data, link, hself, hlink⟩, hothers, ?_⟩, ?_⟩
      · rw [hview]
        exact (forall_stream isHot).mpr ⟨.inl (htagged.room_reclaimed hfull hinv hothers' hu),
          (htagged.other_reclaimed hinv hu).imp_right .inl⟩
      · rw [hview]
        exact htagged.writesLeft_reclaimed hfull hinv hu
  · next hfull =>
      rw [hrest]
      rw [hrest] at hspace hself hothers
      exact ⟨⟨hspace, ⟨data, link, hself, hlink⟩, hothers, htagged.journals⟩,
        htagged.writesLeft hroom⟩

/-- One more tagged write of the page, if it has space. -/
theorem OneTagged.write (h : OneTagged s addr) (haddr : addr < ftlCapacity)
    (hspace : HasSpace s addr (some data) true false) :
    ∃ s', ftlWrite addr (some data) true false s = .ok (.success, s') ∧ OneTagged s' addr ∧
      s'.view.writesLeft < s.view.writesLeft := by
  have hview : (s.touched addr).view = s.view := FtlState.touched_same.1
  have hvictim := (h.space.hasSpace_iff haddr).mp hspace
  have hwrite : wp (ftlWrite addr (some data) true false) _ (fun _ => False) s :=
    ftlWrite_spec h.space.inv haddr h.space.starts fun hno => absurd hvictim hno
  obtain ⟨_, s', hok, rfl, hwritten⟩ := exists_ok_of_wp hwrite
  have hs' : SpaceInv s' :=
    ⟨hwritten.inv h.space.inv haddr h.space.starts, nonFull_iff.mp (hspace.leaves s' hok)⟩
  obtain ⟨isBackup, old, hold, hstream⟩ := hwritten
  obtain ⟨hbackup, hmapped⟩ := h.backup haddr hold
  rw [hbackup] at hstream
  have htouched : OneTagged (s.touched addr) addr := by
    refine ⟨h.space.touched, ?_, ?_, ?_⟩
    · rw [hview]
      exact h.link
    · rw [hview]
      exact h.others
    · rw [hview]
      exact h.journals
  rw [← hview] at hmapped
  have hstep := htouched.step haddr hstream newLink_bounded hmapped hs'
  rw [hview] at hstep
  exact ⟨s', hok, hstep⟩

/-- The first write of a page after the format. -/
theorem FirstMount.oneTagged (h : FirstMount s fun _ => none) (haddr : addr < ftlCapacity)
    (data : Buffer) : ∃ s', ftlWrite addr (some data) true false s = .ok (.success, s') ∧
      OneTagged s' addr := by
  have hview : (s.touched addr).view = s.view := FtlState.touched_same.1
  have hs : SpaceInv s := h.space
  have hzero : ∀ i, s.view.journalPage i = 0 := h.mounted.journals
  have hvictim : FindsVictim s addr (some data) true false :=
    findsVictim_of_room (by rw [hzero]; decide)
  have hwrite : wp (ftlWrite addr (some data) true false) _ (fun _ => False) s :=
    ftlWrite_spec hs.inv haddr hs.starts fun hno => absurd hvictim hno
  obtain ⟨_, s', hok, rfl, hwritten⟩ := exists_ok_of_wp hwrite
  refine ⟨s', hok, ?_⟩
  have hs' : SpaceInv s' := ⟨hwritten.inv hs.inv haddr hs.starts,
    nonFull_iff.mp (((hs.hasSpace_iff haddr).mpr hvictim).leaves s' hok)⟩
  obtain ⟨isBackup, old, hold, hstream⟩ := hwritten
  have hentry : ∀ a, a < ftlCapacity → s'.view.entry a =
      if a = addr then some (data, newLink isBackup false old) else none := by
    intro a ha
    rw [hstream.entry hs.touched.inv haddr (hs.touched.room _) ha, hview,
      (DataView.entry_eq_none hs.inv.data.core ha).mpr (h.mounted.unmapped a)]
  obtain ⟨t, hw, hrest⟩ := hstream.steps
  rw [hview, hzero, if_neg (by decide)] at hrest
  rw [hrest] at hs' hentry ⊢
  obtain ⟨_, hblock, hother⟩ := hw.journals hs.touched
  refine ⟨hs', ⟨data, _, by rw [hentry addr haddr, if_pos rfl], newLink_bounded⟩,
    fun a ha hne => by rw [hentry a ha, if_neg hne],
    (forall_stream (s.isHot addr)).mpr ⟨.inr (.inr ?_), .inl ?_⟩⟩
  · rw [hblock]
    exact hw.mapping_block hs.touched
  · have hpage : t.view.journalPage (!s.isHot addr) =
        (s.touched addr).view.journalPage (!s.isHot addr) := congrArg pmNodePage hother
    rw [hpage, hview]
    exact hzero _

/-- Tagged writes of one page do not find space for ever. -/
theorem OneTagged.not_always (h : OneTagged s addr) (haddr : addr < ftlCapacity)
    (hrun : AnyRun s) : ∃ t, AnyRun t ∧ ¬ HasSpace t addr (some .zeros) true false := by
  induction hleft : s.view.writesLeft using Nat.strong_induction_on generalizing s with
  | h n ih =>
      by_cases hspace : HasSpace s addr (some .zeros) true false
      · obtain ⟨s', hok, hs', hless⟩ := h.write haddr hspace
        exact ih _ (hleft ▸ hless) hs' (RunWith.write hrun haddr trivial hok) rfl
      · exact ⟨s, hrun, hspace⟩

end

section

attribute [local instance] k9wag08

/-- The tagged writes of page 0 run out of space. -/
theorem taggedWrites_run_out : ¬ ∀ s, AnyRun s → ∀ addr buffer flag mft, addr < ftlCapacity →
    HasSpace s addr buffer flag mft := by
  intro hall
  have haddr : 0 < ftlCapacity := by decide
  obtain ⟨s, hstart⟩ := FirstMount.first .blank fun _ => 0
  obtain ⟨s', hok, hs'⟩ := hstart.oneTagged haddr .zeros
  have hmount : AnyRun s := .start hstart
  have hrun : AnyRun s' := RunWith.write hmount haddr trivial hok
  obtain ⟨t, ht, hno⟩ := hs'.not_always haddr hrun
  exact hno (hall t ht 0 (some .zeros) true false haddr)

end

end RansomTag

import RansomTag.Ftl.DataReclaim

/-!
# Calls of the interface

What each call of `ftl_api.c` leaves, between two states that keep the
invariant of the translation layer.
-/

namespace RansomTag

open Program

variable [Platform]

/-- The invariant of the translation layer between two calls. -/
structure FtlInv (s : FtlState) : Prop where
  base : BaseOk s 63
  data : DataInv s.view none

/-! ## Hot-data check -/

/-- The four counters of a page after one more access, and whether all are hot. -/
def hdiTouched (addr : Nat) (table : Ram Nat) : Ram Nat × Bool :=
  hdiTouch addr 3 (hdiTouch addr 2 (hdiTouch addr 1 (hdiTouch addr 0 (table, true))))

namespace FtlState

variable (s : FtlState) (addr : Nat)

/-- What `HDI_IsHotPage` returns. -/
def isHot : Bool := (hdiTouched addr s.hdi.hashTable).2

/-- What `HDI_IsHotPage` leaves. -/
def touched : FtlState :=
  let table := (hdiTouched addr s.hdi.hashTable).1
  if s.hdi.count = 0x1000 then
    { s with hdi := { s.hdi with hashTable := .ofFn fun i => table i / 2, count := 0 } }
  else { s with hdi := { s.hdi with hashTable := table, count := s.hdi.count + 1 } }

end FtlState

section

variable {s : FtlState} {addr k : Nat} {shut : Option Bool} {E : Stop → Prop}

omit [Platform] in
theorem wp_hdiIsHotPage {Q : Bool → FtlState → Prop} :
    wp (hdiIsHotPage addr) Q E s ↔ Q (s.isHot addr) (s.touched addr) := by
  unfold hdiIsHotPage FtlState.isHot FtlState.touched
  rw [wp_bind, wp_get]
  change wp (do
    if s.hdi.count = 0x1000 then
      set { s with hdi := { s.hdi with
        hashTable := .ofFn fun i => (hdiTouched addr s.hdi.hashTable).1 i / 2, count := 0 } }
    else
      set { s with hdi := { s.hdi with
        hashTable := (hdiTouched addr s.hdi.hashTable).1, count := s.hdi.count + 1 } }
    pure (hdiTouched addr s.hdi.hashTable).2) Q E s ↔ _
  by_cases hcount : s.hdi.count = 0x1000
  · rw [if_pos hcount, if_pos hcount]
    rfl
  · rw [if_neg hcount, if_neg hcount]
    rfl

/-- The counters are neither in the view nor in the other tables. -/
theorem FtlState.touched_same : (s.touched addr).view = s.view ∧
    (s.touched addr).flash = s.flash ∧ (s.touched addr).past = s.past ∧
    (s.touched addr).root = s.root ∧ (s.touched addr).rootTable = s.rootTable ∧
    (s.touched addr).blockDirtyTable = s.blockDirtyTable ∧ (s.touched addr).data = s.data := by
  unfold touched
  by_cases hcount : s.hdi.count = 0x1000
  · rw [if_pos hcount]
    exact ⟨rfl, rfl, rfl, rfl, rfl, rfl, rfl⟩
  · rw [if_neg hcount]
    exact ⟨rfl, rfl, rfl, rfl, rfl, rfl, rfl⟩

theorem BaseOk.touched (h : BaseOk s k) : BaseOk (s.touched addr) k := by
  have hsame : SamePmt s (s.touched addr) := by
    unfold FtlState.touched
    by_cases hcount : s.hdi.count = 0x1000
    · rw [if_pos hcount]
      exact ⟨⟨rfl, rfl⟩, rfl, rfl, fun _ _ => rfl, fun _ _ _ _ => rfl⟩
    · rw [if_neg hcount]
      exact ⟨⟨rfl, rfl⟩, rfl, rfl, fun _ _ => rfl, fun _ _ _ _ => rfl⟩
  refine ⟨?_, hsame.pmtOk h.pmt⟩
  unfold FtlState.touched
  by_cases hcount : s.hdi.count = 0x1000
  · rw [if_pos hcount]
    exact ⟨h.tables.bdt, h.tables.root, h.tables.hdi⟩
  · rw [if_neg hcount]
    exact ⟨h.tables.bdt, h.tables.root, h.tables.hdi⟩

end

/-! ## Writes -/

/-- `s'` is left by the write of one page to the journal of a stream, with the
reclaim and the commit when the journal is full. -/
structure StreamWritten (s s' : FtlState) (isHot : Bool) (addr : Nat) (buffer : Buffer)
    (link : Nat) (isBackup : Bool) : Prop where
  steps : ∃ t, DataWritten s t 63 isHot addr buffer link isBackup ∧
    if s.view.journalPage isHot + 1 = 63 then
      ∃ u, ReclaimDone t u isHot ∧ DataCommitted u s' 63
    else s' = t

/-- Whether a write that fills the journal finds a block to reclaim afterwards. -/
def DataView.Reclaimable (v : DataView) (isHot : Bool) (addr : Nat) (isBackup : Bool) : Prop :=
  v.journalPage isHot + 1 = 63 →
    (v.update addr (pmNodeSetBlockPage (v.journalBlock isHot) (v.journalPage isHot))
      isBackup).CanReclaim isHot

section

variable {s s' t : FtlState} {isHot flag mft isBackup : Bool} {addr link a : Nat}
  {buffer : Buffer} {E : Stop → Prop}

theorem dataIsFull_eq (s : FtlState) (isHot : Bool) :
    dataIsFull s.rootTable isHot = !decide (s.view.journalPage isHot < 63) := rfl

theorem DataView.journalPage_wroteFull {v : DataView} {spare : Spare} {data : Buffer}
    (h : DataInv v none) (hq : v.journalPage isHot < 63) :
    (v.wroteFull isHot data spare isBackup).journalPage isHot = v.journalPage isHot + 1 := by
  have hcap := Platform.ubiCapacity_le
  obtain ⟨hb, hb'⟩ := h.range isHot
  have hjournal : (v.wroteFull isHot data spare isBackup).journal isHot =
      pmNodeSetBlockPage (v.journalBlock isHot) (v.journalPage isHot + 1) := by
    unfold DataView.wroteFull
    split <;> cases isHot <;> rfl
  exact (congrArg pmNodePage hjournal).trans (pmNodePage_set (by omega))

theorem StreamWritten.inv (h : StreamWritten s s' isHot addr buffer link isBackup)
    (hs : FtlInv s) (haddr : addr < ftlCapacity) (hq : s.view.journalPage isHot < 63) :
    FtlInv s' := by
  obtain ⟨t, hwrite, hrest⟩ := h.steps
  have hinv := hwrite.inv hs.data haddr hq
  unfold DataView.shutBy at hinv
  split at hrest
  · obtain ⟨u, hreclaim, hcommit⟩ := hrest
    refine ⟨hcommit.ok hreclaim.ok.tables, ?_⟩
    rw [hcommit.view hreclaim.ok.tables hreclaim.ok.pmt]
    exact hreclaim.inv
  · next hfull =>
      rw [if_neg hfull] at hinv
      subst hrest
      exact ⟨hwrite.ok, hinv⟩

/-- The new content of the page, and the old content of every other page. -/
theorem StreamWritten.entry (h : StreamWritten s s' isHot addr buffer link isBackup)
    (hs : FtlInv s) (haddr : addr < ftlCapacity) (hq : s.view.journalPage isHot < 63)
    (ha : a < ftlCapacity) :
    s'.view.entry a = if a = addr then some (buffer, link) else s.view.entry a := by
  obtain ⟨t, hwrite, hrest⟩ := h.steps
  obtain ⟨spare, hw, hlink, hview⟩ := hwrite.view
  have hentry : t.view.entry a = if a = addr then some (buffer, link) else s.view.entry a := by
    rw [hview, hs.data.entry_wroteFull (by rw [hw]; exact haddr) hq ha, hw, hlink]
  split at hrest
  · obtain ⟨u, hreclaim, hcommit⟩ := hrest
    obtain ⟨db, hmoved, _⟩ := hreclaim.moved
    rw [hcommit.view hreclaim.ok.tables hreclaim.ok.pmt, hmoved.entry a ha, hentry]
  · subst hrest
    exact hentry

/-- Writing to a journal that is not full, with a block to reclaim if that fills
it, succeeds. -/
theorem ftlWriteStream_spec (h : FtlInv s) (haddr : addr < ftlCapacity)
    (hq : s.view.journalPage isHot < 63)
    (hE : (∃ isBackup old, s.view.OldVersion addr flag mft isBackup old ∧
      ¬ s.view.Reclaimable isHot addr (newBackup isBackup mft old)) → ∀ e, E e) :
    wp (ftlWriteStream addr (some buffer) isHot flag mft) (fun ret s' => ret = .success ∧
      ∃ isBackup old, s.view.OldVersion addr flag mft isBackup old ∧
        StreamWritten s s' isHot addr buffer (newLink isBackup mft old)
          (newBackup isBackup mft old)) E s := by
  unfold ftlWriteStream
  rw [wp_bind]
  refine wp_mono_post (dataWrite_spec (h.base.complete 64) h.data haddr hq) ?_
  rintro _ t ⟨rfl, isBackup, old, hold, hwrite⟩
  have hinv := hwrite.inv h.data haddr hq
  obtain ⟨spare, hw, _, hview⟩ := hwrite.view
  have hpage : t.view.journalPage isHot = s.view.journalPage isHot + 1 := by
    rw [hview]
    exact DataView.journalPage_wroteFull h.data hq
  rw [if_pos rfl, wp_bind, wp_get, dataIsFull_eq, hpage]
  unfold DataView.shutBy at hinv
  by_cases hfull : s.view.journalPage isHot + 1 = 63
  · rw [if_pos hfull] at hinv
    have hcan : ¬ t.view.CanReclaim isHot → ∀ e, E e := by
      intro hno
      refine hE ⟨isBackup, old, hold, fun hyes => hno ?_⟩
      have hsame := hyes hfull
      rw [hview]
      unfold DataView.wroteFull
      rw [if_pos hfull, ← hw] at *
      cases isHot <;> exact hsame
    have htrue : (!decide (s.view.journalPage isHot + 1 < 63)) = true := by simp; omega
    rw [if_pos htrue, wp_bind]
    refine wp_mono_post (dataReclaim_spec hwrite.ok hinv hcan) ?_
    rintro _ u ⟨rfl, hreclaim⟩
    rw [if_pos rfl]
    refine wp_mono_post (dataCommit_spec hreclaim.ok) ?_
    rintro ret s' ⟨hret, hcommit⟩
    refine ⟨hret, isBackup, old, hold, t, hwrite, ?_⟩
    rw [if_pos hfull]
    exact ⟨u, hreclaim, hcommit⟩
  · have hfalse : ¬ (!decide (s.view.journalPage isHot + 1 < 63)) = true := by simp; omega
    rw [if_neg hfalse, wp_pure]
    refine ⟨rfl, isBackup, old, hold, t, hwrite, ?_⟩
    rw [if_neg hfull]

theorem ftlTrimStream_spec (h : FtlInv s) (haddr : addr < ftlCapacity)
    (hq : s.view.journalPage isHot < 63) :
    wp (ftlWriteStream addr none isHot flag mft) (fun ret s' => ret = .success ∧
      ∃ isBackup old, s.view.OldVersion addr flag mft isBackup old ∧
        DataTrimmed s s' 63 addr isBackup) E s := by
  unfold ftlWriteStream
  rw [wp_bind]
  refine wp_mono_post (dataTrim_spec (h.base.complete 64) h.data haddr) ?_
  rintro _ t ⟨rfl, isBackup, old, hold, htrim⟩
  have hpage : t.view.journalPage isHot = s.view.journalPage isHot := by
    rw [htrim.view]
    rfl
  rw [if_pos rfl, wp_bind, wp_get, dataIsFull_eq, hpage]
  have hfalse : ¬ (!decide (s.view.journalPage isHot < 63)) = true := by simp [hq]
  rw [if_neg hfalse, wp_pure]
  exact ⟨rfl, isBackup, old, hold, htrim⟩

end

/-- `s'` is left by `FTL_Write` that started with a journal that was not full. -/
def Written (s s' : FtlState) (addr : Nat) (buffer : Option Buffer) (flag mft : Bool) : Prop :=
  ∃ isBackup old, s.view.OldVersion addr flag mft isBackup old ∧
    match buffer with
    | some buffer => StreamWritten (s.touched addr) s' (s.isHot addr) addr buffer
        (newLink isBackup mft old) (newBackup isBackup mft old)
    | none => DataTrimmed (s.touched addr) s' 63 addr isBackup

/-- `DATA_Write`, when `FTL_Write` calls it, starts with a journal that is not full. -/
def StartsNonFull (s : FtlState) (addr : Nat) : Prop :=
  ∀ isHot t, hdiIsHotPage addr s = .ok (isHot, t) → dataIsFull t.rootTable isHot = false

/-- The reclaim that a write calls for finds a block with stale pages and no flag
besides the journal of the other stream. -/
def FindsVictim (s : FtlState) (addr : Nat) (buffer : Option Buffer) (flag mft : Bool) : Prop :=
  ∀ isBackup old, buffer ≠ none → s.view.OldVersion addr flag mft isBackup old →
    s.view.Reclaimable (s.isHot addr) addr (newBackup isBackup mft old)

section

variable {s s' t : FtlState} {flag mft : Bool} {addr a n k : Nat} {buffer : Option Buffer}
  {E : Stop → Prop}

omit [Platform] in
theorem hdiIsHotPage_eq : hdiIsHotPage addr s = .ok (s.isHot addr, s.touched addr) := by
  have hwp : wp (hdiIsHotPage addr) (fun b t => b = s.isHot addr ∧ t = s.touched addr)
      (fun _ => False) s := wp_hdiIsHotPage.mpr ⟨rfl, rfl⟩
  obtain ⟨b, t, hok, rfl, rfl⟩ := exists_ok_of_wp hwp
  exact hok

theorem startsNonFull_iff : StartsNonFull s addr ↔ s.view.journalPage (s.isHot addr) < 63 := by
  have hview : (s.touched addr).view = s.view := FtlState.touched_same.1
  constructor
  · intro h
    have hfull := h _ _ hdiIsHotPage_eq
    rw [dataIsFull_eq, hview] at hfull
    simpa using hfull
  · intro h isHot t hok
    rw [hdiIsHotPage_eq] at hok
    obtain ⟨rfl, rfl⟩ : s.isHot addr = isHot ∧ s.touched addr = t := by simpa using hok
    rw [dataIsFull_eq, hview]
    simpa using h

theorem FtlInv.touched (h : FtlInv s) : FtlInv (s.touched addr) := by
  refine ⟨h.base.touched, ?_⟩
  rw [FtlState.touched_same.1]
  exact h.data

theorem ftlWrite_spec (h : FtlInv s) (haddr : addr < ftlCapacity) (hq : StartsNonFull s addr)
    (hE : ¬ FindsVictim s addr buffer flag mft → ∀ e, E e) :
    wp (ftlWrite addr buffer flag mft) (fun ret s' => ret = .success ∧
      Written s s' addr buffer flag mft) E s := by
  have hview : (s.touched addr).view = s.view := FtlState.touched_same.1
  have hq' : (s.touched addr).view.journalPage (s.isHot addr) < 63 := by
    rw [hview]
    exact startsNonFull_iff.mp hq
  unfold ftlWrite Written
  rw [wp_bind, wp_hdiIsHotPage]
  cases buffer with
  | none =>
      have hspec : wp (ftlWriteStream addr none (s.isHot addr) flag mft) _ E (s.touched addr) :=
        ftlTrimStream_spec h.touched haddr hq'
      rw [hview] at hspec
      exact hspec
  | some buffer =>
      have hE' : (∃ isBackup old, (s.touched addr).view.OldVersion addr flag mft isBackup old ∧
          ¬ (s.touched addr).view.Reclaimable (s.isHot addr) addr (newBackup isBackup mft old)) →
            ∀ e, E e := by
        rw [hview]
        rintro ⟨isBackup, old, hold, hno⟩
        exact hE fun hyes => hno (hyes isBackup old (by simp) hold)
      have hspec : wp (ftlWriteStream addr (some buffer) (s.isHot addr) flag mft) _ E
          (s.touched addr) := ftlWriteStream_spec h.touched haddr hq' hE'
      rw [hview] at hspec
      exact hspec

theorem Written.inv (h : Written s s' addr buffer flag mft) (hs : FtlInv s)
    (haddr : addr < ftlCapacity) (hq : StartsNonFull s addr) : FtlInv s' := by
  have hview : (s.touched addr).view = s.view := FtlState.touched_same.1
  obtain ⟨isBackup, old, _, hrest⟩ := h
  cases buffer with
  | none =>
      refine ⟨hrest.ok, ?_⟩
      rw [hrest.view, hview]
      exact hs.data.trimmed haddr
  | some buffer =>
      apply hrest.inv hs.touched haddr
      rw [hview]
      exact startsNonFull_iff.mp hq

/-- The plain content of a page, if it is mapped. -/
def DataView.plain (v : DataView) (a : Nat) : Option Buffer := (v.entry a).map Prod.fst

theorem Written.plain (h : Written s s' addr buffer flag mft) (hs : FtlInv s)
    (haddr : addr < ftlCapacity) (hq : StartsNonFull s addr) (ha : a < ftlCapacity) :
    s'.view.plain a = if a = addr then buffer else s.view.plain a := by
  have hview : (s.touched addr).view = s.view := FtlState.touched_same.1
  obtain ⟨isBackup, old, _, hrest⟩ := h
  unfold DataView.plain
  cases buffer with
  | none =>
      rw [hrest.view, DataView.entry_trimmed, hview]
      split <;> rfl
  | some buffer =>
      rw [hrest.entry hs.touched haddr (by rw [hview]; exact startsNonFull_iff.mp hq) ha, hview]
      split <;> rfl

/-! ## Trims -/

/-- The writes of a trim of `n` pages from `addr` on start with journals that are
not full. -/
def TrimsNonFull : Nat → Nat → FtlState → Prop
  | 0, _, _ => True
  | n + 1, addr, s => StartsNonFull s addr ∧
      ∀ s', ftlWrite addr none false false s = .ok (.success, s') → TrimsNonFull n (addr + 1) s'

/-- `s'` is left by the trim of `n` pages from `addr` on. -/
inductive TrimmedRun : Nat → Nat → FtlState → FtlState → Prop where
  | nil {addr : Nat} {s : FtlState} : TrimmedRun 0 addr s s
  | cons {n addr : Nat} {s t s' : FtlState} : StartsNonFull s addr →
      Written s t addr none false false → TrimmedRun n (addr + 1) t s' →
      TrimmedRun (n + 1) addr s s'

theorem findsVictim_trim : FindsVictim s addr none flag mft :=
  fun _ _ hne => absurd rfl hne

theorem ftlTrimFrom_spec (h : FtlInv s) (haddr : addr + n ≤ ftlCapacity)
    (hq : TrimsNonFull n addr s) :
    wp (ftlTrimFrom n addr) (fun ret s' => ret = .success ∧ TrimmedRun n addr s s') E s := by
  induction n generalizing addr s with
  | zero => exact ⟨rfl, .nil⟩
  | succ n ih =>
      obtain ⟨hstart, hnext⟩ := hq
      have hwrite : wp (ftlWrite addr none false false) _ (fun _ => False) s :=
        ftlWrite_spec h (by omega) hstart fun hno => absurd findsVictim_trim hno
      obtain ⟨_, t, hok, rfl, hwritten⟩ := exists_ok_of_wp hwrite
      have ht := hwritten.inv h (by omega) hstart
      unfold ftlTrimFrom
      rw [wp_bind, wp_iff_of_ok hok, if_pos rfl]
      refine wp_mono_post (ih ht (by omega) (hnext t hok)) ?_
      rintro ret s' ⟨hret, hrun⟩
      exact ⟨hret, .cons hstart hwritten hrun⟩

theorem TrimmedRun.inv (h : TrimmedRun n addr s s') (hs : FtlInv s)
    (haddr : addr + n ≤ ftlCapacity) : FtlInv s' := by
  induction h with
  | nil => exact hs
  | cons hstart hwritten _ ih => exact ih (hwritten.inv hs (by omega) hstart) (by omega)

theorem TrimmedRun.plain (h : TrimmedRun n addr s s') (hs : FtlInv s)
    (haddr : addr + n ≤ ftlCapacity) (ha : a < ftlCapacity) :
    s'.view.plain a = if addr ≤ a ∧ a < addr + n then none else s.view.plain a := by
  induction h with
  | nil => rw [if_neg (by omega)]
  | @cons n addr s t s' hstart hwritten _ ih =>
      rw [ih (hwritten.inv hs (by omega) hstart) (by omega),
        hwritten.plain hs (by omega) hstart ha]
      split
      · rw [if_pos (by omega)]
      · by_cases haa : a = addr
        · rw [if_pos haa, if_pos (by omega)]
        · rw [if_neg haa, if_neg (by omega)]

/-! ## Flush -/

theorem ftlFlush_spec (h : BaseOk s k) :
    wp ftlFlush (fun ret s' => ret = .success ∧ DataCommitted s s' k) E s := by
  unfold ftlFlush
  rw [wp_bind]
  refine wp_mono_post (dataCommit_spec h) ?_
  rintro _ t ⟨rfl, ht⟩
  exact ⟨rfl, ht⟩

theorem DataCommitted.inv (h : DataCommitted s s' 63) (hs : FtlInv s) : FtlInv s' := by
  refine ⟨h.ok hs.base.tables, ?_⟩
  rw [h.view hs.base.tables hs.base.pmt]
  exact hs.data

/-! ## Reads -/

/-- `s'` is left by a read: an access, and a new cursor. -/
structure ReadDone (s s' : FtlState) (k addr : Nat) : Prop where
  steps : ∃ t api unset, Accessed s t k (clusterIndex addr) ∧
    s' = { t with api := api, unset := unset }

theorem ReadDone.of_accessed (h : Accessed s s' k (clusterIndex addr)) : ReadDone s s' k addr :=
  ⟨s', s'.api, s'.unset, h, rfl⟩

theorem ReadDone.base (h : ReadDone s s' k addr) : BaseOk s' k := by
  obtain ⟨t, api, unset, ht, rfl⟩ := h.steps
  have hsame : SameBase t { t with api := api, unset := unset } :=
    ⟨⟨⟨rfl, rfl⟩, rfl, rfl, fun _ _ => rfl, fun _ _ _ _ => rfl⟩, fun _ _ _ => rfl, rfl, rfl, rfl⟩
  exact hsame.ok ht.ok

theorem ReadDone.view (h : ReadDone s s' k addr) (hs : BaseOk s k) :
    s'.view = { s.view with api := s'.api } := by
  obtain ⟨t, api, unset, ht, rfl⟩ := h.steps
  rw [← ht.view hs]
  rfl

/-- The invariant does not read the cursor. -/
theorem DataInv.with_api {v : DataView} {shut : Option Bool} (h : DataInv v shut)
    (api : ApiRam) : DataInv { v with api := api } shut :=
  ⟨h.core.transfer rfl rfl rfl rfl, h.apart, h.reclaim_apart, h.reclaim_page, h.reclaim_clean,
    h.range, h.noted⟩

theorem ReadDone.inv (h : ReadDone s s' 63 addr) (hs : FtlInv s) : FtlInv s' := by
  refine ⟨h.base, ?_⟩
  rw [h.view hs.base]
  exact hs.data.with_api _

/-- A page on flash that is mapped can be read. -/
theorem read_entry {v : DataView} {shut : Option Bool} (hd : DataInv v shut)
    (hview : t.view = v) (ha : a < ftlCapacity) {Q : ReadResult → FtlState → Prop}
    (hmapped : v.mapping a ≠ invalidPmNode) :
    ∃ data spare, v.page (pmNodeBlock (v.mapping a)) (pmNodePage (v.mapping a)) =
        .programmed data spare ∧ v.entry a = some (data, spare.w2) ∧
      (wp (ubiRead (pmNodeBlock (v.mapping a)) (pmNodePage (v.mapping a))) Q E t ↔
        Q ⟨.success, some data, some spare⟩ t) := by
  obtain ⟨_, hb, hb', hp, data, spare, hprog, _⟩ := hd.core.mapped_word ha hmapped
  refine ⟨data, spare, hprog, ?_, ?_⟩
  · unfold DataView.entry
    rw [if_neg hmapped, hprog]
  · rw [← hview, FtlState.view_page_eq (hview ▸ hb)] at hprog
    rw [← hview]
    exact wp_ubiRead_programmed (hview ▸ hb') (by rw [hview]; omega) hprog

/-- The place of a page delivers its content, or zeros when it is not mapped. -/
theorem ubiRead_mapped_spec (hd : DataInv s.view none) (haddr : addr < ftlCapacity)
    (hview : t.view = s.view) :
    wp (ubiRead (wordLocation (s.mapping addr)).1 (wordLocation (s.mapping addr)).2) (fun r t' =>
      (r.status, r.data) = (.success, some ((s.view.plain addr).getD .zeros)) ∧ t' = t) E t := by
  have hmapping := FtlState.view_mapping_eq (s := s) haddr
  rw [← hmapping]
  unfold wordLocation DataView.plain
  by_cases hword : s.view.mapping addr = invalidPmNode
  · rw [if_neg (by simp [hword]), (DataView.entry_eq_none hd.core haddr).mpr hword]
    exact wp_ubiRead_invalid.mpr ⟨rfl, rfl⟩
  · obtain ⟨data, spare, _, hentry, hread⟩ := read_entry (E := E) hd hview haddr hword
    rw [if_pos hword, hread, hentry]
    exact ⟨rfl, rfl⟩

/-- A plain read returns the content of the page, or zeros when it is not mapped. -/
theorem ftlRead_plain_spec (h : BaseOk s k) (hd : DataInv s.view none)
    (haddr : addr < ftlCapacity) :
    wp (ftlRead addr false false) (fun r s' =>
      r = (.success, some ((s.view.plain addr).getD .zeros)) ∧
        Accessed s s' k (clusterIndex addr)) E s := by
  unfold ftlRead
  rw [wp_bind]
  refine wp_mono_post (pmtSearch_spec h (clusterIndex_lt haddr)) ?_
  rintro _ t ⟨rfl, ht⟩
  simp only [wp_bind, wp_pure, and_self, if_true]
  refine wp_mono_post (ubiRead_mapped_spec hd haddr (ht.view h)) ?_
  rintro r _ ⟨hr, rfl⟩
  exact ⟨hr, ht⟩

/-- The page behind the one that the cursor noted is read as by a plain read. -/
theorem ftlRead_next_spec (h : BaseOk s k) (hd : DataInv s.view none)
    (haddr : addr < ftlCapacity) (hnext : addr = (s.api.lastAddr + 1) % 4294967296) :
    wp (ftlRead addr flag true) (fun r s' =>
      r = (.success, some ((s.view.plain addr).getD .zeros)) ∧
        Accessed s s' k (clusterIndex addr)) E s := by
  unfold ftlRead
  rw [wp_bind]
  refine wp_mono_post (pmtSearch_spec h (clusterIndex_lt haddr)) ?_
  rintro _ t ⟨rfl, ht⟩
  have hapi : t.api = s.api := congrArg DataView.api (ht.view h)
  simp only [wp_bind, wp_pure, Bool.true_eq_false, false_and, if_false, if_true]
  unfold ftlReadMft
  rw [wp_bind, wp_get, hapi, if_pos hnext, wp_bind]
  refine wp_mono_post (ubiRead_mapped_spec hd haddr (ht.view h)) ?_
  rintro r _ ⟨hr, rfl⟩
  exact ⟨hr, ht⟩

/-- Nothing changed but the cursor and the local variables to come. -/
def CursorMoved (s s' : FtlState) : Prop :=
  ∃ api unset, s' = { s with api := api, unset := unset }

omit [Platform] in
theorem CursorMoved.trans (h : CursorMoved s t) (h' : CursorMoved t s') : CursorMoved s s' := by
  obtain ⟨api, unset, rfl⟩ := h
  obtain ⟨api', unset', rfl⟩ := h'
  exact ⟨api', unset', rfl⟩

theorem wp_ubiRead_any {b p : Nat} {Q : ReadResult → FtlState → Prop} (hQ : ∀ r, Q r s) :
    wp (ubiRead b p) Q (fun _ => True) s := by
  unfold ubiRead
  by_cases hvalid : b ≠ invalidBlock ∧ p ≠ invalidPage
  · rw [if_pos hvalid, wp_bind, wp_assert]
    split
    · rw [wp_bind, wp_get]
      split
      · exact hQ _
      · exact hQ _
    · trivial
  · rw [if_neg hvalid, wp_bind, wp_assert]
    split
    · exact hQ _
    · trivial

omit [Platform] in
theorem spareAfter_spec (r : ReadResult) :
    wp (spareAfter r) (fun _ s' => CursorMoved s s') E s := by
  unfold spareAfter
  split
  · exact ⟨s.api, s.unset, rfl⟩
  · exact ⟨s.api, _, rfl⟩

theorem ftlReadMft_any (b p : Nat) :
    wp (ftlReadMft addr b p) (fun _ s' => CursorMoved s s') (fun _ => True) s := by
  unfold ftlReadMft
  rw [wp_bind, wp_get]
  by_cases hnext : addr = (s.api.lastAddr + 1) % 4294967296
  · rw [if_pos hnext, wp_bind]
    exact wp_ubiRead_any fun r => ⟨s.api, s.unset, rfl⟩
  · rw [if_neg hnext, wp_bind, wp_modify]
    by_cases hnew : s.api.lastpage ≠ p ∨ s.api.lastblock ≠ b
    · rw [if_pos hnew, wp_bind, wp_modify, wp_bind]
      refine wp_ubiRead_any fun r => ?_
      rw [wp_bind]
      refine wp_mono_post (spareAfter_spec r) ?_
      rintro link t ⟨api, unset, rfl⟩
      exact ⟨_, unset, rfl⟩
    · rw [if_neg hnew, wp_bind]
      refine wp_ubiRead_any fun r => ?_
      rw [wp_bind]
      refine wp_mono_post (spareAfter_spec r) ?_
      rintro link t ⟨api, unset, rfl⟩
      by_cases hlink : pmNodeBlock link < 2049
      · simp only [hlink, if_true, wp_bind, wp_modify, wp_pure]
        exact ⟨_, unset, rfl⟩
      · simp only [hlink, if_false, wp_pure]
        exact ⟨_, unset, rfl⟩

/-- The cursor notes every other page. -/
theorem ftlReadMft_notes (b p : Nat) (hnext : addr ≠ (s.api.lastAddr + 1) % 4294967296) :
    wp (ftlReadMft addr b p) (fun _ s' => s'.api.lastAddr = addr) (fun _ => True) s := by
  unfold ftlReadMft
  rw [wp_bind, wp_get, if_neg hnext, wp_bind, wp_modify]
  have hafter : ∀ {u : FtlState} (r : ReadResult), u.api.lastAddr = addr →
      wp (spareAfter r) (fun _ s' => s'.api.lastAddr = addr) (fun _ => True) u := by
    intro u r hu
    unfold spareAfter
    split
    · exact hu
    · exact hu
  by_cases hnew : s.api.lastpage ≠ p ∨ s.api.lastblock ≠ b
  · rw [if_pos hnew, wp_bind, wp_modify, wp_bind]
    refine wp_ubiRead_any fun r => ?_
    rw [wp_bind]
    exact wp_mono_post (hafter r rfl) fun _ _ ht => ht
  · rw [if_neg hnew, wp_bind]
    refine wp_ubiRead_any fun r => ?_
    rw [wp_bind]
    refine wp_mono_post (hafter r rfl) ?_
    intro link t ht
    by_cases hlink : pmNodeBlock link < 2049
    · simp only [hlink, if_true, wp_bind, wp_modify, wp_pure]
      exact ht
    · simp only [hlink, if_false, wp_pure]
      exact ht

theorem ftlReadBackup_any (b p : Nat) (ret : Status) :
    wp (ftlReadBackup b p ret) (fun _ s' => CursorMoved s s') (fun _ => True) s := by
  have hlast : ∀ (x : Nat × Nat × Status) (t : FtlState), CursorMoved s t →
      wp (if x.2.2 = .success then do
          let r ← ubiRead x.1 x.2.1
          pure (r.status, r.data)
        else pure (x.2.2, none)) (fun (_ : Status × Option Buffer) s' => CursorMoved s s')
        (fun _ => True) t := by
    intro x t ht
    rw [wp_ite]
    split
    · rw [wp_bind]
      exact wp_ubiRead_any fun _ => ht
    · exact ht
  unfold ftlReadBackup
  by_cases hvalid : b ≠ invalidBlock ∧ p ≠ invalidPage
  · rw [if_pos hvalid, wp_bind]
    refine wp_ubiRead_any fun r => ?_
    rw [wp_bind]
    refine wp_mono_post (spareAfter_spec r) ?_
    intro link t ht
    by_cases hlink : link ≠ invalidPmNode
    · rw [if_pos hlink]
      exact hlast (_, _, _) t ht
    · rw [if_neg hlink]
      exact hlast (_, _, _) t ht
  · rw [if_neg hvalid, wp_bind]
    exact hlast (_, _, _) s ⟨s.api, s.unset, rfl⟩

/-- A read that returns changes nothing but the cache and the cursor. -/
theorem ftlRead_any (h : BaseOk s k) (haddr : addr < ftlCapacity) :
    wp (ftlRead addr flag mft) (fun _ s' => ReadDone s s' k addr) (fun _ => True) s := by
  unfold ftlRead
  rw [wp_bind]
  refine wp_mono_post (pmtSearch_spec h (clusterIndex_lt haddr)) ?_
  rintro _ t ⟨rfl, ht⟩
  have hdone : ∀ {α : Type} (x : α) (s' : FtlState), CursorMoved t s' → ReadDone s s' k addr := by
    rintro _ _ _ ⟨api, unset, rfl⟩
    exact ⟨t, api, unset, ht, rfl⟩
  simp only [wp_bind, wp_pure]
  split
  · rw [wp_bind]
    exact wp_ubiRead_any fun _ => ReadDone.of_accessed ht
  · split
    · exact wp_mono_post (ftlReadMft_any _ _) hdone
    · exact wp_mono_post (ftlReadBackup_any _ _ _) hdone

end

end RansomTag

import RansomTag.Ftl.DataInvariant

/-!
# Writes to the data journals

`DATA_Write` appends one page to a journal and maps the logical page to it.
What it stores as the link to the old version is described by
`DataView.OldVersion` and `newLink`.
-/

namespace RansomTag

open Program

variable [Platform]

/-! ## Changes above the tables -/

/-- The tables below the data layer are the same in both states. -/
structure SameBase (s s' : FtlState) : Prop extends SamePmt s s' where
  low : ∀ b, b < pmtStartBlock → ∀ p, s'.flash.page b p = s.flash.page b p
  bdt : s'.bdt = s.bdt
  root : s'.root = s.root
  hdi : s'.hdi = s.hdi

namespace SameBase

variable {s s' s'' : FtlState} {k : Nat}

omit [Platform] in
theorem trans (h : SameBase s s') (h' : SameBase s' s'') : SameBase s s'' where
  toSamePmt := h.toSamePmt.trans h'.toSamePmt
  low b hb p := (h'.low b hb p).trans (h.low b hb p)
  bdt := h'.bdt.trans h.bdt
  root := h'.root.trans h.root
  hdi := h'.hdi.trans h.hdi

theorem ok (h : SameBase s s') (hs : BaseOk s k) : BaseOk s' k where
  tables := hs.tables.congr (fun b hb p => h.low b hb p) h.bdt h.root h.hdi
  pmt := h.toSamePmt.pmtOk hs.pmt

theorem mapping (h : SameBase s s') (hs : BaseOk s k) {addr : Nat} (haddr : addr < ftlCapacity) :
    s'.mapping addr = s.mapping addr :=
  (h.toSamePmt.clusters hs.pmt.inv.toCacheInv).mapping (clusterIndex_lt haddr)

theorem view_mapping (h : SameBase s s') (hs : BaseOk s k) : s'.view.mapping = s.view.mapping := by
  funext addr
  change (if addr < ftlCapacity then s'.mapping addr else _) =
    if addr < ftlCapacity then s.mapping addr else _
  split
  · next haddr => exact h.mapping hs haddr
  · rfl

end SameBase

namespace FtlState

variable {s : FtlState} {b p k : Nat} {data : Buffer} {spare : Spare}

omit [Platform] in
theorem program_base (hb : dataStartBlock ≤ b) : SameBase s (s.program b p data spare) := by
  have hpage : ∀ b', b' < dataStartBlock → ∀ p',
      (s.program b p data spare).flash.page b' p' = s.flash.page b' p' := by
    intro b' hb' p'
    apply Flash.page_program_other
    rintro ⟨rfl, _⟩
    omega
  refine ⟨⟨⟨rfl, rfl⟩, rfl, rfl, fun _ _ => rfl, fun b' _ hb' => hpage b' hb'⟩, ?_, rfl, rfl, rfl⟩
  intro b' hb'
  apply hpage
  simp only [pmtStartBlock] at hb'
  simp only [dataStartBlock]
  omega

omit [Platform] in
theorem erase_base (hb : dataStartBlock ≤ b) : SameBase s (s.erase b) := by
  have hpage : ∀ b', b' < dataStartBlock → ∀ p',
      (s.erase b).flash.page b' p' = s.flash.page b' p' := by
    intro b' hb' p'
    apply Flash.page_erase_other
    rintro rfl
    omega
  refine ⟨⟨⟨rfl, rfl⟩, rfl, rfl, fun _ _ => rfl, fun b' _ hb' => hpage b' hb'⟩, ?_, rfl, rfl, rfl⟩
  intro b' hb'
  apply hpage
  simp only [pmtStartBlock] at hb'
  simp only [dataStartBlock]
  omega

theorem view_program (hs : BaseOk s k) (hb : dataStartBlock ≤ b)
    (hfree : s.view.page b p = .erased) :
    (s.program b p data spare).view = s.view.program b p data spare := by
  have hfree' : s.flash.page b p = .erased := by
    rw [← hfree]
    exact (if_pos hb).symm
  ext1
  case mapping => exact (program_base hb).view_mapping hs
  case page =>
    funext b' p'
    change (if dataStartBlock ≤ b' then (s.flash.program b p data spare).page b' p' else _) =
      if b' = b ∧ p' = p then _ else s.view.page b' p'
    by_cases heq : b' = b ∧ p' = p
    · obtain ⟨rfl, rfl⟩ := heq
      rw [if_pos hb, if_pos ⟨rfl, rfl⟩, Flash.page_program_erased hfree']
    · rw [if_neg heq, Flash.page_program_other heq]
      rfl
  case log => exact List.filter_cons_of_pos (p := NandOp.onData) (decide_eq_true hb)
  all_goals rfl

theorem view_erase (hs : BaseOk s k) (hb : dataStartBlock ≤ b) :
    (s.erase b).view = s.view.erase b := by
  ext1
  case mapping => exact (erase_base hb).view_mapping hs
  case page =>
    funext b' p'
    change (if dataStartBlock ≤ b' then (s.flash.erase b).page b' p' else _) =
      if b' = b then _ else s.view.page b' p'
    rw [Flash.page_erase]
    by_cases heq : b' = b
    · rw [if_pos heq, if_pos heq, heq, if_pos hb]
    · rw [if_neg heq, if_neg heq]
      rfl
  case log => exact List.filter_cons_of_pos (p := NandOp.onData) (decide_eq_true hb)
  all_goals rfl

end FtlState

section

variable {s : FtlState} {addr b p : Nat} {data : Buffer} {spare : Spare}

theorem FtlState.view_mapping_eq (haddr : addr < ftlCapacity) :
    s.view.mapping addr = s.mapping addr := if_pos haddr

theorem FtlState.view_page_eq (hb : dataStartBlock ≤ b) : s.view.page b p = s.flash.page b p :=
  if_pos hb

end

/-- Complete meta data leaves room for any number of dirty clusters. -/
theorem BaseOk.complete {s : FtlState} (h : BaseOk s 63) (k : Nat) : BaseOk s k :=
  ⟨h.tables, h.pmt.inv, h.pmt.page, .inl h.pmt.budget.named⟩

/-! ## The old version -/

/-- The word that a tagged write finds for the version to keep: the link of the
mapped page, or the mapped page itself. -/
def DataView.oldLink (v : DataView) (addr : Nat) (mft : Bool) : Nat :=
  match v.page (pmNodeBlock (v.mapping addr)) (pmNodePage (v.mapping addr)) with
  | .programmed _ spare =>
      if mft = false ∧ spare.w2 ≠ invalidPmNode then spare.w2 else v.mapping addr
  | _ => v.mapping addr

/-- What `dataOldVersion` may return.  Nothing is said of the link of a page
without an old version. -/
def DataView.OldVersion (v : DataView) (addr : Nat) (flag mft isBackup : Bool) (old : Nat) :
    Prop :=
  if v.mapping addr = invalidPmNode then isBackup = false
  else isBackup = flag ∧ (flag ∨ mft → old = v.oldLink addr mft)

/-- Nothing happened, or an access to a cluster. -/
def Looked (s s' : FtlState) (k c : Nat) : Prop := s' = s ∨ Accessed s s' k c

namespace Looked

variable {s s' : FtlState} {k c : Nat}

theorem ok (h : Looked s s' k c) (hs : BaseOk s k) : BaseOk s' k := by
  rcases h with rfl | h
  · exact hs
  · exact h.ok

theorem view (h : Looked s s' k c) (hs : BaseOk s k) : s'.view = s.view := by
  rcases h with rfl | h
  · rfl
  · exact h.view hs

end Looked

/-- A local variable that was not set changes nothing else. -/
theorem Accessed.unset {s s' : FtlState} {k c : Nat} (h : Accessed s s' k c)
    (unset : Nat → Nat) : Accessed s { s' with unset := unset } k c := by
  have hsame : SamePmt s' { s' with unset := unset } :=
    ⟨⟨rfl, rfl⟩, rfl, rfl, fun _ _ => rfl, fun _ _ _ _ => rfl⟩
  refine ⟨⟨h.ok.tables.congr (fun _ _ _ => rfl) rfl rfl rfl, hsame.pmtOk h.ok.pmt⟩,
    fun d hd j hj => (hsame.clusters h.ok.pmt.inv.toCacheInv d hd j hj).trans
      (h.clusters d hd j hj), h.cached, ?_⟩
  obtain ⟨u, hu, honly⟩ := h.start
  exact ⟨u, hu, honly.rootTable, honly.unused, honly.flash, honly.past, honly.table, honly.bdt, honly.root,
    honly.hdi, honly.data, honly.api⟩

section

variable {s : FtlState} {k addr : Nat} {flag mft : Bool} {shut : Option Bool} {E : Stop → Prop}

omit [Platform] in
theorem wp_unsetLocal {Q : Nat → FtlState → Prop} : wp unsetLocal Q E s ↔
    Q (s.unset 0 % 4294967296) { s with unset := fun i => s.unset (i + 1) } := Iff.rfl

theorem dataOldVersion_spec (h : BaseOk s k) (hd : DataCore s.view (s.view.opened shut))
    (haddr : addr < ftlCapacity) :
    wp (dataOldVersion addr flag mft) (fun r s' => Looked s s' k (clusterIndex addr) ∧
      s.view.OldVersion addr flag mft r.1 r.2.1 ∧ r.2.2 = .success) E s := by
  have hmapping := FtlState.view_mapping_eq (s := s) haddr
  unfold dataOldVersion
  by_cases htag : flag ∨ mft
  · rw [if_pos htag, wp_bind]
    refine wp_mono_post (pmtSearch_spec h (clusterIndex_lt haddr)) ?_
    rintro _ t ⟨rfl, ht⟩
    simp only [wp_bind, wp_pure]
    unfold wordLocation
    by_cases hword : s.view.mapping addr = invalidPmNode
    · have hnone : ∀ old, s.view.OldVersion addr flag mft false old := fun _ => by
        unfold DataView.OldVersion
        rw [if_pos hword]
      rw [hmapping] at hword
      simp only [hword, ne_eq, not_true_eq_false, if_false, false_and, wp_bind, wp_unsetLocal,
        wp_pure, and_true]
      exact ⟨.inr (ht.unset _), hnone _⟩
    · obtain ⟨hw, hb, hb', hp, data, spare, hpage, _⟩ := hd.mapped_word haddr hword
      have hcap := Platform.ubiCapacity_le
      have hread : t.flash.page (pmNodeBlock (s.mapping addr)) (pmNodePage (s.mapping addr)) =
          .programmed data spare := by
        rw [hmapping] at hpage hb
        rw [← FtlState.view_page_eq hb, ht.view h]
        exact hpage
      have hold : s.view.OldVersion addr flag mft flag
          (if mft = false ∧ spare.w2 ≠ invalidPmNode then spare.w2 else s.mapping addr) := by
        unfold DataView.OldVersion DataView.oldLink
        rw [if_neg hword, hpage, hmapping]
        exact ⟨rfl, fun _ => rfl⟩
      rw [hmapping] at hword hw hb hb' hp
      have hne : pmNodeBlock (s.mapping addr) ≠ invalidBlock := by
        simp only [invalidBlock]; omega
      have hne' : pmNodePage (s.mapping addr) ≠ invalidPage := by
        simp only [invalidPage]; omega
      simp only [hword, hne, hne', ne_eq, not_false_eq_true, and_self, if_true, wp_bind,
        wp_ubiRead_programmed hb' (by omega) hread, ← hw]
      split
      · next hlink =>
          rw [if_pos ⟨hlink.1, hlink.2.2⟩] at hold
          exact ⟨.inr ht, hold, rfl⟩
      · next hlink =>
          rw [if_neg fun hyes => hlink ⟨hyes.1, trivial, hyes.2⟩] at hold
          exact ⟨.inr ht, hold, rfl⟩
  · rw [if_neg htag, wp_pure]
    refine ⟨.inl rfl, ?_, rfl⟩
    unfold DataView.OldVersion
    split
    · simpa using fun hflag => htag (.inl hflag)
    · exact ⟨rfl, fun hno => absurd hno htag⟩

end

/-! ## The write -/

/-- The link of a new page: what is old is checked for its block number only. -/
def newLink (isBackup mft : Bool) (old : Nat) : Nat :=
  if isBackup ∨ mft then if pmNodeBlock old > 2048 then invalidPmNode else old else invalidPmNode

/-- Whether the update of the mapping flags the old block. -/
def newBackup (isBackup mft : Bool) (old : Nat) : Bool :=
  if (isBackup ∨ mft) ∧ pmNodeBlock old > 2048 then false else isBackup

namespace FtlState

variable (s : FtlState)

/-- The spare area of the next page of a journal. -/
def newSpare (isHot : Bool) (addr link : Nat) : Spare := ⟨addr, s.data.edition isHot, link, link⟩

/-- The state after page `b`, `q` of a journal was noted in the meta data and
programmed. -/
def journaled (isHot : Bool) (b q addr : Nat) (buffer : Buffer) (link : Nat) : FtlState :=
  let data := (s.data.setMeta isHot q (s.newSpare isHot addr link)).setEdition isHot
    ((s.data.edition isHot + 1) % 4294967296)
  { s with data := data }.program b q buffer (s.newSpare isHot addr link)

/-- The journal of a stream goes on at `w`. -/
def withJournal (isHot : Bool) (w : Nat) : FtlState :=
  { s with rootTable := s.rootTable.setJournal isHot w }

/-- The journal block is closed when its last data page is written. -/
def closedFull (isHot : Bool) (b q : Nat) : FtlState :=
  if q + 1 = 63 then s.program b 63 (.ofSpares (s.data.metaTable isHot)) .null else s

end FtlState

section

variable {s s' : FtlState} {k addr link w : Nat} {isHot : Bool} {buffer : Buffer}

/-- The data layer's view of an appended page. -/
theorem FtlState.journaled_view (s : FtlState) (isHot : Bool) {b q : Nat} (addr : Nat)
    (buffer : Buffer) (link : Nat) (hs : BaseOk s k) (hb : dataStartBlock ≤ b)
    (hfree : s.view.page b q = .erased) :
    BaseOk (s.journaled isHot b q addr buffer link) k ∧
      (s.journaled isHot b q addr buffer link).view =
        (s.view.setMeta isHot q (s.newSpare isHot addr link)).program b q buffer
          (s.newSpare isHot addr link) := by
  let data := (s.data.setMeta isHot q (s.newSpare isHot addr link)).setEdition isHot
    ((s.data.edition isHot + 1) % 4294967296)
  let t : FtlState := { s with data := data }
  have hsame : SameBase s t :=
    ⟨⟨⟨rfl, rfl⟩, rfl, rfl, fun _ _ => rfl, fun _ _ _ _ => rfl⟩, fun _ _ _ => rfl, rfl, rfl, rfl⟩
  have hview : t.view = s.view.setMeta isHot q (s.newSpare isHot addr link) := by
    cases isHot <;> rfl
  refine ⟨(FtlState.program_base hb).ok (hsame.ok hs), ?_⟩
  rw [← hview]
  exact FtlState.view_program (hsame.ok hs) hb hfree

/-- The journal of a stream advances above the tables. -/
theorem FtlState.withJournal_view (s : FtlState) (isHot : Bool) (w : Nat) (hs : BaseOk s k) :
    BaseOk (s.withJournal isHot w) k ∧ (s.withJournal isHot w).view = s.view.setJournal isHot w := by
  have hsame : SameBase s (s.withJournal isHot w) := by
    cases isHot
    all_goals exact ⟨⟨⟨rfl, rfl⟩, rfl, rfl, fun _ _ => rfl, fun _ _ _ _ => rfl⟩,
      fun _ _ _ => rfl, rfl, rfl, rfl⟩
  refine ⟨hsame.ok hs, ?_⟩
  cases isHot <;> rfl

theorem FtlState.closedFull_view (s : FtlState) (isHot : Bool) {b q : Nat} (hs : BaseOk s k)
    (hd : DataInv s.view none) (hb : b = s.view.journalBlock isHot) (hq : q + 1 = s.view.journalPage isHot) :
    BaseOk (s.closedFull isHot b q) k ∧
      (s.closedFull isHot b q).view = if q + 1 = 63 then s.view.closed isHot else s.view := by
  unfold closedFull
  split
  · next hfull =>
      obtain ⟨hrange, _⟩ := hd.range isHot
      have hfree := hd.core.free _ _ (hd.opened_journal isHot (by simp)) 63 (by omega) (by decide)
      rw [hb]
      exact ⟨(FtlState.program_base hrange).ok hs, FtlState.view_program hs hrange hfree⟩
  · exact ⟨hs, rfl⟩

end

/-- The view after a page was written, and the journal closed if it is full. -/
def DataView.wroteFull (v : DataView) (isHot : Bool) (buffer : Buffer) (spare : Spare)
    (isBackup : Bool) : DataView :=
  if v.journalPage isHot + 1 = 63 then (v.wrote isHot buffer spare isBackup).closed isHot
  else v.wrote isHot buffer spare isBackup

/-- The stream whose journal a write closes. -/
def DataView.shutBy (v : DataView) (isHot : Bool) : Option Bool :=
  if v.journalPage isHot + 1 = 63 then some isHot else none

/-- `s'` is left by a write of one page to the journal of a stream. -/
structure DataWritten (s s' : FtlState) (k : Nat) (isHot : Bool) (addr : Nat) (buffer : Buffer)
    (link : Nat) (isBackup : Bool) : Prop where
  ok : BaseOk s' k
  view : ∃ spare : Spare, spare.w0 = addr ∧ spare.w2 = link ∧
    s'.view = s.view.wroteFull isHot buffer spare isBackup
  steps : ∃ t u, Looked s t (k + 1) (clusterIndex addr) ∧
    Accessed (t.journaled isHot (s.view.journalBlock isHot) (s.view.journalPage isHot) addr buffer
      link) u (k + 1) (clusterIndex addr) ∧
    s' = ((u.updated addr (pmNodeSetBlockPage (s.view.journalBlock isHot)
      (s.view.journalPage isHot)) isBackup).withJournal isHot
        (pmNodeSetBlockPage (s.view.journalBlock isHot) (s.view.journalPage isHot + 1))).closedFull
          isHot (s.view.journalBlock isHot) (s.view.journalPage isHot)

section

variable {s : FtlState} {k addr : Nat} {isHot flag mft : Bool} {buffer : Buffer}
  {E : Stop → Prop}

theorem dataWrite_spec (h : BaseOk s (k + 1)) (hd : DataInv s.view none)
    (haddr : addr < ftlCapacity) (hq : s.view.journalPage isHot < 63) :
    wp (dataWrite addr (some buffer) isHot flag mft) (fun ret s' => ret = .success ∧
      ∃ isBackup old, s.view.OldVersion addr flag mft isBackup old ∧
        DataWritten s s' k isHot addr buffer (newLink isBackup mft old)
          (newBackup isBackup mft old)) E s := by
  have hcap := Platform.ubiCapacity_le
  obtain ⟨hb, hb'⟩ := hd.range isHot
  unfold dataWrite
  rw [wp_bind]
  refine wp_mono_post (dataOldVersion_spec h hd.core haddr) ?_
  rintro ⟨isBackup, old, _⟩ t ⟨hlook, hold, rfl⟩
  have hview := hlook.view h
  have hjournal : t.rootTable.journal isHot = s.view.journal isHot := by
    rw [← hview]
    rfl
  have hblock : pmNodeBlock (t.rootTable.journal isHot) = s.view.journalBlock isHot := by
    rw [hjournal]
    rfl
  have hpage : pmNodePage (t.rootTable.journal isHot) = s.view.journalPage isHot := by
    rw [hjournal]
    rfl
  have hnotfull : s.view.journalPage isHot < pagePerPhyBlock - 1 := by
    simp only [pagePerPhyBlock]
    omega
  simp only [wp_bind, wp_get, hblock, hpage, hnotfull, if_true, wp_ubiReadStatus hb', wp_assert,
    wp_modify, wp_ubiWrite hb']
  have hfree := hd.core.free _ _ (hd.opened_journal isHot (by simp)) _ le_rfl (by omega)
  set b := s.view.journalBlock isHot with hbdef
  set q := s.view.journalPage isHot with hqdef
  set t₁ := t.journaled isHot b q addr buffer (newLink isBackup mft old) with ht₁
  obtain ⟨hok₁, hview₁⟩ := t.journaled_view isHot addr buffer (newLink isBackup mft old)
    (hlook.ok h) hb (show t.view.page b q = .erased by rw [hview]; exact hfree)
  rw [← ht₁, hview] at hview₁
  have hmapping : t₁.mapping addr = s.view.mapping addr := by
    rw [← FtlState.view_mapping_eq haddr, hview₁]
    cases isHot <;> rfl
  have hword : b = invalidBlock ↔ q = invalidPage := by
    simp only [invalidBlock, invalidPage]
    omega
  have hold₁ : t₁.mapping addr = invalidPmNode ∨ dataStartBlock ≤ pmNodeBlock (t₁.mapping addr) := by
    rw [hmapping]
    exact hd.core.mapped_block haddr
  have hupdate : wp (pmtUpdate addr b q (newBackup isBackup mft old)) _ E t₁ :=
    pmtUpdate_spec hok₁ haddr hold₁ hword
  refine wp_mono_post hupdate ?_
  rintro _ w ⟨rfl, hok₂, hview₂, u, hu, rfl⟩
  have hword' : updateWord b q = pmNodeSetBlockPage b q := if_pos (by
    simp only [invalidBlock]
    omega)
  rw [hword'] at hview₂ hok₂ ⊢
  rw [hview₁] at hview₂
  set spare := t.newSpare isHot addr (newLink isBackup mft old) with hspare
  obtain ⟨hok₃, hview₃⟩ := FtlState.withJournal_view _ isHot (pmNodeSetBlockPage b (q + 1)) hok₂
  set t₃ := (u.updated addr (pmNodeSetBlockPage b q) (newBackup isBackup mft old)).withJournal isHot
    (pmNodeSetBlockPage b (q + 1)) with ht₃
  have hwrote : t₃.view = s.view.wrote isHot buffer spare (newBackup isBackup mft old) := by
    rw [hview₃, hview₂]
    rfl
  have hd₃ : DataInv t₃.view none := by
    rw [hwrote]
    exact hd.wrote haddr hq
  have hjournal₃ : t₃.rootTable.journal isHot = pmNodeSetBlockPage b (q + 1) := by
    rw [ht₃]
    cases isHot <;> rfl
  have hblock₃ : t₃.view.journalBlock isHot = b :=
    (congrArg pmNodeBlock hjournal₃).trans (pmNodeBlock_set (by omega) (by omega))
  have hpage₃ : t₃.view.journalPage isHot = q + 1 :=
    (congrArg pmNodePage hjournal₃).trans (pmNodePage_set (by omega))
  obtain ⟨hok₄, hview₄⟩ := t₃.closedFull_view isHot hok₃ hd₃ hblock₃.symm hpage₃.symm
  have hdone : DataWritten s (t₃.closedFull isHot b q) k isHot addr buffer
      (newLink isBackup mft old) (newBackup isBackup mft old) := by
    refine ⟨hok₄, ⟨spare, rfl, rfl, ?_⟩, t, u, hlook, hu, rfl⟩
    rw [hview₄, hwrote]
    rfl
  rw [if_pos rfl, wp_bind, wp_modify, wp_bind, wp_get]
  change wp (if pmNodePage (t₃.rootTable.journal isHot) = 63 then
    ubiWrite b 63 (.ofSpares (t₃.data.metaTable isHot)) .null else pure .success) _ E t₃
  rw [hjournal₃, pmNodePage_set (by omega), wp_ite]
  by_cases hfull : q + 1 = 63
  · rw [if_pos hfull, wp_ubiWrite hb']
    refine ⟨rfl, isBackup, old, hold, ?_⟩
    unfold FtlState.closedFull at hdone
    rw [if_pos hfull] at hdone
    exact hdone
  · rw [if_neg hfull, wp_pure]
    refine ⟨rfl, isBackup, old, hold, ?_⟩
    unfold FtlState.closedFull at hdone
    rw [if_neg hfull] at hdone
    exact hdone

/-- `s'` is left by a trim of one page. -/
structure DataTrimmed (s s' : FtlState) (k addr : Nat) (isBackup : Bool) : Prop where
  ok : BaseOk s' k
  view : s'.view = s.view.update addr invalidPmNode isBackup
  steps : ∃ t u, Looked s t (k + 1) (clusterIndex addr) ∧
    Accessed t u (k + 1) (clusterIndex addr) ∧ s' = u.updated addr invalidPmNode isBackup

theorem dataTrim_spec (h : BaseOk s (k + 1)) (hd : DataInv s.view none)
    (haddr : addr < ftlCapacity) :
    wp (dataWrite addr none isHot flag mft) (fun ret s' => ret = .success ∧
      ∃ isBackup old, s.view.OldVersion addr flag mft isBackup old ∧
        DataTrimmed s s' k addr isBackup) E s := by
  obtain ⟨hb, hb'⟩ := hd.range isHot
  unfold dataWrite
  rw [wp_bind]
  refine wp_mono_post (dataOldVersion_spec h hd.core haddr) ?_
  rintro ⟨isBackup, old, _⟩ t ⟨hlook, hold, rfl⟩
  have hview := hlook.view h
  have hblock : pmNodeBlock (t.rootTable.journal isHot) = s.view.journalBlock isHot := by
    rw [← hview]
    rfl
  have hmapping : t.mapping addr = s.view.mapping addr := by
    rw [← FtlState.view_mapping_eq haddr, hview]
  have hold₁ : t.mapping addr = invalidPmNode ∨ dataStartBlock ≤ pmNodeBlock (t.mapping addr) := by
    rw [hmapping]
    exact hd.core.mapped_block haddr
  have hupdate : wp (pmtUpdate addr invalidBlock invalidPage isBackup) (fun ret s' =>
      ret = .success ∧ ∃ isBackup old, s.view.OldVersion addr flag mft isBackup old ∧
        DataTrimmed s s' k addr isBackup) E t := by
    refine wp_mono_post (pmtUpdate_spec (hlook.ok h) haddr hold₁ (by simp)) ?_
    rintro _ w ⟨rfl, hok, hview', u, hu, rfl⟩
    rw [hview] at hview'
    exact ⟨rfl, isBackup, old, hold, hok, hview', t, u, hlook, hu, rfl⟩
  simp only [wp_bind, wp_get, hblock, wp_ite, wp_ubiReadStatus hb', wp_assert, wp_pure, if_true]
  split
  · exact hupdate
  · exact hupdate

end

theorem DataWritten.inv {s s' : FtlState} {k addr link : Nat} {isHot isBackup : Bool}
    {buffer : Buffer} (h : DataWritten s s' k isHot addr buffer link isBackup)
    (hd : DataInv s.view none) (haddr : addr < ftlCapacity)
    (hq : s.view.journalPage isHot < 63) : DataInv s'.view (s.view.shutBy isHot) := by
  have hcap := Platform.ubiCapacity_le
  obtain ⟨hb, hb'⟩ := hd.range isHot
  obtain ⟨spare, hw, _, hview⟩ := h.view
  have hwrote : DataInv (s.view.wrote isHot buffer spare isBackup) none :=
    hd.wrote (by rw [hw]; exact haddr) hq
  rw [hview]
  unfold DataView.wroteFull DataView.shutBy
  split
  · next hfull =>
      apply hwrote.closed
      have hjournal : (s.view.wrote isHot buffer spare isBackup).journal isHot =
          pmNodeSetBlockPage (s.view.journalBlock isHot) (s.view.journalPage isHot + 1) := by
        cases isHot <;> rfl
      refine (congrArg pmNodePage hjournal).trans ?_
      rw [pmNodePage_set (by omega), hfull]
  · exact hwrote

/-! ## Content -/

namespace DataInv

variable {v : DataView} {a : Nat} {isHot isBackup : Bool} {data : Buffer} {spare : Spare}

theorem entry_wrote (isBackup : Bool) (h : DataInv v none) (hq : v.journalPage isHot < 63) (ha : a < ftlCapacity) :
    (v.wrote isHot data spare isBackup).entry a =
      if a = spare.w0 then some (data, spare.w2) else v.entry a := by
  refine DataView.entry_written h.core (h.opened_journal isHot (by simp)) hq ?_ ?_ ha
  · intro a'
    cases isHot <;> rfl
  · intro b p
    cases isHot <;> rfl

/-- The last page of a block is never mapped. -/
theorem entry_closed {shut : Option Bool} (h : DataInv v shut) (ha : a < ftlCapacity) :
    (v.closed isHot).entry a = v.entry a := by
  have hmapping : (v.closed isHot).mapping = v.mapping := rfl
  unfold DataView.entry
  rw [hmapping]
  by_cases hinvalid : v.mapping a = invalidPmNode
  · rw [if_pos hinvalid, if_pos hinvalid]
  · obtain ⟨_, _, _, hp, _⟩ := h.core.mapped_word ha hinvalid
    have hpage : (v.closed isHot).page (pmNodeBlock (v.mapping a)) (pmNodePage (v.mapping a)) =
        v.page (pmNodeBlock (v.mapping a)) (pmNodePage (v.mapping a)) :=
      if_neg (by omega)
    rw [if_neg hinvalid, if_neg hinvalid, hpage]

theorem entry_wroteFull (h : DataInv v none) (hw : spare.w0 < ftlCapacity)
    (hq : v.journalPage isHot < 63) (ha : a < ftlCapacity) :
    (v.wroteFull isHot data spare isBackup).entry a =
      if a = spare.w0 then some (data, spare.w2) else v.entry a := by
  rw [← entry_wrote isBackup h hq ha]
  unfold DataView.wroteFull
  split
  · exact (h.wrote hw hq).entry_closed ha
  · rfl

end DataInv

end RansomTag

import RansomTag.Ftl.DataLayer

/-!
# Root tables on flash

A page mapping node is a page of the mapping blocks or the address of a cache
slot.  Whatever is cached, a commit leaves no address of RAM behind, so that
every page of the root blocks names mapping pages only, wherever the power
failed before.
-/

namespace RansomTag

open Program

/-! ## Root blocks -/

def IsRootBlock (b : Nat) : Prop := b = rootBlock0 ∨ b = rootBlock0 + 1

/-- The node is a data page of a mapping block. -/
def NandLocation (w : Nat) : Prop :=
  ∃ block page, w = pmNodeSetBlockPage block page ∧ pmtStartBlock ≤ block ∧
    block < dataStartBlock ∧ page < pagePerPhyBlock - 1

/-- The words of a root table name blocks of the tables that they are about. -/
structure Root.Placed (r : Root) : Prop where
  journal : ∀ isHot, dataStartBlock ≤ pmNodeBlock (r.journal isHot)
  reclaim : dataStartBlock ≤ pmNodeBlock r.reclaimJournal
  current : pmtStartBlock ≤ pmNodeBlock r.pmtCurrentBlock ∧
    pmNodeBlock r.pmtCurrentBlock < dataStartBlock
  spare : pmtStartBlock ≤ pmNodeBlock r.pmtReclaimBlock ∧
    pmNodeBlock r.pmtReclaimBlock < dataStartBlock
  bdt : pmNodeBlock r.bdtCurrentJournal = bdtBlock0 ∨
    pmNodeBlock r.bdtCurrentJournal = bdtBlock0 + 1
  hdi : pmNodeBlock r.hdiCurrentJournal = hdiBlock0 ∨
    pmNodeBlock r.hdiCurrentJournal = hdiBlock0 + 1

section

variable [Platform]

/-- A root table as it may stand on flash. -/
structure Root.OnFlash (r : Root) : Prop extends Root.Placed r where
  nodes : ∀ c, c < pmtClusterCount → NandLocation (r.pageMappingNodes c)

/-- The block is written with root tables up to page `q`. -/
structure RootBlock (f : Flash) (b q : Nat) : Prop where
  page_le : q ≤ 64
  filled : f.FilledTo b q
  tables : ∀ p data spare, p < q → f.page b p = .programmed data spare →
    (Root.ofBuffer data).OnFlash

def RootPages (f : Flash) : Prop := ∀ b, IsRootBlock b → ∃ q, RootBlock f b q

section

variable {f f' : Flash} {b p q c : Nat} {data : Buffer} {spare : Spare}

theorem RootBlock.congr (h : RootBlock f b q) (hpage : ∀ p, f'.page b p = f.page b p) :
    RootBlock f' b q := by
  refine ⟨h.page_le, ⟨fun p hp => ?_, fun p hle hlt => ?_⟩, fun p data spare hp hprog => ?_⟩
  · rw [hpage]
    exact h.filled.programmed p hp
  · rw [hpage]
    exact h.filled.erased p hle hlt
  · rw [hpage] at hprog
    exact h.tables p data spare hp hprog

theorem RootBlock.of_erased (h : ∀ p, f.page b p = .erased) : RootBlock f b 0 :=
  ⟨Nat.zero_le 64, ⟨fun p hp => absurd hp (Nat.not_lt_zero p), fun p _ _ => h p⟩,
    fun p _ _ hp => absurd hp (Nat.not_lt_zero p)⟩

/-- How far a block is written is seen from its pages. -/
theorem RootBlock.eq_of_filled (h : RootBlock f b q) {q' : Nat} (hfilled : f.FilledTo b q')
    (hq' : q' ≤ 64) : q = q' := by
  have hle := h.page_le
  rcases Nat.lt_trichotomy q q' with hlt | heq | hgt
  · obtain ⟨data, spare, hprog⟩ := hfilled.programmed q hlt
    rw [h.filled.erased q le_rfl (by omega)] at hprog
    cases hprog
  · exact heq
  · obtain ⟨data, spare, hprog⟩ := h.filled.programmed q' hgt
    rw [hfilled.erased q' le_rfl (by omega)] at hprog
    cases hprog

theorem RootPages.congr (h : RootPages f)
    (hpage : ∀ b, IsRootBlock b → ∀ p, f'.page b p = f.page b p) : RootPages f' := by
  intro b hb
  obtain ⟨q, hq⟩ := h b hb
  exact ⟨q, hq.congr (hpage b hb)⟩

theorem RootPages.erase (h : RootPages f) (b : Nat) : RootPages (f.erase b) := by
  intro b' hb'
  by_cases heq : b' = b
  · subst heq
    exact ⟨0, .of_erased fun _ => Flash.page_erase_same⟩
  · obtain ⟨q, hq⟩ := h b' hb'
    exact ⟨q, hq.congr fun _ => Flash.page_erase_other heq⟩

/-- One more root table is written behind the others. -/
theorem RootPages.program (h : RootPages f) (hb : IsRootBlock b) (hfilled : f.FilledTo b q)
    (hq : q < 64) (hdata : (Root.ofBuffer data).OnFlash) :
    RootPages (f.program b q data spare) := by
  have hnew : (f.program b q data spare).page b q = .programmed data spare :=
    Flash.page_program_erased (hfilled.erased q le_rfl hq)
  have hold : ∀ p, p ≠ q → (f.program b q data spare).page b p = f.page b p :=
    fun p hp => Flash.page_program_other fun h => hp h.2
  intro b' hb'
  by_cases heq : b' = b
  swap
  · obtain ⟨q', hq'⟩ := h b' hb'
    exact ⟨q', hq'.congr fun _ => Flash.page_program_other fun h => heq h.1⟩
  subst heq
  obtain ⟨q', hblock⟩ := h b' hb
  obtain rfl := hblock.eq_of_filled hfilled hq.le
  refine ⟨q' + 1, hq, ⟨fun p hp => ?_, fun p hle hlt => ?_⟩, fun p data' spare' hp hprog => ?_⟩
  · by_cases hlast : p = q'
    · subst hlast
      exact ⟨data, spare, hnew⟩
    · rw [hold p hlast]
      exact hfilled.programmed p (by omega)
  · rw [hold p (by omega)]
    exact hfilled.erased p (by omega) hlt
  · by_cases hlast : p = q'
    · subst hlast
      rw [hnew] at hprog
      cases hprog
      exact hdata
    · rw [hold p hlast] at hprog
      exact hblock.tables p data' spare' (by omega) hprog

end

/-! ## Every point where the power can fail -/

/-- No point of the run had anything but root tables in the root blocks. -/
def RootsKept (s : FtlState) : Prop := ∀ f, f = s.flash ∨ f ∈ s.past → RootPages f

section

variable {s s' : FtlState}

theorem RootsKept.flash (h : RootsKept s) : RootPages s.flash := h _ (.inl rfl)

theorem RootsKept.ran {blocks : Nat → Prop} (h : RootsKept s) (hran : Ran blocks s s')
    (hoff : ∀ b, IsRootBlock b → ¬ blocks b) : RootsKept s' := by
  obtain ⟨points, hpoints, hin⟩ := hran.past
  rintro f (rfl | hf)
  · exact h.flash.congr fun b hb => hran.flash.page (hoff b hb)
  · rw [hpoints] at hf
    rcases List.mem_append.mp hf with hf | hf
    · exact h.flash.congr fun b hb => (hin f hf).page (hoff b hb)
    · exact h f (.inr hf)

/-- `ROOT_Commit` writes a table that may stand on flash. -/
theorem RootsKept.rootCommitted (h : RootsKept s)
    (hlog : TableLog s.flash rootBlock0 s.root.currentBlock s.root.currentPage)
    (hroot : s.rootTable.OnFlash) : RootsKept s.rootCommitted := by
  have hdata : (Root.ofBuffer s.nextRoot.toBuffer).OnFlash :=
    ⟨⟨hroot.journal, hroot.reclaim, hroot.current, hroot.spare, hroot.bdt, hroot.hdi⟩, hroot.nodes⟩
  have hother : IsRootBlock (s.root.currentBlock ^^^ 1) := by
    rcases hlog.xor_block rfl with ⟨-, hx⟩ | ⟨-, hx⟩
    · exact .inr hx
    · exact .inl hx
  intro f hf
  change f = (s.append s.root.currentBlock s.root.currentPage s.nextRoot.toBuffer
    (.footprint 0)).flash ∨ f ∈ (s.append s.root.currentBlock s.root.currentPage
      s.nextRoot.toBuffer (.footprint 0)).past at hf
  by_cases hfull : s.root.currentPage = 64
  · rw [hfull, FtlState.append_full] at hf
    have herased := h.flash.erase (s.root.currentBlock ^^^ 1)
    rcases hf with rfl | hf
    · refine herased.program hother ⟨fun p hp => absurd hp (Nat.not_lt_zero p), fun p _ _ => ?_⟩
        (by decide) hdata
      exact Flash.page_erase_same
    · rcases List.mem_cons.mp hf with rfl | hf
      · exact herased
      rcases List.mem_cons.mp hf with rfl | hf
      · exact h.flash
      · exact h f (.inr hf)
  · rw [FtlState.append_of_ne s hfull] at hf
    have hpage := hlog.page
    rcases hf with rfl | hf
    · exact h.flash.program hlog.block hlog.filled (by omega) hdata
    rcases List.mem_cons.mp hf with rfl | hf
    · exact h.flash
    · exact h f (.inr hf)

end

end

end RansomTag

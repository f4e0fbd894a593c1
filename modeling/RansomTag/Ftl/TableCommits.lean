import Mathlib.Data.Nat.Bitwise
import RansomTag.Ftl.View

/-!
# Commits of the hot-data, dirty and root tables

Each of the three tables is a log over a pair of blocks.  A commit appends one
page, and takes the other block of the pair when the current one is full.
-/

namespace RansomTag

open Program

/-- Where the next page of a table goes. -/
def logSlot (b q : Nat) : Nat × Nat := if q = 64 then (b ^^^ 1, 0) else (b, q)

/-- Append a page to a table whose next page is `b`, `q`. -/
@[simps] def FtlState.append (s : FtlState) (b q : Nat) (data : Buffer) (spare : Spare) :
    FtlState :=
  { s with
    flash :=
      if q = 64 then (s.flash.erase (b ^^^ 1)).program (b ^^^ 1) 0 data spare
      else s.flash.program b q data spare
    past := if q = 64 then s.flash.erase (b ^^^ 1) :: s.flash :: s.past else s.flash :: s.past }

theorem FtlState.append_full (s : FtlState) (b : Nat) (data : Buffer) (spare : Spare) :
    s.append b 64 data spare = (s.erase (b ^^^ 1)).program (b ^^^ 1) 0 data spare := rfl

/-- A table goes on in the other one of its two blocks. -/
theorem xor_block_of {first b : Nat} (hb : b = first ∨ b = first + 1) (heven : first % 2 = 0) :
    (b = first ∧ b ^^^ 1 = first + 1) ∨ (b = first + 1 ∧ b ^^^ 1 = first) := by
  rcases hb with rfl | rfl
  · left
    exact ⟨rfl, Nat.xor_one_of_even (Nat.even_iff.mpr heven)⟩
  · right
    refine ⟨rfl, ?_⟩
    rw [Nat.xor_one_of_odd (Nat.odd_iff.mpr (by omega))]
    omega

theorem FtlState.append_of_ne (s : FtlState) {b q : Nat} (hq : q ≠ 64) (data : Buffer)
    (spare : Spare) : s.append b q data spare = s.program b q data spare := by
  unfold append program
  rw [if_neg hq, if_neg hq]

theorem FtlState.append_ran_of_block (s : FtlState) {first b q : Nat} {data : Buffer}
    {spare : Spare} (hb : b = first ∨ b = first + 1) (heven : first % 2 = 0) :
    Ran (fun b => b = first ∨ b = first + 1) s (s.append b q data spare) := by
  by_cases hq : q = 64
  · subst hq
    rw [FtlState.append_full]
    have hother : b ^^^ 1 = first ∨ b ^^^ 1 = first + 1 := by
      rcases xor_block_of hb heven with ⟨_, h⟩ | ⟨_, h⟩
      · exact .inr h
      · exact .inl h
    exact (Ran.erase hother).trans (Ran.program hother)
  · rw [FtlState.append_of_ne s hq]
    exact Ran.program hb

/-- The table of the two blocks `first` and `first + 1` is written up to `b`, `q`. -/
structure TableLog (flash : Flash) (first b q : Nat) : Prop where
  block : b = first ∨ b = first + 1
  page : q ≤ 64
  filled : flash.FilledTo b q

namespace TableLog

variable {s : FtlState} {f f' : Flash} {first b q : Nat} {data : Buffer} {spare : Spare}

theorem xor_block (h : TableLog f first b q) (heven : first % 2 = 0) :
    (b = first ∧ b ^^^ 1 = first + 1) ∨ (b = first + 1 ∧ b ^^^ 1 = first) :=
  xor_block_of h.block heven

theorem congr (h : TableLog f first b q)
    (hpage : ∀ b', b' = first ∨ b' = first + 1 → ∀ p, f'.page b' p = f.page b' p) :
    TableLog f' first b q := by
  refine ⟨h.block, h.page, ?_, ?_⟩
  · intro p hp
    rw [hpage b h.block]
    exact h.filled.programmed p hp
  · intro p hp hp'
    rw [hpage b h.block]
    exact h.filled.erased p hp hp'

theorem slot_lt (h : TableLog f first b q) : (logSlot b q).2 < 64 := by
  have := h.page
  unfold logSlot
  split
  · exact Nat.zero_lt_succ 63
  · change q < 64
    omega

theorem slot_block (h : TableLog f first b q) (heven : first % 2 = 0) :
    (logSlot b q).1 = first ∨ (logSlot b q).1 = first + 1 := by
  unfold logSlot
  split
  · rcases h.xor_block heven with ⟨_, h⟩ | ⟨_, h⟩
    · exact .inr h
    · exact .inl h
  · exact h.block

/-- The page just appended. -/
theorem append_page (h : TableLog s.flash first b q) :
    (s.append b q data spare).flash.page (logSlot b q).1 (logSlot b q).2 =
      .programmed data spare := by
  unfold logSlot
  rw [FtlState.append_flash]
  split
  · exact Flash.page_program_erased Flash.page_erase_same
  · have := h.page
    exact Flash.page_program_erased (h.filled.erased q le_rfl (by omega))

theorem append (h : TableLog s.flash first b q) (heven : first % 2 = 0) :
    TableLog (s.append b q data spare).flash first (logSlot b q).1 ((logSlot b q).2 + 1) := by
  refine ⟨h.slot_block heven, h.slot_lt, ?_, ?_⟩
  · intro p hp
    by_cases hlast : p = (logSlot b q).2
    · rw [hlast]
      exact ⟨data, spare, h.append_page⟩
    · unfold logSlot at hp hlast ⊢
      rw [FtlState.append_flash]
      split
      · next hq => simp only [hq, if_true] at hp hlast; omega
      · next hq =>
          simp only [hq, if_false] at hp hlast ⊢
          rw [Flash.page_program_other (by omega)]
          exact h.filled.programmed p (by omega)
  · intro p hp hp'
    unfold logSlot at hp ⊢
    rw [FtlState.append_flash]
    split
    · next hq =>
        simp only [hq, if_true] at hp ⊢
        rw [Flash.page_program_other (by omega)]
        exact Flash.page_erase_same
    · next hq =>
        simp only [hq, if_false] at hp ⊢
        rw [Flash.page_program_other (by omega)]
        exact h.filled.erased p (by omega) hp'

theorem append_ran (h : TableLog s.flash first b q) (heven : first % 2 = 0) :
    Ran (fun b => b = first ∨ b = first + 1) s (s.append b q data spare) :=
  s.append_ran_of_block h.block heven

end TableLog

/-- The logs of the three tables. -/
structure TablesInv (s : FtlState) : Prop where
  bdt : TableLog s.flash bdtBlock0 s.bdt.currentBlock s.bdt.currentPage
  root : TableLog s.flash rootBlock0 s.root.currentBlock s.root.currentPage
  hdi : TableLog s.flash hdiBlock0 s.hdi.currentBlock s.hdi.currentPage

theorem TablesInv.congr {s s' : FtlState} (h : TablesInv s)
    (hpage : ∀ b, b < 6 → ∀ p, s'.flash.page b p = s.flash.page b p)
    (hbdt : s'.bdt = s.bdt) (hroot : s'.root = s.root) (hhdi : s'.hdi = s.hdi) :
    TablesInv s' := by
  constructor
  · rw [hbdt]
    exact h.bdt.congr fun b hb => hpage b (by simp only [bdtBlock0] at hb; omega)
  · rw [hroot]
    exact h.root.congr fun b hb => hpage b (by simp only [rootBlock0] at hb; omega)
  · rw [hhdi]
    exact h.hdi.congr fun b hb => hpage b (by simp only [hdiBlock0] at hb; omega)

/-! ## The three commits -/

/-- The state that `HDI_Commit` leaves. -/
def FtlState.hdiCommitted (s : FtlState) : FtlState :=
  let slot := logSlot s.hdi.currentBlock s.hdi.currentPage
  { s.append s.hdi.currentBlock s.hdi.currentPage (.bytes s.hdi.hashTable) .null with
    rootTable := { s.rootTable with hdiCurrentJournal := pmNodeSetBlockPage slot.1 slot.2 }
    hdi := { s.hdi with currentBlock := slot.1, currentPage := slot.2 + 1 } }

/-- The state that `BDT_Commit` leaves. -/
def FtlState.bdtCommitted (s : FtlState) : FtlState :=
  let slot := logSlot s.bdt.currentBlock s.bdt.currentPage
  { s.append s.bdt.currentBlock s.bdt.currentPage (.bytes s.blockDirtyTable) .null with
    rootTable := { s.rootTable with bdtCurrentJournal := pmNodeSetBlockPage slot.1 slot.2 }
    bdt := ⟨slot.1, slot.2 + 1⟩ }

/-- The root table that `ROOT_Commit` writes. -/
def FtlState.nextRoot (s : FtlState) : Root :=
  let slot := logSlot s.root.currentBlock s.root.currentPage
  { s.rootTable with
    rootCurrentJournal := pmNodeSetBlockPage slot.1 slot.2
    rootEdition := s.root.edition }

/-- The state that `ROOT_Commit` leaves. -/
def FtlState.rootCommitted (s : FtlState) : FtlState :=
  let slot := logSlot s.root.currentBlock s.root.currentPage
  { s.append s.root.currentBlock s.root.currentPage s.nextRoot.toBuffer (.footprint 0) with
    rootTable := s.nextRoot
    root := ⟨slot.1, slot.2 + 1, (s.root.edition + 1) % 4294967296⟩ }

section

variable [Platform] {E : Stop → Prop} {s : FtlState} {Q : Status → FtlState → Prop}

theorem wp_hdiCommit_of_block
    (h : s.hdi.currentBlock = hdiBlock0 ∨ s.hdi.currentBlock = hdiBlock0 + 1) :
    wp hdiCommit Q E s ↔ Q .success s.hdiCommitted := by
  have hcap := Platform.ubiCapacity_ge
  have hb : s.hdi.currentBlock < ubiCapacity := by
    simp only [hdiBlock0] at h; omega
  have hb' : s.hdi.currentBlock ^^^ 1 < ubiCapacity := by
    have := xor_block_of h rfl; simp only [hdiBlock0] at this; omega
  unfold hdiCommit FtlState.hdiCommitted logSlot
  simp only [wp_bind, wp_get, wp_ite, wp_pure, wp_modify, wp_ubiErase, if_true, pagePerPhyBlock]
  by_cases hq : s.hdi.currentPage = 64
  · simp only [hq, if_true, wp_ubiWrite hb']
    rfl
  · simp only [hq, if_false, wp_ubiWrite hb, FtlState.append_of_ne s hq]
    rfl

theorem wp_hdiCommit (h : TableLog s.flash hdiBlock0 s.hdi.currentBlock s.hdi.currentPage) :
    wp hdiCommit Q E s ↔ Q .success s.hdiCommitted :=
  wp_hdiCommit_of_block h.block

theorem wp_bdtCommit_of_block
    (h : s.bdt.currentBlock = bdtBlock0 ∨ s.bdt.currentBlock = bdtBlock0 + 1) :
    wp bdtCommit Q E s ↔ Q .success s.bdtCommitted := by
  have hcap := Platform.ubiCapacity_ge
  have hb : s.bdt.currentBlock < ubiCapacity := by
    simp only [bdtBlock0] at h; omega
  have hb' : s.bdt.currentBlock ^^^ 1 < ubiCapacity := by
    have := xor_block_of h rfl; simp only [bdtBlock0] at this; omega
  unfold bdtCommit FtlState.bdtCommitted logSlot
  simp only [wp_bind, wp_get, wp_ite, wp_pure, wp_modify, wp_ubiErase, if_true, pagePerPhyBlock]
  by_cases hq : s.bdt.currentPage = 64
  · simp only [hq, if_true, wp_ubiWrite hb']
    rfl
  · simp only [hq, if_false, wp_ubiWrite hb, FtlState.append_of_ne s hq]
    rfl

theorem wp_bdtCommit (h : TableLog s.flash bdtBlock0 s.bdt.currentBlock s.bdt.currentPage) :
    wp bdtCommit Q E s ↔ Q .success s.bdtCommitted :=
  wp_bdtCommit_of_block h.block

theorem wp_rootCommit_of_block
    (h : s.root.currentBlock = rootBlock0 ∨ s.root.currentBlock = rootBlock0 + 1) :
    wp rootCommit Q E s ↔ Q .success s.rootCommitted := by
  have hcap := Platform.ubiCapacity_ge
  have hb : s.root.currentBlock < ubiCapacity := by
    simp only [rootBlock0] at h; omega
  have hb' : s.root.currentBlock ^^^ 1 < ubiCapacity := by
    have := xor_block_of h rfl; simp only [rootBlock0] at this; omega
  unfold rootCommit FtlState.rootCommitted FtlState.nextRoot logSlot
  simp only [wp_bind, wp_get, wp_ite, wp_pure, wp_modify, wp_ubiErase, if_true, pagePerPhyBlock]
  by_cases hq : s.root.currentPage = 64
  · simp only [hq, if_true, wp_ubiWrite hb']
    rfl
  · simp only [hq, if_false, wp_ubiWrite hb, FtlState.append_of_ne s hq]
    rfl

theorem wp_rootCommit (h : TableLog s.flash rootBlock0 s.root.currentBlock s.root.currentPage) :
    wp rootCommit Q E s ↔ Q .success s.rootCommitted :=
  wp_rootCommit_of_block h.block

end

/-! ## What the commits keep -/

section

variable {s : FtlState}

theorem FtlState.hdiCommitted_ran (h : TablesInv s) :
    Ran (fun b => b = 4 ∨ b = 5) s s.hdiCommitted :=
  (h.hdi.append_ran rfl).trans (.of_eq rfl rfl)

theorem FtlState.bdtCommitted_ran (h : TablesInv s) :
    Ran (fun b => b = 0 ∨ b = 1) s s.bdtCommitted :=
  (h.bdt.append_ran rfl).trans (.of_eq rfl rfl)

theorem FtlState.rootCommitted_ran (h : TablesInv s) :
    Ran (fun b => b = 2 ∨ b = 3) s s.rootCommitted :=
  (h.root.append_ran rfl).trans (.of_eq rfl rfl)

theorem TablesInv.hdiCommitted (h : TablesInv s) : TablesInv s.hdiCommitted := by
  have hpage := (s.hdiCommitted_ran h).flash
  refine ⟨h.bdt.congr ?_, h.root.congr ?_, h.hdi.append rfl⟩
  · intro b hb
    exact hpage.page (by simp only [bdtBlock0] at hb; omega)
  · intro b hb
    exact hpage.page (by simp only [rootBlock0] at hb; omega)

theorem TablesInv.bdtCommitted (h : TablesInv s) : TablesInv s.bdtCommitted := by
  have hpage := (s.bdtCommitted_ran h).flash
  refine ⟨h.bdt.append rfl, h.root.congr ?_, h.hdi.congr ?_⟩
  · intro b hb
    exact hpage.page (by simp only [rootBlock0] at hb; omega)
  · intro b hb
    exact hpage.page (by simp only [hdiBlock0] at hb; omega)

theorem TablesInv.rootCommitted (h : TablesInv s) : TablesInv s.rootCommitted := by
  have hpage := (s.rootCommitted_ran h).flash
  refine ⟨h.bdt.congr ?_, h.root.append rfl, h.hdi.congr ?_⟩
  · intro b hb
    exact hpage.page (by simp only [bdtBlock0] at hb; omega)
  · intro b hb
    exact hpage.page (by simp only [hdiBlock0] at hb; omega)

end

end RansomTag

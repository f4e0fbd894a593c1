import RansomTag.Ftl.RootLog
import RansomTag.Ftl.Calls

/-!
# Mounting the tables

`FTL_Init` up to the replay of the journals.  `Image` says which root table and
which block dirty table a flash restores, and `Mounted` what the state is then.
-/

namespace RansomTag

open Program

/-- The page of a table that the word `w` of the root table points to; the log of
the table goes on up to page `q` of the same block. -/
structure TableAt (f : Flash) (first w q : Nat) (data : Buffer) : Prop where
  log : TableLog f first (pmNodeBlock w) q
  page : pmNodePage w < q
  stored : ∃ spare, f.page (pmNodeBlock w) (pmNodePage w) = .programmed data spare

theorem TableAt.congr {f f' : Flash} {first w q : Nat} {data : Buffer}
    (h : TableAt f first w q data)
    (hpage : ∀ b', b' = first ∨ b' = first + 1 → ∀ p, f'.page b' p = f.page b' p) :
    TableAt f' first w q data := by
  refine ⟨h.log.congr hpage, h.page, ?_⟩
  rw [hpage _ h.log.block]
  exact h.stored

/-- The tables that a flash restores at a mount. -/
structure Image (f : Flash) (r : Root) (table : Buffer) (b q e : Nat) : Prop where
  root : RootLog f b q e
  last : RootAt f b q r
  bdt : ∃ q', TableAt f bdtBlock0 r.bdtCurrentJournal q' table
  hdi : ∃ q' hash, TableAt f hdiBlock0 r.hdiCurrentJournal q' hash

/-- The state after the block dirty table was read, without a release of flags. -/
def FtlState.bdtLoaded (s : FtlState) (q : Nat) (table : Buffer) : FtlState :=
  { s with
    bdt := ⟨pmNodeBlock s.rootTable.bdtCurrentJournal, q⟩
    blockDirtyTable := .ofFn table.byte }

/-- The state after the hot-data table was read. -/
def FtlState.hdiLoaded (s : FtlState) (q : Nat) (hash : Buffer) : FtlState :=
  { s with hdi := { s.hdi with
    hashTable := .ofFn hash.byte
    currentBlock := pmNodeBlock s.rootTable.hdiCurrentJournal
    currentPage := q } }

section

variable [Platform] {s : FtlState} {b p q n first w : Nat} {table hash : Buffer}
  {E : Stop → Prop}

theorem firstUnreadable_spec (hb : b < ubiCapacity) (h : s.flash.FilledTo b q) (hq : q ≤ 64)
    (hp : p ≤ q) (hn : p + n = 64) :
    wp (firstUnreadable b n p) (fun p' s' => p' = q ∧ s' = s) E s := by
  induction n generalizing p with
  | zero =>
      obtain rfl : p = q := by omega
      exact ⟨rfl, rfl⟩
  | succ n ih =>
      unfold firstUnreadable
      rw [wp_bind]
      by_cases hpq : p < q
      · obtain ⟨data, spare, hprog⟩ := h.programmed p hpq
        rw [wp_ubiRead_programmed hb (by omega) hprog, if_pos rfl]
        exact ih (by omega) (by omega)
      · obtain rfl : p = q := by omega
        rw [wp_ubiRead_erased hb (by omega) (h.erased p le_rfl (by omega)),
          if_neg (by simp), wp_pure]
        exact ⟨rfl, rfl⟩

theorem TableAt.range (h : TableAt s.flash first w q table) (hfirst : first ≤ 4) :
    pmNodeBlock w < ubiCapacity ∧ pmNodePage w < 64 := by
  have := Platform.ubiCapacity_ge
  have hblock := h.log.block
  have hpage := h.page
  have hq := h.log.page
  omega

theorem bdtInit_spec (h : TableAt s.flash bdtBlock0 s.rootTable.bdtCurrentJournal q table)
    (hcount : s.rootTable.backupBlockCount < threshold) :
    wp bdtInit (fun ret s' => ret = .success ∧ s' = (s.bdtLoaded q table).bdtCommitted) E s := by
  obtain ⟨hb, hp⟩ := h.range (by simp only [bdtBlock0]; omega)
  obtain ⟨spare, hprog⟩ := h.stored
  have hq := h.log.page
  have hpage := h.page
  have hrelease : ¬ threshold ≤ s.rootTable.backupBlockCount := by omega
  unfold bdtInit
  simp only [wp_bind, wp_modify, wp_get]
  refine Iff.mpr (wp_ubiRead_programmed hb hp hprog) ?_
  simp only [wp_assert, if_true, hrelease, if_false]
  refine wp_mono_post (firstUnreadable_spec (q := q) hb h.log.filled hq (by omega)
    (by simp only [pagePerPhyBlock]; omega)) ?_
  rintro q t ⟨rfl, rfl⟩
  have hcommit := wp_bdtCommit (E := E) (s := s.bdtLoaded q table) (Q := fun _ s' =>
    .success = Status.success ∧ s' = (s.bdtLoaded q table).bdtCommitted) h.log
  exact hcommit.mpr ⟨rfl, rfl⟩

theorem hdiInit_spec (h : TableAt s.flash hdiBlock0 s.rootTable.hdiCurrentJournal q hash)
    (hbdt : TableLog s.flash bdtBlock0 s.bdt.currentBlock s.bdt.currentPage) :
    wp hdiInit (fun ret s' => ret = .success ∧ s' = (s.hdiLoaded q hash).bdtCommitted) E s := by
  obtain ⟨hb, hp⟩ := h.range (by simp only [hdiBlock0]; omega)
  obtain ⟨spare, hprog⟩ := h.stored
  have hq := h.log.page
  have hpage := h.page
  unfold hdiInit
  simp only [wp_bind, wp_modify, wp_get]
  refine Iff.mpr (wp_ubiRead_programmed hb hp hprog) ?_
  simp only [wp_assert, if_true]
  refine wp_mono_post (firstUnreadable_spec (q := q) hb h.log.filled hq (by omega)
    (by simp only [pagePerPhyBlock]; omega)) ?_
  rintro q t ⟨rfl, rfl⟩
  have hcommit := wp_bdtCommit (E := E) (s := s.hdiLoaded q hash) (Q := fun _ s' =>
    .success = Status.success ∧ s' = (s.hdiLoaded q hash).bdtCommitted) hbdt
  exact hcommit.mpr ⟨rfl, rfl⟩

end

end RansomTag

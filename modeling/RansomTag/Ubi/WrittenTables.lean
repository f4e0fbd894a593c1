import RansomTag.Ubi.WearLeveling

/-!
# The tables on the NAND

A table of the block layer goes to the next page of its block, so that the block holds
the versions of the table in order and the last page that was written is the valid one.
Between two calls this holds of the area tables, the index table and the anchor table.
-/

namespace RansomTag

variable {pages : Nat → NandPage} {next : Nat} {table : Words}

/-- A table has been written to each page before `next`, and the others are erased. -/
structure WrittenPages (pages : Nat → NandPage) (next : Nat) : Prop where
  le : next ≤ pagePerPhyBlock
  written : ∀ page < next, ∃ data, pages page = .programmed data fun _ => 0
  fresh : ∀ page, next ≤ page → page < pagePerPhyBlock → pages page = .erased

/-- The last of the tables that were written is `table`. -/
structure WrittenTable (pages : Nat → NandPage) (next : Nat) (table : Words) : Prop extends
    WrittenPages pages next where
  pos : 0 < next
  last : pages (next - 1) = .programmed table fun _ => 0

theorem writtenPages_erased (h : ∀ page < pagePerPhyBlock, pages page = .erased) :
    WrittenPages pages 0 where
  le := Nat.zero_le _
  written := fun page hpage => absurd hpage (Nat.not_lt_zero page)
  fresh := fun page _ hpage => h page hpage

theorem WrittenPages.write (h : WrittenPages pages next) (hnext : next < pagePerPhyBlock)
    (table : Words) :
    WrittenTable (Function.update pages next (.programmed table fun _ => 0)) (next + 1) table where
  le := hnext
  written := by
    intro page hpage
    rcases Nat.lt_or_eq_of_le (Nat.le_of_lt_succ hpage) with hlt | rfl
    · rw [Function.update_of_ne (Nat.ne_of_lt hlt)]
      exact h.written page hlt
    · exact ⟨table, Function.update_self page _ pages⟩
  fresh := by
    intro page hle hlt
    rw [Function.update_of_ne (Nat.ne_of_gt hle)]
    exact h.fresh page (Nat.le_of_succ_le hle) hlt
  pos := Nat.succ_pos next
  last := Function.update_self next _ pages

theorem WrittenTable.of_eq (h : WrittenTable pages next table) {pages' : Nat → NandPage}
    {next' : Nat} (hpages : pages' = pages) (hnext : next' = next) :
    WrittenTable pages' next' table := by
  rw [hpages, hnext]
  exact h

/-- The question of the search in `TABLE_Read`. -/
def tableProbe (nand : Nand) (block : Nat) (unset : Words) (mid : Nat) (footprint : Words) :
    Bool × Words :=
  let (ret, buffers) := mtdReadPage nand block mid (unset, footprint)
  (decide (ret = .success ∧ buffers.2 0 ≠ noFootprint), buffers.2)

/-- What `TABLE_Read` makes of the end of its search. -/
def tableFound (nand : Nand) (block : Nat) (unset : Words) (found : Nat × Nat × Words) :
    TablePage :=
  let (head, tail, footprint) := found
  let mid := (head + tail) / 2
  let (ret, buffers) := mtdReadPage nand block mid (unset, footprint)
  if ret = .success ∧ buffers.2 0 ≠ noFootprint then ⟨.success, mid, buffers.1⟩
  else ⟨.failure, invalidPage, buffers.1⟩

theorem tableReadPage_of_bisect {nand : Nand} {block : Nat} {unset : Words}
    {found : Nat × Nat × Words}
    (h : Bisection.bisect (tableProbe nand block unset) 0 pagePerPhyBlock (fun _ => 0) = found) :
    tableReadPage nand block invalidPage unset = tableFound nand block unset found := by
  unfold tableReadPage
  rw [if_neg (not_not_intro rfl)]
  unfold tableProbe at h
  simp only [h]
  rfl

/-- `TABLE_Read` without a page finds the last table. -/
theorem WrittenTable.read {nand : Nand} {block : Nat} (h : WrittenTable (nand block) next table)
    (unset : Words) : tableReadPage nand block invalidPage unset = ⟨.success, next - 1, table⟩ := by
  have hle := h.le
  have hpos := h.pos
  have hprobe : ∀ page footprint, 0 < page → page < pagePerPhyBlock →
      ((tableProbe nand block unset page footprint).1 = true ↔ page < next) := by
    intro page footprint _ hpage
    unfold tableProbe mtdReadPage
    by_cases hbefore : page < next
    · obtain ⟨data, hdata⟩ := h.written page hbefore
      rw [hdata]
      exact iff_of_true rfl hbefore
    · rw [h.fresh page (Nat.le_of_not_lt hbefore) hpage]
      exact iff_of_false Bool.false_ne_true hbefore
  obtain ⟨footprint, hsearch⟩ := Bisection.bisect_eq (by decide) (Nat.zero_le (next - 1))
    (by omega) hprobe fun _ => 0
  have hmid : (next - 1 + (next - 1 + 1)) / 2 = next - 1 := by omega
  have hfootprint : (0 : Nat) ≠ noFootprint := by decide
  rw [tableReadPage_of_bisect hsearch]
  simp only [tableFound, hmid, mtdReadPage, h.last]
  rw [if_pos ⟨trivial, hfootprint⟩]

/-- `TABLE_Read` of the first page of a block without tables. -/
theorem tableReadPage_unreadable {nand : Nand} {block : Nat} {unset : Words}
    (h : ∀ data spare, nand block 0 ≠ .programmed data spare) :
    (tableReadPage nand block 0 unset).status = .failure := by
  have hread (buffers : Words × Words) :
      mtdReadPage nand block 0 buffers = (.failure, buffers) := by
    unfold mtdReadPage
    cases hpage : nand block 0 with
    | programmed data spare => exact absurd hpage (h data spare)
    | erased => rfl
    | torn => rfl
  unfold tableReadPage
  rw [if_pos (by decide)]
  simp only [Bisection.bisect_of_eq, hread, Nat.zero_add, Nat.zero_div, reduceCtorEq, false_and,
    if_false]

variable [UbiGeometry] {s s' : UbiState} {tables : Nat → Words} {free : List FreeBlock} {n : Nat}

/-! ## Blocks in use -/

/-- The block has one of the uses. -/
def InUse (s : UbiState) (tables : Nat → Words) (free : List FreeBlock) (block : Nat) : Prop :=
  ∃ o, Uses s tables free o block

theorem inUse_iff {block : Nat} :
    InUse s tables free block ↔
      (∃ a i, Uses s tables free (.mapped a i) block) ∨
        (∃ a < areaCount, s.areaIndexTable a = block) ∨ s.indexBlock = block ∨
          block ∈ free.map FreeBlock.block ∨
            anchorFirstBlock ≤ block ∧ block ≤ anchorLastBlock := by
  constructor
  · rintro ⟨o, huse⟩
    cases o with
    | mapped a i => exact Or.inl ⟨a, i, huse⟩
    | areaTable a => exact Or.inr (Or.inl ⟨a, huse⟩)
    | index => exact Or.inr (Or.inr (Or.inl huse))
    | free => exact Or.inr (Or.inr (Or.inr (Or.inl huse)))
    | anchor => exact Or.inr (Or.inr (Or.inr (Or.inr huse)))
  · rintro (⟨a, i, huse⟩ | ⟨a, huse⟩ | huse | huse | huse)
    · exact ⟨.mapped a i, huse⟩
    · exact ⟨.areaTable a, huse⟩
    · exact ⟨.index, huse⟩
    · exact ⟨.free, huse⟩
    · exact ⟨.anchor, huse⟩

/-- A write of the index table leaves the blocks in use. -/
theorem IndexWritten.inUse {free' : List FreeBlock} (h : IndexWritten s s' tables free free')
    (block : Nat) : InUse s' tables free' block ↔ InUse s tables free block := by
  have hmem := congrArg (block ∈ ·) h.conserved
  simp only [Multiset.mem_add, Multiset.mem_coe, Multiset.mem_singleton, eq_iff_iff] at hmem
  rw [inUse_iff, inUse_iff, h.same.areaIndexTable]
  simp only [eq_comm (a := s'.indexBlock), eq_comm (a := s.indexBlock)]
  refine or_congr Iff.rfl (or_congr Iff.rfl ?_)
  rw [← or_assoc, ← or_assoc, or_comm (a := block = s'.indexBlock),
    or_comm (a := block = s.indexBlock), hmem]

/-! ## Erase counts -/

/-- No block has been erased more than `n` times. -/
structure WornAtMost (s : UbiState) (tables : Nat → Words) (free : List FreeBlock) (n : Nat) :
    Prop where
  free : ∀ e ∈ free, e.ec ≤ n
  mapped : ∀ area < areaCount, ∀ offset < phyBlockPerArea,
    areaPhysicalBlock (tables area) offset ≠ invalidBlock →
      areaPhysicalBlockEc (tables area) offset ≤ n
  areaTable : ∀ area < areaCount, s.areaIndexEct area ≤ n
  index : s.indexBlockEc ≤ n

theorem WornAtMost.mono (h : WornAtMost s tables free n) {n' : Nat} (hle : n ≤ n') :
    WornAtMost s tables free n' where
  free e he := (h.free e he).trans hle
  mapped area harea offset hoffset hmapped := (h.mapped area harea offset hoffset hmapped).trans hle
  areaTable area harea := (h.areaTable area harea).trans hle
  index := h.index.trans hle

/-! ## The anchor table -/

/-- What `ANCHOR_Init` requires of a table: `total_data_block`, `version` and `oath`. -/
def anchorValid (table : Words) : Bool :=
  table 5 ≠ invalidBlock ∧ table 10 = 123 ∧ table 7 = 1330389065 ∧ table 8 = 1461732694 ∧
    table 9 % 16777216 = 2184019

/-- The anchor blocks: the current one is good and holds the tables, another one is good,
and no other one can be read. -/
structure AnchorBlocks (s : UbiState) : Prop where
  current : anchorFirstBlock ≤ s.anchorBlock ∧ s.anchorBlock ≤ anchorLastBlock
  good : anchorIsBadBlock s.anchorTable s.anchorBlock = false
  other : ∃ block, anchorFirstBlock ≤ block ∧ block ≤ anchorLastBlock ∧
    block ≠ s.anchorBlock ∧ anchorIsBadBlock s.anchorTable block = false
  pages : WrittenPages (s.nand s.anchorBlock) s.anchorNextPage
  others : ∀ block, anchorFirstBlock ≤ block → block ≤ anchorLastBlock → block ≠ s.anchorBlock →
    ∀ data spare, s.nand block 0 ≠ .programmed data spare
  valid : anchorValid s.anchorTable = true

/-- The anchor table is on the NAND, and names the index block. -/
structure AnchorStored (s : UbiState) : Prop extends AnchorBlocks s where
  stored : WrittenTable (s.nand s.anchorBlock) s.anchorNextPage s.anchorTable
  indexBlock : s.anchorTable 0 = s.indexBlock
  indexBlockEc : s.anchorTable 1 = s.indexBlockEc

theorem AnchorBlocks.ready (h : AnchorBlocks s) : AnchorReady s where
  block := h.current
  page_le := h.pages.le
  fresh := h.pages.fresh
  other := h.other

theorem AnchorBlocks.of_same (h : AnchorBlocks s) (htable : s'.anchorTable = s.anchorTable)
    (hblock : s'.anchorBlock = s.anchorBlock) (hpage : s'.anchorNextPage = s.anchorNextPage)
    (hnand : ∀ b, anchorFirstBlock ≤ b → b ≤ anchorLastBlock → s'.nand b = s.nand b) :
    AnchorBlocks s' := by
  constructor
  · rw [hblock]
    exact h.current
  · rw [hblock, htable]
    exact h.good
  · rw [hblock, htable]
    exact h.other
  · rw [hblock, hpage, hnand _ h.current.1 h.current.2]
    exact h.pages
  · intro b hfirst hlast hb
    rw [hnand b hfirst hlast]
    exact h.others b hfirst hlast (hblock ▸ hb)
  · rw [htable]
    exact h.valid

theorem AnchorStored.of_same (h : AnchorStored s) (htable : s'.anchorTable = s.anchorTable)
    (hblock : s'.anchorBlock = s.anchorBlock) (hpage : s'.anchorNextPage = s.anchorNextPage)
    (hindex : s'.indexBlock = s.indexBlock ∧ s'.indexBlockEc = s.indexBlockEc)
    (hnand : ∀ b, anchorFirstBlock ≤ b → b ≤ anchorLastBlock → s'.nand b = s.nand b) :
    AnchorStored s' where
  toAnchorBlocks := h.toAnchorBlocks.of_same htable hblock hpage hnand
  stored := by
    rw [htable, hblock, hpage, hnand _ h.current.1 h.current.2]
    exact h.stored
  indexBlock := by
    rw [htable, hindex.1]
    exact h.indexBlock
  indexBlockEc := by
    rw [htable, hindex.2]
    exact h.indexBlockEc

/-- The search stops at a good block, or comes back. -/
theorem anchorFindLoop_good {nand nand' : Nand} {table : Words} {current next : Nat}
    {n block : Nat} (h : anchorFindLoop nand table current n block = .ok (next, nand'))
    (hne : next ≠ current) :
    anchorIsBadBlock table next = false ∧ nand' = mtdErase nand next := by
  induction n generalizing block with
  | zero => cases h
  | succ n ih =>
      rw [anchorFindLoop] at h
      generalize (if block + 1 > anchorLastBlock then anchorFirstBlock else block + 1) = following at h
      split_ifs at h with hgood hlast
      · cases h
        exact ⟨hgood, rfl⟩
      · exact ih h
      · cases h
        exact absurd (not_not.mp hlast) hne

omit [UbiGeometry] in
theorem anchorValid_congr {table table' : Words} (h : ∀ w, w ∉ [0, 1, 2, 3, 4] → table' w = table w) :
    anchorValid table' = anchorValid table := by
  simp only [anchorValid, h 5 (by decide), h 7 (by decide), h 8 (by decide), h 9 (by decide),
    h 10 (by decide)]

/-- What `ANCHOR_Update` leaves. -/
structure AnchorUpdated (s : UbiState) (nand : Nand) (table : Words) (block page : Nat) :
    Prop where
  outside : ∀ b, ¬(anchorFirstBlock ≤ b ∧ b ≤ anchorLastBlock) → nand b = s.nand b
  words : ∀ w, w ≠ 4 → table w = s.anchorTable w
  blocks : AnchorBlocks { s with
    nand := nand, anchorTable := table, anchorBlock := block, anchorNextPage := page }
  stored : WrittenTable (nand block) page table

/-- The anchor table goes to the next page of its block. -/
theorem AnchorBlocks.update_next (h : AnchorBlocks s) (hnext : s.anchorNextPage ≠ pagePerPhyBlock) :
    ∃ nand table block page, anchorUpdate s = .ok (.success, { s with
        nand := nand, anchorTable := table, anchorBlock := block, anchorNextPage := page }) ∧
      AnchorUpdated s nand table block page := by
  have hlt := Nat.lt_of_le_of_ne h.pages.le hnext
  have herased := h.pages.fresh s.anchorNextPage le_rfl hlt
  have hwritten := h.pages.write hlt s.anchorTable
  have hother : ∀ b, b ≠ s.anchorBlock → s.nand.update s.anchorBlock s.anchorNextPage
      (.programmed s.anchorTable fun _ => 0) b = s.nand b := fun b hb => Nand.update_other hb
  have hself : s.nand.update s.anchorBlock s.anchorNextPage
      (.programmed s.anchorTable fun _ => 0) s.anchorBlock =
        Function.update (s.nand s.anchorBlock) s.anchorNextPage
          (.programmed s.anchorTable fun _ => 0) := Function.update_self _ _ _
  refine ⟨s.nand.update s.anchorBlock s.anchorNextPage (.programmed s.anchorTable fun _ => 0),
    s.anchorTable, s.anchorBlock, s.anchorNextPage + 1, ?_, ?_, fun _ _ => rfl, ?_, ?_⟩
  · rw [anchorUpdate, if_neg hnext, tableWritePage_erased herased]
    rfl
  · intro b hb
    refine hother b ?_
    rintro rfl
    exact hb h.current
  · refine ⟨h.current, h.good, h.other, ?_, fun b hfirst hlast hb => ?_, h.valid⟩
    · change WrittenPages (s.nand.update _ _ _ s.anchorBlock) _
      rw [hself]
      exact hwritten.toWrittenPages
    · change ∀ data spare, s.nand.update _ _ _ b 0 ≠ _
      rw [hother b hb]
      exact h.others b hfirst hlast hb
  · rw [hself]
    exact hwritten

/-- A full anchor block is given up for the next good one, and erased behind it. -/
theorem AnchorBlocks.update_full (h : AnchorBlocks s) (hfull : s.anchorNextPage = pagePerPhyBlock) :
    ∃ nand table block page, anchorUpdate s = .ok (.success, { s with
        nand := nand, anchorTable := table, anchorBlock := block, anchorNextPage := page }) ∧
      AnchorUpdated s nand table block page := by
  obtain ⟨good, hfirst, hlast, hne, hgood⟩ := h.other
  obtain ⟨table, htable⟩ : ∃ table, table = Function.update s.anchorTable 4 s.anchorBlock :=
    ⟨_, rfl⟩
  have hwords : ∀ w, w ≠ 4 → table w = s.anchorTable w := by
    intro w hw
    rw [htable, Function.update_of_ne hw]
  have hbad : ∀ b, anchorIsBadBlock table b = anchorIsBadBlock s.anchorTable b :=
    fun b => anchorIsBadBlock_congr fun w hw => hwords w (by omega)
  have hcurrent := h.current
  obtain ⟨next, hnext, hnext', hother, hfind⟩ := anchorFindLoop_spec s.nand ⟨hfirst, hlast⟩
    h.current ((hbad good).trans hgood) (anchorLastBlock + 1) s.anchorBlock h.current
    (by unfold anchorDistance; simp only [anchorFirstBlock] at *; split_ifs <;> omega)
    (by unfold anchorDistance; simp only [anchorFirstBlock] at *; split_ifs <;> omega)
  obtain ⟨hnextGood, -⟩ := anchorFindLoop_good hfind hother
  have herased : ∀ page, mtdErase s.nand next next page = .erased := by
    intro page
    rw [mtdErase, Function.update_self]
  have hpages := (writtenPages_erased fun page _ => herased page).write (by decide) table
  obtain ⟨nand, hnand⟩ : ∃ nand, nand = mtdErase ((mtdErase s.nand next).update next 0
      (.programmed table fun _ => 0)) s.anchorBlock := ⟨_, rfl⟩
  have hself : nand next = Function.update (mtdErase s.nand next next) 0
      (.programmed table fun _ => 0) := by
    rw [hnand, mtdErase_other hother]
    exact Function.update_self _ _ _
  have hold : ∀ page, nand s.anchorBlock page = .erased := by
    intro page
    rw [hnand, mtdErase, Function.update_self]
  have hrest : ∀ b, b ≠ next → b ≠ s.anchorBlock → nand b = s.nand b := by
    intro b hbnext hbold
    rw [hnand, mtdErase_other hbold, Nand.update_other hbnext, mtdErase_other hbnext]
  refine ⟨nand, table, next, 1, ?_, fun b hb => ?_, hwords, ?_, ?_⟩
  · rw [anchorUpdate, if_pos hfull]
    simp only [anchorFindNextBlock, ← htable, hfind, bind, Except.bind, if_pos hother, if_true,
      tableWritePage_erased (herased 0), hnand]
  · refine hrest b ?_ ?_
    · rintro rfl
      exact hb ⟨hnext, hnext'⟩
    · rintro rfl
      exact hb hcurrent
  · refine ⟨⟨hnext, hnext'⟩, hnextGood, ⟨s.anchorBlock, hcurrent.1, hcurrent.2, hother.symm,
      (hbad _).trans h.good⟩, ?_, fun b hbfirst hblast hb => ?_, ?_⟩
    · change WrittenPages (nand next) 1
      rw [hself]
      exact hpages.toWrittenPages
    · intro data spare
      change nand b 0 ≠ _
      by_cases hbold : b = s.anchorBlock
      · rw [hbold, hold 0]
        exact NandPage.noConfusion
      · rw [hrest b hb hbold]
        exact h.others b hbfirst hblast hbold data spare
    · rw [← h.valid]
      refine anchorValid_congr fun w hw => hwords w ?_
      rintro rfl
      exact hw (by decide)
  · rw [hself]
    exact hpages

/-- `ANCHOR_Update` puts the anchor table on the NAND. -/
theorem AnchorBlocks.update (h : AnchorBlocks s) :
    ∃ nand table block page, anchorUpdate s = .ok (.success, { s with
        nand := nand, anchorTable := table, anchorBlock := block, anchorNextPage := page }) ∧
      AnchorUpdated s nand table block page := by
  by_cases hfull : s.anchorNextPage = pagePerPhyBlock
  · exact h.update_full hfull
  · exact h.update_next hfull

/-! ## The index table -/

theorem Represents.unique {t : FreeTable} {l l' : List FreeBlock} (h : Represents t l)
    (h' : Represents t l') : l = l' :=
  h.validEntries_eq.symm.trans h'.validEntries_eq

/-- The index table of the state is on the NAND. -/
structure IndexStored (s : UbiState) : Prop where
  block : s.indexBlock ≠ invalidBlock
  stored : WrittenTable (s.nand s.indexBlock) s.indexNextPage (indexTable s)

theorem IndexWritten.free_ne {free' : List FreeBlock} (h : IndexWritten s s' tables free free')
    (hfree : free ≠ []) : free' ≠ [] := by
  have hcard := congrArg Multiset.card h.conserved
  simp only [Multiset.card_add, Multiset.coe_card, List.length_map, Multiset.card_singleton,
    Nat.add_right_cancel_iff] at hcard
  rw [← List.length_pos_iff] at hfree ⊢
  omega

/-- What a write of the index table leaves on the NAND. -/
structure IndexUpdated (s s' : UbiState) (tables : Nat → Words) (free free' : List FreeBlock)
    (n : Nat) : Prop where
  written : IndexWritten s s' tables free free'
  index : IndexStored s'
  anchor : AnchorStored s'
  freeWorn : ∀ e ∈ free', e.ec ≤ n + 1
  indexWorn : s'.indexBlockEc ≤ n + 1

/-- The index table goes to the next page of its block. -/
theorem indexUpdate_next (h : Owned s tables free) (hblock : s.indexBlock ≠ invalidBlock)
    (hpages : WrittenPages (s.nand s.indexBlock) s.indexNextPage) (hanchor : AnchorStored s)
    (hfreeWorn : ∀ e ∈ free, e.ec ≤ n) (hindexWorn : s.indexBlockEc ≤ n)
    (hnext : s.indexNextPage ≠ pagePerPhyBlock) :
    ∃ s' free', indexUpdate s = .ok (.success, s') ∧ IndexUpdated s s' tables free free' n := by
  have hlt := Nat.lt_of_le_of_ne hpages.le hnext
  have herased := hpages.fresh s.indexNextPage le_rfl hlt
  have hself : s.nand.update s.indexBlock s.indexNextPage
      (.programmed (indexTable s) fun _ => 0) s.indexBlock =
        Function.update (s.nand s.indexBlock) s.indexNextPage
          (.programmed (indexTable s) fun _ => 0) := Function.update_self _ _ _
  have hindexUse : Uses s tables free .index s.indexBlock := rfl
  have hanchors : ∀ b, anchorFirstBlock ≤ b → b ≤ anchorLastBlock →
      s.nand.update s.indexBlock s.indexNextPage (.programmed (indexTable s) fun _ => 0) b =
        s.nand b := by
    intro b hfirst hlast
    have huse : Uses s tables free .anchor b := ⟨hfirst, hlast⟩
    exact Nand.update_other (h.exclusive.ne BlockUse.noConfusion huse hindexUse)
  refine ⟨_, free, (if_neg hnext).trans (indexWrite_spec herased), ⟨⟨h.table, h.nodup, h.exclusive⟩,
    ⟨rfl, rfl, rfl, rfl, rfl, rfl, rfl⟩, fun block hblock => ?_, rfl, fun _ => rfl⟩,
    ⟨hblock, ?_⟩, hanchor.of_same rfl rfl rfl ⟨rfl, rfl⟩ hanchors,
    fun e he => Nat.le_succ_of_le (hfreeWorn e he), Nat.le_succ_of_le hindexWorn⟩
  · refine Nand.update_other ?_
    rintro rfl
    exact hblock.notIndex rfl
  · change WrittenTable (s.nand.update _ _ _ s.indexBlock) _ (indexTable s)
    rw [hself]
    exact hpages.write hlt _

/-- The anchor blocks once the anchor table names another index block. -/
theorem AnchorBlocks.reclaim (h : AnchorBlocks s) {nand : Nand} {t : FreeTable} (block ec : Nat)
    (hnand : ∀ b, anchorFirstBlock ≤ b → b ≤ anchorLastBlock → nand b = s.nand b) :
    AnchorBlocks (anchorIndexReclaim { s with freeTable := t, nand := nand } block ec) := by
  have hwords : ∀ w, w ∉ [0, 1, 2, 3] →
      (anchorIndexReclaim { s with freeTable := t, nand := nand } block ec).anchorTable w =
        s.anchorTable w := by
    intro w hw
    simp only [List.mem_cons, List.not_mem_nil, or_false, not_or] at hw
    simp only [anchorIndexReclaim]
    rw [if_neg hw.1, if_neg hw.2.1, if_neg hw.2.2.1, if_neg hw.2.2.2]
  have hbad : ∀ b, anchorIsBadBlock (anchorIndexReclaim
      { s with freeTable := t, nand := nand } block ec).anchorTable b =
        anchorIsBadBlock s.anchorTable b := by
    refine fun b => anchorIsBadBlock_congr fun w hw => hwords w ?_
    simp only [List.mem_cons, List.not_mem_nil, or_false]
    omega
  constructor
  · exact h.current
  · exact (hbad _).trans h.good
  · obtain ⟨other, hfirst, hlast, hne, hgood⟩ := h.other
    exact ⟨other, hfirst, hlast, hne, (hbad other).trans hgood⟩
  · change WrittenPages (nand s.anchorBlock) s.anchorNextPage
    rw [hnand _ h.current.1 h.current.2]
    exact h.pages
  · intro b hfirst hlast hb
    change ∀ data spare, nand b 0 ≠ _
    rw [hnand b hfirst hlast]
    exact h.others b hfirst hlast hb
  · rw [← h.valid]
    refine anchorValid_congr fun w hw => hwords w fun hmem => hw ?_
    exact List.mem_append_left [4] hmem

/-- A full index block is given up for a free block, which the anchor table names. -/
theorem indexUpdate_moved (h : Owned s tables free) (hfree : free ≠ [])
    (hblock : s.indexBlock ≠ invalidBlock)
    (hpages : WrittenPages (s.nand s.indexBlock) s.indexNextPage) (hanchor : AnchorStored s)
    (hfreeWorn : ∀ e ∈ free, e.ec ≤ n) (hindexWorn : s.indexBlockEc ≤ n)
    (hn : n + 1 < invalidEc) (hfull : s.indexNextPage = pagePerPhyBlock) :
    ∃ s' free', indexUpdate s = .ok (.success, s') ∧ IndexUpdated s s' tables free free' n := by
  have hn : n + 1 < 4294967295 := hn
  obtain ⟨e, left, t, hperm, htable, hget⟩ := indexFreeBlockGet_spec h.table hfree s.indexBlock
  have hmem : e ∈ free := hperm.mem_iff.mpr List.mem_cons_self
  have huse : Uses s tables free .free e.block := List.mem_map_of_mem hmem
  have hec := hfreeWorn e hmem
  have hcount : (e.ec + 1) % 4294967296 = e.ec + 1 := Nat.mod_eq_of_lt (by omega)
  have hvalid : e.block ≠ invalidBlock := by
    obtain ⟨i, hi, rfl⟩ := (h.table.mem_iff e).mp hmem
    exact h.table.block i hi
  have hnotAnchor : ¬(anchorFirstBlock ≤ e.block ∧ e.block ≤ anchorLastBlock) := by
    intro hrange
    have hsame : BlockUse.free = BlockUse.anchor := h.exclusive huse hrange
    cases hsame
  have herased : ∀ page, mtdErase s.nand e.block e.block page = .erased := by
    intro page
    rw [mtdErase, Function.update_self]
  have hanchors : ∀ b, anchorFirstBlock ≤ b → b ≤ anchorLastBlock →
      mtdErase s.nand e.block b = s.nand b := by
    intro b hfirst hlast
    refine mtdErase_other ?_
    rintro rfl
    exact hnotAnchor ⟨hfirst, hlast⟩
  obtain ⟨nand, table, block, page, hupdate, hdone⟩ := (hanchor.reclaim (t := t) e.block
    ((e.ec + 1) % 4294967296) hanchors).update
  have hblank : ∀ page, nand e.block page = .erased := by
    intro page
    rw [hdone.outside e.block hnotAnchor]
    exact herased page
  have hsteps : indexUpdate s = indexWrite { s with
      nand := nand
      freeTable := freeBlockPut t ⟨s.indexBlock, s.indexBlockEc⟩
      indexBlock := e.block
      indexBlockEc := (e.ec + 1) % 4294967296
      indexNextPage := 0
      anchorTable := table
      anchorBlock := block
      anchorNextPage := page } := by
    rw [indexUpdate, if_pos hfull]
    simp only [hget, bind, Except.bind, hupdate, if_true]
    rfl
  have hready : IndexReady s := by
    refine ⟨hblock, ?_, hpages.le, hpages.fresh⟩
    change s.indexBlockEc < 4294967295
    omega
  obtain ⟨s', free', hs', hwritten⟩ := indexUpdate_full h hready hanchor.ready hfree hfull
  have hs := (hsteps.trans (indexWrite_spec (hblank 0))).symm.trans hs'
  cases hs
  have hroom : left.length < freeBlockCount := by
    have hlength := hperm.length_eq
    have hfits := h.table.fits
    rw [List.length_cons] at hlength
    omega
  obtain ⟨l, hl, hput⟩ := represents_put htable hroom hblock hready.ec
  have hfree' : free' = l := hwritten.owned.table.unique hl
  have hindexWords : (anchorIndexReclaim { s with freeTable := t, nand := mtdErase s.nand e.block }
      e.block ((e.ec + 1) % 4294967296)).anchorTable 0 = e.block := rfl
  have hecWords : (anchorIndexReclaim { s with freeTable := t, nand := mtdErase s.nand e.block }
      e.block ((e.ec + 1) % 4294967296)).anchorTable 1 = (e.ec + 1) % 4294967296 := rfl
  have hstored : AnchorStored { s with
      nand := nand
      freeTable := freeBlockPut t ⟨s.indexBlock, s.indexBlockEc⟩
      indexBlock := e.block
      indexBlockEc := (e.ec + 1) % 4294967296
      indexNextPage := 0
      anchorTable := table
      anchorBlock := block
      anchorNextPage := page } :=
    ⟨hdone.blocks.of_same rfl rfl rfl fun _ _ _ => rfl, hdone.stored,
      (hdone.words 0 (by decide)).trans hindexWords, (hdone.words 1 (by decide)).trans hecWords⟩
  have hrange : ∀ b, anchorFirstBlock ≤ b → b ≤ anchorLastBlock → b ≠ e.block := by
    rintro b hfirst hlast rfl
    exact hnotAnchor ⟨hfirst, hlast⟩
  refine ⟨_, free', hs', hwritten, ⟨hvalid, ?_⟩, hstored.of_same rfl rfl rfl ⟨rfl, rfl⟩
    fun b hfirst hlast => Nand.update_other (hrange b hfirst hlast), ?_, ?_⟩
  · change WrittenTable (nand.update e.block _ _ e.block) _ _
    rw [Nand.update, Function.update_self]
    exact (writtenPages_erased fun page _ => hblank page).write (by decide) _
  · intro e' he'
    rw [hfree'] at he'
    rcases List.mem_cons.mp (hput.mem_iff.mp he') with rfl | hleft
    · exact Nat.le_succ_of_le hindexWorn
    · exact Nat.le_succ_of_le (hfreeWorn e' (hperm.mem_iff.mpr (List.mem_cons_of_mem _ hleft)))
  · change (e.ec + 1) % 4294967296 ≤ n + 1
    omega

/-- `index_update` puts the index table on the NAND. -/
theorem indexUpdate_stored (h : Owned s tables free) (hfree : free ≠ [])
    (hblock : s.indexBlock ≠ invalidBlock)
    (hpages : WrittenPages (s.nand s.indexBlock) s.indexNextPage) (hanchor : AnchorStored s)
    (hfreeWorn : ∀ e ∈ free, e.ec ≤ n) (hindexWorn : s.indexBlockEc ≤ n)
    (hn : n + 1 < invalidEc) :
    ∃ s' free', indexUpdate s = .ok (.success, s') ∧ IndexUpdated s s' tables free free' n := by
  by_cases hfull : s.indexNextPage = pagePerPhyBlock
  · exact indexUpdate_moved h hfree hblock hpages hanchor hfreeWorn hindexWorn hn hfull
  · exact indexUpdate_next h hblock hpages hanchor hfreeWorn hindexWorn hfull

/-! ## The area tables -/

/-- The last area update that the index table names is in the area table. -/
def PlrDone (plr : AreaUpdatePlr) (tables : Nat → Words) : Prop :=
  plr.logicalBlock ≠ invalidBlock → areaIndex plr.logicalBlock < areaCount →
    physicalBlock tables plr.logicalBlock = plr.physicalBlock ∧
      areaPhysicalBlockEc (tables (areaIndex plr.logicalBlock))
        (blockOffsetArea plr.logicalBlock) = plr.blockEc

/-- The tables are on the NAND; the last page of each area table is `last`. -/
structure UbiOnNand (s : UbiState) (tables : Nat → Words) (free : List FreeBlock)
    (last : Nat → Nat) (n : Nat) : Prop where
  owned : Owned s tables free
  free_ne : free ≠ []
  areas : ∀ a < areaCount, WrittenTable (s.nand (s.areaIndexTable a)) (last a + 1) (tables a)
  areaBlock : ∀ a < areaCount, s.areaIndexTable a ≠ invalidBlock
  index : IndexStored s
  anchor : AnchorStored s
  plr : PlrDone s.areaUpdatePlr tables
  worn : WornAtMost s tables free n

/-- A state between two calls: the RAM knows where the area tables are. -/
structure UbiRest (s : UbiState) (tables : Nat → Words) (free : List FreeBlock) (n : Nat) :
    Prop extends UbiOnNand s tables free s.areaOffsetTable n where
  cached : s.cachedAreaNumber ≠ invalidArea →
    s.cachedAreaNumber < areaCount ∧ s.cachedAreaTable = tables s.cachedAreaNumber

omit [UbiGeometry] in
theorem WrittenTable.areaStored {a : Nat}
    (h : WrittenTable (s.nand (s.areaIndexTable a)) (s.areaOffsetTable a + 1) (tables a)) :
    AreaStored s tables a where
  offset_lt := h.le
  stored := ⟨fun _ => 0, h.last, by decide⟩
  fresh := fun page hlt => h.fresh page hlt

/-- One area table goes to the next page of its block, and the others stay. -/
theorem areas_after_update {area offset page : Nat} {new : FreeBlock} (harea_lt : area < areaCount)
    (hexclusive : Exclusive (Uses s (tablesSet tables area offset new) free))
    (hareas : ∀ a < areaCount, a ≠ area →
      WrittenTable (s.nand (s.areaIndexTable a)) (s.areaOffsetTable a + 1) (tables a))
    (hpages : WrittenPages (s.nand (s.areaIndexTable area)) page) (hpage : page < pagePerPhyBlock)
    (hblock : s'.areaIndexTable = s.areaIndexTable)
    (hoffset : s'.areaOffsetTable = Function.update s.areaOffsetTable area page)
    (hnand : s'.nand = s.nand.update (s.areaIndexTable area) page
      (.programmed (tablesSet tables area offset new area) fun _ => 0))
    (a : Nat) (ha : a < areaCount) :
    WrittenTable (s'.nand (s'.areaIndexTable a)) (s'.areaOffsetTable a + 1)
      (tablesSet tables area offset new a) := by
  by_cases hsame : a = area
  · subst hsame
    refine (hpages.write hpage (tablesSet tables a offset new a)).of_eq ?_ ?_
    · rw [hnand, hblock, Nand.update, Function.update_self]
    · rw [hoffset, Function.update_self]
  · have huse : Uses s (tablesSet tables area offset new) free (.areaTable a)
        (s.areaIndexTable a) := ⟨ha, rfl⟩
    have huse' : Uses s (tablesSet tables area offset new) free (.areaTable area)
        (s.areaIndexTable area) := ⟨harea_lt, rfl⟩
    have hne : s.areaIndexTable a ≠ s.areaIndexTable area :=
      hexclusive.ne (fun heq => hsame (BlockUse.areaTable.inj heq)) huse huse'
    rw [tablesSet, Function.update_of_ne hsame]
    refine (hareas a ha hsame).of_eq ?_ ?_
    · rw [hnand, hblock, Nand.update_other hne]
    · rw [hoffset, Function.update_of_ne hsame]

/-- The state in which `INDEX_Update_Commit` is called, with its tables on the NAND. -/
structure CommitReady (s : UbiState) (tables : Nat → Words) (free : List FreeBlock)
    (area offset : Nat) (new : FreeBlock) (n : Nat) : Prop extends
    Committing s tables free area offset new where
  areas : ∀ a < areaCount,
    WrittenTable (s.nand (s.areaIndexTable a)) (s.areaOffsetTable a + 1) (tables a)
  areaBlocks : ∀ a < areaCount, s.areaIndexTable a ≠ invalidBlock
  indexPages : WrittenPages (s.nand s.indexBlock) s.indexNextPage
  anchorStored : AnchorStored s
  worn : WornAtMost s tables free n
  newWorn : new.ec ≤ n + 1

omit [UbiGeometry] in
theorem areaPhysicalBlockEc_set {table : Words} {offset block ec i : Nat} :
    areaPhysicalBlockEc (areaSet table offset block ec) i =
      if i = offset then ec else areaPhysicalBlockEc table i := by
  unfold areaPhysicalBlockEc areaSet
  split_ifs with hi
  · rw [hi, Function.update_self]
  · rw [Function.update_of_ne (by omega), Function.update_of_ne (by omega)]

variable {area offset : Nat} {new : FreeBlock}

theorem plrDone_set (hoffset : offset < phyBlockPerArea) :
    PlrDone ⟨area * phyBlockPerArea + offset, new.block, new.ec⟩
      (tablesSet tables area offset new) := by
  intro _ _
  change physicalBlock _ (area * phyBlockPerArea + offset) = new.block ∧ _ = new.ec
  rw [physicalBlock, areaIndex_add hoffset, blockOffsetArea_add hoffset, tablesSet,
    Function.update_self, areaPhysicalBlock_set, areaPhysicalBlockEc_set, if_pos rfl, if_pos rfl]
  exact ⟨rfl, rfl⟩

/-- The counts in the area tables with one more entry. -/
theorem mappedWorn_set
    (h : ∀ a < areaCount, ∀ i < phyBlockPerArea, areaPhysicalBlock (tables a) i ≠ invalidBlock →
      areaPhysicalBlockEc (tables a) i ≤ n) (hnew : new.ec ≤ n + 1) :
    ∀ a < areaCount, ∀ i < phyBlockPerArea,
      areaPhysicalBlock (tablesSet tables area offset new a) i ≠ invalidBlock →
        areaPhysicalBlockEc (tablesSet tables area offset new a) i ≤ n + 1 := by
  intro a ha i hi
  by_cases hsame : a = area
  · subst hsame
    rw [tablesSet, Function.update_self, areaPhysicalBlock_set, areaPhysicalBlockEc_set]
    by_cases hplace : i = offset
    · rw [if_pos hplace, if_pos hplace]
      exact fun _ => hnew
    · rw [if_neg hplace, if_neg hplace]
      exact fun hmapped => Nat.le_succ_of_le (h a ha i hi hmapped)
  · rw [tablesSet, Function.update_of_ne hsame]
    exact fun hmapped => Nat.le_succ_of_le (h a ha i hi hmapped)

/-- The area table has a page left. -/
theorem CommitReady.commit_next (h : CommitReady s tables free area offset new n)
    (hn : n + 1 < invalidEc) (hnotFull : s.areaOffsetTable area ≠ pagePerPhyBlock - 1) :
    ∃ s' free', indexUpdateCommit s = .ok (.success, s') ∧
      UbiRest s' (tablesSet tables area offset new) free' (n + 1) ∧
        ∀ a, a ≠ area → s'.areaIndexTable a = s.areaIndexTable a := by
  obtain ⟨s₁, free₁, hupdate, hdone⟩ := indexUpdate_stored h.owned h.free_ne h.index.block
    h.indexPages h.anchorStored h.worn.free h.worn.index hn
  have hwritten := hdone.written
  have hblocks : s₁.areaIndexTable = s.areaIndexTable := hwritten.same.areaIndexTable
  have hoffsets : s₁.areaOffsetTable = s.areaOffsetTable := hwritten.same.areaOffsetTable
  have hareas₁ : ∀ a < areaCount,
      WrittenTable (s₁.nand (s₁.areaIndexTable a)) (s₁.areaOffsetTable a + 1) (tables a) := by
    intro a ha
    have huse : Uses s (tablesSet tables area offset new) free (.areaTable a)
        (s.areaIndexTable a) := ⟨ha, rfl⟩
    refine (h.areas a ha).of_eq ?_ (by rw [hoffsets])
    rw [hblocks]
    exact hwritten.nand _ (h.owned.untouched BlockUse.noConfusion BlockUse.noConfusion
      BlockUse.noConfusion huse)
  have hpages := (hareas₁ area h.area_lt).toWrittenPages
  have hlt : s₁.areaOffsetTable area + 1 < pagePerPhyBlock := by
    have hle := hpages.le
    rw [hoffsets] at hle ⊢
    simp only [pagePerPhyBlock] at *
    omega
  have harea := areaUpdate_spec h.offset_lt
    (hwritten.same.cachedAreaNumber.trans h.cachedNumber)
    (hwritten.same.cachedAreaTable.trans h.cachedTable) h.block (Nat.mod_eq_of_lt hlt)
    (hpages.fresh _ le_rfl hlt)
  refine ⟨{ s₁ with
    nand := s₁.nand.update (s₁.areaIndexTable area) (s₁.areaOffsetTable area + 1)
      (.programmed (tablesSet tables area offset new area) fun _ => 0)
    cachedAreaTable := tablesSet tables area offset new area
    areaOffsetTable := Function.update s₁.areaOffsetTable area (s₁.areaOffsetTable area + 1)
    isUpdatingArea := false }, free₁, ?_, ?_, fun a _ => congrFun hblocks a⟩
  · rw [indexUpdateCommit, if_pos h.updating, h.plr]
    simp only [h.areaIsFull_eq, bind, Except.bind, commitPrepare, decide_eq_true_eq, hnotFull,
      if_false, hupdate, if_true, harea, and_false]
  · have hexclusive := hwritten.owned.exclusive
    have huse : Uses s₁ (tablesSet tables area offset new) free₁ (.areaTable area)
        (s₁.areaIndexTable area) := ⟨h.area_lt, rfl⟩
    have hindexUse : Uses s₁ (tablesSet tables area offset new) free₁ .index s₁.indexBlock := rfl
    have hnand : ∀ o b, o ≠ .areaTable area → Uses s₁ (tablesSet tables area offset new) free₁ o b →
        s₁.nand.update (s₁.areaIndexTable area) (s₁.areaOffsetTable area + 1)
          (.programmed (tablesSet tables area offset new area) fun _ => 0) b = s₁.nand b :=
      fun o b ho hb => Nand.update_other (hexclusive.ne ho hb huse)
    refine ⟨⟨?_, ?_, ?_, ?_, ?_, ?_, ?_, ?_⟩, ?_⟩
    · exact ⟨hwritten.owned.table, hwritten.owned.nodup, hwritten.owned.exclusive⟩
    · exact hwritten.free_ne h.free_ne
    · exact areas_after_update h.area_lt hexclusive (fun a ha _ => hareas₁ a ha) hpages hlt
        rfl rfl rfl
    · intro a ha
      change s₁.areaIndexTable a ≠ _
      rw [hblocks]
      exact h.areaBlocks a ha
    · refine ⟨hdone.index.block, hdone.index.stored.of_eq ?_ rfl⟩
      exact hnand .index _ BlockUse.noConfusion hindexUse
    · refine hdone.anchor.of_same rfl rfl rfl ⟨rfl, rfl⟩ fun b hfirst hlast => ?_
      exact hnand .anchor b BlockUse.noConfusion ⟨hfirst, hlast⟩
    · change PlrDone s₁.areaUpdatePlr _
      rw [hwritten.same.areaUpdatePlr, h.plr]
      exact plrDone_set h.offset_lt
    · refine ⟨hdone.freeWorn, mappedWorn_set h.worn.mapped h.newWorn, fun a ha => ?_,
        hdone.indexWorn⟩
      change s₁.areaIndexEct a ≤ _
      rw [hwritten.same.areaIndexEct]
      exact Nat.le_succ_of_le (h.worn.areaTable a ha)
    · intro _
      have hnumber := hwritten.same.cachedAreaNumber.trans h.cachedNumber
      change s₁.cachedAreaNumber < areaCount ∧ _ = tablesSet tables area offset new _
      rw [hnumber]
      exact ⟨h.area_lt, rfl⟩

/-- What the free blocks and the counts are once the full block of the table is given up. -/
structure ReclaimWorn (s s₁ : UbiState) (free₁ : List FreeBlock) (area : Nat) (taken : FreeBlock)
    (n : Nat) : Prop where
  free : ∀ e ∈ free₁, e.ec ≤ n
  block : taken.block ≠ invalidBlock
  areaIndexEct : ∀ a, s₁.areaIndexEct a = if a = area then s₁.areaIndexEct area else s.areaIndexEct a
  areaEc : s₁.areaIndexEct area ≤ n + 1
  plr : s₁.areaUpdatePlr = s.areaUpdatePlr

theorem CommitReady.reclaim (h : CommitReady s tables free area offset new n)
    (hn : n + 1 < invalidEc) :
    ∃ s₁ free₁ taken,
      commitPrepare s (area * phyBlockPerArea + offset) true = .ok (.success, s₁) ∧
        TableMoved s s₁ tables free free₁ area offset new taken ∧
          ReclaimWorn s s₁ free₁ area taken n := by
  have hn : n + 1 < 4294967295 := hn
  obtain ⟨s₁, free₁, taken, hprepare, hr⟩ := h.toCommitting.reclaim
  refine ⟨s₁, free₁, taken, hprepare, hr, ?_⟩
  obtain ⟨e, left, t, hperm, htable, hget⟩ :=
    indexFreeBlockGet_spec h.owned.table h.free_ne (s.areaIndexTable area)
  have hmem : e ∈ free := hperm.mem_iff.mpr List.mem_cons_self
  have hec := h.worn.free e hmem
  have hsteps : commitPrepare s (area * phyBlockPerArea + offset) true =
      .ok (.success, indexUpdateAreaReclaim
        { s with freeTable := t, nand := mtdErase s.nand e.block } area
        ⟨e.block, (e.ec + 1) % 4294967296⟩) := by
    rw [commitPrepare, if_pos rfl, areaIndex_add h.offset_lt, hget]
    rfl
  cases hsteps.symm.trans hprepare
  have htaken : e.block = taken.block := by
    have hblock := congrFun hr.areaIndexTable area
    rw [Function.update_self] at hblock
    rw [← hblock]
    exact (Function.update_self area e.block s.areaIndexTable).symm
  have hroom : left.length < freeBlockCount := by
    have hlength := hperm.length_eq
    have hfits := h.owned.table.fits
    rw [List.length_cons] at hlength
    omega
  obtain ⟨l, hl, hput⟩ := represents_put htable hroom h.areaBlock h.areaEc
  have hfree₁ : free₁ = l := hr.owned.table.unique hl
  have hself : (indexUpdateAreaReclaim { s with freeTable := t, nand := mtdErase s.nand e.block }
      area ⟨e.block, (e.ec + 1) % 4294967296⟩).areaIndexEct area = (e.ec + 1) % 4294967296 :=
    Function.update_self area _ _
  refine ⟨fun e' he' => ?_, ?_, fun a => ?_, ?_, rfl⟩
  · rw [hfree₁] at he'
    rcases List.mem_cons.mp (hput.mem_iff.mp he') with rfl | hleft
    · exact h.worn.areaTable area h.area_lt
    · exact h.worn.free e' (hperm.mem_iff.mpr (List.mem_cons_of_mem _ hleft))
  · rw [← htaken]
    obtain ⟨i, hi, rfl⟩ := (h.owned.table.mem_iff e).mp hmem
    exact h.owned.table.block i hi
  · split_ifs with ha
    · rw [ha]
    · exact Function.update_of_ne ha _ _
  · rw [hself]
    omega

/-- The block of the area table is full: the table goes to a new block. -/
theorem CommitReady.commit_moved (h : CommitReady s tables free area offset new n)
    (hn : n + 1 < invalidEc) (hfull : s.areaOffsetTable area = pagePerPhyBlock - 1) :
    ∃ s' free', indexUpdateCommit s = .ok (.success, s') ∧
      UbiRest s' (tablesSet tables area offset new) free' (n + 1) ∧
        ∀ a, a ≠ area → s'.areaIndexTable a = s.areaIndexTable a := by
  obtain ⟨s₁, free₁, taken, hprepare, hr, hw⟩ := h.reclaim hn
  have hexclusive := h.owned.exclusive
  have hnand : ∀ block, block ≠ taken.block → s₁.nand block = s.nand block := by
    intro block hne
    rw [hr.nand]
    exact mtdErase_other hne
  have hblock₁ : s₁.areaIndexTable area = taken.block := by
    rw [hr.areaIndexTable, Function.update_self]
  have herased : ∀ page, s₁.nand (s₁.areaIndexTable area) page = .erased := by
    intro page
    rw [hblock₁, hr.nand, mtdErase, Function.update_self]
  have hpage : (s₁.areaOffsetTable area + 1) % pagePerPhyBlock = 0 := by
    rw [hr.areaOffsetTable, hfull]
    rfl
  have harea := areaUpdate_spec h.offset_lt (hr.cachedAreaNumber.trans h.cachedNumber)
    (hr.cachedAreaTable.trans h.cachedTable) h.block hpage (herased 0)
  obtain ⟨s₂, hs₂⟩ : ∃ s₂ : UbiState, s₂ = { s₁ with
    nand := s₁.nand.update (s₁.areaIndexTable area) 0
      (.programmed (tablesSet tables area offset new area) fun _ => 0)
    cachedAreaTable := tablesSet tables area offset new area
    areaOffsetTable := Function.update s₁.areaOffsetTable area 0 } := ⟨_, rfl⟩
  rw [← hs₂] at harea
  have hnand₂ : ∀ block, block ≠ taken.block → s₂.nand block = s.nand block := by
    intro block hne
    rw [hs₂]
    exact (Nand.update_other (hblock₁ ▸ hne)).trans (hnand block hne)
  have howned₂ : Owned s₂ (tablesSet tables area offset new) free₁ := by
    rw [hs₂]
    exact ⟨hr.owned.table, hr.owned.nodup, hr.owned.exclusive⟩
  have hne : ∀ o b, o ≠ .free → Uses s (tablesSet tables area offset new) free o b →
      b ≠ taken.block := fun o b ho huse => hexclusive.ne ho huse hr.takenFree
  have hindexUse : Uses s (tablesSet tables area offset new) free .index s.indexBlock := rfl
  have hindexBlock : s₂.indexBlock = s.indexBlock := by rw [hs₂, ← hr.index.1]
  have hareas₁ : ∀ a < areaCount, a ≠ area →
      WrittenTable (s₁.nand (s₁.areaIndexTable a)) (s₁.areaOffsetTable a + 1) (tables a) := by
    intro a ha hother
    have huse : Uses s (tablesSet tables area offset new) free (.areaTable a)
        (s.areaIndexTable a) := ⟨ha, rfl⟩
    refine (h.areas a ha).of_eq ?_ (by rw [hr.areaOffsetTable])
    rw [hr.areaIndexTable, Function.update_of_ne hother]
    exact hnand _ (hne _ _ BlockUse.noConfusion huse)
  have hareas₂ : ∀ a < areaCount, WrittenTable (s₂.nand (s₂.areaIndexTable a))
      (s₂.areaOffsetTable a + 1) (tablesSet tables area offset new a) := by
    refine areas_after_update h.area_lt hr.owned.exclusive hareas₁
      (writtenPages_erased fun page _ => herased page) (by decide) ?_ ?_ ?_
    · rw [hs₂]
    · rw [hs₂]
    · rw [hs₂]
  have hindexPages : WrittenPages (s₂.nand s₂.indexBlock) s₂.indexNextPage := by
    have hnext : s₂.indexNextPage = s.indexNextPage := by rw [hs₂, ← hr.index.2.2]
    rw [hindexBlock, hnext, hnand₂ _ (hne _ _ BlockUse.noConfusion hindexUse)]
    exact h.indexPages
  have hanchor₂ : AnchorStored s₂ := by
    refine h.anchorStored.of_same ?_ ?_ ?_ ⟨hindexBlock, ?_⟩ fun b hfirst hlast => ?_
    · rw [hs₂, ← hr.anchor.2.1]
    · rw [hs₂, ← hr.anchor.1]
    · rw [hs₂, ← hr.anchor.2.2]
    · rw [hs₂, ← hr.index.2.1]
    · have huse : Uses s (tablesSet tables area offset new) free .anchor b := ⟨hfirst, hlast⟩
      exact hnand₂ b (hne _ _ BlockUse.noConfusion huse)
  have hindexWorn : s₂.indexBlockEc ≤ n := by
    rw [hs₂]
    exact hr.index.2.1.le.trans h.worn.index
  obtain ⟨s₃, free₃, hupdate, hdone⟩ := indexUpdate_stored howned₂ hr.free_ne
    (ne_of_eq_of_ne hindexBlock h.index.block) hindexPages hanchor₂ hw.free hindexWorn hn
  have hwritten := hdone.written
  have hothers : ∀ a, a ≠ area → s₃.areaIndexTable a = s.areaIndexTable a := by
    intro a ha
    rw [hwritten.same.areaIndexTable, hs₂]
    change s₁.areaIndexTable a = s.areaIndexTable a
    rw [hr.areaIndexTable, Function.update_of_ne ha]
  refine ⟨{ s₃ with isUpdatingArea := false }, free₃, ?_, ?_, hothers⟩
  · rw [indexUpdateCommit, if_pos h.updating, h.plr]
    simp only [h.areaIsFull_eq, bind, Except.bind, decide_eq_true hfull, hprepare, if_true, harea,
      and_self, hupdate]
  · refine ⟨⟨?_, ?_, ?_, ?_, ?_, ?_, ?_, ?_⟩, ?_⟩
    · exact ⟨hwritten.owned.table, hwritten.owned.nodup, hwritten.owned.exclusive⟩
    · exact hwritten.free_ne hr.free_ne
    · intro a ha
      have huse : Uses s₂ (tablesSet tables area offset new) free₁ (.areaTable a)
          (s₂.areaIndexTable a) := ⟨ha, rfl⟩
      refine (hareas₂ a ha).of_eq ?_ (by rw [← hwritten.same.areaOffsetTable])
      rw [hwritten.same.areaIndexTable]
      exact hwritten.nand _ (howned₂.untouched BlockUse.noConfusion BlockUse.noConfusion
        BlockUse.noConfusion huse)
    · intro a ha
      change s₃.areaIndexTable a ≠ invalidBlock
      rw [hwritten.same.areaIndexTable, hs₂]
      change s₁.areaIndexTable a ≠ invalidBlock
      by_cases hsame : a = area
      · rw [hsame, hblock₁]
        exact hw.block
      · rw [hr.areaIndexTable, Function.update_of_ne hsame]
        exact h.areaBlocks a ha
    · exact ⟨hdone.index.block, hdone.index.stored⟩
    · exact hdone.anchor.of_same rfl rfl rfl ⟨rfl, rfl⟩ fun _ _ _ => rfl
    · change PlrDone s₃.areaUpdatePlr _
      rw [hwritten.same.areaUpdatePlr, hs₂]
      change PlrDone s₁.areaUpdatePlr _
      rw [hw.plr, h.plr]
      exact plrDone_set h.offset_lt
    · refine ⟨hdone.freeWorn, mappedWorn_set h.worn.mapped h.newWorn, fun a ha => ?_,
        hdone.indexWorn⟩
      change s₃.areaIndexEct a ≤ _
      rw [hwritten.same.areaIndexEct, hs₂]
      change s₁.areaIndexEct a ≤ _
      rw [hw.areaIndexEct]
      split_ifs
      · exact hw.areaEc
      · exact Nat.le_succ_of_le (h.worn.areaTable a ha)
    · intro _
      have hnumber : s₃.cachedAreaNumber = area := by
        rw [hwritten.same.cachedAreaNumber, hs₂]
        exact hr.cachedAreaNumber.trans h.cachedNumber
      change s₃.cachedAreaNumber < areaCount ∧
        s₃.cachedAreaTable = tablesSet tables area offset new s₃.cachedAreaNumber
      rw [hnumber, hwritten.same.cachedAreaTable, hs₂]
      exact ⟨h.area_lt, rfl⟩

/-- `INDEX_Update_Commit` of one area update puts all tables on the NAND. -/
theorem CommitReady.commit (h : CommitReady s tables free area offset new n)
    (hn : n + 1 < invalidEc) :
    ∃ s' free', indexUpdateCommit s = .ok (.success, s') ∧
      Committed s s' (tablesSet tables area offset new) free free' area ∧
        UbiRest s' (tablesSet tables area offset new) free' (n + 1) ∧
          ∀ a, a ≠ area → s'.areaIndexTable a = s.areaIndexTable a := by
  obtain ⟨s', free', hs', hdone⟩ := h.toCommitting.commit
  refine ⟨s', free', hs', hdone, ?_⟩
  by_cases hfull : s.areaOffsetTable area = pagePerPhyBlock - 1
  · obtain ⟨s'', free'', hs'', hrest, hothers⟩ := h.commit_moved hn hfull
    cases hs'.symm.trans hs''
    rw [hdone.owned.table.unique hrest.owned.table]
    exact ⟨hrest, hothers⟩
  · obtain ⟨s'', free'', hs'', hrest, hothers⟩ := h.commit_next hn hfull
    cases hs'.symm.trans hs''
    rw [hdone.owned.table.unique hrest.owned.table]
    exact ⟨hrest, hothers⟩

/-- A commit leaves the blocks in use. -/
theorem Committed.inUse {free' : List FreeBlock} (h : Committed s s' tables free free' area)
    (harea : area < areaCount) (hothers : ∀ a, a ≠ area → s'.areaIndexTable a = s.areaIndexTable a)
    (block : Nat) : InUse s' tables free' block ↔ InUse s tables free block := by
  have hmem := congrArg (block ∈ ·) h.conserved
  simp only [Multiset.mem_add, Multiset.mem_coe, Multiset.mem_singleton, eq_iff_iff] at hmem
  have hsplit : ∀ t : UbiState, (∀ a, a ≠ area → t.areaIndexTable a = s.areaIndexTable a) →
      ((∃ a < areaCount, t.areaIndexTable a = block) ↔
        (∃ a < areaCount, a ≠ area ∧ s.areaIndexTable a = block) ∨
          block = t.areaIndexTable area) := by
    intro t ht
    constructor
    · rintro ⟨a, ha, hblock⟩
      by_cases hsame : a = area
      · exact Or.inr (hsame ▸ hblock.symm)
      · exact Or.inl ⟨a, ha, hsame, (ht a hsame).symm.trans hblock⟩
    · rintro (⟨a, ha, hne, hblock⟩ | hblock)
      · exact ⟨a, ha, (ht a hne).trans hblock⟩
      · exact ⟨area, harea, hblock.symm⟩
  rw [inUse_iff, inUse_iff, hsplit s' hothers, hsplit s fun _ _ => rfl]
  simp only [eq_comm (a := s'.indexBlock), eq_comm (a := s.indexBlock)]
  refine or_congr Iff.rfl ?_
  have hgroup : ∀ others table index free anchor : Prop,
      (others ∨ table) ∨ index ∨ free ∨ anchor ↔
        others ∨ ((free ∨ table) ∨ index) ∨ anchor := by
    intro others table index free anchor
    exact iff_of_eq (by ac_rfl)
  rw [hgroup, hgroup, hmem]

end RansomTag

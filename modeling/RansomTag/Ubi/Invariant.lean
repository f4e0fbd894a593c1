import RansomTag.Library.Exclusive
import RansomTag.Ubi.State

/-!
# Which block is used for what

Each physical block is mapped, holds an area table or the index table, is free, or is
one of the anchor blocks.  A table whose block is full takes a free block and gives up
its own, and leaves every other block alone.
-/

namespace RansomTag

/-- What a physical block is used for. -/
inductive BlockUse where
  | mapped (area offset : Nat)
  | areaTable (area : Nat)
  | index
  | free
  | anchor

variable [UbiGeometry]

/-- The blocks in a use; `tables` are the area tables, and `free` the free blocks. -/
def Uses (s : UbiState) (tables : Nat → Words) (free : List FreeBlock) : BlockUse → Nat → Prop
  | .mapped area offset, block =>
      area < areaCount ∧ offset < phyBlockPerArea ∧
        areaPhysicalBlock (tables area) offset = block ∧ block ≠ invalidBlock
  | .areaTable area, block => area < areaCount ∧ s.areaIndexTable area = block
  | .index, block => s.indexBlock = block
  | .free, block => block ∈ free.map FreeBlock.block
  | .anchor, block => anchorFirstBlock ≤ block ∧ block ≤ anchorLastBlock

/-- The free blocks are in the table, and no block has two uses. -/
structure Owned (s : UbiState) (tables : Nat → Words) (free : List FreeBlock) : Prop where
  table : Represents s.freeTable free
  nodup : (free.map FreeBlock.block).Nodup
  exclusive : Exclusive (Uses s tables free)

/-- Area table `area` is in the last page written of its block. -/
structure AreaStored (s : UbiState) (tables : Nat → Words) (area : Nat) : Prop where
  offset_lt : s.areaOffsetTable area < pagePerPhyBlock
  stored : ∃ spare, s.nand (s.areaIndexTable area) (s.areaOffsetTable area) =
    .programmed (tables area) spare ∧ spare 0 ≠ noFootprint
  fresh : ∀ page, s.areaOffsetTable area < page → page < pagePerPhyBlock →
    s.nand (s.areaIndexTable area) page = .erased

/-- The index table goes to a page that is erased, and its block can be put back. -/
structure IndexReady (s : UbiState) : Prop where
  block : s.indexBlock ≠ invalidBlock
  ec : s.indexBlockEc < invalidEc
  page_le : s.indexNextPage ≤ pagePerPhyBlock
  fresh : ∀ page, s.indexNextPage ≤ page → page < pagePerPhyBlock →
    s.nand s.indexBlock page = .erased

/-- The anchor table goes to a page that is erased, and another anchor block is good. -/
structure AnchorReady (s : UbiState) : Prop where
  block : anchorFirstBlock ≤ s.anchorBlock ∧ s.anchorBlock ≤ anchorLastBlock
  page_le : s.anchorNextPage ≤ pagePerPhyBlock
  fresh : ∀ page, s.anchorNextPage ≤ page → page < pagePerPhyBlock →
    s.nand s.anchorBlock page = .erased
  other : ∃ block, anchorFirstBlock ≤ block ∧ block ≤ anchorLastBlock ∧
    block ≠ s.anchorBlock ∧ anchorIsBadBlock s.anchorTable block = false

/-- A state between two calls, with the area tables and the free blocks. -/
structure UbiOk (s : UbiState) (tables : Nat → Words) (free : List FreeBlock) : Prop where
  owned : Owned s tables free
  stored : ∀ area < areaCount, AreaStored s tables area
  cached : s.cachedAreaNumber ≠ invalidArea →
    s.cachedAreaNumber < areaCount ∧ s.cachedAreaTable = tables s.cachedAreaNumber
  areaBlock : ∀ area < areaCount, s.areaIndexTable area ≠ invalidBlock
  areaEc : ∀ area < areaCount, s.areaIndexEct area < invalidEc
  index : IndexReady s
  anchor : AnchorReady s
  swlArea : s.swlCurrentArea < areaCount

variable {s : UbiState} {tables : Nat → Words} {free : List FreeBlock}

/-! ## Free blocks -/

theorem freeBlockGet_success {t : FreeTable} {l : List FreeBlock} (h : Represents t l)
    (hl : l ≠ []) (die : Nat) :
    ∃ i < l.length, freeBlockGet t die (fun _ _ => true) =
      some ⟨.success, (t i).block, some (((t i).ec + 1) % 4294967296), [], discardEntry t i⟩ := by
  obtain ⟨hlt, -⟩ := chosenEntry_spec h (die % totalDieCount) hl
  refine ⟨_, hlt, ?_⟩
  rw [freeBlockGet, freeBlockGetLoop_succ, if_neg (h.block _ hlt), if_pos rfl]

/-- A get takes one of the free blocks and erases it. -/
theorem indexFreeBlockGet_spec (h : Represents s.freeTable free) (hfree : free ≠ []) (die : Nat) :
    ∃ e left t, free.Perm (e :: left) ∧ Represents t left ∧
      indexFreeBlockGet s die = .ok (some ⟨e.block, (e.ec + 1) % 4294967296⟩,
        { s with freeTable := t, nand := mtdErase s.nand e.block }) := by
  obtain ⟨i, hi, hget⟩ := freeBlockGet_success h hfree die
  have hentry : free[i] = s.freeTable i :=
    Option.some.inj ((List.getElem?_eq_getElem hi).symm.trans (h.entry i hi))
  refine ⟨s.freeTable i, free.eraseIdx i, _, ?_, h.discard hi, ?_⟩
  · rw [← hentry]
    exact (List.getElem_cons_eraseIdx_perm hi).symm
  · rw [indexFreeBlockGet, hget]
    rfl

/-- A block that is put back into a table with room is one of the free blocks. -/
theorem represents_put {t : FreeTable} {l : List FreeBlock} (h : Represents t l)
    {block ec : Nat} (hroom : l.length < freeBlockCount) (hblock : block ≠ invalidBlock)
    (hec : ec < invalidEc) :
    ∃ l', Represents (freeBlockPut t ⟨block, ec⟩) l' ∧
      l'.Perm (⟨block, ec⟩ :: l) := by
  obtain ⟨j, hj, hput⟩ : ∃ j ≤ l.length,
      Represents (freeBlockPut t ⟨block, ec⟩) (l.insertIdx j ⟨block, ec⟩) :=
    h.put hroom hblock hec
  exact ⟨_, hput, List.perm_insertIdx _ l hj⟩

/-- One free block and the block of another use change places. -/
theorem Owned.replace (h : Owned s tables free) {s' : UbiState} {tables' : Nat → Words}
    {free' left : List FreeBlock} {o : BlockUse} {e old : FreeBlock} (ho : o ≠ .free)
    (hold : Uses s tables free o old.block) (hperm : free.Perm (e :: left))
    (hput : free'.Perm (old :: left)) (htable : Represents s'.freeTable free')
    (hother : ∀ o' b, o' ≠ .free → o' ≠ o → Uses s' tables' free' o' b → Uses s tables free o' b)
    (hnew : ∀ b, Uses s' tables' free' o b → b = e.block) : Owned s' tables' free' := by
  have hblocks := hperm.map FreeBlock.block
  have hblocks' := hput.map FreeBlock.block
  rw [List.map_cons] at hblocks hblocks'
  have hnodup := hblocks.nodup_iff.mp h.nodup
  have he : Uses s tables free .free e.block := hblocks.mem_iff.mpr List.mem_cons_self
  have hleft : ∀ b ∈ left.map FreeBlock.block, Uses s tables free .free b :=
    fun b hb => hblocks.mem_iff.mpr (List.mem_cons_of_mem _ hb)
  refine ⟨htable, ?_, ?_⟩
  · refine hblocks'.nodup_iff.mpr (List.nodup_cons.mpr ⟨fun hmem => ?_, hnodup.tail⟩)
    exact ho (h.exclusive hold (hleft _ hmem))
  · refine h.exclusive.exchange ho.symm he hold hother (fun b hb => ?_) fun b hb => Or.inl (hnew b hb)
    rcases List.mem_cons.mp (hblocks'.mem_iff.mp hb) with rfl | hmem
    · exact Or.inl rfl
    · refine Or.inr ⟨?_, hleft b hmem⟩
      rintro rfl
      exact (List.nodup_cons.mp hnodup).1 hmem

/-! ## The anchor table -/

/-- How many blocks the search goes on from `block` to `target`. -/
def anchorDistance (block target : Nat) : Nat :=
  if block < target then target - block else target + anchorLastBlock - block

/-- The search stops at a good block before it comes back. -/
theorem anchorFindLoop_spec (nand : Nand) {table : Words} {current good : Nat}
    (hgood : anchorFirstBlock ≤ good ∧ good ≤ anchorLastBlock)
    (hcurrent : anchorFirstBlock ≤ current ∧ current ≤ anchorLastBlock)
    (hisGood : anchorIsBadBlock table good = false) (n block : Nat)
    (hblock : anchorFirstBlock ≤ block ∧ block ≤ anchorLastBlock)
    (hfuel : anchorDistance block good ≤ n)
    (hbefore : anchorDistance block good < anchorDistance block current) :
    ∃ next, anchorFirstBlock ≤ next ∧ next ≤ anchorLastBlock ∧ next ≠ current ∧
      anchorFindLoop nand table current n block = .ok (next, mtdErase nand next) := by
  simp only [anchorFirstBlock] at *
  induction n generalizing block with
  | zero =>
      unfold anchorDistance at hfuel
      split_ifs at hfuel <;> omega
  | succ n ih =>
      obtain ⟨next, hnext⟩ : ∃ next, next = if block + 1 > anchorLastBlock then 1 else block + 1 :=
        ⟨_, rfl⟩
      have hrange : 1 ≤ next ∧ next ≤ anchorLastBlock := by
        split_ifs at hnext <;> omega
      have hne : next ≠ current := by
        unfold anchorDistance at hbefore
        split_ifs at hnext hbefore <;> omega
      rw [anchorFindLoop]
      simp only [anchorFirstBlock, ← hnext]
      cases hbad : anchorIsBadBlock table next with
      | false => exact ⟨next, hrange.1, hrange.2, hne, rfl⟩
      | true =>
          have hnotGood : next ≠ good := by
            rintro rfl
            rw [hisGood] at hbad
            cases hbad
          rw [if_neg (by decide), if_pos hne]
          refine ih next hrange ?_ ?_
          · unfold anchorDistance at hfuel ⊢
            split_ifs at hnext hfuel ⊢ <;> omega
          · unfold anchorDistance at hbefore ⊢
            split_ifs at hnext hbefore ⊢ <;> omega

omit [UbiGeometry] in
theorem anchorIsBadBlock_congr {table table' : Words} {block : Nat}
    (h : ∀ w, 11 ≤ w → table' w = table w) :
    anchorIsBadBlock table' block = anchorIsBadBlock table block := by
  have htest : (fun i => decide (table' (11 + i) = block)) =
      fun i => decide (table (11 + i) = block) := by
    funext i
    rw [h (11 + i) (Nat.le_add_right 11 i)]
  exact congrArg (List.any (List.range anchorBadBlockCount)) htest

/-- The anchor table is written to an anchor block, and nothing else is touched. -/
theorem anchorUpdate_spec (h : AnchorReady s) :
    ∃ nand table block page, anchorUpdate s = .ok (.success, { s with
        nand := nand, anchorTable := table, anchorBlock := block, anchorNextPage := page }) ∧
      ∀ b, ¬(anchorFirstBlock ≤ b ∧ b ≤ anchorLastBlock) → nand b = s.nand b := by
  by_cases hfull : s.anchorNextPage = pagePerPhyBlock
  · obtain ⟨good, hfirst, hlast, hne, hgood⟩ := h.other
    have hgood' : anchorIsBadBlock (Function.update s.anchorTable 4 s.anchorBlock) good = false :=
      (anchorIsBadBlock_congr fun w hw => Function.update_of_ne (by omega) _ _).trans hgood
    have hblock := h.block
    obtain ⟨next, hnext, hnext', hother, hfind⟩ := anchorFindLoop_spec
      s.nand ⟨hfirst, hlast⟩ h.block hgood' (anchorLastBlock + 1) s.anchorBlock h.block
      (by unfold anchorDistance; simp only [anchorFirstBlock] at *; split_ifs <;> omega)
      (by unfold anchorDistance; simp only [anchorFirstBlock] at *; split_ifs <;> omega)
    have herased : mtdErase s.nand next next 0 = .erased := by
      rw [mtdErase, Function.update_self]
    refine ⟨mtdErase ((mtdErase s.nand next).update next 0 (.programmed
      (Function.update s.anchorTable 4 s.anchorBlock) fun _ => 0)) s.anchorBlock,
      Function.update s.anchorTable 4 s.anchorBlock, next, 1, ?_, fun b hb => ?_⟩
    · rw [anchorUpdate, if_pos hfull]
      simp only [anchorFindNextBlock, hfind, bind, Except.bind, if_pos hother, if_true,
        tableWritePage_erased herased]
    · have hbnext : b ≠ next := by
        rintro rfl
        exact hb ⟨hnext, hnext'⟩
      have hbcurrent : b ≠ s.anchorBlock := by
        rintro rfl
        exact hb hblock
      rw [mtdErase_other hbcurrent, Nand.update_other hbnext, mtdErase_other hbnext]
  · have herased := h.fresh s.anchorNextPage le_rfl (Nat.lt_of_le_of_ne h.page_le hfull)
    refine ⟨s.nand.update s.anchorBlock s.anchorNextPage (.programmed s.anchorTable fun _ => 0),
      s.anchorTable, s.anchorBlock, s.anchorNextPage + 1, ?_, fun b hb => ?_⟩
    · rw [anchorUpdate, if_neg hfull, tableWritePage_erased herased]
      rfl
    · refine Nand.update_other ?_
      rintro rfl
      exact hb h.block

/-! ## The index table -/

/-- What the area routines read is the same. -/
structure SameAreas (s s' : UbiState) : Prop where
  areaOffsetTable : s'.areaOffsetTable = s.areaOffsetTable
  cachedAreaTable : s'.cachedAreaTable = s.cachedAreaTable
  cachedAreaNumber : s'.cachedAreaNumber = s.cachedAreaNumber
  areaIndexTable : s'.areaIndexTable = s.areaIndexTable
  areaIndexEct : s'.areaIndexEct = s.areaIndexEct
  areaUpdatePlr : s'.areaUpdatePlr = s.areaUpdatePlr
  isUpdatingArea : s'.isUpdatingArea = s.isUpdatingArea

/-- A block that the index table and the anchor table do not touch. -/
structure Untouched (s : UbiState) (tables : Nat → Words) (free : List FreeBlock)
    (block : Nat) : Prop where
  notFree : ¬Uses s tables free .free block
  notIndex : ¬Uses s tables free .index block
  notAnchor : ¬Uses s tables free .anchor block

theorem Owned.untouched (h : Owned s tables free) {o : BlockUse} {block : Nat}
    (hfree : o ≠ .free) (hindex : o ≠ .index) (hanchor : o ≠ .anchor)
    (hblock : Uses s tables free o block) : Untouched s tables free block where
  notFree := fun hb => hfree (h.exclusive hblock hb)
  notIndex := fun hb => hindex (h.exclusive hblock hb)
  notAnchor := fun hb => hanchor (h.exclusive hblock hb)

/-- What a write of the index table leaves. -/
structure IndexWritten (s s' : UbiState) (tables : Nat → Words) (free free' : List FreeBlock) :
    Prop where
  owned : Owned s' tables free'
  same : SameAreas s s'
  nand : ∀ block, Untouched s tables free block → s'.nand block = s.nand block
  conserved : (free'.map FreeBlock.block : Multiset Nat) + {s'.indexBlock} =
    (free.map FreeBlock.block : Multiset Nat) + {s.indexBlock}
  block_eq : s.indexNextPage ≠ pagePerPhyBlock → s'.indexBlock = s.indexBlock

omit [UbiGeometry] in
theorem conserved_of_perm {free free' left : List FreeBlock} {e old : FreeBlock}
    (hperm : free.Perm (e :: left)) (hput : free'.Perm (old :: left)) :
    (free'.map FreeBlock.block : Multiset Nat) + {e.block} =
      (free.map FreeBlock.block : Multiset Nat) + {old.block} := by
  rw [Multiset.coe_eq_coe.mpr (hperm.map FreeBlock.block),
    Multiset.coe_eq_coe.mpr (hput.map FreeBlock.block), List.map_cons, List.map_cons,
    ← Multiset.cons_coe, ← Multiset.cons_coe, Multiset.add_comm _ {e.block},
    Multiset.add_comm _ {old.block},
    Multiset.singleton_add, Multiset.singleton_add, Multiset.cons_swap]

theorem indexWrite_spec (h : s.nand s.indexBlock s.indexNextPage = .erased) :
    indexWrite s = .ok (.success, { s with
      nand := s.nand.update s.indexBlock s.indexNextPage
        (.programmed (indexTable s) fun _ => 0)
      indexNextPage := s.indexNextPage + 1 }) := by
  rw [indexWrite, tableWritePage_erased h]
  rfl

/-- A full index block changes places with a free block. -/
theorem indexUpdate_full (h : Owned s tables free) (hindex : IndexReady s)
    (hanchor : AnchorReady s) (hfree : free ≠ []) (hfull : s.indexNextPage = pagePerPhyBlock) :
    ∃ s' free', indexUpdate s = .ok (.success, s') ∧ IndexWritten s s' tables free free' := by
  obtain ⟨e, left, t, hperm, htable, hget⟩ := indexFreeBlockGet_spec h.table hfree s.indexBlock
  have huse : Uses s tables free .free e.block :=
    (hperm.map FreeBlock.block).mem_iff.mpr List.mem_cons_self
  have hnotAnchor : ¬(anchorFirstBlock ≤ e.block ∧ e.block ≤ anchorLastBlock) := by
    intro hrange
    have hsame : BlockUse.free = BlockUse.anchor := h.exclusive huse hrange
    cases hsame
  have hroom : left.length < freeBlockCount := by
    have hlength := hperm.length_eq
    have hfits := h.table.fits
    rw [List.length_cons] at hlength
    omega
  obtain ⟨free', hput, hfree'⟩ := represents_put htable hroom hindex.block hindex.ec
  -- the erased block is none of the anchor blocks
  have hready : AnchorReady (anchorIndexReclaim
      { s with freeTable := t, nand := mtdErase s.nand e.block } e.block
      ((e.ec + 1) % 4294967296)) := by
    have hkept : mtdErase s.nand e.block s.anchorBlock = s.nand s.anchorBlock := by
      refine mtdErase_other ?_
      intro heq
      exact hnotAnchor (heq ▸ hanchor.block)
    refine ⟨hanchor.block, hanchor.page_le, fun page hle hlt => ?_, ?_⟩
    · exact (congrFun hkept page).trans (hanchor.fresh page hle hlt)
    · obtain ⟨good, hfirst, hlast, hne, hgood⟩ := hanchor.other
      refine ⟨good, hfirst, hlast, hne, (anchorIsBadBlock_congr fun w hw => ?_).trans hgood⟩
      simp only [anchorIndexReclaim]
      rw [if_neg (by omega), if_neg (by omega), if_neg (by omega), if_neg (by omega)]
  obtain ⟨nand, table, block, page, hupdate, hnand⟩ := anchorUpdate_spec hready
  have herased : nand e.block 0 = .erased := by
    rw [hnand e.block hnotAnchor]
    exact congrFun (Function.update_self e.block _ s.nand) 0
  have hsteps : indexUpdate s = indexWrite { s with
      nand := nand
      freeTable := freeBlockPut t ⟨s.indexBlock, s.indexBlockEc⟩
      indexBlock := e.block
      indexBlockEc := (e.ec + 1) % 4294967296
      indexNextPage := 0
      anchorTable := table
      anchorBlock := block
      anchorNextPage := page } := by
    rw [indexUpdate, if_pos hfull]
    simp only [hget, bind, Except.bind, hupdate, if_true]
    rfl
  have hindexUse : Uses s tables free .index (⟨s.indexBlock, s.indexBlockEc⟩ : FreeBlock).block :=
    rfl
  refine ⟨_, free', hsteps.trans (indexWrite_spec herased), ?_,
    ⟨rfl, rfl, rfl, rfl, rfl, rfl, rfl⟩, fun b hb => ?_, conserved_of_perm hperm hfree',
    fun hne => absurd hfull hne⟩
  · refine h.replace BlockUse.noConfusion hindexUse hperm hfree' hput ?_ fun b hb => hb.symm
    intro o' b hfree hindex hb
    cases o' with
    | mapped area offset => exact hb
    | areaTable area => exact hb
    | index => exact absurd rfl hindex
    | free => exact absurd rfl hfree
    | anchor => exact hb
  · have hne : b ≠ e.block := by
      rintro rfl
      exact hb.notFree huse
    exact (Nand.update_other hne).trans ((hnand b hb.notAnchor).trans (mtdErase_other hne))

/-- The index table goes to its block, or to a free block in place of a full one. -/
theorem indexUpdate_spec (h : Owned s tables free) (hindex : IndexReady s)
    (hanchor : AnchorReady s) (hfree : free ≠ []) :
    ∃ s' free', indexUpdate s = .ok (.success, s') ∧ IndexWritten s s' tables free free' := by
  by_cases hfull : s.indexNextPage = pagePerPhyBlock
  · exact indexUpdate_full h hindex hanchor hfree hfull
  · have herased := hindex.fresh s.indexNextPage le_rfl (Nat.lt_of_le_of_ne hindex.page_le hfull)
    refine ⟨_, free, (if_neg hfull).trans (indexWrite_spec herased), ?_⟩
    refine ⟨⟨h.table, h.nodup, h.exclusive⟩, ⟨rfl, rfl, rfl, rfl, rfl, rfl, rfl⟩,
      fun block hblock => ?_, rfl, fun _ => rfl⟩
    refine Nand.update_other ?_
    rintro rfl
    exact hblock.notIndex rfl

end RansomTag

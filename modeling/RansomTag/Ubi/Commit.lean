import RansomTag.Ubi.Invariant

/-!
# The area tables

What a read finds through the area tables, and `INDEX_Update_Commit`, which writes
the table of one area with a new block for one of its logical blocks.
-/

namespace RansomTag

variable [UbiGeometry] {s : UbiState} {tables : Nat → Words} {free : List FreeBlock} {area : Nat}

/-! ## Reads -/

omit [UbiGeometry] in
theorem tableReadPage_stored {nand : Nand} {block page : Nat} {data spare table : Words}
    (hpage : page ≠ invalidPage) (h : nand block page = .programmed data spare)
    (hspare : spare 0 ≠ noFootprint) :
    tableReadPage nand block page table = ⟨.success, page, data⟩ := by
  have hmid : (page + page) / 2 = page := by omega
  have hread (buffers : Words × Words) :
      mtdReadPage nand block page buffers = (.success, (data, spare)) := by
    rw [mtdReadPage, h]
  unfold tableReadPage
  rw [if_pos hpage]
  simp only [Bisection.bisect_of_eq, hmid, hread, true_and]
  rw [if_pos hspare]

/-- The area table is read from its page, unless it is the cached one. -/
theorem areaRead_spec (harea : area < areaCount) (hstored : AreaStored s tables area)
    (hcached : s.cachedAreaNumber = area → s.cachedAreaTable = tables area) :
    areaRead s area =
      .ok (.success, { s with cachedAreaTable := tables area, cachedAreaNumber := area }) := by
  unfold areaRead
  by_cases hsame : area = s.cachedAreaNumber
  · rw [if_neg (not_not_intro hsame), ← hcached hsame.symm, hsame]
  · have hle := areaCount_le
    have hvalid : area ≠ invalidArea := by
      simp only [invalidArea]
      omega
    have hpage : s.areaOffsetTable area ≠ invalidPage := by
      have hoffset := hstored.offset_lt
      simp only [pagePerPhyBlock, invalidPage] at *
      omega
    obtain ⟨spare, hprogrammed, hspare⟩ := hstored.stored
    rw [if_pos hsame, if_pos hvalid, tableReadPage_stored hpage hprogrammed hspare]
    simp only [Function.update_eq_self, if_true]

/-- What `UBI_Read` makes of the page of the physical block. -/
def NandPage.outcome : NandPage → UbiRead
  | .programmed data spare => ⟨.success, some data, some spare⟩
  | _ => ⟨.failure, none, none⟩

/-- The physical block of a logical block. -/
def physicalBlock (tables : Nat → Words) (block : Nat) : Nat :=
  areaPhysicalBlock (tables (areaIndex block)) (blockOffsetArea block)

/-- What a caller of `UBI_Read` sees. -/
def ubiReadOutcome (s : UbiState) (block page : Nat) : Except UbiStop UbiRead :=
  (ubiReadPage s block page).map Prod.fst

/-- The same, from the area tables and the pages. -/
def readThrough (tables : Nat → Words) (nand : Nand) (block page : Nat) : Except UbiStop UbiRead :=
  if block ≠ invalidBlock ∧ page ≠ invalidPage then
    if physicalBlock tables block ≠ invalidBlock then
      .ok (nand (physicalBlock tables block) page).outcome
    else .error .assertion
  else if block = invalidBlock ∧ page = invalidPage then
    .ok ⟨.success, some fun _ => 0, none⟩
  else .error .assertion

/-- A read finds the page of the physical block that the area table names. -/
theorem ubiReadOutcome_eq {block : Nat} (harea : areaIndex block < areaCount)
    (hstored : AreaStored s tables (areaIndex block))
    (hcached : s.cachedAreaNumber = areaIndex block →
      s.cachedAreaTable = tables (areaIndex block)) (page : Nat) :
    ubiReadOutcome s block page = readThrough tables s.nand block page := by
  unfold ubiReadOutcome ubiReadPage readThrough areaGetBlock
  by_cases hvalid : block ≠ invalidBlock ∧ page ≠ invalidPage
  · rw [if_pos hvalid, if_pos hvalid, areaRead_spec harea hstored hcached]
    simp only [bind, Except.bind, if_true]
    change Except.map Prod.fst (if physicalBlock tables block ≠ invalidBlock then
      match s.nand (physicalBlock tables block) page with
      | .programmed data spare => Except.ok (_, _)
      | _ => Except.ok (_, _)
      else Except.error UbiStop.assertion) = _
    split_ifs with hmapped
    · cases s.nand (physicalBlock tables block) page <;> rfl
    · rfl
  · rw [if_neg hvalid, if_neg hvalid]
    split_ifs <;> rfl

/-! ## The table of one area -/

theorem areaIndex_add {offset : Nat} (h : offset < phyBlockPerArea) :
    areaIndex (area * phyBlockPerArea + offset) = area := by
  rw [areaIndex, Nat.mul_comm, Nat.mul_add_div UbiGeometry.phyBlockPerArea_pos,
    Nat.div_eq_of_lt h, Nat.add_zero]

theorem blockOffsetArea_add {offset : Nat} (h : offset < phyBlockPerArea) :
    blockOffsetArea (area * phyBlockPerArea + offset) = offset := by
  rw [blockOffsetArea, Nat.mul_comm, Nat.mul_add_mod, Nat.mod_eq_of_lt h]

/-- `tables` with another block and count for one logical block. -/
def tablesSet (tables : Nat → Words) (area offset : Nat) (new : FreeBlock) : Nat → Words :=
  Function.update tables area (areaSet (tables area) offset new.block new.ec)

omit [UbiGeometry] in
theorem areaPhysicalBlock_set {table : Words} {offset block ec i : Nat} :
    areaPhysicalBlock (areaSet table offset block ec) i =
      if i = offset then block else areaPhysicalBlock table i := by
  unfold areaPhysicalBlock areaSet
  rw [Function.update_of_ne (by omega)]
  split_ifs with hi
  · rw [hi, Function.update_self]
  · exact Function.update_of_ne (by omega) _ _

/-- The table of an area that is in RAM goes to the next page of its block. -/
theorem areaUpdate_spec {offset : Nat} {new : FreeBlock} (hoffset : offset < phyBlockPerArea)
    (hcached : s.cachedAreaNumber = area) (htable : s.cachedAreaTable = tables area)
    (hblock : new.block ≠ invalidBlock) {page : Nat}
    (hpage : (s.areaOffsetTable area + 1) % pagePerPhyBlock = page)
    (herased : s.nand (s.areaIndexTable area) page = .erased) :
    areaUpdate s (area * phyBlockPerArea + offset) new.block new.ec =
      .ok (.success, { s with
        nand := s.nand.update (s.areaIndexTable area) page
          (.programmed (tablesSet tables area offset new area) fun _ => 0)
        cachedAreaTable := tablesSet tables area offset new area
        areaOffsetTable := Function.update s.areaOffsetTable area page }) := by
  have hread : areaRead s area = .ok (.success, s) := by
    rw [areaRead, if_neg (not_not_intro hcached.symm)]
  have hset : areaSet s.cachedAreaTable offset new.block new.ec =
      tablesSet tables area offset new area := by
    rw [tablesSet, Function.update_self, htable]
  rw [areaUpdate, areaIndex_add hoffset, blockOffsetArea_add hoffset, hread]
  simp only [bind, Except.bind, if_true, if_pos hblock, hpage, hset, tableWritePage_erased herased]

section

omit [UbiGeometry]

/-- The page behind the last one written is erased. -/
theorem AreaStored.next (h : AreaStored s tables area)
    (hnotFull : s.areaOffsetTable area ≠ pagePerPhyBlock - 1) :
    (s.areaOffsetTable area + 1) % pagePerPhyBlock = s.areaOffsetTable area + 1 ∧
      s.nand (s.areaIndexTable area) (s.areaOffsetTable area + 1) = .erased := by
  have hlt := h.offset_lt
  simp only [pagePerPhyBlock] at *
  refine ⟨Nat.mod_eq_of_lt (by omega), h.fresh _ (Nat.lt_succ_self _) ?_⟩
  simp only [pagePerPhyBlock]
  omega

/-- A table whose block and whose place in it are the same is where it was. -/
theorem AreaStored.of_same (h : AreaStored s tables area) {s' : UbiState}
    {tables' : Nat → Words} (htables : tables' area = tables area)
    (hoffset : s'.areaOffsetTable area = s.areaOffsetTable area)
    (hblock : s'.areaIndexTable area = s.areaIndexTable area)
    (hnand : s'.nand (s.areaIndexTable area) = s.nand (s.areaIndexTable area)) :
    AreaStored s' tables' area := by
  constructor
  · rw [hoffset]
    exact h.offset_lt
  · rw [hoffset, hblock, hnand, htables]
    exact h.stored
  · rw [hoffset, hblock, hnand]
    exact h.fresh

theorem IndexReady.of_same (h : IndexReady s) {s' : UbiState}
    (hblock : s'.indexBlock = s.indexBlock) (hec : s'.indexBlockEc = s.indexBlockEc)
    (hpage : s'.indexNextPage = s.indexNextPage)
    (hnand : s'.nand s.indexBlock = s.nand s.indexBlock) : IndexReady s' := by
  constructor
  · rw [hblock]
    exact h.block
  · rw [hec]
    exact h.ec
  · rw [hpage]
    exact h.page_le
  · rw [hpage, hblock, hnand]
    exact h.fresh

end

theorem AnchorReady.of_same (h : AnchorReady s) {s' : UbiState}
    (hblock : s'.anchorBlock = s.anchorBlock) (htable : s'.anchorTable = s.anchorTable)
    (hpage : s'.anchorNextPage = s.anchorNextPage)
    (hnand : s'.nand s.anchorBlock = s.nand s.anchorBlock) : AnchorReady s' := by
  constructor
  · rw [hblock]
    exact h.block
  · rw [hpage]
    exact h.page_le
  · rw [hpage, hblock, hnand]
    exact h.fresh
  · rw [hblock, htable]
    exact h.other

/-! ## The commit -/

/-- The entry `new` of an area table is in RAM only; its block is used as mapped already. -/
structure Committing (s : UbiState) (tables : Nat → Words) (free : List FreeBlock)
    (area offset : Nat) (new : FreeBlock) : Prop where
  area_lt : area < areaCount
  offset_lt : offset < phyBlockPerArea
  block : new.block ≠ invalidBlock
  owned : Owned s (tablesSet tables area offset new) free
  free_ne : free ≠ []
  stored : ∀ a < areaCount, AreaStored s tables a
  cachedNumber : s.cachedAreaNumber = area
  cachedTable : s.cachedAreaTable = tables area
  plr : s.areaUpdatePlr = ⟨area * phyBlockPerArea + offset, new.block, new.ec⟩
  updating : s.isUpdatingArea = true
  areaBlock : s.areaIndexTable area ≠ invalidBlock
  areaEc : s.areaIndexEct area < invalidEc
  index : IndexReady s
  anchor : AnchorReady s

/-- What a commit leaves: the tables name the same blocks, mapped blocks are as they were, and
the block of a full table has changed places with a free one. -/
structure Committed (s s' : UbiState) (tables : Nat → Words) (free free' : List FreeBlock)
    (area : Nat) : Prop where
  owned : Owned s' tables free'
  stored : ∀ a < areaCount, AreaStored s' tables a
  cachedNumber : s'.cachedAreaNumber = area
  cachedTable : s'.cachedAreaTable = tables area
  nand : ∀ a i block, Uses s tables free (.mapped a i) block → s'.nand block = s.nand block
  conserved : (free'.map FreeBlock.block : Multiset Nat) + {s'.areaIndexTable area} +
      {s'.indexBlock} =
    (free.map FreeBlock.block : Multiset Nat) + {s.areaIndexTable area} + {s.indexBlock}
  areaBlock_eq : s.areaOffsetTable area ≠ pagePerPhyBlock - 1 →
    s'.areaIndexTable area = s.areaIndexTable area
  areaBlock_taken : s.areaOffsetTable area = pagePerPhyBlock - 1 →
    s'.areaIndexTable area ∈ free.map FreeBlock.block
  indexBlock_eq : s.indexNextPage ≠ pagePerPhyBlock → s'.indexBlock = s.indexBlock

section

variable {offset : Nat} {new : FreeBlock}

theorem Committing.areaIsFull_eq (h : Committing s tables free area offset new) :
    areaIsFull s (area * phyBlockPerArea + offset) =
      .ok (decide (s.areaOffsetTable area = pagePerPhyBlock - 1), s) := by
  have hread : areaRead s area = .ok (.success, s) := by
    rw [areaRead, if_neg (not_not_intro h.cachedNumber.symm)]
  rw [areaIsFull, areaIndex_add h.offset_lt, hread]
  simp only [bind, Except.bind, true_and]

/-- The table behind an area update: the other areas are where they were. -/
theorem stored_after_areaUpdate {s' : UbiState} {page : Nat} (harea : area < areaCount)
    (hpage : page < pagePerPhyBlock)
    (hexclusive : Exclusive (Uses s (tablesSet tables area offset new) free))
    (hstored : ∀ a < areaCount, a ≠ area → AreaStored s tables a)
    (hblock : s'.areaIndexTable = s.areaIndexTable)
    (hoffset : s'.areaOffsetTable = Function.update s.areaOffsetTable area page)
    (hnand : s'.nand = s.nand.update (s.areaIndexTable area) page
      (.programmed (tablesSet tables area offset new area) fun _ => 0))
    (hfresh : ∀ p, page < p → p < pagePerPhyBlock → s.nand (s.areaIndexTable area) p = .erased)
    (a : Nat) (ha : a < areaCount) : AreaStored s' (tablesSet tables area offset new) a := by
  by_cases hsame : a = area
  · subst hsame
    have hrow : ∀ p, s'.nand (s'.areaIndexTable a) p =
        if p = page then .programmed (tablesSet tables a offset new a) fun _ => 0
        else s.nand (s.areaIndexTable a) p := by
      intro p
      rw [hnand, hblock, Nand.update, Function.update_self]
      exact Function.update_apply _ _ _ _
    have hlast : s'.areaOffsetTable a = page := by rw [hoffset, Function.update_self]
    refine ⟨hlast ▸ hpage, ⟨fun _ => 0, ?_, by decide⟩, fun p hp hlt => ?_⟩
    · rw [hrow, if_pos hlast]
    · rw [hlast] at hp
      rw [hrow, if_neg (Nat.ne_of_gt hp)]
      exact hfresh p hp hlt
  · have huse : Uses s (tablesSet tables area offset new) free (.areaTable a)
        (s.areaIndexTable a) := ⟨ha, rfl⟩
    have huse' : Uses s (tablesSet tables area offset new) free (.areaTable area)
        (s.areaIndexTable area) := ⟨harea, rfl⟩
    have hne : s.areaIndexTable a ≠ s.areaIndexTable area :=
      hexclusive.ne (fun heq => hsame (BlockUse.areaTable.inj heq)) huse huse'
    refine (hstored a ha hsame).of_same ?_ ?_ (congrFun hblock a) ?_
    · exact Function.update_of_ne hsame _ _
    · rw [hoffset, Function.update_of_ne hsame]
    · rw [hnand, Nand.update_other hne]

/-- The area table has a page left: the index table is written before it. -/
theorem Committing.commit_notFull (h : Committing s tables free area offset new)
    (hnotFull : s.areaOffsetTable area ≠ pagePerPhyBlock - 1) :
    ∃ s' free', indexUpdateCommit s = .ok (.success, s') ∧
      Committed s s' (tablesSet tables area offset new) free free' area := by
  obtain ⟨s₁, free₁, hupdate, hwritten⟩ := indexUpdate_spec h.owned h.index h.anchor h.free_ne
  have htableNand : ∀ a < areaCount,
      s₁.nand (s.areaIndexTable a) = s.nand (s.areaIndexTable a) := by
    intro a ha
    have huse : Uses s (tablesSet tables area offset new) free (.areaTable a)
        (s.areaIndexTable a) := ⟨ha, rfl⟩
    exact hwritten.nand _ (h.owned.untouched BlockUse.noConfusion BlockUse.noConfusion
      BlockUse.noConfusion huse)
  have hstored₁ : ∀ a < areaCount, AreaStored s₁ tables a := by
    intro a ha
    exact (h.stored a ha).of_same rfl (congrFun hwritten.same.areaOffsetTable a)
      (congrFun hwritten.same.areaIndexTable a) (htableNand a ha)
  have hoffset₁ : s₁.areaOffsetTable area ≠ pagePerPhyBlock - 1 := by
    rw [hwritten.same.areaOffsetTable]
    exact hnotFull
  obtain ⟨hpage, herased⟩ := (hstored₁ area h.area_lt).next hoffset₁
  have harea := areaUpdate_spec h.offset_lt
    (hwritten.same.cachedAreaNumber.trans h.cachedNumber)
    (hwritten.same.cachedAreaTable.trans h.cachedTable) h.block hpage herased
  have hlt : s₁.areaOffsetTable area + 1 < pagePerPhyBlock := by
    have := (hstored₁ area h.area_lt).offset_lt
    simp only [pagePerPhyBlock] at *
    omega
  refine ⟨{ s₁ with
    nand := s₁.nand.update (s₁.areaIndexTable area) (s₁.areaOffsetTable area + 1)
      (.programmed (tablesSet tables area offset new area) fun _ => 0)
    cachedAreaTable := tablesSet tables area offset new area
    areaOffsetTable := Function.update s₁.areaOffsetTable area (s₁.areaOffsetTable area + 1)
    isUpdatingArea := false }, free₁, ?_, ?_⟩
  · rw [indexUpdateCommit, if_pos h.updating, h.plr]
    simp only [h.areaIsFull_eq, bind, Except.bind, commitPrepare, decide_eq_true_eq, hnotFull,
      if_false, hupdate, if_true, harea, and_false]
  · have hrow : ∀ a i block, Uses s (tablesSet tables area offset new) free (.mapped a i) block →
        block ≠ s.areaIndexTable area := by
      intro a i block huse heq
      have huse' : Uses s (tablesSet tables area offset new) free (.areaTable area) block :=
        ⟨h.area_lt, heq.symm⟩
      have hsame : BlockUse.mapped a i = BlockUse.areaTable area := h.owned.exclusive huse huse'
      cases hsame
    constructor
    · exact ⟨hwritten.owned.table, hwritten.owned.nodup, hwritten.owned.exclusive⟩
    · exact stored_after_areaUpdate h.area_lt hlt hwritten.owned.exclusive
        (fun a ha _ => hstored₁ a ha) rfl rfl rfl
        fun p hp hp' => (hstored₁ area h.area_lt).fresh p (by omega) hp'
    · exact hwritten.same.cachedAreaNumber.trans h.cachedNumber
    · rfl
    · intro a i block huse
      have hne := hrow a i block huse
      rw [← hwritten.same.areaIndexTable] at hne
      refine (Nand.update_other hne).trans (hwritten.nand block ?_)
      exact h.owned.untouched BlockUse.noConfusion BlockUse.noConfusion BlockUse.noConfusion huse
    · have hconserved := hwritten.conserved
      simp only [hwritten.same.areaIndexTable]
      rw [Multiset.add_assoc, Multiset.add_comm {s.areaIndexTable area}, ← Multiset.add_assoc,
        hconserved, Multiset.add_assoc, Multiset.add_comm {s.indexBlock}, ← Multiset.add_assoc]
    · exact fun _ => congrFun hwritten.same.areaIndexTable area
    · exact fun hfull => absurd hfull hnotFull
    · exact hwritten.block_eq

/-- The state in which the full block of the area table has been given up for `new`. -/
structure TableMoved (s s₁ : UbiState) (tables : Nat → Words) (free free₁ : List FreeBlock)
    (area : Nat) (offset : Nat) (new taken : FreeBlock) : Prop where
  owned : Owned s₁ (tablesSet tables area offset new) free₁
  takenFree : Uses s (tablesSet tables area offset new) free .free taken.block
  free_ne : free₁ ≠ []
  conserved : (free₁.map FreeBlock.block : Multiset Nat) + {taken.block} =
    (free.map FreeBlock.block : Multiset Nat) + {s.areaIndexTable area}
  nand : s₁.nand = mtdErase s.nand taken.block
  areaIndexTable : s₁.areaIndexTable = Function.update s.areaIndexTable area taken.block
  areaOffsetTable : s₁.areaOffsetTable = s.areaOffsetTable
  cachedAreaNumber : s₁.cachedAreaNumber = s.cachedAreaNumber
  cachedAreaTable : s₁.cachedAreaTable = s.cachedAreaTable
  index : s₁.indexBlock = s.indexBlock ∧ s₁.indexBlockEc = s.indexBlockEc ∧
    s₁.indexNextPage = s.indexNextPage
  anchor : s₁.anchorBlock = s.anchorBlock ∧ s₁.anchorTable = s.anchorTable ∧
    s₁.anchorNextPage = s.anchorNextPage

theorem Committing.reclaim (h : Committing s tables free area offset new) :
    ∃ s₁ free₁ taken,
      commitPrepare s (area * phyBlockPerArea + offset) true = .ok (.success, s₁) ∧
        TableMoved s s₁ tables free free₁ area offset new taken := by
  obtain ⟨e, left, t, hperm, htable, hget⟩ :=
    indexFreeBlockGet_spec h.owned.table h.free_ne (s.areaIndexTable area)
  have hroom : left.length < freeBlockCount := by
    have hlength := hperm.length_eq
    have hfits := h.owned.table.fits
    rw [List.length_cons] at hlength
    omega
  obtain ⟨free₁, hput, hfree₁⟩ := represents_put htable hroom h.areaBlock h.areaEc
  have hold : Uses s (tablesSet tables area offset new) free (.areaTable area)
      (⟨s.areaIndexTable area, s.areaIndexEct area⟩ : FreeBlock).block := ⟨h.area_lt, rfl⟩
  refine ⟨indexUpdateAreaReclaim
    { s with freeTable := t, nand := mtdErase s.nand e.block } area
    ⟨e.block, (e.ec + 1) % 4294967296⟩, free₁, e, ?_, ?_⟩
  · rw [commitPrepare, if_pos rfl, areaIndex_add h.offset_lt, hget]
    rfl
  · refine ⟨?_, (hperm.map FreeBlock.block).mem_iff.mpr List.mem_cons_self, ?_,
      conserved_of_perm hperm hfree₁, rfl, rfl, rfl, rfl, rfl, ⟨rfl, rfl, rfl⟩, rfl, rfl, rfl⟩
    · refine h.owned.replace BlockUse.noConfusion hold hperm hfree₁ hput ?_ ?_
      · intro o' b hfree harea hb
        cases o' with
        | mapped a i => exact hb
        | areaTable a =>
            have hne : a ≠ area := fun heq => harea (heq ▸ rfl)
            exact ⟨hb.1, (Function.update_of_ne hne _ _).symm.trans hb.2⟩
        | index => exact hb
        | free => exact absurd rfl hfree
        | anchor => exact hb
      · intro b hb
        exact hb.2.symm.trans (Function.update_self area _ _)
    · intro hnil
      rw [hnil] at hfree₁
      exact absurd hfree₁.length_eq (by simp)

/-- The block of the area table is full: the table goes to a new block, and then the index
table names it. -/
theorem Committing.commit_full (h : Committing s tables free area offset new)
    (hfull : s.areaOffsetTable area = pagePerPhyBlock - 1) :
    ∃ s' free', indexUpdateCommit s = .ok (.success, s') ∧
      Committed s s' (tablesSet tables area offset new) free free' area := by
  obtain ⟨s₁, free₁, taken, hprepare, hr⟩ := h.reclaim
  have hexclusive := h.owned.exclusive
  have hnand : ∀ block, block ≠ taken.block → s₁.nand block = s.nand block := by
    intro block hne
    rw [hr.nand]
    exact mtdErase_other hne
  have hblock₁ : s₁.areaIndexTable area = taken.block := by
    rw [hr.areaIndexTable, Function.update_self]
  have herased : ∀ page, s₁.nand (s₁.areaIndexTable area) page = .erased := by
    intro page
    rw [hblock₁, hr.nand]
    exact congrFun (Function.update_self taken.block _ s.nand) page
  have hpage : (s₁.areaOffsetTable area + 1) % pagePerPhyBlock = 0 := by
    rw [hr.areaOffsetTable, hfull]
    rfl
  have harea := areaUpdate_spec h.offset_lt (hr.cachedAreaNumber.trans h.cachedNumber)
    (hr.cachedAreaTable.trans h.cachedTable) h.block hpage (herased 0)
  obtain ⟨s₂, hs₂⟩ : ∃ s₂ : UbiState, s₂ = { s₁ with
    nand := s₁.nand.update (s₁.areaIndexTable area) 0
      (.programmed (tablesSet tables area offset new area) fun _ => 0)
    cachedAreaTable := tablesSet tables area offset new area
    areaOffsetTable := Function.update s₁.areaOffsetTable area 0 } := ⟨_, rfl⟩
  rw [← hs₂] at harea
  have hnand₂ : ∀ block, block ≠ taken.block → s₂.nand block = s.nand block := by
    intro block hne
    rw [hs₂]
    exact (Nand.update_other (hblock₁ ▸ hne)).trans (hnand block hne)
  have howned₂ : Owned s₂ (tablesSet tables area offset new) free₁ := by
    rw [hs₂]
    exact ⟨hr.owned.table, hr.owned.nodup, hr.owned.exclusive⟩
  have hindexUse : Uses s (tablesSet tables area offset new) free .index s.indexBlock := rfl
  have hindex₂ : IndexReady s₂ := by
    refine h.index.of_same ?_ ?_ ?_ (hnand₂ _ ?_)
    · rw [hs₂, ← hr.index.1]
    · rw [hs₂, ← hr.index.2.1]
    · rw [hs₂, ← hr.index.2.2]
    · exact hexclusive.ne BlockUse.noConfusion hindexUse hr.takenFree
  have hanchorUse : Uses s (tablesSet tables area offset new) free .anchor s.anchorBlock :=
    h.anchor.block
  have hanchor₂ : AnchorReady s₂ := by
    refine h.anchor.of_same ?_ ?_ ?_ (hnand₂ _ ?_)
    · rw [hs₂, ← hr.anchor.1]
    · rw [hs₂, ← hr.anchor.2.1]
    · rw [hs₂, ← hr.anchor.2.2]
    · exact hexclusive.ne BlockUse.noConfusion hanchorUse hr.takenFree
  have hstored₁ : ∀ a < areaCount, a ≠ area → AreaStored s₁ tables a := by
    intro a ha hne
    have huse : Uses s (tablesSet tables area offset new) free (.areaTable a)
        (s.areaIndexTable a) := ⟨ha, rfl⟩
    refine (h.stored a ha).of_same rfl (congrFun hr.areaOffsetTable a) ?_ (hnand _ ?_)
    · rw [hr.areaIndexTable, Function.update_of_ne hne]
    · exact hexclusive.ne BlockUse.noConfusion huse hr.takenFree
  have hstored₂ : ∀ a < areaCount, AreaStored s₂ (tablesSet tables area offset new) a := by
    refine stored_after_areaUpdate h.area_lt (by decide : 0 < pagePerPhyBlock)
      hr.owned.exclusive hstored₁ ?_ ?_ ?_ fun p _ _ => herased p
    · rw [hs₂]
    · rw [hs₂]
    · rw [hs₂]
  obtain ⟨s₃, free₃, hupdate, hwritten⟩ := indexUpdate_spec howned₂ hindex₂ hanchor₂ hr.free_ne
  have hblock₃ : s₃.areaIndexTable area = taken.block := by
    rw [hwritten.same.areaIndexTable, hs₂]
    exact hblock₁
  refine ⟨{ s₃ with isUpdatingArea := false }, free₃, ?_, ?_⟩
  · rw [indexUpdateCommit, if_pos h.updating, h.plr]
    simp only [h.areaIsFull_eq, bind, Except.bind, decide_eq_true hfull, hprepare, if_true, harea,
      and_self, hupdate]
  · constructor
    · exact ⟨hwritten.owned.table, hwritten.owned.nodup, hwritten.owned.exclusive⟩
    · intro a ha
      have huse : Uses s₂ (tablesSet tables area offset new) free₁ (.areaTable a)
          (s₂.areaIndexTable a) := ⟨ha, rfl⟩
      exact (hstored₂ a ha).of_same rfl (congrFun hwritten.same.areaOffsetTable a)
        (congrFun hwritten.same.areaIndexTable a) (hwritten.nand _ (howned₂.untouched
          BlockUse.noConfusion BlockUse.noConfusion BlockUse.noConfusion huse))
    · refine hwritten.same.cachedAreaNumber.trans ?_
      rw [hs₂]
      exact hr.cachedAreaNumber.trans h.cachedNumber
    · refine hwritten.same.cachedAreaTable.trans ?_
      rw [hs₂]
    · intro a i block huse
      have hne := hexclusive.ne BlockUse.noConfusion huse hr.takenFree
      have huse₂ : Uses s₂ (tablesSet tables area offset new) free₁ (.mapped a i) block := huse
      refine (hwritten.nand block (howned₂.untouched BlockUse.noConfusion BlockUse.noConfusion
        BlockUse.noConfusion huse₂)).trans (hnand₂ block hne)
    · have hindex : s₂.indexBlock = s.indexBlock := by
        rw [hs₂]
        exact hr.index.1
      have hconserved := hwritten.conserved
      rw [hindex] at hconserved
      change (free₃.map FreeBlock.block : Multiset Nat) + {s₃.areaIndexTable area} +
        {s₃.indexBlock} = _
      rw [hblock₃, Multiset.add_assoc, Multiset.add_comm {taken.block}, ← Multiset.add_assoc,
        hconserved, Multiset.add_assoc, Multiset.add_comm {s.indexBlock}, ← Multiset.add_assoc,
        hr.conserved]
    · exact fun hnot => absurd hfull hnot
    · intro _
      change s₃.areaIndexTable area ∈ _
      rw [hblock₃]
      exact hr.takenFree
    · intro hnot
      have hpage₂ : s₂.indexNextPage ≠ pagePerPhyBlock := by
        rw [hs₂]
        exact fun heq => hnot (hr.index.2.2.symm.trans heq)
      refine (hwritten.block_eq hpage₂).trans ?_
      rw [hs₂]
      exact hr.index.1

/-- `INDEX_Update_Commit` of one area update. -/
theorem Committing.commit (h : Committing s tables free area offset new) :
    ∃ s' free', indexUpdateCommit s = .ok (.success, s') ∧
      Committed s s' (tablesSet tables area offset new) free free' area := by
  by_cases hfull : s.areaOffsetTable area = pagePerPhyBlock - 1
  · exact h.commit_full hfull
  · exact h.commit_notFull hfull

end

end RansomTag

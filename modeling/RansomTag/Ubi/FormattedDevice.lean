import RansomTag.Ubi.Format

/-!
# The formatted device

After `UBI_Format` each good block behind the anchor blocks has one use, and `UBI_Init`
finds a device in which every logical block is erased.
-/

namespace RansomTag

section

variable [FormatLayout] {s : UbiState} {isBad : Nat → Bool}

/-! ## The formatted device -/

/-- The uses of the blocks behind the anchor blocks. -/
def formatUses (takens : Nat → List Nat) (areaTables : Nat → Nat) (index : Nat)
    (frees : List Nat) : List (BlockUse × Nat) :=
  (List.range' 0 areaCount).flatMap (areaUses takens areaTables) ++
    (.index, index) :: frees.map fun b => (.free, b)

variable {takens : Nat → List Nat} {areaTables : Nat → Nat} {index : Nat} {frees : List Nat}

/-- `UBI_Capacity` -/
def ubiCapacityOf (s : UbiState) : Nat := s.anchorTable 5

/-- What a formatted device consists of. -/
structure FormattedTables (s : UbiState) (isBad : Nat → Bool) (takens : Nat → List Nat)
    (tables : Nat → Words) (index : Nat) (frees : List Nat) : Prop where
  blocks : goodBlocks isBad dataFirstBlock =
    (formatUses takens s.areaIndexTable index frees).map Prod.snd
  areas : ∀ a < areaCount, AreaFormatted s (takens a) (tables a) a
  full : ∀ a, a + 1 < areaCount → (takens a).length = phyBlockPerArea
  last : LastArea isBad (takens (areaCount - 1)).length
  free : Represents s.freeTable (frees.map fun b => ⟨b, 0⟩)
  free_ne : frees ≠ []
  indexStored : WrittenTable (s.nand index) 1 (indexTable s)
  plr : s.areaUpdatePlr = ⟨invalidBlock, invalidBlock, invalidEc⟩
  anchor : AnchorBlocks s
  anchorStored : WrittenTable (s.nand s.anchorBlock) s.anchorNextPage s.anchorTable
  anchorIndex : s.anchorTable 0 = index ∧ s.anchorTable 1 = 0
  capacity : ubiCapacityOf s = (areaCount - 1) * phyBlockPerArea + (takens (areaCount - 1)).length

/-- The first area starts behind the anchor blocks. -/
theorem areaStart_first (hroom : FormatRoom isBad) : AreaStart isBad 0 dataFirstBlock where
  first_le := by rw [Nat.zero_mul, Nat.add_zero]
  bad_le := by rw [Nat.zero_mul, Nat.add_zero]
  lt := by
    have hareas : dataFirstBlock + (areaCount - 1) * (phyBlockPerArea + 1) +
        (logBlockCount - dataBlockCount) ≤ dataBlockCount := FormatLayout.areas_le
    unfold FormatRoom at hroom
    omega

theorem areaCount_le_dataBlockCount : areaCount ≤ dataBlockCount := by
  have hareas := FormatLayout.areas_le
  have hmul : areaCount - 1 ≤ (areaCount - 1) * (phyBlockPerArea + 1) :=
    Nat.le_mul_of_pos_right _ (Nat.succ_pos _)
  omega

/-- `UBI_Format` with a table of bad blocks that leaves enough room. -/
theorem ubiFormatTables_spec (hisBad : anchorIsBadBlock s.anchorTable = isBad)
    (hroom : FormatRoom isBad) (hlast : isBad (logBlockCount - 1) = false)
    (husable : AnchorsUsable s.nand isBad) :
    ∃ s' takens tables index frees, ubiFormatTables s = .ok (.success, s') ∧
      FormattedTables s' isBad takens tables index frees := by
  have hpos : 0 < areaCount := FormatLayout.areaCount_pos
  have hcount := areaCount_le_dataBlockCount
  have hlog := FormatLayout.logBlockCount_lt
  obtain ⟨s₁, next, takens, tables, hareas, hdone⟩ := @formatAreas_spec _ isBad hroom (areaCount - 1)
    0 _ 0 dataBlockCount s (by omega) (by omega) hisBad (areaStart_first hroom)
  have hanchorTable₁ : s₁.anchorTable = s.anchorTable := by
    obtain ⟨_, _, _, _, _, hsame⟩ := hdone.same
    rw [hsame]
  obtain ⟨index, frees, hgood⟩ := List.exists_cons_of_length_pos
    (Nat.lt_of_lt_of_le Nat.zero_lt_two hdone.reserve)
  have hnextLog : next ≤ logBlockCount := by
    have hmem := (goodBlocks_cons hgood).1
    omega
  have hlength : next + (goodBlocks isBad next).length + badBlocks isBad next = logBlockCount :=
    length_goodBlocks hnextLog
  have hreserve := hdone.reserve
  rw [hgood, List.length_cons] at hlength hreserve
  have hfits : frees.length ≤ freeBlockCount := by
    have hspare := FormatLayout.reserve_le
    have hnext := hdone.next_le
    omega
  have hgood₁ : goodBlocks (anchorIsBadBlock s₁.anchorTable) next = index :: frees := by
    rw [hanchorTable₁, hisBad, hgood]
  obtain ⟨s₂, hindex, hformatted⟩ := indexFormatTables_spec hgood₁ hfits
    (by rw [hanchorTable₁, hisBad]; exact hlast)
  have hbad₂ : anchorIsBadBlock s₂.anchorTable = isBad := by
    rw [← hisBad, ← hanchorTable₁]
    funext b
    refine anchorIsBadBlock_congr fun w hw => ?_
    rw [hformatted.anchorTable]
    simp only
    rw [if_neg (by omega), if_neg (by omega), if_neg (by omega), if_neg (by omega)]
  -- the blocks behind the anchor blocks
  have hblocks : goodBlocks isBad dataFirstBlock =
      (formatUses takens s₁.areaIndexTable index frees).map Prod.snd := by
    have hfrees : (frees.map fun b => (BlockUse.free, b)).map Prod.snd = frees := by
      rw [List.map_map]
      exact List.map_id frees
    rw [formatUses, List.map_append, List.map_cons, hfrees, ← hgood]
    exact hdone.blocks
  have hnodup : (goodBlocks isBad dataFirstBlock).Nodup := goodBlocks_nodup
  have hrest : ∀ b, b ∈ index :: frees → b ∈ goodBlocks isBad next := by
    intro b hb
    rw [hgood]
    exact hb
  have hdata : ∀ b ∈ goodBlocks isBad dataFirstBlock,
      ¬(anchorFirstBlock ≤ b ∧ b ≤ anchorLastBlock) := by
    intro b hb hrange
    have hmem := (mem_goodBlocks.mp hb).1.1
    unfold dataFirstBlock at hmem
    omega
  have hanchors₂ : ∀ b, anchorFirstBlock ≤ b → b ≤ anchorLastBlock → s₂.nand b = s.nand b := by
    intro b hfirst hblast
    have hnot : b ∉ goodBlocks isBad dataFirstBlock := fun hb => hdata b hb ⟨hfirst, hblast⟩
    rw [hformatted.nand b fun hb => hnot ?_, hdone.nand b hnot]
    rw [hdone.blocks]
    exact List.mem_append_right _ (hrest b hb)
  have husable₂ : AnchorsUsable s₂.nand (anchorIsBadBlock s₂.anchorTable) := by
    rw [hbad₂]
    refine ⟨husable.first_le, husable.first, husable.other, fun b hfirst hblast hb => ?_⟩
    rw [hanchors₂ b hfirst hblast]
    exact husable.bad b hfirst hblast hb
  have hlastArea := hdone.last
  have htotal : 0 + (areaCount - 1) * phyBlockPerArea + (takens (areaCount - 1)).length ≠
      invalidBlock := by
    have hdata := hlastArea.data
    rw [Nat.mul_succ] at hdata
    unfold FormatRoom at hroom
    simp only [invalidBlock]
    omega
  obtain ⟨nand, table, block, page, hanchor, houtside, hwords, hcapacity, hanchorBlocks, hstored⟩ :=
    anchorFormat_spec husable₂ htotal
  refine ⟨{ s₂ with
    nand := nand, anchorTable := table, anchorBlock := block, anchorNextPage := page },
    takens, tables, index, frees, ?_, ?_, fun a ha => ?_, fun a ha =>
    hdone.full a (Nat.zero_le a) ha, hlastArea, hformatted.table, ?_, ?_, hformatted.plr,
    hanchorBlocks, hstored, ?_, ?_⟩
  · unfold ubiFormatTables
    simp only [bind, Except.bind, hareas, hindex, if_true]
    exact hanchor
  · obtain ⟨_, _, _, _, hsame⟩ := hformatted.same
    change _ = (formatUses takens s₂.areaIndexTable index frees).map Prod.snd
    rw [hblocks, hsame]
  · have harea := hdone.areas a (Nat.zero_le a) ha
    obtain ⟨_, _, _, _, hsame⟩ := hformatted.same
    have hmem : ∀ b ∈ takens a ++ [s₁.areaIndexTable a], b ∈
        ((List.range' 0 (areaCount - 0)).flatMap
          (areaUses takens s₁.areaIndexTable)).map Prod.snd := by
      intro b hb
      rw [List.map_flatMap]
      refine List.mem_flatMap.mpr ⟨a, List.mem_range'_1.mpr ⟨Nat.zero_le a, by omega⟩, ?_⟩
      rw [areaUses_blocks]
      exact hb
    refine harea.of_same ?_ ?_ fun b hb => ?_
    · change s₂.areaIndexTable a = _
      rw [hsame]
    · change s₂.areaIndexEct a = _
      rw [hsame]
    · have hb' := hmem b hb
      have hin : b ∈ goodBlocks isBad dataFirstBlock := by
        rw [hdone.blocks]
        exact List.mem_append_left _ hb'
      refine (houtside b (hdata b hin)).trans (hformatted.nand b fun hlater => ?_)
      rw [hdone.blocks] at hnodup
      exact List.disjoint_of_nodup_append hnodup hb' (hrest b hlater)
  · rintro rfl
    simp only [List.length_nil] at hreserve
    omega
  · have hin : index ∈ goodBlocks isBad dataFirstBlock := by
      rw [hdone.blocks]
      exact List.mem_append_right _ (hrest index List.mem_cons_self)
    change WrittenTable (nand index) 1 (indexTable s₂)
    rw [houtside index (hdata index hin)]
    exact hformatted.stored
  · change table 0 = index ∧ table 1 = 0
    rw [hwords 0 (by decide), hwords 1 (by decide), hformatted.anchorTable]
    exact ⟨rfl, rfl⟩
  · exact hcapacity.trans (congrArg (· + _) (Nat.zero_add _))

/-- The device between the format and its first mount. -/
def formattedRest (s : UbiState) (index : Nat) : UbiState :=
  { s with
    areaOffsetTable := fun _ => 0
    cachedAreaNumber := invalidArea
    indexBlock := index
    indexBlockEc := 0
    indexNextPage := 1 }

namespace FormattedTables

variable {tables : Nat → Words}

theorem length_le (h : FormattedTables s isBad takens tables index frees) {a : Nat}
    (ha : a < areaCount) : (takens a).length ≤ phyBlockPerArea := by
  by_cases hmore : a + 1 < areaCount
  · exact (h.full a hmore).le
  · have hlast : a = areaCount - 1 := by omega
    rw [hlast]
    exact h.last.le

theorem mem_blocks (h : FormattedTables s isBad takens tables index frees) {o : BlockUse} {b : Nat}
    (hb : (o, b) ∈ formatUses takens s.areaIndexTable index frees) :
    b ∈ goodBlocks isBad dataFirstBlock := by
  rw [h.blocks]
  exact List.mem_map_of_mem hb

omit [FormatLayout] in
theorem mem_areaUses {a : Nat} {o : BlockUse} {b : Nat} :
    (o, b) ∈ areaUses takens areaTables a ↔
      (∃ i, (takens a)[i]? = some b ∧ o = .mapped a i) ∨ o = .areaTable a ∧ areaTables a = b := by
  rw [areaUses, List.mem_append, List.mem_map, List.mem_singleton, Prod.mk.injEq,
    eq_comm (a := b) (b := areaTables a)]
  refine or_congr ⟨?_, ?_⟩ Iff.rfl
  · rintro ⟨⟨b', i⟩, hmem, hpair⟩
    obtain ⟨rfl, rfl⟩ := Prod.mk.inj hpair
    exact ⟨i, List.mem_zipIdx_iff_getElem?.mp hmem, rfl⟩
  · rintro ⟨i, hentry, rfl⟩
    exact ⟨(b, i), List.mem_zipIdx_iff_getElem?.mpr hentry, rfl⟩

theorem mem_formatUses {o : BlockUse} {b : Nat} :
    (o, b) ∈ formatUses takens areaTables index frees ↔
      (∃ a < areaCount, (o, b) ∈ areaUses takens areaTables a) ∨ o = .index ∧ b = index ∨
        o = .free ∧ b ∈ frees := by
  rw [formatUses, List.mem_append, List.mem_flatMap, List.mem_cons, List.mem_map, Prod.mk.injEq]
  refine or_congr ⟨?_, ?_⟩ (or_congr Iff.rfl ⟨?_, ?_⟩)
  · rintro ⟨a, ha, hmem⟩
    exact ⟨a, by rw [List.mem_range'_1] at ha; omega, hmem⟩
  · rintro ⟨a, ha, hmem⟩
    exact ⟨a, List.mem_range'_1.mpr ⟨Nat.zero_le a, by omega⟩, hmem⟩
  · rintro ⟨b', hmem, hpair⟩
    obtain ⟨rfl, rfl⟩ := Prod.mk.inj hpair
    exact ⟨rfl, hmem⟩
  · rintro ⟨rfl, hmem⟩
    exact ⟨b, hmem, rfl⟩

/-- The uses of the formatted device are those that the loops gave out. -/
theorem uses_iff (h : FormattedTables s isBad takens tables index frees) {o : BlockUse} {b : Nat}
    (ho : o ≠ .anchor) :
    Uses (formattedRest s index) tables (frees.map fun b => ⟨b, 0⟩) o b ↔
      (o, b) ∈ formatUses takens s.areaIndexTable index frees := by
  have hlog := FormatLayout.logBlockCount_lt
  rw [mem_formatUses]
  cases o with
  | anchor => exact absurd rfl ho
  | mapped a i =>
      simp only [mem_areaUses, reduceCtorEq, false_and, or_false, BlockUse.mapped.injEq]
      constructor
      · rintro ⟨ha, hi, hblock, hvalid⟩
        rw [(h.areas a ha).holds.block i hi, List.getD_eq_getElem?_getD] at hblock
        cases hentry : (takens a)[i]? with
        | none =>
            rw [hentry] at hblock
            exact absurd hblock.symm hvalid
        | some b' =>
            rw [hentry] at hblock
            exact ⟨a, ha, i, hentry.trans (congrArg some hblock), rfl, rfl⟩
      · rintro ⟨_, ha, _, hentry, rfl, rfl⟩
        have hi := (List.getElem?_eq_some_iff.mp hentry).1
        have hmem : b ∈ goodBlocks isBad dataFirstBlock := h.mem_blocks
          (mem_formatUses.mpr (Or.inl ⟨a, ha, mem_areaUses.mpr (Or.inl ⟨i, hentry, rfl⟩)⟩))
        have hb := (mem_goodBlocks.mp hmem).1.2
        refine ⟨ha, hi.trans_le (h.length_le ha), ?_, ?_⟩
        · rw [(h.areas a ha).holds.block i (hi.trans_le (h.length_le ha)),
            List.getD_eq_getElem?_getD, hentry]
          rfl
        · simp only [invalidBlock]
          omega
  | areaTable a =>
      simp only [mem_areaUses, reduceCtorEq, false_and, or_false, and_false, exists_false,
        false_or, BlockUse.areaTable.injEq]
      constructor
      · rintro ⟨ha, hblock⟩
        exact ⟨a, ha, rfl, hblock⟩
      · rintro ⟨_, ha, rfl, hblock⟩
        exact ⟨ha, hblock⟩
  | index =>
      simp only [mem_areaUses, reduceCtorEq, false_and, or_false, and_false, exists_false,
        false_or, true_and]
      exact eq_comm
  | free =>
      simp only [mem_areaUses, reduceCtorEq, false_and, or_false, and_false, exists_false,
        false_or, true_and]
      change b ∈ (frees.map _).map FreeBlock.block ↔ _
      rw [List.map_map]
      exact iff_of_eq (congrArg (b ∈ ·) (List.map_id frees))

theorem exclusive (h : FormattedTables s isBad takens tables index frees) :
    Exclusive (Uses (formattedRest s index) tables (frees.map fun b => ⟨b, 0⟩)) := by
  have hnodup : (goodBlocks isBad dataFirstBlock).Nodup := goodBlocks_nodup
  rw [h.blocks] at hnodup
  have hdata : ∀ o b, o ≠ .anchor →
      Uses (formattedRest s index) tables (frees.map fun b => ⟨b, 0⟩) o b →
        ¬(anchorFirstBlock ≤ b ∧ b ≤ anchorLastBlock) := by
    intro o b ho huse hrange
    have hmem := (mem_goodBlocks.mp (h.mem_blocks ((h.uses_iff ho).mp huse))).1.1
    unfold dataFirstBlock at hmem
    omega
  intro o o' b huse huse'
  by_cases ho : o = .anchor
  · by_cases ho' : o' = .anchor
    · rw [ho, ho']
    · subst ho
      exact absurd huse (hdata o' b ho' huse')
  · by_cases ho' : o' = .anchor
    · subst ho'
      exact absurd huse' (hdata o b ho huse)
    · exact congrArg Prod.fst (List.inj_on_of_nodup_map hnodup ((h.uses_iff ho).mp huse)
        ((h.uses_iff ho').mp huse') rfl)

/-- The blocks in use are the anchor blocks and the good ones behind them. -/
theorem inUse (h : FormattedTables s isBad takens tables index frees) (b : Nat) :
    InUse (formattedRest s index) tables (frees.map fun b => ⟨b, 0⟩) b ↔
      (anchorFirstBlock ≤ b ∧ b ≤ anchorLastBlock) ∨
        (dataFirstBlock ≤ b ∧ b < logBlockCount) ∧ isBad b = false := by
  constructor
  · rintro ⟨o, huse⟩
    by_cases ho : o = .anchor
    · subst ho
      exact Or.inl huse
    · exact Or.inr (mem_goodBlocks.mp (h.mem_blocks ((h.uses_iff ho).mp huse)))
  · rintro (hanchor | hdata)
    · exact ⟨.anchor, hanchor⟩
    · have hmem := mem_goodBlocks.mpr hdata
      rw [h.blocks] at hmem
      obtain ⟨⟨o, b'⟩, hb, rfl⟩ := List.mem_map.mp hmem
      have ho : o ≠ .anchor := by
        rintro rfl
        rcases mem_formatUses.mp hb with ⟨a, -, hmem'⟩ | ⟨hindex, -⟩ | ⟨hfree, -⟩
        · rcases mem_areaUses.mp hmem' with ⟨i, -, hmapped⟩ | ⟨htable, -⟩
          · cases hmapped
          · cases htable
        · cases hindex
        · cases hfree
      exact ⟨o, (h.uses_iff ho).mpr hb⟩

/-- The state is one between two calls. -/
theorem rest (h : FormattedTables s isBad takens tables index frees) :
    UbiRest (formattedRest s index) tables (frees.map fun b => ⟨b, 0⟩) 0 := by
  have hlog := FormatLayout.logBlockCount_lt
  have hvalid : ∀ o b, o ≠ .anchor →
      Uses (formattedRest s index) tables (frees.map fun b => ⟨b, 0⟩) o b → b ≠ invalidBlock := by
    intro o b ho huse
    have hmem := (mem_goodBlocks.mp (h.mem_blocks ((h.uses_iff ho).mp huse))).1.2
    simp only [invalidBlock]
    omega
  have hindexUse : Uses (formattedRest s index) tables (frees.map fun b => ⟨b, 0⟩) .index index :=
    rfl
  refine ⟨⟨⟨h.free, ?_, h.exclusive⟩, ?_, fun a ha => (h.areas a ha).stored, fun a ha => ?_,
    ⟨hvalid _ _ BlockUse.noConfusion hindexUse, h.indexStored⟩, ?_, ?_, ?_⟩,
    fun hcached => absurd rfl hcached⟩
  · have hnodup : (goodBlocks isBad dataFirstBlock).Nodup := goodBlocks_nodup
    rw [h.blocks, formatUses, List.map_append, List.map_cons, List.nodup_append'] at hnodup
    have hfrees := (List.nodup_cons.mp hnodup.2.1).2
    rw [List.map_map] at hfrees ⊢
    exact hfrees
  · rw [Ne, List.map_eq_nil_iff]
    exact h.free_ne
  · have huse : Uses (formattedRest s index) tables (frees.map fun b => ⟨b, 0⟩) (.areaTable a)
        (s.areaIndexTable a) := ⟨ha, rfl⟩
    exact hvalid _ _ BlockUse.noConfusion huse
  · exact ⟨h.anchor.of_same rfl rfl rfl fun _ _ _ => rfl, h.anchorStored, h.anchorIndex.1,
      h.anchorIndex.2⟩
  · intro hblock
    refine absurd ?_ hblock
    change s.areaUpdatePlr.logicalBlock = _
    rw [h.plr]
  · refine ⟨fun e he => ?_, fun a ha i hi hmapped => ?_, fun a ha => (h.areas a ha).ec.le, le_rfl⟩
    · obtain ⟨b, -, rfl⟩ := List.mem_map.mp he
      exact le_rfl
    · refine ((h.areas a ha).holds.ec i ?_).le
      rw [(h.areas a ha).holds.block i hi, List.getD_eq_getElem?_getD] at hmapped
      by_contra hge
      rw [List.getElem?_eq_none (by omega)] at hmapped
      exact hmapped rfl

/-- The number of logical blocks, `total_data_block`. -/
theorem mapped (h : FormattedTables s isBad takens tables index frees) {block : Nat}
    (hblock : block < (areaCount - 1) * phyBlockPerArea + (takens (areaCount - 1)).length) :
    areaIndex block < areaCount ∧ physicalBlock tables block ∈ takens (areaIndex block) := by
  have hpos : 0 < areaCount := FormatLayout.areaCount_pos
  have hsize : 0 < phyBlockPerArea := UbiGeometry.phyBlockPerArea_pos
  have hlast := h.last.le
  have hoffset : blockOffsetArea block < phyBlockPerArea := Nat.mod_lt _ hsize
  have hsplit : phyBlockPerArea * areaIndex block + blockOffsetArea block = block :=
    Nat.div_add_mod block phyBlockPerArea
  have harea : areaIndex block < areaCount := by
    by_contra hge
    have hmul : (areaCount - 1) * phyBlockPerArea + phyBlockPerArea ≤
        phyBlockPerArea * areaIndex block := by
      rw [← Nat.succ_mul, Nat.mul_comm phyBlockPerArea]
      exact Nat.mul_le_mul_right _ (by omega)
    omega
  have hin : blockOffsetArea block < (takens (areaIndex block)).length := by
    by_cases hmore : areaIndex block + 1 < areaCount
    · rw [h.full _ hmore]
      exact hoffset
    · have hindex : areaIndex block = areaCount - 1 := by omega
      rw [hindex, Nat.mul_comm] at hsplit
      rw [hindex]
      omega
  refine ⟨harea, ?_⟩
  rw [physicalBlock, (h.areas _ harea).holds.block _ hoffset, List.getD_eq_getElem?_getD,
    List.getElem?_eq_getElem hin]
  exact List.getElem_mem hin

/-- `UBI_Init` finds a flash whose logical blocks are erased. -/
theorem mount (h : FormattedTables s isBad takens tables index frees) {d : UbiDevice}
    (hnand : d.tables.nand = s.nand)
    (hsome : 0 < (areaCount - 1) * phyBlockPerArea + (takens (areaCount - 1)).length) :
    ∃ d', ubiRemount d = .ok (.success, d') ∧
      ShowsFlash d' (· < (areaCount - 1) * phyBlockPerArea + (takens (areaCount - 1)).length)
        (fun _ _ => .erased)
        (fun b => (anchorFirstBlock ≤ b ∧ b ≤ anchorLastBlock) ∨
          (dataFirstBlock ≤ b ∧ b < logBlockCount) ∧ isBad b = false) 1 := by
  have hlog := FormatLayout.logBlockCount_lt
  have hshows : Shows ⟨formattedRest s index, fun _ => ⟨0, invalidBlock, 0, 0, none, fun _ => 0⟩⟩
      (· < (areaCount - 1) * phyBlockPerArea + (takens (areaCount - 1)).length)
      (fun _ _ => .erased)
      (fun b => (anchorFirstBlock ≤ b ∧ b ≤ anchorLastBlock) ∨
        (dataFirstBlock ≤ b ∧ b < logBlockCount) ∧ isBad b = false)
      tables (frees.map fun b => ⟨b, 0⟩) 0 := by
    refine ⟨h.rest, fun block hblock => ?_, fun block hblock => ?_, hsome,
      fun _ => ⟨hsome, fun hheld => absurd rfl hheld⟩, h.inUse⟩
    · obtain ⟨harea, hmem⟩ := h.mapped hblock
      obtain ⟨i, hi, hentry⟩ := List.mem_iff_getElem.mp hmem
      have hin : physicalBlock tables block ∈ goodBlocks isBad dataFirstBlock := by
        refine h.mem_blocks (o := .mapped (areaIndex block) i)
          (mem_formatUses.mpr (Or.inl ⟨_, harea, mem_areaUses.mpr (Or.inl ⟨i, ?_, rfl⟩)⟩))
        rw [List.getElem?_eq_getElem hi, hentry]
      refine ⟨harea, ?_⟩
      have hlt := (mem_goodBlocks.mp hin).1.2
      simp only [invalidBlock]
      omega
    · obtain ⟨harea, hmem⟩ := h.mapped hblock
      exact (h.areas _ harea).erased _ hmem
  obtain ⟨d', free', hremount, h'⟩ := hshows.remount (by decide)
  refine ⟨d', ?_, _, _, h'⟩
  rw [ubiRemount, hnand]
  exact hremount

end FormattedTables

/-! ## The table of bad blocks -/

/-- The table of bad blocks lists `bad`. -/
def ListsBad (table : Words) (bad : List Nat) : Prop :=
  ∀ i < anchorBadBlockCount, table (11 + i) = bad.getD i invalidBlock

omit [FormatLayout] in
theorem ListsBad.iff {table : Words} {bad : List Nat} (h : ListsBad table bad)
    (hfits : bad.length ≤ anchorBadBlockCount) {b : Nat} (hb : b ≠ invalidBlock) :
    anchorIsBadBlock table b = true ↔ b ∈ bad := by
  rw [anchorIsBadBlock, List.any_eq_true]
  constructor
  · rintro ⟨i, hi, hentry⟩
    have hi' := List.mem_range.mp hi
    have hblock := (h i hi').symm.trans (of_decide_eq_true hentry)
    rw [List.getD_eq_getElem?_getD] at hblock
    cases hplace : bad[i]? with
    | none =>
        rw [hplace] at hblock
        exact absurd hblock.symm hb
    | some b' =>
        rw [hplace] at hblock
        exact List.mem_of_getElem? (hplace.trans (congrArg some hblock))
  · intro hmem
    obtain ⟨i, hi, hentry⟩ := List.mem_iff_getElem.mp hmem
    refine ⟨i, List.mem_range.mpr (hi.trans_le hfits), decide_eq_true ?_⟩
    rw [h i (hi.trans_le hfits), List.getD_eq_getElem?_getD, List.getElem?_eq_getElem hi, hentry]
    rfl

omit [FormatLayout] in
/-- A block that is not in the table goes behind the others. -/
theorem ListsBad.log {table : Words} {bad : List Nat} (h : ListsBad table bad)
    (hvalid : ∀ b ∈ bad, b ≠ invalidBlock) (hroom : bad.length < anchorBadBlockCount) {b : Nat}
    (hb : b ∉ bad) : ListsBad (anchorLogBadBlock table b) (bad ++ [b]) := by
  have hfind : (List.range anchorBadBlockCount).find? (fun i =>
      decide (table (11 + i) = invalidBlock ∨ table (11 + i) = b)) = some bad.length := by
    refine List.find?_range_eq_some.mpr ⟨decide_eq_true ?_, List.mem_range.mpr hroom,
      fun i hi => ?_⟩
    · rw [h _ hroom, List.getD_eq_getElem?_getD, List.getElem?_eq_none le_rfl]
      exact Or.inl rfl
    · have hentry : table (11 + i) = bad[i] := by
        rw [h i (hi.trans hroom), List.getD_eq_getElem?_getD, List.getElem?_eq_getElem hi]
        rfl
      rw [hentry, Bool.not_eq_true', decide_eq_false_iff_not, not_or]
      exact ⟨hvalid _ (List.getElem_mem hi), fun hsame => hb (hsame ▸ List.getElem_mem hi)⟩
  unfold anchorLogBadBlock
  rw [hfind]
  intro i hi
  simp only
  rw [List.getD_eq_getElem?_getD]
  by_cases hlast : i = bad.length
  · rw [hlast, Function.update_self, List.getElem?_concat_length]
    rfl
  · rw [Function.update_of_ne (by omega), h i hi, List.getD_eq_getElem?_getD]
    by_cases hin : i < bad.length
    · rw [List.getElem?_append_left hin]
    · rw [List.getElem?_eq_none (by omega), List.getElem?_eq_none (by
        rw [List.length_append, List.length_singleton]
        omega)]

omit [FormatLayout] in
/-- The check of `blocks`: a good one is erased, and a bad one is listed. -/
theorem checkBlocks_loop (check : Nat → Bool) (blocks : List Nat) {s : UbiState} {bad : List Nat}
    (h : ListsBad s.anchorTable bad) (hvalid : ∀ b ∈ bad ++ blocks, b ≠ invalidBlock)
    (hnodup : (bad ++ blocks).Nodup)
    (hroom : bad.length + (blocks.filter fun b => !check b).length ≤ anchorBadBlockCount) :
    ∃ nand table,
      blocks.foldl (checkBlock check) s = { s with nand := nand, anchorTable := table } ∧
      ListsBad table (bad ++ blocks.filter fun b => !check b) ∧
        ∀ b, nand b = if b ∈ blocks ∧ check b = true then fun _ => .erased else s.nand b := by
  induction blocks generalizing s bad with
  | nil =>
      refine ⟨s.nand, s.anchorTable, rfl, ?_, fun b => (if_neg fun h => ?_).symm⟩
      · rw [List.filter_nil, List.append_nil]
        exact h
      · exact absurd h.1 List.not_mem_nil
  | cons block blocks ih =>
      rw [List.foldl_cons, checkBlock]
      cases hcheck : check block with
      | true =>
          rw [if_pos rfl]
          rw [List.filter_cons_of_neg (by rw [hcheck]; decide)] at hroom ⊢
          obtain ⟨nand, table, hloop, hlists, hnand⟩ := ih
            (s := { s with nand := mtdErase s.nand block }) h
            (fun b hb => hvalid b (by
              rw [List.mem_append] at hb ⊢
              exact hb.imp_right (List.mem_cons_of_mem _)))
            (hnodup.sublist (List.Sublist.append_left (List.sublist_cons_self _ _) _)) hroom
          refine ⟨nand, table, hloop, hlists, fun b => ?_⟩
          rw [hnand]
          by_cases hsame : b = block
          · rw [hsame]
            refine Eq.trans ?_ (if_pos ⟨List.mem_cons_self, hcheck⟩).symm
            change (if _ then _ else mtdErase s.nand block block) = _
            rw [mtdErase_self, ite_self]
          · change (if _ then _ else mtdErase s.nand block b) = _
            rw [mtdErase_other hsame]
            refine if_congr (and_congr_left fun _ => ?_) rfl rfl
            rw [List.mem_cons, or_iff_right hsame]
      | false =>
          rw [if_neg Bool.false_ne_true]
          rw [List.filter_cons_of_pos (by rw [hcheck]; decide)] at hroom ⊢
          rw [List.length_cons] at hroom
          have hmem : block ∉ bad := fun hbad =>
            List.disjoint_of_nodup_append hnodup hbad List.mem_cons_self
          have hlt : bad.length < anchorBadBlockCount := by omega
          have hnext := h.log (fun b hb => hvalid b (List.mem_append_left _ hb)) hlt hmem
          obtain ⟨logged, hlogged⟩ : ∃ logged,
              logged = anchorLogBadBlock s.anchorTable block := ⟨_, rfl⟩
          rw [← hlogged] at hnext ⊢
          obtain ⟨nand, table, hloop, hlists, hnand⟩ := ih
            (s := { s with anchorTable := logged }) hnext
            (fun b hb => hvalid b (by rwa [List.append_assoc] at hb))
            (by rwa [List.append_assoc]) (by
              rw [List.length_append, List.length_singleton]
              omega)
          rw [List.append_assoc] at hlists
          refine ⟨nand, table, hloop, hlists, fun b => ?_⟩
          rw [hnand]
          refine if_congr ⟨fun hb => ⟨List.mem_cons_of_mem _ hb.1, hb.2⟩, fun hb => ⟨?_, hb.2⟩⟩
            rfl rfl
          refine (List.mem_cons.mp hb.1).resolve_left ?_
          rintro rfl
          rw [hcheck] at hb
          exact Bool.noConfusion hb.2

/-! ## `UBI_Format` -/

omit [FormatLayout] in
/-- Without a page in the anchor blocks there is no anchor table. -/
theorem anchorInit_blank [UbiGeometry]
    (h : ∀ b, anchorFirstBlock ≤ b → b ≤ anchorLastBlock →
      ∀ data spare, s.nand b 0 ≠ .programmed data spare) :
    anchorInit s = .ok (.failure, { loadIndexTable s (fun _ => 4294967295) with
      anchorTable := fun _ => 4294967295 }) := by
  have hscan := @anchorScan_unreadable
    ⟨s.nand, fun _ => 4294967295, invalidBlock, invalidPage, invalidBlock⟩ anchorFirstBlock
    (anchorLastBlock + 1 - anchorFirstBlock) fun b hle hlt => h b hle (by omega)
  unfold anchorInit
  simp only [bind, Except.bind, loadIndexTable, hscan]
  rw [if_neg (not_not_intro rfl)]

/-- All bad blocks fit in their table. -/
theorem length_badBlocks_lt {check : Nat → Bool} (hroom : FormatRoom fun b => !check b) :
    ((List.range logBlockCount).filter fun b => !check b).length < anchorBadBlockCount := by
  have hfits := FormatLayout.badBlocks_le
  have hlog : dataFirstBlock ≤ logBlockCount := by
    have hareas : dataFirstBlock + (areaCount - 1) * (phyBlockPerArea + 1) +
        (logBlockCount - dataBlockCount) ≤ dataBlockCount := FormatLayout.areas_le
    unfold FormatRoom at hroom
    omega
  have hsplit : List.range logBlockCount =
      List.range' 0 dataFirstBlock ++
        List.range' dataFirstBlock (logBlockCount - dataFirstBlock) := by
    have hcount : logBlockCount = dataFirstBlock + (logBlockCount - dataFirstBlock) := by omega
    have happend := @List.range'_append 0 dataFirstBlock (logBlockCount - dataFirstBlock) 1
    rw [← hcount] at happend
    rw [List.range_eq_range', ← happend, Nat.zero_add, Nat.one_mul]
  have hfront := List.countP_le_length (p := fun b => !check b) (l := List.range' 0 dataFirstBlock)
  rw [List.length_range'] at hfront
  unfold FormatRoom badBlocks at hroom
  rw [← List.countP_eq_length_filter, hsplit, List.countP_append]
  unfold dataFirstBlock at *
  omega

/-- There are few enough bad blocks, and the anchor blocks can be used. -/
structure Formattable (check : Nat → Bool) : Prop where
  room : FormatRoom fun b => !check b
  first_le : anchorFirstBlock ≤ anchorLastBlock
  first : check anchorFirstBlock = true
  other : ∃ block, anchorFirstBlock < block ∧ block ≤ anchorLastBlock ∧ check block = true

/-- The state behind the check of all blocks. -/
structure Checked (check : Nat → Bool) (s : UbiState) : Prop where
  lists : ListsBad s.anchorTable ((List.range logBlockCount).filter fun b => !check b)
  isBad : ∀ b < logBlockCount, anchorIsBadBlock s.anchorTable b = !check b
  room : FormatRoom (anchorIsBadBlock s.anchorTable)
  usable : AnchorsUsable s.nand (anchorIsBadBlock s.anchorTable)

/-- `UBI_Format` of a blank NAND checks all blocks first. -/
theorem Formattable.checked {check : Nat → Bool} (h : Formattable check)
    (hblank : ∀ b, anchorFirstBlock ≤ b → b ≤ anchorLastBlock →
      ∀ data spare, s.nand b 0 ≠ .programmed data spare) :
    ∃ t, ubiFormatAll check s = ubiFormatTables t ∧ Checked check t := by
  have hlog := FormatLayout.logBlockCount_lt
  have hareas : dataFirstBlock + (areaCount - 1) * (phyBlockPerArea + 1) +
      (logBlockCount - dataBlockCount) ≤ dataBlockCount := FormatLayout.areas_le
  have hroom := h.room
  unfold FormatRoom at hroom
  have hfits := (length_badBlocks_lt h.room).le
  obtain ⟨t, ht⟩ : ∃ t : UbiState, t = { loadIndexTable s (fun _ => 4294967295) with
      anchorTable := fun _ => 4294967295 } := ⟨_, rfl⟩
  have hempty : ListsBad t.anchorTable [] := by
    intro i _
    rw [ht]
    rfl
  obtain ⟨nand, table, hcheck, hlists, hnand⟩ := checkBlocks_loop check
    (List.range logBlockCount) hempty (fun b hb => by
      have hlt := List.mem_range.mp hb
      simp only [invalidBlock]
      omega) List.nodup_range (by rw [List.length_nil, Nat.zero_add]; exact hfits)
  rw [List.nil_append] at hlists
  have hisBad : ∀ b < logBlockCount, anchorIsBadBlock table b = !check b := by
    intro b hb
    rw [Bool.eq_iff_iff, hlists.iff hfits (by simp only [invalidBlock]; omega), List.mem_filter,
      and_iff_right (List.mem_range.mpr hb)]
  have hrange : ∀ b, b ≤ anchorLastBlock → b < logBlockCount := by
    intro b hb
    unfold dataFirstBlock at hareas
    omega
  refine ⟨{ t with nand := nand, anchorTable := table }, ?_, hlists, hisBad, ?_, h.first_le, ?_, ?_,
    fun b hfirst hlast _ data spare => ?_⟩
  · rw [ubiFormatAll, anchorInit_blank hblank, ← ht]
    simp only [bind, Except.bind, reduceCtorEq, if_false, hcheck]
  · have hcount : badBlocks (anchorIsBadBlock table) dataFirstBlock =
        badBlocks (fun b => !check b) dataFirstBlock := by
      refine List.countP_congr fun b hb => ?_
      have hlt := List.mem_range'_1.mp hb
      rw [hisBad b (by omega)]
    unfold FormatRoom
    rw [hcount]
    exact hroom
  · rw [hisBad _ (hrange _ h.first_le), h.first]
    rfl
  · obtain ⟨block, hlt, hle, hgood⟩ := h.other
    refine ⟨block, hlt, hle, ?_⟩
    rw [hisBad _ (hrange _ hle), hgood]
    rfl
  · change nand b 0 ≠ _
    rw [hnand]
    split_ifs
    · exact NandPage.noConfusion
    · rw [ht]
      exact hblank b hfirst hlast data spare

/-- `UBI_Format` of a blank NAND whose last block is good. -/
theorem Formattable.format {check : Nat → Bool} (h : Formattable check)
    (hlast : check (logBlockCount - 1) = true)
    (hblank : ∀ b, anchorFirstBlock ≤ b → b ≤ anchorLastBlock →
      ∀ data spare, s.nand b 0 ≠ .programmed data spare) :
    ∃ s' isBad takens tables index frees, ubiFormatAll check s = .ok (.success, s') ∧
      (∀ b < logBlockCount, isBad b = !check b) ∧
        FormattedTables s' isBad takens tables index frees := by
  have hroom := h.room
  unfold FormatRoom at hroom
  obtain ⟨t, hall, hchecked⟩ := h.checked hblank
  obtain ⟨s', takens, tables, index, frees, hformat, hdone⟩ := ubiFormatTables_spec rfl
    hchecked.room (by rw [hchecked.isBad _ (by omega), hlast]; rfl) hchecked.usable
  exact ⟨s', _, takens, tables, index, frees, hall.trans hformat, hchecked.isBad, hdone⟩

/-! ## A bad last block -/

/-- `INDEX_Format` gives up when the last block is bad, and lists the index block as bad. -/
theorem indexFormatTables_fails {index : Nat} {frees : List Nat}
    (hgood : goodBlocks (anchorIsBadBlock s.anchorTable) block = index :: frees)
    (hfits : frees.length ≤ freeBlockCount)
    (hlast : anchorIsBadBlock s.anchorTable (logBlockCount - 1) = true) :
    ∃ s', indexFormatTables s block = .ok (none, s') ∧
      s'.anchorTable = anchorLogBadBlock s.anchorTable index := by
  have hlt := (goodBlocks_cons hgood).1
  have hloop := @indexFormatLoop_none _ (anchorIsBadBlock s.anchorTable) (logBlockCount - block)
    block index .success frees s.freeTable s.nand (by omega) hgood hfits
  rw [lastStatus, hlast, if_pos rfl] at hloop
  obtain ⟨logged, hlogged⟩ : ∃ logged, logged = anchorLogBadBlock s.anchorTable index := ⟨_, rfl⟩
  unfold indexFormatTables
  simp only [bind, Except.bind, hloop, reduceCtorEq, false_and, if_false, ← hlogged]
  exact ⟨_, rfl, rfl⟩

/-- The table of bad blocks is written without the data blocks. -/
theorem anchorFormat_badTable
    (hfirst : anchorIsBadBlock s.anchorTable anchorFirstBlock = false)
    (hle : anchorFirstBlock ≤ anchorLastBlock) :
    ∃ s', anchorFormat s invalidBlock = .ok (.success, s') ∧
      ∀ w, 11 ≤ w → s'.anchorTable w = s.anchorTable w := by
  obtain ⟨t, ht⟩ : ∃ t : UbiState, t = { s with
    nand := (List.range' anchorFirstBlock (anchorLastBlock + 1 - anchorFirstBlock)).foldl
      (fun nand b => if anchorIsBadBlock (anchorFormatTable s.anchorTable invalidBlock) b then nand
        else mtdErase nand b) s.nand
    anchorTable := anchorFormatTable s.anchorTable invalidBlock
    anchorBlock := anchorFirstBlock
    anchorNextPage := 0 } := ⟨_, rfl⟩
  have hwords : ∀ w, 11 ≤ w →
      anchorFormatTable s.anchorTable invalidBlock w = s.anchorTable w := by
    intro w hw
    unfold anchorFormatTable
    rw [if_neg (by omega), if_neg (by omega), if_neg (by omega), if_neg (by omega),
      if_neg (by omega), if_neg (by omega), if_neg (by omega)]
  have hblock : t.anchorBlock = anchorFirstBlock := by rw [ht]
  have hnextPage : t.anchorNextPage = 0 := by rw [ht]
  have herased : t.nand t.anchorBlock t.anchorNextPage = .erased := by
    rw [hblock, hnextPage, ht]
    refine congrFun ((eraseGood_apply _ _ _ _).trans (if_pos ⟨?_, ?_⟩)) 0
    · exact List.mem_range'_1.mpr ⟨le_rfl, by omega⟩
    · exact (anchorIsBadBlock_congr hwords).trans hfirst
  have hpage : t.anchorNextPage ≠ pagePerPhyBlock := by
    rw [hnextPage]
    decide
  refine ⟨{ t with
    nand := t.nand.update t.anchorBlock t.anchorNextPage
      (.programmed t.anchorTable fun _ => 0)
    anchorNextPage := t.anchorNextPage + 1 }, ?_, fun w hw => ?_⟩
  · rw [anchorFormat, ← ht, anchorUpdate, if_neg hpage, tableWritePage_erased herased]
    rfl
  · change t.anchorTable w = _
    rw [ht]
    exact hwords w hw

/-- `UBI_Format` fails when the last block is bad; a good block is then listed as bad. -/
theorem ubiFormatTables_fails (hisBad : anchorIsBadBlock s.anchorTable = isBad)
    (hroom : FormatRoom isBad) (hlast : isBad (logBlockCount - 1) = true)
    (husable : AnchorsUsable s.nand isBad) {bad : List Nat} (hlists : ListsBad s.anchorTable bad)
    (hvalid : ∀ b ∈ bad, b ≠ invalidBlock) (hfits : bad.length < anchorBadBlockCount) :
    ∃ s' index, ubiFormatTables s = .ok (.failure, s') ∧
      (dataFirstBlock ≤ index ∧ index < logBlockCount) ∧ isBad index = false ∧
        anchorIsBadBlock s'.anchorTable index = true := by
  have hpos : 0 < areaCount := FormatLayout.areaCount_pos
  have hcount := areaCount_le_dataBlockCount
  have hlog := FormatLayout.logBlockCount_lt
  obtain ⟨s₁, next, takens, tables, hareas, hdone⟩ := @formatAreas_spec _ isBad hroom (areaCount - 1)
    0 _ 0 dataBlockCount s (by omega) (by omega) hisBad (areaStart_first hroom)
  have hanchorTable₁ : s₁.anchorTable = s.anchorTable := by
    obtain ⟨_, _, _, _, _, hsame⟩ := hdone.same
    rw [hsame]
  obtain ⟨index, frees, hgood⟩ := List.exists_cons_of_length_pos
    (Nat.lt_of_lt_of_le Nat.zero_lt_two hdone.reserve)
  obtain ⟨⟨hle, hlt⟩, hindexGood⟩ := goodBlocks_cons hgood
  have hlength : next + (goodBlocks isBad next).length + badBlocks isBad next = logBlockCount :=
    length_goodBlocks (hle.trans hlt.le)
  rw [hgood, List.length_cons] at hlength
  have hspare := FormatLayout.reserve_le
  have hnext := hdone.next_le
  have hgood₁ : goodBlocks (anchorIsBadBlock s₁.anchorTable) next = index :: frees := by
    rw [hanchorTable₁, hisBad, hgood]
  obtain ⟨s₂, hindex, htable₂⟩ := indexFormatTables_fails hgood₁ (by omega)
    (by rw [hanchorTable₁, hisBad]; exact hlast)
  have hstart : dataFirstBlock ≤ next := by
    have hfirst := (areaStart_first hroom).lt
    omega
  have hinvalid : index ≠ invalidBlock := by
    simp only [invalidBlock]
    omega
  have hnew : index ∉ bad := by
    intro hmem
    have hbad := (hlists.iff hfits.le hinvalid).mpr hmem
    rw [hisBad, hindexGood] at hbad
    cases hbad
  have hlists₂ := hlists.log hvalid hfits hnew
  rw [← hanchorTable₁, ← htable₂] at hlists₂
  have hroom₂ : (bad ++ [index]).length ≤ anchorBadBlockCount := by
    rw [List.length_append, List.length_singleton]
    exact hfits
  have hfirst₂ : anchorIsBadBlock s₂.anchorTable anchorFirstBlock = false := by
    rw [← Bool.not_eq_true, hlists₂.iff hroom₂ (by decide), List.mem_append, List.mem_singleton,
      not_or]
    refine ⟨fun hmem => ?_, ?_⟩
    · have hbad := (hlists.iff hfits.le (by decide)).mpr hmem
      rw [hisBad, husable.first] at hbad
      cases hbad
    · have hfirst := husable.first_le
      unfold dataFirstBlock at hstart
      omega
  obtain ⟨s', hanchor, hwords⟩ := anchorFormat_badTable hfirst₂ husable.first_le
  refine ⟨s', index, ?_, ⟨hstart.trans hle, hlt⟩, hindexGood, ?_⟩
  · unfold ubiFormatTables
    simp only [bind, Except.bind, hareas, hindex, hanchor]
  · rw [anchorIsBadBlock_congr hwords, hlists₂.iff hroom₂ hinvalid]
    exact List.mem_append_right _ List.mem_cons_self

/-- `UBI_Init` behind `UBI_Format` comes to an erased flash. -/
theorem Formattable.mount {check : Nat → Bool} (h : Formattable check)
    (hlast : check (logBlockCount - 1) = true)
    (hblank : ∀ b, anchorFirstBlock ≤ b → b ≤ anchorLastBlock →
      ∀ data spare, s.nand b 0 ≠ .programmed data spare) :
    ∃ s' total, ubiFormatAll check s = .ok (.success, s') ∧
      min (areaCount * phyBlockPerArea) (dataBlockCount - dataFirstBlock - (areaCount - 1) -
        badBlocks (fun b => !check b) dataFirstBlock) ≤ total ∧
      total ≤ dataBlockCount - dataFirstBlock - (areaCount - 1) ∧ ubiCapacityOf s' = total ∧
      ∀ d : UbiDevice, d.tables.nand = s'.nand → ∃ d', ubiRemount d = .ok (.success, d') ∧
        ShowsFlash d' (· < total) (fun _ _ => .erased)
          (fun b => (anchorFirstBlock ≤ b ∧ b ≤ anchorLastBlock) ∨
            (dataFirstBlock ≤ b ∧ b < logBlockCount) ∧ check b = true) 1 := by
  have hpos : 0 < areaCount := FormatLayout.areaCount_pos
  have hsize : 0 < phyBlockPerArea := UbiGeometry.phyBlockPerArea_pos
  have hareas : dataFirstBlock + (areaCount - 1) * (phyBlockPerArea + 1) +
      (logBlockCount - dataBlockCount) ≤ dataBlockCount := FormatLayout.areas_le
  have hroom := h.room
  unfold FormatRoom at hroom
  obtain ⟨s', isBad, takens, tables, index, frees, hformat, hisBad, hdone⟩ := h.format hlast hblank
  have hcount : badBlocks isBad dataFirstBlock = badBlocks (fun b => !check b) dataFirstBlock := by
    refine List.countP_congr fun b hb => ?_
    have hlt := List.mem_range'_1.mp hb
    rw [hisBad b (by omega)]
  have hblocks : (fun b => (anchorFirstBlock ≤ b ∧ b ≤ anchorLastBlock) ∨
      (dataFirstBlock ≤ b ∧ b < logBlockCount) ∧ isBad b = false) =
        fun b => (anchorFirstBlock ≤ b ∧ b ≤ anchorLastBlock) ∨
          (dataFirstBlock ≤ b ∧ b < logBlockCount) ∧ check b = true := by
    funext b
    refine propext (or_congr Iff.rfl (and_congr_right fun hb => ?_))
    rw [hisBad b hb.2, Bool.not_eq_false']
  have hrest := hdone.last.rest
  have hfull : areaCount * phyBlockPerArea =
      (areaCount - 1) * phyBlockPerArea + phyBlockPerArea := by
    rw [← Nat.succ_mul, Nat.succ_eq_add_one, Nat.sub_add_cancel hpos]
  have hdata := hdone.last.data
  rw [Nat.mul_succ] at hrest hareas hdata
  refine ⟨s', (areaCount - 1) * phyBlockPerArea + (takens (areaCount - 1)).length, hformat, ?_,
    by omega, hdone.capacity, fun d hd => ?_⟩
  · rcases hrest with hrest | hrest
    · rw [hfull, hrest]
      exact Nat.min_le_left _ _
    · refine (Nat.min_le_right _ _).trans ?_
      omega
  · rw [← hblocks]
    exact hdone.mount hd (by rcases hrest with hrest | hrest <;> omega)

/-- Whatever is asked of a device that has been formatted and mounted, with losses of power
between the requests, it answers as a flash whose blocks were erased at first. -/
theorem ubiFormat_answers {check : Nat → Bool} (h : Formattable check)
    (hlast : check (logBlockCount - 1) = true)
    (hblank : ∀ b, anchorFirstBlock ≤ b → b ≤ anchorLastBlock →
      ∀ data spare, s.nand b 0 ≠ .programmed data spare) :
    ∃ s' total, ubiFormatAll check s = .ok (.success, s') ∧
      min (areaCount * phyBlockPerArea) (dataBlockCount - dataFirstBlock - (areaCount - 1) -
        badBlocks (fun b => !check b) dataFirstBlock) ≤ total ∧
      ∀ d : UbiDevice, d.tables.nand = s'.nand → ∃ d', ubiRemount d = .ok (.success, d') ∧
        ∀ requests, FlashAccepts (· < total) (fun _ _ => .erased) requests →
          requests.length + 1 < invalidEc →
            ∃ d'', d'.run requests = .ok (flashAnswers (fun _ _ => .erased) requests, d'') := by
  obtain ⟨s', total, hformat, htotal, -, -, hmount⟩ := h.mount hlast hblank
  refine ⟨s', total, hformat, htotal, fun d hd => ?_⟩
  obtain ⟨d', hremount, hshows⟩ := hmount d hd
  refine ⟨d', hremount, fun requests haccepts hcount => ?_⟩
  obtain ⟨d'', hrun, -⟩ := hshows.run requests haccepts (by omega)
  exact ⟨d'', hrun⟩

/-- After any such run each good block has one use: none is lost, and none is used twice. -/
theorem ubiFormat_partition {check : Nat → Bool} (h : Formattable check)
    (hlast : check (logBlockCount - 1) = true)
    (hblank : ∀ b, anchorFirstBlock ≤ b → b ≤ anchorLastBlock →
      ∀ data spare, s.nand b 0 ≠ .programmed data spare) :
    ∃ s' total, ubiFormatAll check s = .ok (.success, s') ∧
      min (areaCount * phyBlockPerArea) (dataBlockCount - dataFirstBlock - (areaCount - 1) -
        badBlocks (fun b => !check b) dataFirstBlock) ≤ total ∧
      ∀ d : UbiDevice, d.tables.nand = s'.nand → ∃ d', ubiRemount d = .ok (.success, d') ∧
        ∀ requests, FlashAccepts (· < total) (fun _ _ => .erased) requests →
          requests.length + 1 < invalidEc →
            ∃ answers d'' tables free, d'.run requests = .ok (answers, d'') ∧
              UbiRest d''.tables tables free (requests.length + 1) ∧
              ∀ b, ((anchorFirstBlock ≤ b ∧ b ≤ anchorLastBlock) ∨
                (dataFirstBlock ≤ b ∧ b < logBlockCount) ∧ check b = true) ↔
                  ∃! o, Uses d''.tables tables free o b := by
  obtain ⟨s', total, hformat, htotal, -, -, hmount⟩ := h.mount hlast hblank
  refine ⟨s', total, hformat, htotal, fun d hd => ?_⟩
  obtain ⟨d', hremount, hshows⟩ := hmount d hd
  refine ⟨d', hremount, fun requests haccepts hcount => ?_⟩
  obtain ⟨d'', hrun, tables, free, hafter⟩ := hshows.run requests haccepts (by omega)
  rw [Nat.add_comm] at hafter
  refine ⟨_, d'', tables, free, hrun, hafter.rest, fun b => (hafter.inUse b).symm.trans ⟨?_, ?_⟩⟩
  · rintro ⟨o, huse⟩
    exact ⟨o, huse, fun o' huse' => hafter.rest.owned.exclusive huse' huse⟩
  · rintro ⟨o, huse, -⟩
    exact ⟨o, huse⟩

/-- `UBI_Format` of a blank NAND succeeds if and only if the last block is good: if it is bad, a
good block is taken for a bad one instead. -/
theorem ubiFormat_success_iff {check : Nat → Bool} (h : Formattable check)
    (hblank : ∀ b, anchorFirstBlock ≤ b → b ≤ anchorLastBlock →
      ∀ data spare, s.nand b 0 ≠ .programmed data spare) :
    ∃ status s', ubiFormatAll check s = .ok (status, s') ∧
      (status = .success ↔ check (logBlockCount - 1) = true) ∧
      (status ≠ .success → ∃ block, (dataFirstBlock ≤ block ∧ block < logBlockCount) ∧
        check block = true ∧ anchorIsBadBlock s'.anchorTable block = true) := by
  have hroom := h.room
  unfold FormatRoom at hroom
  obtain ⟨t, hall, hchecked⟩ := h.checked hblank
  have hgood := hchecked.isBad (logBlockCount - 1) (by omega)
  cases hlast : check (logBlockCount - 1) with
  | true =>
      obtain ⟨s', takens, tables, index, frees, hformat, -⟩ := ubiFormatTables_spec rfl
        hchecked.room (by rw [hgood, hlast]; rfl) hchecked.usable
      exact ⟨.success, s', hall.trans hformat, iff_of_true rfl rfl, fun hne => absurd rfl hne⟩
  | false =>
      have hlog := FormatLayout.logBlockCount_lt
      obtain ⟨s', index, hformat, hrange, hindex, hlisted⟩ := ubiFormatTables_fails rfl
        hchecked.room (by rw [hgood, hlast]; rfl) hchecked.usable hchecked.lists
        (fun b hb => by
          have hlt := List.mem_range.mp (List.mem_filter.mp hb).1
          simp only [invalidBlock]
          omega) (length_badBlocks_lt h.room)
      refine ⟨.failure, s', hall.trans hformat, iff_of_false Status.noConfusion
        Bool.false_ne_true, fun _ => ⟨index, hrange, ?_, hlisted⟩⟩
      rw [hchecked.isBad index hrange.2, Bool.not_eq_false'] at hindex
      exact hindex

end

section

attribute [local instance] k9wag08Format

/-- One block is bad. -/
def oneBadBlock (b : Nat) : Bool := b != 700

/-- What a caller does with one page, with a loss of power. -/
def pageRequests : List UbiRequest :=
  [.write 3 0 (fun _ => 7) (fun _ => 9) true, .remount, .read 3 0, .erase 3 0, .read 3 0]

theorem oneBadBlock_formattable : Formattable oneBadBlock where
  room := by
    unfold FormatRoom badBlocks
    decide +kernel
  first_le := by decide
  first := rfl
  other := ⟨2, by decide, by decide, rfl⟩

theorem oneBadBlock_count : badBlocks (fun b => !oneBadBlock b) dataFirstBlock = 1 := by
  unfold badBlocks
  decide +kernel

theorem pageRequests_accepted {total : Nat} (h : 3 < total) :
    FlashAccepts (· < total) (fun _ _ => .erased) pageRequests :=
  ⟨⟨h, by decide, rfl⟩, trivial, Or.inl ⟨h, by decide⟩, h, Or.inl ⟨h, by decide⟩, trivial⟩

theorem ubiFormat_answers_pageRequests :
    ∃ s' d' d'', ubiFormatAll oneBadBlock (.powerOn fun _ _ => .erased) = .ok (.success, s') ∧
      ubiRemount ⟨s', fun _ => ⟨0, 0, 0, 0, none, fun _ => 0⟩⟩ = .ok (.success, d') ∧
      d'.run pageRequests = .ok ([⟨.success, none, none⟩, ⟨.success, none, none⟩,
        ⟨.success, some fun _ => 7, some fun _ => 9⟩, ⟨.success, none, none⟩,
        ⟨.failure, none, none⟩], d'') := by
  obtain ⟨s', total, hformat, htotal, hmount⟩ := ubiFormat_answers oneBadBlock_formattable rfl
    (s := .powerOn fun _ _ => .erased) (fun _ _ _ _ _ => NandPage.noConfusion)
  rw [oneBadBlock_count] at htotal
  have hblock : 3 < total := lt_of_lt_of_le (by decide) htotal
  obtain ⟨d', hremount, hrun⟩ := hmount ⟨s', fun _ => ⟨0, 0, 0, 0, none, fun _ => 0⟩⟩ rfl
  obtain ⟨d'', hanswers⟩ := hrun pageRequests (pageRequests_accepted hblock) (by decide)
  exact ⟨s', d', d'', hformat, hremount, hanswers⟩

theorem ubiFormat_partition_pageRequests :
    ∃ s' d' d'' answers tables free,
      ubiFormatAll oneBadBlock (.powerOn fun _ _ => .erased) = .ok (.success, s') ∧
        ubiRemount ⟨s', fun _ => ⟨0, 0, 0, 0, none, fun _ => 0⟩⟩ = .ok (.success, d') ∧
          d'.run pageRequests = .ok (answers, d'') ∧
            UbiRest d''.tables tables free (pageRequests.length + 1) ∧
              (∃! o, Uses d''.tables tables free o 2047) ∧
                ¬∃! o, Uses d''.tables tables free o 700 := by
  obtain ⟨s', total, hformat, htotal, hmount⟩ := ubiFormat_partition oneBadBlock_formattable rfl
    (s := .powerOn fun _ _ => .erased) (fun _ _ _ _ _ => NandPage.noConfusion)
  rw [oneBadBlock_count] at htotal
  have hblock : 3 < total := lt_of_lt_of_le (by decide) htotal
  obtain ⟨d', hremount, hrun⟩ := hmount ⟨s', fun _ => ⟨0, 0, 0, 0, none, fun _ => 0⟩⟩ rfl
  obtain ⟨answers, d'', tables, free, hanswers, hrest, huses⟩ := hrun pageRequests
    (pageRequests_accepted hblock) (by decide)
  exact ⟨s', d', d'', answers, tables, free, hformat, hremount, hanswers, hrest,
    (huses 2047).mp (by decide), fun huse => absurd ((huses 700).mpr huse) (by decide)⟩

/-- The last block is bad. -/
def badLastBlock (b : Nat) : Bool := b != 2047

theorem badLastBlock_formattable : Formattable badLastBlock where
  room := by
    unfold FormatRoom badBlocks
    decide +kernel
  first_le := by decide
  first := rfl
  other := ⟨2, by decide, by decide, rfl⟩

theorem ubiFormat_badLastBlock :
    ∃ status s', ubiFormatAll badLastBlock (.powerOn fun _ _ => .erased) = .ok (status, s') ∧
      status ≠ .success ∧ ∃ block, badLastBlock block = true ∧
        anchorIsBadBlock s'.anchorTable block = true := by
  obtain ⟨status, s', hformat, hiff, hlisted⟩ := ubiFormat_success_iff badLastBlock_formattable
    (s := .powerOn fun _ _ => .erased) (fun _ _ _ _ _ => NandPage.noConfusion)
  have hfails : status ≠ .success := fun hsuccess => absurd (hiff.mp hsuccess) (by decide)
  obtain ⟨block, -, hgood, hbad⟩ := hlisted hfails
  exact ⟨status, s', hformat, hfails, block, hgood, hbad⟩

end

end RansomTag

import RansomTag.Ubi.Requests

/-!
# The format of the block layer

`UBI_Format` with `AREA_Format`, `INDEX_Format` and `ANCHOR_Format`.  Each of their loops
takes the good blocks in order: the areas the first ones, with a block for the table behind
each, and the index table and the table of free blocks what is left.
-/

namespace RansomTag

/-- `CFG_LOG_BLOCK_COUNT` and `DATA_BLOCK_COUNT`.  The areas reach the end of the data blocks,
and would not without the last one. -/
class FormatLayout extends UbiLayout where
  logBlockCount : Nat
  logBlockCount_lt : logBlockCount < 4294967295
  dataBlockCount : Nat
  areaCount_pos : 0 < areaCount
  reserve_le : logBlockCount ≤ dataBlockCount + freeBlockCount
  areas_le : anchorLastBlock + 1 + (areaCount - 1) * (phyBlockPerArea + 1) +
    (logBlockCount - dataBlockCount) ≤ dataBlockCount
  le_areas : dataBlockCount ≤ anchorLastBlock + 1 + areaCount * (phyBlockPerArea + 1)
  badBlocks_le : anchorLastBlock + 1 + (logBlockCount - dataBlockCount) ≤ anchorBadBlockCount

export FormatLayout (logBlockCount dataBlockCount)

@[reducible] def k9wag08Format : FormatLayout where
  toUbiLayout := k9wag08Layout
  logBlockCount := 2048
  logBlockCount_lt := by decide
  dataBlockCount := 2002
  areaCount_pos := by decide
  reserve_le := by decide
  areas_le := by decide
  le_areas := by decide
  badBlocks_le := by decide

/-- `ANCHOR_LogBadBlock` -/
def anchorLogBadBlock (table : Words) (block : Nat) : Words :=
  match (List.range anchorBadBlockCount).find? fun i =>
      table (11 + i) = invalidBlock ∨ table (11 + i) = block with
  | some i => Function.update table (11 + i) block
  | none => table

/-- The loop of `AREA_Format`. -/
structure AreaFormat where
  i : Nat
  block : Nat
  nand : Nand
  table : Words
  ret : Status

/-- The loop of `INDEX_Format`. -/
structure IndexFormat where
  index : Option Nat
  count : Nat
  table : FreeTable
  nand : Nand
  ret : Status

/-- `while (ANCHOR_IsBadBlock(fmt_current_block) == TRUE)` -/
def skipBadBlocks (isBad : Nat → Bool) : Nat → Nat → Except UbiStop Nat
  | 0, _ => .error .endless
  | n + 1, block => if isBad block then skipBadBlocks isBad n (block + 1) else .ok block

section

variable [FormatLayout]

def dataFirstBlock : Nat := anchorLastBlock + 1

/-- The loop of `AREA_Format` over at most `n` blocks, none of which fails to erase. -/
def areaFormatLoop (isBad : Nat → Bool) (count : Nat) : Nat → AreaFormat → AreaFormat
  | 0, f => f
  | n + 1, f =>
      if f.i < count ∧ f.block < logBlockCount then
        if isBad f.block then
          areaFormatLoop isBad count n { f with block := f.block + 1, ret := .failure }
        else
          areaFormatLoop isBad count n ⟨f.i + 1, f.block + 1, mtdErase f.nand f.block,
            areaSet f.table f.i f.block 0, .success⟩
      else f

/-- `AREA_Format`; `none` is `INVALID_BLOCK`. -/
def areaFormat (s : UbiState) (count block area : Nat) :
    Except UbiStop (Option Nat × UbiState) :=
  let f := areaFormatLoop (anchorIsBadBlock s.anchorTable) count logBlockCount
    ⟨0, block, s.nand, fun _ => 4294967295, .success⟩
  let table := fun w =>
    if count ≤ w / 2 ∧ w / 2 < phyBlockPerArea then 4294967295 else f.table w
  let s := { s with nand := f.nand, cachedAreaTable := table }
  if f.ret = .success then do
    let block ← skipBadBlocks (anchorIsBadBlock s.anchorTable) (anchorBadBlockCount + 1) f.block
    let nand ← tableWritePage (mtdErase s.nand block) block 0 table
    .ok (some (block + 1), { s with
      nand := nand
      areaIndexTable := Function.update s.areaIndexTable area block
      areaIndexEct := Function.update s.areaIndexEct area 0
      areaOffsetTable := Function.update s.areaOffsetTable area 0 })
  else .ok (none, { s with anchorTable := anchorLogBadBlock s.anchorTable f.block })

/-- The loop of `UBI_Format` over the areas, at most `n` of them. -/
def formatAreas : Nat → Nat → Nat → Nat → UbiState →
    Except UbiStop ((Option Nat × Nat) × UbiState)
  | 0, _, _, _, _ => .error .endless
  | n + 1, area, block, total, s =>
      if block < dataBlockCount then do
        let count := min (dataBlockCount - block) phyBlockPerArea
        match ← areaFormat s count block area with
        | (some block, s) =>
            if block < dataBlockCount then formatAreas n (area + 1) block (total + count) s
            else .ok ((some block, total + count), s)
        | (none, s) => .ok ((none, total), s)
      else .error .assertion

/-- The loop of `INDEX_Format` over `n` blocks from `block` on, none of which fails to erase. -/
def indexFormatLoop (isBad : Nat → Bool) : Nat → Nat → IndexFormat → Except UbiStop IndexFormat
  | 0, _, f => .ok f
  | n + 1, block, f =>
      if isBad block then indexFormatLoop isBad n (block + 1) { f with ret := .failure }
      else
        let f := { f with nand := mtdErase f.nand block, ret := .success }
        match f.index with
        | none => indexFormatLoop isBad n (block + 1) { f with index := some block }
        | some _ =>
            if f.count < freeBlockCount then
              indexFormatLoop isBad n (block + 1) { f with
                count := f.count + 1, table := Function.update f.table f.count ⟨block, 0⟩ }
            else .error .assertion

/-- The page of the index table, and the anchor table that names it. -/
def indexFormatWrite (s : UbiState) (index : Nat) : Except UbiStop UbiState := do
  let nand ← tableWritePage (mtdErase s.nand index) index 0 (indexTable s)
  .ok { s with
    nand := nand
    anchorTable := fun w =>
      if w = 0 then index
      else if w = 1 then 0
      else if w = 2 then invalidBlock
      else if w = 3 then invalidEc
      else s.anchorTable w }

/-- `INDEX_Format` -/
def indexFormatTables (s : UbiState) (block : Nat) : Except UbiStop (Option Nat × UbiState) := do
  let f ← indexFormatLoop (anchorIsBadBlock s.anchorTable) (logBlockCount - block) block
    ⟨none, 0, s.freeTable, s.nand, .success⟩
  let s := { s with
    nand := f.nand
    freeTable := fun i => if f.count ≤ i ∧ i < freeBlockCount then .invalid else f.table i
    areaUpdatePlr := ⟨invalidBlock, invalidBlock, invalidEc⟩ }
  match f.index with
  | some index =>
      if f.ret = .success ∧ anchorIsBadBlock s.anchorTable index = false then
        let s ← indexFormatWrite s index
        .ok (some (max block logBlockCount), s)
      else .ok (none, { s with anchorTable := anchorLogBadBlock s.anchorTable index })
  | none =>
      if f.ret = .success then .error .assertion
      else .ok (none, { s with anchorTable := anchorLogBadBlock s.anchorTable invalidBlock })

/-- The table that `ANCHOR_Format` writes. -/
def anchorFormatTable (table : Words) (totalDataBlock : Nat) : Words := fun w =>
  if w = 4 then invalidBlock
  else if w = 5 then totalDataBlock
  else if w = 6 then 0
  else if w = 7 then 1330389065
  else if w = 8 then 1461732694
  else if w = 9 then 2184019 + 16777216 * (table 9 / 16777216)
  else if w = 10 then 123
  else table w

/-- `ANCHOR_Format` -/
def anchorFormat (s : UbiState) (totalDataBlock : Nat) : Except UbiStop (Status × UbiState) :=
  let table := anchorFormatTable s.anchorTable totalDataBlock
  let nand := (List.range' anchorFirstBlock (anchorLastBlock + 1 - anchorFirstBlock)).foldl
    (fun nand b => if anchorIsBadBlock table b then nand else mtdErase nand b) s.nand
  anchorUpdate { s with
    nand := nand
    anchorTable := table
    anchorBlock := anchorFirstBlock
    anchorNextPage := 0 }

/-- A block is checked: a good one is erased, which does not fail. -/
def checkBlock (check : Nat → Bool) (s : UbiState) (b : Nat) : UbiState :=
  if check b then { s with nand := mtdErase s.nand b }
  else { s with anchorTable := anchorLogBadBlock s.anchorTable b }

/-- `UBI_Format` behind the table of bad blocks. -/
def ubiFormatTables (s : UbiState) : Except UbiStop (Status × UbiState) := do
  let ((next, total), s) ← formatAreas dataBlockCount 0 dataFirstBlock 0 s
  let (next, s) ← match next with
    | some block => indexFormatTables s block
    | none => .ok (none, s)
  match next with
  | some block => if block = logBlockCount then anchorFormat s total else .error .assertion
  | none => do
      let (_, s) ← anchorFormat s invalidBlock
      .ok (.failure, s)

/-- `UBI_Format`; `check` is the result of `MTD_CheckBlock`. -/
def ubiFormatAll (check : Nat → Bool) (s : UbiState) : Except UbiStop (Status × UbiState) := do
  let (ret, s) ← anchorInit s
  ubiFormatTables
    (if ret = .success then s else (List.range logBlockCount).foldl (checkBlock check) s)

/-! ## Good blocks -/

/-- The good blocks from `block` on. -/
def goodBlocks (isBad : Nat → Bool) (block : Nat) : List Nat :=
  (List.range' block (logBlockCount - block)).filter fun b => !isBad b

/-- The number of bad blocks from `block` on. -/
def badBlocks (isBad : Nat → Bool) (block : Nat) : Nat :=
  (List.range' block (logBlockCount - block)).countP isBad

variable {isBad : Nat → Bool} {block : Nat}

theorem range_succ_of_lt (h : block < logBlockCount) :
    List.range' block (logBlockCount - block) =
      block :: List.range' (block + 1) (logBlockCount - (block + 1)) := by
  have hcount : logBlockCount - block = logBlockCount - (block + 1) + 1 := by omega
  rw [hcount, List.range'_succ]

theorem goodBlocks_bad (h : block < logBlockCount) (hbad : isBad block = true) :
    goodBlocks isBad block = goodBlocks isBad (block + 1) := by
  rw [goodBlocks, range_succ_of_lt h, List.filter_cons_of_neg (by simp [hbad]), goodBlocks]

theorem goodBlocks_good (h : block < logBlockCount) (hgood : isBad block = false) :
    goodBlocks isBad block = block :: goodBlocks isBad (block + 1) := by
  rw [goodBlocks, range_succ_of_lt h, List.filter_cons_of_pos (by simp [hgood]), goodBlocks]

theorem goodBlocks_end (h : logBlockCount ≤ block) : goodBlocks isBad block = [] := by
  rw [goodBlocks, Nat.sub_eq_zero_of_le h]
  rfl

theorem mem_goodBlocks {b : Nat} :
    b ∈ goodBlocks isBad block ↔ (block ≤ b ∧ b < logBlockCount) ∧ isBad b = false := by
  rw [goodBlocks, List.mem_filter, List.mem_range'_1, Bool.not_eq_true']
  refine and_congr_left fun _ => ?_
  omega

theorem goodBlocks_nodup : (goodBlocks isBad block).Nodup :=
  List.Nodup.filter _ List.nodup_range'

theorem length_goodBlocks (h : block ≤ logBlockCount) :
    block + (goodBlocks isBad block).length + badBlocks isBad block = logBlockCount := by
  have hsplit : (List.range' block (logBlockCount - block)).length = _ :=
    List.length_eq_countP_add_countP isBad
  rw [List.length_range'] at hsplit
  have hgood : (goodBlocks isBad block).length =
      (List.range' block (logBlockCount - block)).countP fun b => !isBad b := by
    rw [goodBlocks, List.countP_eq_length_filter]
  have hnot : (fun b => decide ¬isBad b = true) = fun b => !isBad b := by
    funext b
    cases isBad b <;> rfl
  rw [hnot] at hsplit
  rw [hgood, badBlocks]
  omega

/-- `n` erases in a row. -/
def eraseAll (nand : Nand) (blocks : List Nat) : Nand := blocks.foldl mtdErase nand

omit [FormatLayout] in
theorem eraseAll_apply (nand : Nand) (blocks : List Nat) (b : Nat) :
    eraseAll nand blocks b = if b ∈ blocks then fun _ => .erased else nand b := by
  induction blocks generalizing nand with
  | nil => rfl
  | cons block blocks ih =>
      rw [eraseAll, List.foldl_cons, ← eraseAll, ih]
      by_cases hmem : b ∈ blocks
      · rw [if_pos hmem, if_pos (List.mem_cons_of_mem _ hmem)]
      · rw [if_neg hmem, mtdErase, Function.update_apply]
        refine if_congr ?_ rfl rfl
        rw [List.mem_cons, or_iff_left hmem]

/-! ## `AREA_Format` -/

/-- The entries from `i` on get the blocks in order. -/
def fillArea (table : Words) (i : Nat) : List Nat → Words
  | [] => table
  | block :: blocks => fillArea (areaSet table i block 0) (i + 1) blocks

/-- The loop takes the first good blocks. -/
theorem areaFormatLoop_spec (isBad : Nat → Bool) (count n : Nat) (f : AreaFormat)
    (hfuel : logBlockCount - f.block ≤ n) (hi : f.i ≤ count)
    (hneed : count ≤ f.i + (goodBlocks isBad f.block).length)
    (hret : f.i = count → f.ret = .success) :
    ∃ block taken, goodBlocks isBad f.block = taken ++ goodBlocks isBad block ∧
      f.i + taken.length = count ∧ (f.block ≤ logBlockCount → block ≤ logBlockCount) ∧
      areaFormatLoop isBad count n f =
        ⟨count, block, eraseAll f.nand taken, fillArea f.table f.i taken, .success⟩ := by
  induction n generalizing f with
  | zero =>
      have hend : goodBlocks isBad f.block = [] := goodBlocks_end (by omega)
      rw [hend, List.length_nil] at hneed
      have hdone : f.i = count := by omega
      refine ⟨f.block, [], rfl, hdone, id, ?_⟩
      rw [areaFormatLoop, ← hdone, ← hret hdone]
      rfl
  | succ n ih =>
      rw [areaFormatLoop]
      by_cases hlt : f.i < count
      · have hblock : f.block < logBlockCount := by
          by_contra hge
          rw [goodBlocks_end (by omega), List.length_nil] at hneed
          omega
        rw [if_pos ⟨hlt, hblock⟩]
        cases hbad : isBad f.block with
        | true =>
            rw [goodBlocks_bad hblock hbad] at hneed ⊢
            obtain ⟨block, taken, hsplit, hlength, hle, hloop⟩ := ih
              { f with block := f.block + 1, ret := .failure } (by simp only; omega) hi hneed
              (fun hdone => absurd hdone (Nat.ne_of_lt hlt))
            refine ⟨block, taken, hsplit, hlength, fun _ => hle hblock, ?_⟩
            rw [if_pos rfl]
            exact hloop
        | false =>
            rw [goodBlocks_good hblock hbad] at hneed ⊢
            rw [List.length_cons] at hneed
            obtain ⟨block, taken, hsplit, hlength, hle, hloop⟩ := ih
              ⟨f.i + 1, f.block + 1, mtdErase f.nand f.block, areaSet f.table f.i f.block 0,
                .success⟩ (by simp only; omega) hlt (by simp only; omega) (fun _ => rfl)
            refine ⟨block, f.block :: taken, ?_, ?_, fun _ => hle hblock, ?_⟩
            · rw [hsplit]
              rfl
            · rw [List.length_cons]
              simp only at hlength
              omega
            · rw [if_neg Bool.false_ne_true]
              exact hloop
      · have hdone : f.i = count := by omega
        refine ⟨f.block, [], rfl, hdone, id, ?_⟩
        rw [if_neg (fun h => hlt h.1), ← hdone, ← hret hdone]
        rfl

omit [FormatLayout] in
/-- What the entries of an area are set to. -/
theorem fillArea_apply (table : Words) (i : Nat) (blocks : List Nat) (offset : Nat) :
    areaPhysicalBlock (fillArea table i blocks) offset =
        (if i ≤ offset ∧ offset < i + blocks.length then blocks.getD (offset - i) 0
          else areaPhysicalBlock table offset) ∧
      areaPhysicalBlockEc (fillArea table i blocks) offset =
        if i ≤ offset ∧ offset < i + blocks.length then 0
        else areaPhysicalBlockEc table offset := by
  induction blocks generalizing table i with
  | nil =>
      rw [if_neg (by simp only [List.length_nil]; omega),
        if_neg (by simp only [List.length_nil]; omega)]
      exact ⟨rfl, rfl⟩
  | cons block blocks ih =>
      rw [fillArea, (ih _ _).1, (ih _ _).2, List.length_cons, areaPhysicalBlock_set,
        areaPhysicalBlockEc_set]
      by_cases hfirst : offset = i
      · have hbehind : ¬(i + 1 ≤ offset ∧ offset < i + 1 + blocks.length) := by omega
        have hin : i ≤ offset ∧ offset < i + (blocks.length + 1) := by omega
        rw [if_neg hbehind, if_neg hbehind, if_pos hfirst, if_pos hfirst, if_pos hin, if_pos hin,
          hfirst, Nat.sub_self]
        exact ⟨rfl, rfl⟩
      · rw [if_neg hfirst, if_neg hfirst]
        by_cases hlater : i + 1 ≤ offset ∧ offset < i + 1 + blocks.length
        · have hplace : offset - i = offset - (i + 1) + 1 := by omega
          rw [if_pos hlater, if_pos hlater, if_pos (by omega), if_pos (by omega), hplace]
          exact ⟨rfl, rfl⟩
        · rw [if_neg hlater, if_neg hlater, if_neg (by omega), if_neg (by omega)]
          exact ⟨rfl, rfl⟩

omit [FormatLayout] in
/-- The table of bad blocks bounds their number. -/
theorem countP_isBadBlock_le (table : Words) {l : List Nat} (h : l.Nodup) :
    l.countP (anchorIsBadBlock table) ≤ anchorBadBlockCount := by
  have hsub : l.filter (anchorIsBadBlock table) ⊆
      (List.range anchorBadBlockCount).map fun i => table (11 + i) := by
    intro b hb
    obtain ⟨i, hi, hentry⟩ := List.any_eq_true.mp (List.mem_filter.mp hb).2
    exact List.mem_map.mpr ⟨i, hi, of_decide_eq_true hentry⟩
  have hlength := (List.subperm_of_subset (h.filter _) hsub).length_le
  rw [List.length_map, List.length_range] at hlength
  rw [List.countP_eq_length_filter]
  exact hlength

theorem goodBlocks_cons {t : Nat} {rest : List Nat} (h : goodBlocks isBad block = t :: rest) :
    (block ≤ t ∧ t < logBlockCount) ∧ isBad t = false := by
  have hmem : t ∈ goodBlocks isBad block := by
    rw [h]
    exact List.mem_cons_self
  exact mem_goodBlocks.mp hmem

theorem skipBadBlocks_spec (isBad : Nat → Bool) {t : Nat} {rest : List Nat} (n : Nat)
    {block : Nat} (h : goodBlocks isBad block = t :: rest) (hfuel : badBlocks isBad block < n) :
    skipBadBlocks isBad n block = .ok t ∧ rest = goodBlocks isBad (t + 1) := by
  induction n generalizing block with
  | zero => exact absurd hfuel (Nat.not_lt_zero _)
  | succ n ih =>
      have hlt : block < logBlockCount := (goodBlocks_cons h).1.1.trans_lt (goodBlocks_cons h).1.2
      rw [skipBadBlocks]
      cases hbad : isBad block with
      | true =>
          rw [goodBlocks_bad hlt hbad] at h
          rw [badBlocks, range_succ_of_lt hlt, List.countP_cons_of_pos hbad, ← badBlocks] at hfuel
          rw [if_pos rfl]
          exact ih h (Nat.lt_of_succ_lt_succ hfuel)
      | false =>
          rw [goodBlocks_good hlt hbad] at h
          obtain ⟨rfl, rfl⟩ := List.cons.inj h
          exact ⟨if_neg Bool.false_ne_true, rfl⟩

/-- The table of an area maps its blocks in order. -/
structure AreaHolds (table : Words) (taken : List Nat) : Prop where
  block : ∀ offset < phyBlockPerArea,
    areaPhysicalBlock table offset = taken.getD offset invalidBlock
  ec : ∀ offset < taken.length, areaPhysicalBlockEc table offset = 0

variable {s : UbiState}

/-- `AREA_Format` takes the first good blocks, and the one behind them for the table. -/
theorem areaFormat_spec {count area : Nat}
    (hneed : count < (goodBlocks (anchorIsBadBlock s.anchorTable) block).length) :
    ∃ taken t table,
      goodBlocks (anchorIsBadBlock s.anchorTable) block =
        taken ++ t :: goodBlocks (anchorIsBadBlock s.anchorTable) (t + 1) ∧
      taken.length = count ∧ AreaHolds table taken ∧
      areaFormat s count block area = .ok (some (t + 1), { s with
        nand := (mtdErase (eraseAll s.nand taken) t).update t 0 (.programmed table fun _ => 0)
        cachedAreaTable := table
        areaIndexTable := Function.update s.areaIndexTable area t
        areaIndexEct := Function.update s.areaIndexEct area 0
        areaOffsetTable := Function.update s.areaOffsetTable area 0 }) := by
  obtain ⟨next, taken, hsplit, hlength, -, hloop⟩ := areaFormatLoop_spec
    (anchorIsBadBlock s.anchorTable) count logBlockCount
    ⟨0, block, s.nand, fun _ => 4294967295, .success⟩ (Nat.sub_le _ _) (Nat.zero_le count)
    (by simp only [Nat.zero_add]; omega) (fun _ => rfl)
  simp only [Nat.zero_add] at hsplit hlength
  rw [hsplit, List.length_append, hlength] at hneed
  obtain ⟨t, rest, hnext⟩ := List.exists_cons_of_length_pos (Nat.pos_of_lt_add_right hneed)
  obtain ⟨hskip, hrest⟩ := skipBadBlocks_spec (anchorIsBadBlock s.anchorTable)
    (anchorBadBlockCount + 1) hnext
    (Nat.lt_succ_of_le (countP_isBadBlock_le s.anchorTable List.nodup_range'))
  have herased : mtdErase (eraseAll s.nand taken) t t 0 = .erased := by
    rw [mtdErase, Function.update_self]
  obtain ⟨table, htable⟩ : ∃ table : Words, table = fun w =>
      if count ≤ w / 2 ∧ w / 2 < phyBlockPerArea then 4294967295
      else fillArea (fun _ => 4294967295) 0 taken w := ⟨_, rfl⟩
  refine ⟨taken, t, table, ?_, hlength, ⟨fun offset hoffset => ?_, fun offset hoffset => ?_⟩, ?_⟩
  · rw [hsplit, hnext, hrest]
  · have hfill := (fillArea_apply (fun _ => 4294967295) 0 taken offset).1
    have hhalf : 2 * offset / 2 = offset := Nat.mul_div_cancel_left offset (by decide)
    unfold areaPhysicalBlock at hfill ⊢
    rw [htable]
    simp only [hhalf]
    by_cases hin : offset < count
    · rw [if_neg (by omega), hfill, if_pos (by omega), Nat.sub_zero,
        List.getD_eq_getElem?_getD, List.getD_eq_getElem?_getD,
        List.getElem?_eq_getElem (hlength.symm ▸ hin)]
      rfl
    · rw [if_pos (by omega), List.getD_eq_getElem?_getD, List.getElem?_eq_none (by omega)]
      rfl
  · have hfill := (fillArea_apply (fun _ => 4294967295) 0 taken offset).2
    have hhalf : (2 * offset + 1) / 2 = offset := by omega
    unfold areaPhysicalBlockEc at hfill ⊢
    rw [htable]
    simp only [hhalf]
    rw [if_neg (by omega), hfill, if_pos (by omega)]
  · unfold areaFormat
    simp only [hloop, if_true, hskip, bind, Except.bind, ← htable, tableWritePage_erased herased]

/-! ## The areas -/

theorem badBlocks_anti {block' : Nat} (h : block ≤ block') :
    badBlocks isBad block' ≤ badBlocks isBad block := by
  refine List.Sublist.countP_le ?_
  by_cases hle : block' ≤ logBlockCount
  · have hsplit : List.range' block (logBlockCount - block) =
        List.range' block (block' - block) ++ List.range' block' (logBlockCount - block') := by
      have hstart : block' = block + 1 * (block' - block) := by omega
      have hcount : logBlockCount - block = block' - block + (logBlockCount - block') := by omega
      rw [hcount, ← List.range'_append, ← hstart]
    rw [hsplit]
    exact List.sublist_append_right _ _
  · rw [Nat.sub_eq_zero_of_le (by omega)]
    exact List.nil_sublist _

/-- The uses that an area makes of its blocks. -/
def areaUses (takens : Nat → List Nat) (areaTables : Nat → Nat) (area : Nat) :
    List (BlockUse × Nat) :=
  ((takens area).zipIdx.map fun p => (.mapped area p.2, p.1)) ++
    [(.areaTable area, areaTables area)]

omit [FormatLayout] in
theorem areaUses_blocks (takens : Nat → List Nat) (areaTables : Nat → Nat) (area : Nat) :
    (areaUses takens areaTables area).map Prod.snd = takens area ++ [areaTables area] := by
  rw [areaUses, List.map_append, List.map_map]
  exact congrArg (· ++ [areaTables area]) (List.zipIdx_map_fst 0 (takens area))

/-- What `AREA_Format` leaves of one area. -/
structure AreaFormatted (s : UbiState) (taken : List Nat) (table : Words) (area : Nat) : Prop where
  holds : AreaHolds table taken
  stored : WrittenTable (s.nand (s.areaIndexTable area)) 1 table
  erased : ∀ b ∈ taken, s.nand b = fun _ => .erased
  ec : s.areaIndexEct area = 0

omit [FormatLayout] in
theorem mtdErase_self (nand : Nand) (b : Nat) : mtdErase nand b b = fun _ => .erased :=
  Function.update_self b _ nand

theorem AreaHolds.formatted {taken : List Nat} {table : Words} {t area : Nat} {s' : UbiState}
    (h : AreaHolds table taken) (ht : t ∉ taken)
    (hnand : s'.nand =
      (mtdErase (eraseAll s.nand taken) t).update t 0 (.programmed table fun _ => 0))
    (hblock : s'.areaIndexTable area = t) (hec : s'.areaIndexEct area = 0) :
    AreaFormatted s' taken table area where
  holds := h
  stored := by
    have hpages : WrittenPages (mtdErase (eraseAll s.nand taken) t t) 0 := by
      rw [mtdErase_self]
      exact writtenPages_erased fun _ _ => rfl
    rw [hblock, hnand, Nand.update, Function.update_self]
    exact hpages.write (by decide) table
  erased b hb := by
    have hne : b ≠ t := by
      rintro rfl
      exact ht hb
    rw [hnand, Nand.update_other hne, mtdErase_other hne, eraseAll_apply, if_pos hb]
  ec := hec

theorem AreaFormatted.of_same {taken : List Nat} {table : Words} {area : Nat} {s' : UbiState}
    (h : AreaFormatted s taken table area) (hblock : s'.areaIndexTable area = s.areaIndexTable area)
    (hec : s'.areaIndexEct area = s.areaIndexEct area)
    (hnand : ∀ b ∈ taken ++ [s.areaIndexTable area], s'.nand b = s.nand b) :
    AreaFormatted s' taken table area where
  holds := h.holds
  stored := by
    rw [hblock, hnand _ (List.mem_append_right _ List.mem_cons_self)]
    exact h.stored
  erased b hb := by
    rw [hnand b (List.mem_append_left _ hb)]
    exact h.erased b hb
  ec := hec.trans h.ec

/-- There are few enough bad blocks behind the anchor blocks. -/
def FormatRoom (isBad : Nat → Bool) : Prop :=
  badBlocks isBad dataFirstBlock + 3 ≤ logBlockCount - dataBlockCount

/-- Where an area starts: as many blocks behind the first as there are bad ones. -/
structure AreaStart (isBad : Nat → Bool) (area block : Nat) : Prop where
  first_le : dataFirstBlock + area * (phyBlockPerArea + 1) ≤ block
  bad_le : block + badBlocks isBad block ≤
    dataFirstBlock + area * (phyBlockPerArea + 1) + badBlocks isBad dataFirstBlock
  lt : block < dataBlockCount

/-- The last area ends with the data blocks, or is full. -/
structure LastArea (isBad : Nat → Bool) (count : Nat) : Prop where
  le : count ≤ phyBlockPerArea
  data : dataFirstBlock + (areaCount - 1) * (phyBlockPerArea + 1) + count ≤ dataBlockCount
  rest : count = phyBlockPerArea ∨ dataBlockCount ≤ dataFirstBlock +
    (areaCount - 1) * (phyBlockPerArea + 1) + badBlocks isBad dataFirstBlock + count

/-- What is behind an area. -/
structure AreaEnd (isBad : Nat → Bool) (area count next : Nat) : Prop where
  more : area + 1 < areaCount → AreaStart isBad (area + 1) next ∧ count = phyBlockPerArea
  done : area + 1 = areaCount → dataBlockCount ≤ next ∧ LastArea isBad count
  reserve : 2 ≤ (goodBlocks isBad next).length

theorem AreaStart.need (h : AreaStart isBad area block) (hroom : FormatRoom isBad) :
    min (dataBlockCount - block) phyBlockPerArea < (goodBlocks isBad block).length := by
  have hlt := h.lt
  have hfirst : dataFirstBlock ≤ block := (Nat.le_add_right _ _).trans h.first_le
  have hanti : badBlocks isBad block ≤ badBlocks isBad dataFirstBlock := badBlocks_anti hfirst
  unfold FormatRoom at hroom
  have hlength : block + (goodBlocks isBad block).length + badBlocks isBad block = logBlockCount :=
    length_goodBlocks (by omega)
  have hmin := Nat.min_le_left (dataBlockCount - block) phyBlockPerArea
  omega

theorem AreaStart.step (h : AreaStart isBad area block) (hroom : FormatRoom isBad) {taken : List Nat} {t : Nat}
    (hsplit : goodBlocks isBad block = taken ++ t :: goodBlocks isBad (t + 1))
    (hlength : taken.length = min (dataBlockCount - block) phyBlockPerArea) :
    AreaEnd isBad area taken.length (t + 1) := by
  have hroom' := hroom
  unfold FormatRoom at hroom'
  have hlt := h.lt
  have hfirst := h.first_le
  have hbad := h.bad_le
  have hstart : dataFirstBlock ≤ block := (Nat.le_add_right _ _).trans hfirst
  have hanti : badBlocks isBad block ≤ badBlocks isBad dataFirstBlock := badBlocks_anti hstart
  have hmem : t ∈ goodBlocks isBad block := by
    rw [hsplit]
    exact List.mem_append_right _ List.mem_cons_self
  obtain ⟨⟨hle, htlt⟩, -⟩ := mem_goodBlocks.mp hmem
  have hbehind : badBlocks isBad (t + 1) ≤ badBlocks isBad block :=
    badBlocks_anti (Nat.le_succ_of_le hle)
  have hbefore : block + (goodBlocks isBad block).length + badBlocks isBad block =
      logBlockCount := length_goodBlocks (by omega)
  have hafter : t + 1 + (goodBlocks isBad (t + 1)).length + badBlocks isBad (t + 1) =
      logBlockCount := length_goodBlocks (by omega)
  have hgood := congrArg List.length hsplit
  rw [List.length_append, List.length_cons] at hgood
  have hnext : (area + 1) * (phyBlockPerArea + 1) =
      area * (phyBlockPerArea + 1) + (phyBlockPerArea + 1) := Nat.succ_mul _ _
  have hmin := Nat.min_le_left (dataBlockCount - block) phyBlockPerArea
  have hmin' := Nat.min_le_right (dataBlockCount - block) phyBlockPerArea
  refine ⟨fun hmore => ?_, fun hdone => ?_, by omega⟩
  · have hareas : (area + 1) * (phyBlockPerArea + 1) ≤ (areaCount - 1) * (phyBlockPerArea + 1) :=
      Nat.mul_le_mul_right _ (by omega)
    have hspan : dataFirstBlock + (areaCount - 1) * (phyBlockPerArea + 1) +
        (logBlockCount - dataBlockCount) ≤ dataBlockCount := FormatLayout.areas_le
    have hdata : t + 1 < dataBlockCount := by omega
    have hcount : taken.length = phyBlockPerArea := by
      rcases Nat.le_total (dataBlockCount - block) phyBlockPerArea with hcase | hcase
      · rw [Nat.min_eq_left hcase] at hlength
        omega
      · rw [hlength, Nat.min_eq_right hcase]
    exact ⟨⟨by omega, by omega, hdata⟩, hcount⟩
  · have hareas : dataBlockCount ≤ dataFirstBlock + areaCount * (phyBlockPerArea + 1) :=
      FormatLayout.le_areas
    have hlastArea : areaCount - 1 = area := by omega
    rw [← hdone] at hareas
    rcases Nat.le_total (dataBlockCount - block) phyBlockPerArea with hcase | hcase
    · rw [Nat.min_eq_left hcase] at hlength
      refine ⟨by omega, by omega, ?_, Or.inr ?_⟩
      all_goals rw [hlastArea]; omega
    · rw [Nat.min_eq_right hcase] at hlength
      refine ⟨by omega, by omega, ?_, Or.inl hlength⟩
      rw [hlastArea]
      omega

/-- What the loop over the areas leaves from `area` on. -/
structure AreasFormatted (s s' : UbiState) (isBad : Nat → Bool) (area block next : Nat)
    (takens : Nat → List Nat) (tables : Nat → Words) : Prop where
  blocks : goodBlocks isBad block =
    (((List.range' area (areaCount - area)).flatMap
      (areaUses takens s'.areaIndexTable)).map Prod.snd) ++ goodBlocks isBad next
  areas : ∀ a, area ≤ a → a < areaCount → AreaFormatted s' (takens a) (tables a) a
  full : ∀ a, area ≤ a → a + 1 < areaCount → (takens a).length = phyBlockPerArea
  last : LastArea isBad (takens (areaCount - 1)).length
  next_le : dataBlockCount ≤ next
  reserve : 2 ≤ (goodBlocks isBad next).length
  nand : ∀ b, b ∉ goodBlocks isBad block → s'.nand b = s.nand b
  before : ∀ a < area, s'.areaIndexTable a = s.areaIndexTable a ∧
    s'.areaIndexEct a = s.areaIndexEct a
  same : ∃ nand table blocks ects offsets, s' = { s with
    nand := nand
    cachedAreaTable := table
    areaIndexTable := blocks
    areaIndexEct := ects
    areaOffsetTable := offsets }

/-- What one round of the loop leaves. -/
structure AreaStep (s s' : UbiState) (isBad : Nat → Bool) (area block t : Nat) (taken : List Nat)
    (table : Words) : Prop where
  split : goodBlocks isBad block = taken ++ t :: goodBlocks isBad (t + 1)
  length : taken.length = min (dataBlockCount - block) phyBlockPerArea
  behind : AreaEnd isBad area taken.length (t + 1)
  formatted : AreaFormatted s' taken table area
  block : s'.areaIndexTable area = t
  nand : ∀ b, b ∉ taken → b ≠ t → s'.nand b = s.nand b
  before : ∀ a, a ≠ area → s'.areaIndexTable a = s.areaIndexTable a ∧
    s'.areaIndexEct a = s.areaIndexEct a
  same : ∃ nand table blocks ects offsets, s' = { s with
    nand := nand
    cachedAreaTable := table
    areaIndexTable := blocks
    areaIndexEct := ects
    areaOffsetTable := offsets }

theorem AreaStart.format (h : AreaStart isBad area block) (hroom : FormatRoom isBad)
    (hisBad : anchorIsBadBlock s.anchorTable = isBad) :
    ∃ s' t taken table, areaFormat s (min (dataBlockCount - block) phyBlockPerArea) block area =
        .ok (some (t + 1), s') ∧ AreaStep s s' isBad area block t taken table := by
  have hneed := h.need hroom
  rw [← hisBad] at hneed
  obtain ⟨taken, t, table, hsplit, hlength, hholds, hformat⟩ := @areaFormat_spec _ block s _
    area hneed
  rw [hisBad] at hsplit
  have hnodup : (goodBlocks isBad block).Nodup := goodBlocks_nodup
  rw [hsplit] at hnodup
  have ht : t ∉ taken := fun hmem =>
    List.disjoint_of_nodup_append hnodup hmem List.mem_cons_self
  refine ⟨_, t, taken, table, hformat, hsplit, hlength, h.step hroom hsplit hlength, ?_, ?_,
    fun b hb hne => ?_, fun a ha => ⟨?_, ?_⟩, ⟨_, _, _, _, _, rfl⟩⟩
  · exact hholds.formatted ht rfl (Function.update_self _ _ _) (Function.update_self _ _ _)
  · exact Function.update_self _ _ _
  · change ((mtdErase (eraseAll s.nand taken) t).update t 0 _) b = _
    rw [Nand.update_other hne, mtdErase_other hne, eraseAll_apply, if_neg hb]
  · exact Function.update_of_ne ha _ _
  · exact Function.update_of_ne ha _ _

theorem AreaStep.nand_other {t : Nat} {taken : List Nat} {table : Words} {s' : UbiState}
    (h : AreaStep s s' isBad area block t taken table) {b : Nat}
    (hb : b ∉ goodBlocks isBad block) : s'.nand b = s.nand b := by
  rw [h.split, List.mem_append, List.mem_cons, not_or, not_or] at hb
  exact h.nand b hb.1 hb.2.1

/-- The loop ends behind the last area. -/
theorem AreaStep.last {t : Nat} {taken : List Nat} {table : Words} {s' : UbiState}
    (h : AreaStep s s' isBad area block t taken table) (harea : area + 1 = areaCount) :
    AreasFormatted s s' isBad area block (t + 1) (fun _ => taken) fun _ => table where
  blocks := by
    have hone : areaCount - area = 1 := by omega
    rw [hone, List.range'_one, List.flatMap_singleton, areaUses_blocks, h.block, h.split,
      List.append_assoc]
    rfl
  areas a hle hlt := by
    have hsame : a = area := by omega
    rw [hsame]
    exact h.formatted
  full a hle hlt := by omega
  last := (h.behind.done harea).2
  next_le := (h.behind.done harea).1
  reserve := h.behind.reserve
  nand _ hb := h.nand_other hb
  before a ha := h.before a (Nat.ne_of_lt ha)
  same := h.same

/-- One area in front of the others. -/
theorem AreaStep.cons {t next : Nat} {taken : List Nat} {table : Words} {s₁ s' : UbiState}
    {takens : Nat → List Nat} {tables : Nat → Words}
    (h : AreaStep s s₁ isBad area block t taken table)
    (hrest : AreasFormatted s₁ s' isBad (area + 1) (t + 1) next takens tables)
    (harea : area + 1 < areaCount) :
    AreasFormatted s s' isBad area block next (fun a => if a = area then taken else takens a)
      fun a => if a = area then table else tables a where
  blocks := by
    have hcons : areaCount - area = areaCount - (area + 1) + 1 := by omega
    have hothers : (List.range' (area + 1) (areaCount - (area + 1))).flatMap
        (areaUses (fun a => if a = area then taken else takens a) s'.areaIndexTable) =
          (List.range' (area + 1) (areaCount - (area + 1))).flatMap
            (areaUses takens s'.areaIndexTable) := by
      refine List.flatMap_congr fun a ha => ?_
      have hne : a ≠ area := by
        have hle := (List.mem_range'_1.mp ha).1
        omega
      rw [areaUses, if_neg hne, areaUses]
    rw [hcons, List.range'_succ, List.flatMap_cons, List.map_append, areaUses_blocks, hothers,
      if_pos rfl, (hrest.before area (Nat.lt_succ_self area)).1, h.block, h.split, hrest.blocks]
    simp only [List.append_assoc, List.nil_append, List.cons_append]
  areas a hle hlt := by
    by_cases hsame : a = area
    · have hnodup : (goodBlocks isBad block).Nodup := goodBlocks_nodup
      rw [h.split, List.nodup_append'] at hnodup
      have hself := hrest.before area (Nat.lt_succ_self area)
      rw [if_pos hsame, if_pos hsame, hsame]
      refine h.formatted.of_same hself.1 hself.2 fun b hb => hrest.nand b fun hmem => ?_
      rw [h.block, List.mem_append, List.mem_singleton] at hb
      rcases hb with hb | rfl
      · exact hnodup.2.2 hb (List.mem_cons_of_mem _ hmem)
      · exact (List.nodup_cons.mp hnodup.2.1).1 hmem
    · rw [if_neg hsame, if_neg hsame]
      exact hrest.areas a (by omega) hlt
  full a hle hlt := by
    by_cases hsame : a = area
    · rw [if_pos hsame, (h.behind.more harea).2]
    · rw [if_neg hsame]
      exact hrest.full a (by omega) hlt
  last := by
    rw [if_neg (by omega)]
    exact hrest.last
  next_le := hrest.next_le
  reserve := hrest.reserve
  nand b hb := by
    have hb' := hb
    rw [h.split, List.mem_append, List.mem_cons, not_or, not_or] at hb'
    rw [hrest.nand b hb'.2.2, h.nand_other hb]
  before a ha := by
    obtain ⟨hblock, hec⟩ := hrest.before a (Nat.lt_succ_of_lt ha)
    obtain ⟨hblock', hec'⟩ := h.before a (Nat.ne_of_lt ha)
    exact ⟨hblock.trans hblock', hec.trans hec'⟩
  same := by
    obtain ⟨nand, cached, blocks, ects, offsets, hsame⟩ := hrest.same
    obtain ⟨nand₁, cached₁, blocks₁, ects₁, offsets₁, hsame₁⟩ := h.same
    refine ⟨nand, cached, blocks, ects, offsets, ?_⟩
    rw [hsame, hsame₁]

/-- The loop over the areas, from the start of `area` on. -/
theorem formatAreas_spec (isBad : Nat → Bool) (hroom : FormatRoom isBad) (m : Nat)
    {area block total n : Nat} {s : UbiState} (hm : area + m + 1 = areaCount) (hfuel : m < n)
    (hisBad : anchorIsBadBlock s.anchorTable = isBad) (hstart : AreaStart isBad area block) :
    ∃ s' next takens tables, formatAreas n area block total s =
        .ok ((some next, total + m * phyBlockPerArea + (takens (areaCount - 1)).length), s') ∧
      AreasFormatted s s' isBad area block next takens tables := by
  obtain ⟨n, rfl⟩ : ∃ n', n = n' + 1 := ⟨n - 1, by omega⟩
  obtain ⟨s₁, t, taken, table, hformat, hstep⟩ := hstart.format hroom hisBad
  induction m generalizing area block total n s s₁ t taken table with
  | zero =>
      have hdone := (hstep.behind.done hm).1
      refine ⟨s₁, t + 1, _, _, ?_, hstep.last hm⟩
      rw [formatAreas, if_pos hstart.lt]
      simp only [bind, Except.bind, hformat]
      rw [if_neg (by omega), hstep.length]
      simp only [Nat.zero_mul, Nat.add_zero]
  | succ m ih =>
      obtain ⟨hnext, hcount⟩ := hstep.behind.more (by omega)
      have hisBad₁ : anchorIsBadBlock s₁.anchorTable = isBad := by
        obtain ⟨_, _, _, _, _, hsame⟩ := hstep.same
        rw [hsame]
        exact hisBad
      obtain ⟨n, rfl⟩ : ∃ n', n = n' + 1 := ⟨n - 1, by omega⟩
      obtain ⟨s₂, t₂, taken₂, table₂, hformat₂, hstep₂⟩ := hnext.format hroom hisBad₁
      obtain ⟨s', next, takens, tables, hloop, hrest⟩ := @ih _ _ (total + taken.length) _
        (by omega) hisBad₁ hnext n (by omega) s₂ t₂ taken₂ table₂ hformat₂ hstep₂
      refine ⟨s', next, _, _, ?_, hstep.cons hrest (by omega)⟩
      rw [formatAreas, if_pos hstart.lt]
      simp only [bind, Except.bind, hformat]
      rw [if_pos hnext.lt, ← hstep.length, hloop, if_neg (by omega), hcount, Nat.succ_mul]
      simp only [Nat.add_assoc, Nat.add_comm phyBlockPerArea]

/-! ## `INDEX_Format` -/

/-- The entries from `i` on get the blocks in order. -/
def fillFree (table : FreeTable) (i : Nat) : List Nat → FreeTable
  | [] => table
  | block :: blocks => fillFree (Function.update table i ⟨block, 0⟩) (i + 1) blocks

omit [FormatLayout] in
theorem fillFree_apply (table : FreeTable) (i : Nat) (blocks : List Nat) (j : Nat) :
    fillFree table i blocks j =
      if i ≤ j then (blocks[j - i]?).elim (table j) (⟨·, 0⟩) else table j := by
  induction blocks generalizing table i with
  | nil =>
      split_ifs <;> rfl
  | cons block blocks ih =>
      rw [fillFree, ih]
      by_cases hfirst : j = i
      · rw [hfirst, if_neg (by omega), if_pos le_rfl, Function.update_self, Nat.sub_self]
        rfl
      · rw [Function.update_of_ne hfirst]
        by_cases hlater : i + 1 ≤ j
        · have hplace : j - i = j - (i + 1) + 1 := by omega
          rw [if_pos hlater, if_pos (by omega), hplace, List.getElem?_cons_succ]
        · rw [if_neg hlater, if_neg (by omega)]

/-- `ret` behind the loop of `INDEX_Format` is that of the last block. -/
def lastStatus (isBad : Nat → Bool) : Status :=
  if isBad (logBlockCount - 1) then .failure else .success

/-- Behind the index block each good block is free. -/
theorem indexFormatLoop_some (isBad : Nat → Bool) (n : Nat) {block : Nat} {f : IndexFormat}
    {index : Nat} (hn : block + n = logBlockCount) (hindex : f.index = some index)
    (hfits : f.count + (goodBlocks isBad block).length ≤ freeBlockCount)
    (hret : n = 0 → f.ret = lastStatus isBad) :
    indexFormatLoop isBad n block f = .ok ⟨some index, f.count + (goodBlocks isBad block).length,
      fillFree f.table f.count (goodBlocks isBad block),
      eraseAll f.nand (goodBlocks isBad block), lastStatus isBad⟩ := by
  have hfinal : ∀ {n : Nat} (b : Nat), b + (n + 1) = logBlockCount → isBad b = false →
      n = 0 → Status.success = lastStatus isBad := by
    intro n b hb hgood hzero
    have hend : logBlockCount - 1 = b := by omega
    rw [lastStatus, hend, hgood]
    rfl
  induction n generalizing block f with
  | zero =>
      rw [goodBlocks_end (by omega), indexFormatLoop, ← hindex, ← hret rfl]
      rfl
  | succ n ih =>
      have hlt : block < logBlockCount := by omega
      rw [indexFormatLoop]
      cases hbad : isBad block with
      | true =>
          rw [goodBlocks_bad hlt hbad] at hfits ⊢
          rw [if_pos rfl]
          refine @ih (block + 1) { f with ret := .failure } (by omega) hindex hfits fun hzero => ?_
          have hend : logBlockCount - 1 = block := by omega
          rw [lastStatus, hend, if_pos hbad]
      | false =>
          rw [goodBlocks_good hlt hbad] at hfits ⊢
          rw [List.length_cons] at hfits ⊢
          have hroom : f.count < freeBlockCount := by omega
          have hnext := @ih (block + 1) { f with
            nand := mtdErase f.nand block
            ret := .success
            count := f.count + 1
            table := Function.update f.table f.count ⟨block, 0⟩ } (by omega) hindex
            (by simp only; omega) (hfinal block hn hbad)
          rw [if_neg Bool.false_ne_true]
          simp only [hindex, if_pos hroom] at hnext ⊢
          refine hnext.trans ?_
          have hcount : f.count + 1 + (goodBlocks isBad (block + 1)).length =
              f.count + ((goodBlocks isBad (block + 1)).length + 1) := by omega
          simp only [hcount]
          rfl

/-- The first good block is the index block. -/
theorem indexFormatLoop_none (isBad : Nat → Bool) (n : Nat) {block index : Nat} {ret : Status}
    {frees : List Nat} {table : FreeTable} {nand : Nand} (hn : block + n = logBlockCount)
    (hgood : goodBlocks isBad block = index :: frees) (hfits : frees.length ≤ freeBlockCount) :
    indexFormatLoop isBad n block ⟨none, 0, table, nand, ret⟩ = .ok ⟨some index, frees.length,
      fillFree table 0 frees, eraseAll nand (index :: frees), lastStatus isBad⟩ := by
  induction n generalizing block ret with
  | zero =>
      rw [goodBlocks_end (by omega)] at hgood
      cases hgood
  | succ n ih =>
      have hlt : block < logBlockCount := by omega
      rw [indexFormatLoop]
      cases hbad : isBad block with
      | true =>
          rw [goodBlocks_bad hlt hbad] at hgood
          rw [if_pos rfl]
          exact ih (by omega) hgood
      | false =>
          rw [goodBlocks_good hlt hbad] at hgood
          obtain ⟨rfl, rfl⟩ := List.cons.inj hgood
          rw [if_neg Bool.false_ne_true]
          refine (indexFormatLoop_some isBad n (f := ⟨some block, 0, table, mtdErase nand block,
            .success⟩) (by omega) rfl (by rw [Nat.zero_add]; exact hfits) fun hzero => ?_).trans ?_
          · have hend : logBlockCount - 1 = block := by omega
            rw [lastStatus, hend, hbad]
            rfl
          simp only [Nat.zero_add]
          rfl

/-- What `INDEX_Format` leaves. -/
structure IndexFormatted (s s' : UbiState) (index : Nat) (frees : List Nat) : Prop where
  table : Represents s'.freeTable (frees.map fun b => ⟨b, 0⟩)
  stored : WrittenTable (s'.nand index) 1 (indexTable s')
  nand : ∀ b, b ∉ index :: frees → s'.nand b = s.nand b
  plr : s'.areaUpdatePlr = ⟨invalidBlock, invalidBlock, invalidEc⟩
  anchorTable : s'.anchorTable = fun w =>
    if w = 0 then index
    else if w = 1 then 0
    else if w = 2 then invalidBlock
    else if w = 3 then invalidEc
    else s.anchorTable w
  same : ∃ nand free plr words, s' = { s with
    nand := nand
    freeTable := free
    areaUpdatePlr := plr
    anchorTable := words }

/-- The free table of `INDEX_Format`. -/
theorem represents_fillFree {frees : List Nat} {table : FreeTable}
    (hfits : frees.length ≤ freeBlockCount) (hblocks : ∀ b ∈ frees, b ≠ invalidBlock) :
    Represents (fun i => if frees.length ≤ i ∧ i < freeBlockCount then .invalid
      else fillFree table 0 frees i) (frees.map fun b => ⟨b, 0⟩) := by
  refine (Represents.format hfits hblocks).of_entries fun i hi => ?_
  rw [indexFormat]
  by_cases hin : i < frees.length
  · rw [if_neg (by omega), fillFree_apply, if_pos (Nat.zero_le i), Nat.sub_zero,
      List.getElem?_eq_getElem hin]
    rfl
  · rw [if_pos ⟨by omega, hi⟩, List.getElem?_eq_none (by omega)]

theorem indexFormatTables_spec {index : Nat} {frees : List Nat}
    (hgood : goodBlocks (anchorIsBadBlock s.anchorTable) block = index :: frees)
    (hfits : frees.length ≤ freeBlockCount)
    (hlast : anchorIsBadBlock s.anchorTable (logBlockCount - 1) = false) :
    ∃ s', indexFormatTables s block = .ok (some logBlockCount, s') ∧
      IndexFormatted s s' index frees := by
  obtain ⟨⟨hle, hlt⟩, hindex⟩ := goodBlocks_cons hgood
  have hloop := @indexFormatLoop_none _ (anchorIsBadBlock s.anchorTable) (logBlockCount - block)
    block index .success frees s.freeTable s.nand (by omega) hgood hfits
  rw [lastStatus, hlast, if_neg Bool.false_ne_true] at hloop
  have hblocks : ∀ b ∈ frees, b ≠ invalidBlock := by
    intro b hb
    have hmem : b ∈ goodBlocks (anchorIsBadBlock s.anchorTable) block := by
      rw [hgood]
      exact List.mem_cons_of_mem _ hb
    have hcount := FormatLayout.logBlockCount_lt
    have hb' := (mem_goodBlocks.mp hmem).1.2
    simp only [invalidBlock]
    omega
  have herased : mtdErase (eraseAll s.nand (index :: frees)) index index 0 = .erased := by
    rw [mtdErase_self]
  obtain ⟨t, ht⟩ : ∃ t : UbiState, t = { s with
    nand := eraseAll s.nand (index :: frees)
    freeTable := fun i => if frees.length ≤ i ∧ i < freeBlockCount then .invalid
      else fillFree s.freeTable 0 frees i
    areaUpdatePlr := ⟨invalidBlock, invalidBlock, invalidEc⟩ } := ⟨_, rfl⟩
  have hmax : max block logBlockCount = logBlockCount := Nat.max_eq_right (by omega)
  refine ⟨{ t with
    nand := (mtdErase (eraseAll s.nand (index :: frees)) index).update index 0
      (.programmed (indexTable t) fun _ => 0)
    anchorTable := fun w =>
      if w = 0 then index
      else if w = 1 then 0
      else if w = 2 then invalidBlock
      else if w = 3 then invalidEc
      else s.anchorTable w }, ?_, ?_, ?_, fun b hb => ?_, ?_, rfl, ?_⟩
  · unfold indexFormatTables
    simp only [bind, Except.bind, hloop, hindex, and_self, if_true, hmax]
    rw [← ht]
    unfold indexFormatWrite
    rw [ht] at *
    simp only [bind, Except.bind, tableWritePage_erased herased]
  · rw [ht]
    exact represents_fillFree hfits hblocks
  · have hpages : WrittenPages (mtdErase (eraseAll s.nand (index :: frees)) index index) 0 := by
      rw [mtdErase_self]
      exact writtenPages_erased fun _ _ => rfl
    change WrittenTable ((mtdErase (eraseAll s.nand (index :: frees)) index).update index 0
      (.programmed (indexTable t) fun _ => 0) index) 1 (indexTable t)
    rw [Nand.update, Function.update_self]
    exact hpages.write (by decide) _
  · change (mtdErase (eraseAll s.nand (index :: frees)) index).update index 0 _ b = _
    have hne : b ≠ index := by
      rintro rfl
      exact hb List.mem_cons_self
    rw [Nand.update_other hne, mtdErase_other hne, eraseAll_apply, if_neg hb]
  · rw [ht]
  · rw [ht]
    exact ⟨_, _, _, _, rfl⟩

/-! ## `ANCHOR_Format` -/

omit [FormatLayout] in
theorem eraseGood_apply (isBad : Nat → Bool) (blocks : List Nat) (nand : Nand) (b : Nat) :
    blocks.foldl (fun nand b => if isBad b then nand else mtdErase nand b) nand b =
      if b ∈ blocks ∧ isBad b = false then fun _ => .erased else nand b := by
  induction blocks generalizing nand with
  | nil => rfl
  | cons block blocks ih =>
      rw [List.foldl_cons, ih]
      by_cases hlater : b ∈ blocks ∧ isBad b = false
      · rw [if_pos hlater, if_pos ⟨List.mem_cons_of_mem _ hlater.1, hlater.2⟩]
      · rw [if_neg hlater]
        by_cases hsame : b = block
        · rw [hsame]
          cases hbad : isBad block with
          | true => rw [if_pos rfl, if_neg (fun h => Bool.noConfusion h.2)]
          | false =>
              rw [if_neg Bool.false_ne_true, mtdErase_self, if_pos ⟨List.mem_cons_self, rfl⟩]
        · have hnot : ¬(b ∈ block :: blocks ∧ isBad b = false) := by
            rintro ⟨hmem, hgood⟩
            exact hlater ⟨(List.mem_cons.mp hmem).resolve_left hsame, hgood⟩
          rw [if_neg hnot]
          split_ifs
          · rfl
          · exact mtdErase_other hsame

/-- What `ANCHOR_Format` needs of the anchor blocks. -/
structure AnchorsUsable (nand : Nand) (isBad : Nat → Bool) : Prop where
  first_le : anchorFirstBlock ≤ anchorLastBlock
  first : isBad anchorFirstBlock = false
  other : ∃ block, anchorFirstBlock < block ∧ block ≤ anchorLastBlock ∧ isBad block = false
  bad : ∀ b, anchorFirstBlock ≤ b → b ≤ anchorLastBlock → isBad b = true →
    ∀ data spare, nand b 0 ≠ .programmed data spare

theorem anchorFormat_spec {total : Nat}
    (h : AnchorsUsable s.nand (anchorIsBadBlock s.anchorTable)) (htotal : total ≠ invalidBlock) :
    ∃ nand table block page, anchorFormat s total = .ok (.success, { s with
        nand := nand, anchorTable := table, anchorBlock := block, anchorNextPage := page }) ∧
      (∀ b, ¬(anchorFirstBlock ≤ b ∧ b ≤ anchorLastBlock) → nand b = s.nand b) ∧
      (∀ w < 4, table w = s.anchorTable w) ∧ table 5 = total ∧
      AnchorBlocks { s with
        nand := nand, anchorTable := table, anchorBlock := block, anchorNextPage := page } ∧
      WrittenTable (nand block) page table := by
  have hbad : anchorIsBadBlock (anchorFormatTable s.anchorTable total) =
      anchorIsBadBlock s.anchorTable := by
    funext b
    refine anchorIsBadBlock_congr fun w hw => ?_
    unfold anchorFormatTable
    rw [if_neg (by omega), if_neg (by omega), if_neg (by omega), if_neg (by omega),
      if_neg (by omega), if_neg (by omega), if_neg (by omega)]
  obtain ⟨t, ht⟩ : ∃ t : UbiState, t = { s with
    nand := (List.range' anchorFirstBlock (anchorLastBlock + 1 - anchorFirstBlock)).foldl
      (fun nand b => if anchorIsBadBlock (anchorFormatTable s.anchorTable total) b then nand
        else mtdErase nand b) s.nand
    anchorTable := anchorFormatTable s.anchorTable total
    anchorBlock := anchorFirstBlock
    anchorNextPage := 0 } := ⟨_, rfl⟩
  have hnand : ∀ b, t.nand b = if (anchorFirstBlock ≤ b ∧ b ≤ anchorLastBlock) ∧
      anchorIsBadBlock s.anchorTable b = false then fun _ => .erased else s.nand b := by
    intro b
    rw [ht]
    refine (eraseGood_apply _ _ _ b).trans (if_congr ?_ rfl rfl)
    rw [hbad, List.mem_range'_1]
    refine and_congr_left fun _ => ?_
    omega
  have hfirst := h.first_le
  have hblocks : AnchorBlocks t := by
    refine ⟨?_, ?_, ?_, ?_, fun b hle hlast hne data spare => ?_, ?_⟩
    · rw [ht]
      exact ⟨le_rfl, hfirst⟩
    · rw [ht]
      exact (congrFun hbad _).trans h.first
    · obtain ⟨block, hlt, hlast, hgood⟩ := h.other
      rw [ht]
      exact ⟨block, Nat.le_of_lt hlt, hlast, Nat.ne_of_gt hlt, (congrFun hbad block).trans hgood⟩
    · have hblock : t.anchorBlock = anchorFirstBlock := by rw [ht]
      have hpage : t.anchorNextPage = 0 := by rw [ht]
      rw [hblock, hpage, hnand, if_pos ⟨⟨le_rfl, hfirst⟩, h.first⟩]
      exact writtenPages_erased fun _ _ => rfl
    · rw [hnand]
      split_ifs with hgood
      · exact NandPage.noConfusion
      · refine h.bad b hle hlast ?_ data spare
        rw [← Bool.not_eq_false]
        exact fun hgood' => hgood ⟨⟨hle, hlast⟩, hgood'⟩
    · rw [ht]
      have hoath : (2184019 + 16777216 * (s.anchorTable 9 / 16777216)) % 16777216 = 2184019 := by
        omega
      simp only [anchorValid, anchorFormatTable]
      exact decide_eq_true ⟨htotal, rfl, rfl, rfl, hoath⟩
  obtain ⟨nand, table, block, page, hupdate, hdone⟩ := hblocks.update
  refine ⟨nand, table, block, page, ?_, fun b hb => ?_, fun w hw => ?_, ?_, ?_, hdone.stored⟩
  · rw [anchorFormat, ← ht, hupdate, ht]
  · rw [hdone.outside b hb, hnand, if_neg (fun h => hb h.1)]
  · rw [hdone.words w (by omega), ht]
    change anchorFormatTable s.anchorTable total w = _
    unfold anchorFormatTable
    rw [if_neg (by omega), if_neg (by omega), if_neg (by omega), if_neg (by omega),
      if_neg (by omega), if_neg (by omega), if_neg (by omega)]
  · rw [hdone.words 5 (by decide), ht]
    rfl
  · refine hdone.blocks.of_same rfl rfl rfl fun _ _ _ => rfl

end

end RansomTag

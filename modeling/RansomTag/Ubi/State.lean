import RansomTag.Ftl.State
import RansomTag.Library.Bisection
import RansomTag.Ubi.FreeBlocks

/-!
# The tables of the block layer

The state below `UBI_Read`, and the routines of `ubi_table.c`, `ubi_anchor.c`,
`ubi_area.c` and `ubi_index.c` that read the area tables and write the tables back.
No NAND operation fails: an erase and a program end with success, so the loops that
repeat after `STATUS_BADBLOCK` run once.
-/

namespace RansomTag

@[simp, reducible] def invalidArea : Nat := 4294967295
@[simp, reducible] def anchorFirstBlock : Nat := 1
@[simp, reducible] def anchorBadBlockCount : Nat := 1013

/-- `CFG_PHY_BLOCK_PER_AREA`, `AREA_COUNT` and `ANCHOR_LAST_BLOCK`. -/
class UbiGeometry extends FreeBlockGeometry where
  phyBlockPerArea : Nat
  phyBlockPerArea_pos : 0 < phyBlockPerArea
  areaCount : Nat
  logicalBlocks_le : areaCount * phyBlockPerArea ≤ 4294967295
  anchorLastBlock : Nat

export UbiGeometry (phyBlockPerArea areaCount anchorLastBlock)

@[reducible] def k9wag08Ubi : UbiGeometry where
  toFreeBlockGeometry := k9wag08Index
  phyBlockPerArea := 512
  phyBlockPerArea_pos := by decide
  areaCount := 4
  logicalBlocks_le := by decide
  anchorLastBlock := 4

/-- Why a call does not return: a failed `ASSERT`, a loop that goes on, or an access
outside `free_block_table`. -/
inductive UbiStop where
  | assertion
  | endless
  | outOfTable
  deriving DecidableEq, Repr

/-! ## Pages -/

/-- The words of a page or of a table, and those of a spare buffer. -/
abbrev Words := Nat → Nat

inductive NandPage where
  | erased
  | torn
  | programmed (data spare : Words)

abbrev Nand := Nat → Nat → NandPage

def Nand.update (nand : Nand) (block page : Nat) (content : NandPage) : Nand :=
  Function.update nand block (Function.update (nand block) page content)

/-- `MTD_Read` of a whole page into the buffers of the caller. -/
def mtdReadPage (nand : Nand) (block page : Nat) (buffers : Words × Words) :
    Status × (Words × Words) :=
  match nand block page with
  | .programmed data spare => (.success, (data, spare))
  | _ => (.failure, buffers)

/-- `MTD_Program` of a whole page; a page that is not erased is fatal. -/
def mtdProgramPage (nand : Nand) (block page : Nat) (data spare : Words) :
    Except UbiStop Nand :=
  match nand block page with
  | .erased => .ok (nand.update block page (.programmed data spare))
  | _ => .error .assertion

/-- `MTD_Erase` -/
def mtdErase (nand : Nand) (block : Nat) : Nand :=
  Function.update nand block fun _ => .erased

theorem Nand.update_other {nand : Nand} {block page : Nat} {content : NandPage} {b : Nat}
    (h : b ≠ block) : nand.update block page content b = nand b :=
  Function.update_of_ne h _ nand

theorem mtdErase_other {nand : Nand} {block b : Nat} (h : b ≠ block) :
    mtdErase nand block b = nand b :=
  Function.update_of_ne h _ nand

/-! ## `ubi_table.c` -/

/-- The first spare word of a page that `TABLE_Write` left alone. -/
@[simp, reducible] def noFootprint : Nat := 4294967295

/-- `TABLE_Write`; the words of the footprint behind the first are not set. -/
def tableWritePage (nand : Nand) (block page : Nat) (table : Words) : Except UbiStop Nand :=
  mtdProgramPage nand block page table fun _ => 0

theorem tableWritePage_erased {nand : Nand} {block page : Nat} {table : Words}
    (h : nand block page = .erased) :
    tableWritePage nand block page table =
      .ok (nand.update block page (.programmed table fun _ => 0)) := by
  rw [tableWritePage, mtdProgramPage, h]

structure TablePage where
  status : Status
  page : Nat
  table : Words

/-- `TABLE_Read` -/
def tableReadPage (nand : Nand) (block page : Nat) (table : Words) : TablePage :=
  let probe := fun mid footprint =>
    let (ret, buffers) := mtdReadPage nand block mid (table, footprint)
    (decide (ret = .success ∧ buffers.2 0 ≠ noFootprint), buffers.2)
  let (first, last) := if page ≠ invalidPage then (page, page) else (0, pagePerPhyBlock)
  let (head, tail, footprint) := Bisection.bisect probe first last (fun _ => 0)
  let mid := (head + tail) / 2
  let (ret, buffers) := mtdReadPage nand block mid (table, footprint)
  if ret = .success ∧ buffers.2 0 ≠ noFootprint then ⟨.success, mid, buffers.1⟩
  else ⟨.failure, invalidPage, buffers.1⟩

/-! ## State -/

/-- `AREA_UPDATE_PLR` -/
structure AreaUpdatePlr where
  logicalBlock : Nat
  physicalBlock : Nat
  blockEc : Nat

structure UbiState where
  nand : Nand
  areaOffsetTable : Nat → Nat
  cachedAreaTable : Words
  cachedAreaNumber : Nat
  areaIndexTable : Nat → Nat
  areaIndexEct : Nat → Nat
  freeTable : FreeTable
  areaUpdatePlr : AreaUpdatePlr
  isUpdatingArea : Bool
  indexBlock : Nat
  indexBlockEc : Nat
  indexNextPage : Nat
  anchorTable : Words
  anchorBlock : Nat
  anchorNextPage : Nat
  tmpDataBuffer : Words

/-- `physical_block` of an `AREA_BLOCK`. -/
def areaPhysicalBlock (table : Words) (offset : Nat) : Nat := table (2 * offset)

/-- `physical_block_ec` of an `AREA_BLOCK`. -/
def areaPhysicalBlockEc (table : Words) (offset : Nat) : Nat := table (2 * offset + 1)

def areaSet (table : Words) (offset block ec : Nat) : Words :=
  Function.update (Function.update table (2 * offset) block) (2 * offset + 1) ec

def UbiState.swlCurrentArea (s : UbiState) : Nat := s.anchorTable 6

section

variable [UbiGeometry]

theorem areaCount_le : areaCount ≤ 4294967295 :=
  (Nat.le_mul_of_pos_right _ UbiGeometry.phyBlockPerArea_pos).trans UbiGeometry.logicalBlocks_le

/-- The page image of `INDEX_TABLE`. -/
def indexTable (s : UbiState) : Words := fun w =>
  if w < 256 then s.areaIndexTable w
  else if w < 512 then s.areaIndexEct (w - 256)
  else if w < 512 + freeBlockCount then (s.freeTable (w - 512)).block
  else if w < 512 + 2 * freeBlockCount then (s.freeTable (w - 512 - freeBlockCount)).ec
  else if w = 512 + 2 * freeBlockCount then s.areaUpdatePlr.logicalBlock
  else if w = 512 + 2 * freeBlockCount + 1 then s.areaUpdatePlr.physicalBlock
  else if w = 512 + 2 * freeBlockCount + 2 then s.areaUpdatePlr.blockEc
  else 4294967295

def areaIndex (block : Nat) : Nat := block / phyBlockPerArea

def blockOffsetArea (block : Nat) : Nat := block % phyBlockPerArea

/-! ## `ubi_anchor.c` -/

/-- `ANCHOR_IsBadBlock` -/
def anchorIsBadBlock (table : Words) (block : Nat) : Bool :=
  (List.range anchorBadBlockCount).any fun i => table (11 + i) = block

/-- The `do` loop of `anchor_find_next_block`: the block that it stops at. -/
def anchorFindLoop (nand : Nand) (table : Words) (current : Nat) :
    Nat → Nat → Except UbiStop (Nat × Nand)
  | 0, _ => .error .endless
  | n + 1, block =>
      let next := if block + 1 > anchorLastBlock then anchorFirstBlock else block + 1
      if anchorIsBadBlock table next = false then .ok (next, mtdErase nand next)
      else if next ≠ current then anchorFindLoop nand table current n next
      else .ok (next, nand)

/-- `anchor_find_next_block`, from the current anchor block; the loop has come back to it
after all the others. -/
def anchorFindNextBlock (s : UbiState) : Except UbiStop (Status × UbiState) := do
  let (next, nand) ←
    anchorFindLoop s.nand s.anchorTable s.anchorBlock (anchorLastBlock + 1) s.anchorBlock
  if next ≠ s.anchorBlock then .ok (.success, { s with nand := nand, anchorBlock := next })
  else .ok (.failure, { s with nand := nand })

/-- `ANCHOR_Update` -/
def anchorUpdate (s : UbiState) : Except UbiStop (Status × UbiState) :=
  if s.anchorNextPage = pagePerPhyBlock then do
    let previous := s.anchorBlock
    let (ret, s) ← anchorFindNextBlock
      { s with anchorTable := Function.update s.anchorTable 4 previous }
    if ret = .success then
      let nand ← tableWritePage s.nand s.anchorBlock 0 s.anchorTable
      .ok (.success, { s with nand := mtdErase nand previous, anchorNextPage := 1 })
    else .ok (ret, s)
  else do
    let nand ← tableWritePage s.nand s.anchorBlock s.anchorNextPage s.anchorTable
    .ok (.success, { s with nand := nand, anchorNextPage := s.anchorNextPage + 1 })

/-- `ANCHOR_IndexReclaim` -/
def anchorIndexReclaim (s : UbiState) (newBlock newEc : Nat) : UbiState :=
  { s with anchorTable := fun w =>
      if w = 0 then newBlock
      else if w = 1 then newEc
      else if w = 2 then s.indexBlock
      else if w = 3 then s.indexBlockEc
      else s.anchorTable w }

/-! ## `ubi_area.c` -/

/-- `AREA_Read` -/
def areaRead (s : UbiState) (area : Nat) : Except UbiStop (Status × UbiState) :=
  if area ≠ s.cachedAreaNumber then
    if area ≠ invalidArea then
      let r := tableReadPage s.nand (s.areaIndexTable area) (s.areaOffsetTable area)
        s.cachedAreaTable
      .ok (r.status, { s with
        areaOffsetTable := Function.update s.areaOffsetTable area r.page
        cachedAreaTable := r.table
        cachedAreaNumber := if r.status = .success then area else invalidArea })
    else .error .assertion
  else .ok (.success, s)

/-- `AREA_GetBlock` -/
def areaGetBlock (s : UbiState) (logicalBlock : Nat) : Except UbiStop (Nat × UbiState) := do
  let (status, s) ← areaRead s (areaIndex logicalBlock)
  if status = .success then
    .ok (areaPhysicalBlock s.cachedAreaTable (blockOffsetArea logicalBlock), s)
  else .ok (invalidBlock, s)

/-- `AREA_IsFull` -/
def areaIsFull (s : UbiState) (logicalBlock : Nat) : Except UbiStop (Bool × UbiState) := do
  let (status, s) ← areaRead s (areaIndex logicalBlock)
  .ok (status = .success ∧ s.areaOffsetTable (areaIndex logicalBlock) = pagePerPhyBlock - 1, s)

/-- The loop of `AREA_FindMinECBlock`. -/
def minEcOffset (table : Words) : Nat :=
  (List.range phyBlockPerArea).foldl
    (fun min i =>
      if areaPhysicalBlockEc table i < areaPhysicalBlockEc table min then i else min) 0

/-- `AREA_FindMinECBlock`; without the area table, the block and its count stay as they were. -/
def areaFindMinECBlock (s : UbiState) (area : Nat) (unset : FreeBlock) :
    Except UbiStop ((Nat × FreeBlock) × UbiState) := do
  let (status, s) ← areaRead s area
  if status = .success then
    let min := minEcOffset s.cachedAreaTable
    .ok ((min, ⟨areaPhysicalBlock s.cachedAreaTable min,
      areaPhysicalBlockEc s.cachedAreaTable min⟩), s)
  else .ok ((0, unset), s)

/-- `AREA_Update` -/
def areaUpdate (s : UbiState) (logicalBlock block ec : Nat) :
    Except UbiStop (Status × UbiState) := do
  let (status, s) ← areaRead s (areaIndex logicalBlock)
  if status = .success then
    let table :=
      if block ≠ invalidBlock then
        areaSet s.cachedAreaTable (blockOffsetArea logicalBlock) block ec
      else s.cachedAreaTable
    let page := (s.areaOffsetTable (areaIndex logicalBlock) + 1) % pagePerPhyBlock
    let nand ← tableWritePage s.nand (s.areaIndexTable (areaIndex logicalBlock)) page table
    .ok (.success, { s with
      nand := nand
      cachedAreaTable := table
      areaOffsetTable := Function.update s.areaOffsetTable (areaIndex logicalBlock) page })
  else .ok (status, s)

/-! ## `ubi_index.c` -/

/-- `INDEX_FreeBlock_Get`, with the erase of the block that it hands out; no erase fails. -/
def indexFreeBlockGet (s : UbiState) (die : Nat) :
    Except UbiStop (Option FreeBlock × UbiState) :=
  match freeBlockGet s.freeTable die (fun _ _ => true) with
  | none => .error .endless
  | some r =>
      if r.status = .success then
        .ok (r.ec.map (⟨r.block, ·⟩),
          { s with freeTable := r.table, nand := mtdErase s.nand r.block })
      else .ok (none, { s with freeTable := r.table })

/-- `INDEX_FreeBlock_Put` -/
def indexFreeBlockPut (s : UbiState) (block ec : Nat) : UbiState :=
  { s with freeTable := freeBlockPut s.freeTable ⟨block, ec⟩ }

/-- `TABLE_Write` of the index table to the next page of its block. -/
def indexWrite (s : UbiState) : Except UbiStop (Status × UbiState) := do
  let nand ← tableWritePage s.nand s.indexBlock s.indexNextPage (indexTable s)
  .ok (.success, { s with nand := nand, indexNextPage := s.indexNextPage + 1 })

/-- `index_update` -/
def indexUpdate (s : UbiState) : Except UbiStop (Status × UbiState) :=
  if s.indexNextPage = pagePerPhyBlock then do
    match ← indexFreeBlockGet s s.indexBlock with
    | (none, s) => .ok (.failure, s)
    | (some new, s) =>
        let (ret, s) ← anchorUpdate (anchorIndexReclaim s new.block new.ec)
        if ret = .success then
          let s := indexFreeBlockPut s s.indexBlock s.indexBlockEc
          indexWrite { s with indexBlock := new.block, indexNextPage := 0, indexBlockEc := new.ec }
        else .ok (ret, s)
  else indexWrite s

/-- `INDEX_Update_AreaReclaim` -/
def indexUpdateAreaReclaim (s : UbiState) (area : Nat) (new : FreeBlock) : UbiState :=
  let s := indexFreeBlockPut s (s.areaIndexTable area) (s.areaIndexEct area)
  { s with
    areaIndexTable := Function.update s.areaIndexTable area new.block
    areaIndexEct := Function.update s.areaIndexEct area new.ec }

/-- `INDEX_Update_AreaUpdate` -/
def indexUpdateAreaUpdate (s : UbiState) (logicalBlock physicalBlock blockEc : Nat) :
    Except UbiStop UbiState :=
  if physicalBlock ≠ invalidBlock ∧ blockEc ≠ invalidEc then
    .ok { s with
      areaUpdatePlr := ⟨logicalBlock, physicalBlock, blockEc⟩
      isUpdatingArea := true }
  else .error .assertion

/-- The area table's block of `INDEX_Update_Commit`: a full one is replaced, and otherwise the
index table is written first. -/
def commitPrepare (s : UbiState) (logicalBlock : Nat) (full : Bool) :
    Except UbiStop (Status × UbiState) :=
  if full then do
    match ← indexFreeBlockGet s (s.areaIndexTable (areaIndex logicalBlock)) with
    | (none, s) => .ok (.failure, s)
    | (some new, s) => .ok (.success, indexUpdateAreaReclaim s (areaIndex logicalBlock) new)
  else indexUpdate s

/-- `INDEX_Update_Commit` -/
def indexUpdateCommit (s : UbiState) : Except UbiStop (Status × UbiState) :=
  if s.isUpdatingArea then do
    let plr := s.areaUpdatePlr
    let (full, s) ← areaIsFull s plr.logicalBlock
    let (ret, s) ← commitPrepare s plr.logicalBlock full
    if ret = .success then
      let (ret, s) ← areaUpdate s plr.logicalBlock plr.physicalBlock plr.blockEc
      -- a new area table's block is valid once the index table names it
      let (ret, s) ← if ret = .success ∧ full then indexUpdate s else .ok (ret, s)
      if ret = .success then .ok (ret, { s with isUpdatingArea := false })
      else .ok (ret, s)
    else .ok (ret, s)
  else indexUpdate s

/-! ## `ubi_api.c` -/

/-- What `UBI_Read` leaves: its status, and the buffers that it filled. -/
structure UbiRead where
  status : Status
  data : Option Words
  spare : Option Words

/-- `UBI_Read`; the address of no page reads as zeros. -/
def ubiReadPage (s : UbiState) (block page : Nat) : Except UbiStop (UbiRead × UbiState) :=
  if block ≠ invalidBlock ∧ page ≠ invalidPage then do
    let (phyBlock, s) ← areaGetBlock s block
    if phyBlock ≠ invalidBlock then
      match s.nand phyBlock page with
      | .programmed data spare => .ok (⟨.success, some data, some spare⟩, s)
      | _ => .ok (⟨.failure, none, none⟩, s)
    else .error .assertion
  else if block = invalidBlock ∧ page = invalidPage then
    .ok (⟨.success, some fun _ => 0, none⟩, s)
  else .error .assertion

end

end RansomTag

import RansomTag.Recovery.RangeJoining

/-!
# Block groups and their bitmaps

The used blocks of the recovery tool and the test of a file's chunks against them,
from the bitmaps of the groups that `dumpe2fs` lists.
-/

namespace RansomTag

/-! ## Groups -/

/-- What `dumpe2fs` prints of the groups; the bitmaps of a group fill at most a block. -/
structure Ext4Layout extends Ext4Super where
  blocksPerGroup : Nat
  inodesPerGroup : Nat
  firstDataBlock : Nat
  blocksGroupsFlags : List (List String)
  blocksPerGroup_pos : 0 < blocksPerGroup
  blocksPerGroup_le : blocksPerGroup ≤ toExt4Super.blockSize * 8
  inodesPerGroup_pos : 0 < inodesPerGroup
  inodesPerGroup_le : inodesPerGroup ≤ toExt4Super.blockSize * 8

/-- A row of `get_block_groups`. -/
structure BlockGroup where
  group : Nat
  bbitmap : Nat
  ibitmap : Nat
  itable : Nat

/-- The rows are in the order of their numbers. -/
structure BlockGroups where
  rows : List BlockGroup
  numbered : ∀ (i : Nat) (bg : BlockGroup), rows[i]? = some bg → bg.group = i

/-- The number of a group and the flags of a group are values of one kind. -/
inductive FlagsValue where
  | index (groupIndex : Nat)
  | flags (names : List String)
  deriving DecidableEq

/-- `test_block_groups_flag` -/
def testBlockGroupsFlag (sb : Ext4Layout) (flagName : String) (groupIndex : Nat) : Bool :=
  (sb.blocksGroupsFlags.map FlagsValue.flags).contains (.index groupIndex) &&
    (sb.blocksGroupsFlags.getD groupIndex []).contains flagName

/-! ## Bitmaps -/

/-- `access_bit`, with `none` for an index behind the data. -/
def accessBit (data : List Byte) (num : Nat) : Option Nat :=
  data[num / 8]?.map fun byte => (byte.toNat &&& (1 <<< (num % 8))) >>> (num % 8)

/-- `parse_bitmap` -/
def parseBitmap (data : List Byte) (totalItems : Option Nat) : List Nat :=
  ((List.range (data.length * 8)).takeWhile fun i => totalItems.all (i < ·)).filter fun i =>
    (accessBit data i).any (· ≠ 0)

section

variable (fs : Nat → Byte) (sb : Ext4Layout)

/-- `join_ranges` of the blocks that the bitmaps of the groups mark. -/
def getUsedBlocks (bgs : BlockGroups) : List (Nat × Nat) :=
  joinRanges (bgs.rows.flatMap fun bg =>
    if testBlockGroupsFlag sb "BLOCK_UNINIT" bg.group then []
    else
      (parseBitmap (blockBytes sb.toExt4Super fs bg.bbitmap) sb.blocksPerGroup).map fun index =>
        index + sb.blocksPerGroup * bg.group + 1)

/-- `has_conflicting_chunks` -/
def hasConflictingChunks (usedBlocks : List (Nat × Nat)) (chunks : List Chunk) : Bool :=
  chunks.any fun chunk =>
    let fileL := chunk.addr / sb.blockSize
    let fileR := fileL + chunk.len / sb.blockSize
    usedBlocks.any fun usedBlock =>
      let usedL := usedBlock.1
      let usedR := usedL + usedBlock.2
      let isLeft := fileL < usedL && fileR ≤ usedL
      let isRight := fileL ≥ usedR && fileR > usedR
      !(isLeft || isRight)

end

/-! ## What the bitmaps say -/

/-- A bit of a bitmap. -/
def BitSet (data : List Byte) (i : Nat) : Prop :=
  ∃ byte, data[i / 8]? = some byte ∧ byte.toNat.testBit (i % 8) = true

/-- The blocks of a chunk of whole blocks. -/
def Chunk.blocks (sb : Ext4Super) (c : Chunk) : List Nat :=
  List.range' (c.addr / sb.blockSize) (c.len / sb.blockSize)

/-- A chunk of whole blocks, at least one. -/
structure Chunk.WholeBlocks (sb : Ext4Super) (c : Chunk) : Prop where
  addr_mod : c.addr % sb.blockSize = 0
  len_mod : c.len % sb.blockSize = 0
  len_pos : 0 < c.len

section

variable (fs : Nat → Byte) (sb : Ext4Layout) (bgs : BlockGroups)

/-- Bit `k` of the block bitmaps, one behind the other. -/
def BlockBit (k : Nat) : Prop :=
  ∃ bg, bgs.rows[k / sb.blocksPerGroup]? = some bg ∧
    BitSet (blockBytes sb.toExt4Super fs bg.bbitmap) (k % sb.blocksPerGroup)

/-- The block is marked used in the block bitmap of its group; the groups begin at the
first data block. -/
def BlockUsed (block : Nat) : Prop :=
  sb.firstDataBlock ≤ block ∧ BlockBit fs sb bgs (block - sb.firstDataBlock)

/-- One of the file's blocks is like this. -/
def SomeBlock (chunks : List Chunk) (p : Nat → Prop) : Prop :=
  ∃ chunk ∈ chunks, ∃ block ∈ chunk.blocks sb.toExt4Super, p block

end

/-! ## Reading bitmaps -/

/-- The number of a group is never among the lists of flags. -/
@[simp] theorem testBlockGroupsFlag_eq_false (sb : Ext4Layout) (flagName : String)
    (groupIndex : Nat) : testBlockGroupsFlag sb flagName groupIndex = false := by
  have hmissing : FlagsValue.index groupIndex ∉ sb.blocksGroupsFlags.map .flags := by
    intro hmem
    rcases List.mem_map.mp hmem with ⟨names, -, hsame⟩
    cases hsame
  unfold testBlockGroupsFlag
  rw [List.contains_eq_mem, decide_eq_false hmissing, Bool.false_and]

section

variable {data : List Byte} {i total : Nat}

theorem masked_ne_zero_iff (value bit : Nat) :
    (value &&& (1 <<< bit)) >>> bit ≠ 0 ↔ value.testBit bit = true := by
  rw [Nat.shiftRight_and_distrib, Nat.shiftLeft_shiftRight, Nat.testBit, Nat.and_comm,
    bne_iff_ne]

variable (data i) in
theorem accessBit_set_iff : (accessBit data i).any (· ≠ 0) = true ↔ BitSet data i := by
  unfold accessBit BitSet
  cases data[i / 8]? with
  | none => simp
  | some byte => simp [← masked_ne_zero_iff]

theorem bitSet_index_lt (h : BitSet data i) : i < data.length * 8 := by
  rcases h with ⟨byte, hbyte, -⟩
  have hindex := (List.getElem?_eq_some_iff.mp hbyte).1
  omega

/-- The single test of a bit, inside the bitmap. -/
theorem accessBit_eq_zero_iff (h : i < data.length * 8) :
    ∃ bit, accessBit data i = some bit ∧ (bit = 0 ↔ ¬BitSet data i) := by
  have hindex : i / 8 < data.length := by omega
  have hbyte : data[i / 8]? = some data[i / 8] := List.getElem?_eq_getElem hindex
  have hset := accessBit_set_iff data i
  unfold accessBit at hset ⊢
  rw [hbyte] at hset ⊢
  refine ⟨_, rfl, ?_⟩
  rw [← hset]
  simp

theorem takeWhile_range' (first n total : Nat) :
    (List.range' first n).takeWhile (fun i => (some total).all (i < ·)) =
      List.range' first (min n (total - first)) := by
  induction n generalizing first with
  | zero => rw [Nat.zero_min]; rfl
  | succ n ih =>
      rw [List.range'_succ]
      by_cases hfirst : first < total
      · have hmin : min (n + 1) (total - first) = min n (total - (first + 1)) + 1 := by omega
        rw [List.takeWhile_cons_of_pos (by simpa using hfirst), ih, hmin, List.range'_succ]
      · have hmin : min (n + 1) (total - first) = 0 := by omega
        rw [List.takeWhile_cons_of_neg (by simpa using hfirst), hmin]
        rfl

theorem parseBitmap_eq : parseBitmap data (some total) =
    (List.range (min (data.length * 8) total)).filter fun i =>
      (accessBit data i).any (· ≠ 0) := by
  unfold parseBitmap
  rw [List.range_eq_range', takeWhile_range', Nat.sub_zero, List.range_eq_range']

theorem mem_parseBitmap : i ∈ parseBitmap data (some total) ↔ i < total ∧ BitSet data i := by
  rw [parseBitmap_eq, List.mem_filter, List.mem_range, accessBit_set_iff]
  constructor
  · rintro ⟨hi, hset⟩
    exact ⟨by omega, hset⟩
  · rintro ⟨hi, hset⟩
    have hlength := bitSet_index_lt hset
    exact ⟨by omega, hset⟩

theorem nodup_parseBitmap : (parseBitmap data (some total)).Nodup := by
  rw [parseBitmap_eq]
  exact List.nodup_range.filter _

end

/-! ## Overwritten files -/

section

variable {fs : Nat → Byte} {sb : Ext4Layout} {bgs : BlockGroups} {block : Nat}
  {chunks : List Chunk} {chunk : Chunk} {arr : List Nat}

theorem flatMap_marked_eq :
    (bgs.rows.flatMap fun bg =>
      if testBlockGroupsFlag sb "BLOCK_UNINIT" bg.group then []
      else
        (parseBitmap (blockBytes sb.toExt4Super fs bg.bbitmap) sb.blocksPerGroup).map
          fun index => index + sb.blocksPerGroup * bg.group + 1) =
    bgs.rows.flatMap fun bg =>
      (parseBitmap (blockBytes sb.toExt4Super fs bg.bbitmap) sb.blocksPerGroup).map
        fun index => index + sb.blocksPerGroup * bg.group + 1 := by
  simp

/-- A number from the bits of the groups: the position of the group and of the bit. -/
theorem mem_groups_iff {bitmap : BlockGroup → List Byte} {perGroup k : Nat} (hpos : 0 < perGroup) :
    (∃ bg ∈ bgs.rows, ∃ index ∈ parseBitmap (bitmap bg) (some perGroup),
      index + perGroup * bg.group = k) ↔
      ∃ bg, bgs.rows[k / perGroup]? = some bg ∧ BitSet (bitmap bg) (k % perGroup) := by
  constructor
  · rintro ⟨bg, hbg, index, hindex, rfl⟩
    rcases mem_parseBitmap.mp hindex with ⟨hlt, hset⟩
    rcases List.mem_iff_getElem?.mp hbg with ⟨g, hg⟩
    rw [bgs.numbered g bg hg, Nat.add_mul_div_left _ _ hpos, Nat.div_eq_of_lt hlt, Nat.zero_add,
      Nat.add_mul_mod_self_left, Nat.mod_eq_of_lt hlt]
    exact ⟨bg, hg, hset⟩
  · rintro ⟨bg, hg, hset⟩
    refine ⟨bg, List.mem_of_getElem? hg, k % perGroup,
      mem_parseBitmap.mpr ⟨Nat.mod_lt k hpos, hset⟩, ?_⟩
    rw [bgs.numbered _ bg hg, Nat.mod_add_div]

/-- The tool counts the bits from block 1 on. -/
def ToolBlock (fs : Nat → Byte) (sb : Ext4Layout) (bgs : BlockGroups) (block : Nat) : Prop :=
  1 ≤ block ∧ BlockBit fs sb bgs (block - 1)

theorem mem_usedBlocks_iff :
    (∃ r ∈ getUsedBlocks fs sb bgs, block ∈ List.range' r.1 r.2) ↔
      ToolBlock fs sb bgs block := by
  rw [← List.mem_flatMap, getUsedBlocks, flatMap_joinRanges, flatMap_marked_eq, List.mem_flatMap]
  unfold ToolBlock BlockBit
  rw [← mem_groups_iff sb.blocksPerGroup_pos]
  constructor
  · rintro ⟨bg, hbg, hblock⟩
    rcases List.mem_map.mp hblock with ⟨index, hindex, rfl⟩
    exact ⟨by omega, bg, hbg, index, hindex, by omega⟩
  · rintro ⟨hpos, bg, hbg, index, hindex, hk⟩
    exact ⟨bg, hbg, List.mem_map.mpr ⟨index, hindex, by omega⟩⟩

/-- Neither on the left nor on the right: two ranges that are not empty overlap. -/
theorem overlap_iff {fileL total usedL used : Nat} (htotal : 0 < total) (hused : 0 < used) :
    (!((fileL < usedL && fileL + total ≤ usedL) ||
      (fileL ≥ usedL + used && fileL + total > usedL + used))) = true ↔
      ∃ block ∈ List.range' fileL total, block ∈ List.range' usedL used := by
  simp only [Bool.not_eq_true', Bool.or_eq_false_iff, Bool.and_eq_false_iff,
    decide_eq_false_iff_not, List.mem_range'_1]
  constructor
  · intro h
    exact ⟨max fileL usedL, by omega, by omega⟩
  · rintro ⟨block, hfile, hblock⟩
    omega

theorem Chunk.WholeBlocks.blocks_pos (h : chunk.WholeBlocks sb.toExt4Super) :
    0 < chunk.len / sb.blockSize :=
  Nat.div_pos (Nat.le_of_dvd h.len_pos (Nat.dvd_of_mod_eq_zero h.len_mod)) blockSize_pos

/-- The test of the chunks against the used ranges, block by block. -/
theorem hasConflictingChunks_iff_toolBlock
    (hchunks : ∀ chunk ∈ chunks, chunk.WholeBlocks sb.toExt4Super) :
    hasConflictingChunks sb (getUsedBlocks fs sb bgs) chunks = true ↔
      SomeBlock sb chunks (ToolBlock fs sb bgs) := by
  unfold hasConflictingChunks SomeBlock
  simp only [List.any_eq_true, ← mem_usedBlocks_iff]
  refine exists_congr fun chunk => and_congr_right fun hchunk => ?_
  have hpos := (hchunks chunk hchunk).blocks_pos
  constructor
  · rintro ⟨r, hr, hoverlap⟩
    rcases (overlap_iff hpos (joinRanges_pos r hr)).mp hoverlap with ⟨block, hfile, hblock⟩
    exact ⟨block, hfile, r, hr, hblock⟩
  · rintro ⟨block, hfile, r, hr, hblock⟩
    exact ⟨r, hr, (overlap_iff hpos (joinRanges_pos r hr)).mpr ⟨block, hfile, hblock⟩⟩

theorem toolBlock_iff :
    ToolBlock fs sb bgs block ↔
      1 ≤ block ∧ BlockUsed fs sb bgs (block - 1 + sb.firstDataBlock) := by
  unfold ToolBlock BlockUsed
  rw [Nat.add_sub_cancel]
  exact and_congr_right fun _ => (and_iff_right (Nat.le_add_left _ _)).symm

variable (fs bgs block) in
/-- With the first data block 1, the tool's numbers are those of the groups. -/
theorem blockUsed_shifted_of_one (hfirst : sb.firstDataBlock = 1) :
    (1 ≤ block ∧ BlockUsed fs sb bgs (block - 1 + sb.firstDataBlock)) ↔
      BlockUsed fs sb bgs block := by
  constructor
  · rintro ⟨hpos, hused⟩
    have hsame : block - 1 + sb.firstDataBlock = block := by omega
    rw [hsame] at hused
    exact hused
  · intro hused
    have hpos : 1 ≤ block := by
      have hle := hused.1
      omega
    have hsame : block - 1 + sb.firstDataBlock = block := by omega
    rw [hsame]
    exact ⟨hpos, hused⟩

end

/-- The test finds the overwritten files exactly where a file with a used block has one
that is used when its number is counted from 1 on instead, and the other way round. -/
theorem hasConflictingChunks_iff (fs : Nat → Byte) (sb : Ext4Layout) (bgs : BlockGroups)
    (chunks : List Chunk) (hchunks : ∀ chunk ∈ chunks, chunk.WholeBlocks sb.toExt4Super) :
    (hasConflictingChunks sb (getUsedBlocks fs sb bgs) chunks = true ↔
        SomeBlock sb chunks (BlockUsed fs sb bgs)) ↔
      (SomeBlock sb chunks (BlockUsed fs sb bgs) ↔
        SomeBlock sb chunks fun block =>
          1 ≤ block ∧ BlockUsed fs sb bgs (block - 1 + sb.firstDataBlock)) := by
  have htool : ToolBlock fs sb bgs = fun block =>
      1 ≤ block ∧ BlockUsed fs sb bgs (block - 1 + sb.firstDataBlock) :=
    funext fun _ => propext toolBlock_iff
  rw [hasConflictingChunks_iff_toolBlock hchunks, htool]
  exact iff_comm

/-- A layout with blocks of 1024 bytes, whose groups begin at block 1. -/
def smallBlocks : Ext4Layout where
  logBlockSize := 0
  blocksPerGroup := 8192
  inodesPerGroup := 2048
  firstDataBlock := 1
  blocksGroupsFlags := [["ITABLE_ZEROED"]]
  blocksPerGroup_pos := by decide
  blocksPerGroup_le := by decide
  inodesPerGroup_pos := by decide
  inodesPerGroup_le := by decide

/-- A layout with blocks of 4096 bytes, whose groups begin at block 0. -/
def largeBlocks : Ext4Layout where
  logBlockSize := 2
  blocksPerGroup := 32768
  inodesPerGroup := 8192
  firstDataBlock := 0
  blocksGroupsFlags := [["ITABLE_ZEROED"]]
  blocksPerGroup_pos := by decide
  blocksPerGroup_le := by decide
  inodesPerGroup_pos := by decide
  inodesPerGroup_le := by decide

/-- A single group. -/
def oneGroup : BlockGroups where
  rows := [⟨0, 5, 6, 7⟩]
  numbered := by
    intro i bg hbg
    cases i with
    | zero =>
        cases hbg
        rfl
    | succ i => cases hbg

/-- With small blocks the test is right. -/
theorem hasConflictingChunks_smallBlocks :
    hasConflictingChunks smallBlocks
        (getUsedBlocks (BitVec.ofNat 8) smallBlocks oneGroup) [⟨10240, 2048⟩] = true ↔
      SomeBlock smallBlocks [⟨10240, 2048⟩]
        (BlockUsed (BitVec.ofNat 8) smallBlocks oneGroup) := by
  refine (hasConflictingChunks_iff (BitVec.ofNat 8) smallBlocks oneGroup _ ?_).mpr ?_
  · intro chunk hchunk
    rw [List.mem_singleton.mp hchunk]
    exact ⟨by decide, by decide, by decide⟩
  · have hshift := funext fun block => propext
      (blockUsed_shifted_of_one (BitVec.ofNat 8) oneGroup block
        (show smallBlocks.firstDataBlock = 1 from rfl))
    rw [hshift]

/-- A device whose block bitmap, in block 5, marks block 10. -/
def blockTenUsed (a : Nat) : Byte := if a = 20481 then 4 else 0

theorem blockBit_blockTenUsed_iff {k : Nat} (hk : k < 32768) :
    BlockBit blockTenUsed largeBlocks oneGroup k ↔
      (blockTenUsed (5 * 4096 + k / 8)).toNat.testBit (k % 8) = true := by
  have hgroup : k / largeBlocks.blocksPerGroup = 0 := Nat.div_eq_of_lt hk
  have hbit : k % largeBlocks.blocksPerGroup = k := Nat.mod_eq_of_lt hk
  have hbyte : (blockBytes largeBlocks.toExt4Super blockTenUsed 5)[k / 8]? =
      some (blockTenUsed (5 * 4096 + k / 8)) :=
    getElem?_blockBytes _ _ (show k / 8 < 4096 by omega)
  unfold BlockBit BitSet
  rw [hgroup, hbit]
  constructor
  · rintro ⟨bg, hbg, byte, hget, hset⟩
    cases hbg
    rw [hbyte] at hget
    cases hget
    exact hset
  · intro hset
    exact ⟨_, rfl, _, hbyte, hset⟩

/-- The test misses block 10, which is marked used. -/
theorem hasConflictingChunks_largeBlocks :
    ¬(hasConflictingChunks largeBlocks (getUsedBlocks blockTenUsed largeBlocks oneGroup)
        [⟨40960, 4096⟩] = true ↔
      SomeBlock largeBlocks [⟨40960, 4096⟩]
        (BlockUsed blockTenUsed largeBlocks oneGroup)) := by
  have hwhole : ∀ chunk ∈ [(⟨40960, 4096⟩ : Chunk)],
      chunk.WholeBlocks largeBlocks.toExt4Super := by
    intro chunk hchunk
    rw [List.mem_singleton.mp hchunk]
    exact ⟨by decide, by decide, by decide⟩
  have hused : SomeBlock largeBlocks [⟨40960, 4096⟩]
      (BlockUsed blockTenUsed largeBlocks oneGroup) :=
    ⟨_, List.mem_singleton_self _, 10, by decide, Nat.zero_le _,
      (blockBit_blockTenUsed_iff (by decide)).mpr (by decide)⟩
  have hmissed : ¬SomeBlock largeBlocks [⟨40960, 4096⟩]
      (ToolBlock blockTenUsed largeBlocks oneGroup) := by
    rintro ⟨chunk, hchunk, block, hblock, -, hbit⟩
    have hten : block = 10 := by
      rw [List.mem_singleton.mp hchunk] at hblock
      exact List.mem_singleton.mp hblock
    rw [hten, blockBit_blockTenUsed_iff (by decide)] at hbit
    exact absurd hbit (by decide)
  intro hsame
  rw [hasConflictingChunks_iff_toolBlock hwhole] at hsame
  exact hmissed (hsame.mpr hused)

end RansomTag

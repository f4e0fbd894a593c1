import RansomTag.Hypervisor.Mft
import RansomTag.Library.Pieces
import Mathlib.Algebra.Group.Nat.Defs
import Mathlib.Data.List.Sort

/-!
# The data of an inode

The recovery tool turns the block mapping of an ext4 inode, an extent tree or
arrays of pointers, into chunks of the device, and concatenates what it reads
there.  A failed assertion and a missing key end the call.
-/

namespace RansomTag

/-! ## The device -/

/-- The block size that `dumpe2fs` prints. -/
structure Ext4Super where
  logBlockSize : Nat

def Ext4Super.blockSize (sb : Ext4Super) : Nat := 1024 * 2 ^ sb.logBlockSize

/-- `inode_parse`, as far as the mapping depends on it: `data` are 60 bytes. -/
structure Ext4Inode where
  flags : Nat
  size : Nat
  data : Nat → Byte

def Ext4Inode.dataSize : Nat := 60

/-- `'EXT4_EXTENTS_FL' in inode['flags']` -/
def Ext4Inode.usesExtents (inode : Ext4Inode) : Prop := inode.flags &&& 0x80000 ≠ 0

/-- `'EXT4_INLINE_DATA_FL' in inode['flags']` -/
def Ext4Inode.hasInlineData (inode : Ext4Inode) : Prop := inode.flags &&& 0x10000000 ≠ 0

instance (inode : Ext4Inode) : Decidable inode.usesExtents := inferInstanceAs (Decidable (_ ≠ _))

instance (inode : Ext4Inode) : Decidable inode.hasInlineData :=
  inferInstanceAs (Decidable (_ ≠ _))

/-- A part of the device. -/
structure Chunk where
  addr : Nat
  len : Nat
  deriving DecidableEq

section

variable (fs : Nat → Byte) (sb : Ext4Super)

/-- `read_blocks` of one block. -/
def readBlock (addr : Nat) : Nat → Byte := fun i => fs (addr * sb.blockSize + i)

/-! ## Extent trees -/

/-- `join_int32`, whose assertion holds of what the callers unpack. -/
def joinInt32 (hi lo : Nat) : Nat := hi * 2 ^ 32 + lo

/-- `ext4_extent` -/
structure Ext4Extent where
  eeBlock : Nat
  eeLen : Nat
  eeStart : Nat
  deriving DecidableEq

/-- `ext4_extent_idx` -/
structure Ext4ExtentIdx where
  eiBlock : Nat
  eiLeaf : Nat
  deriving DecidableEq

/-- An entry of a node. -/
inductive Ext4Entry where
  | extent (e : Ext4Extent)
  | idx (e : Ext4ExtentIdx)

def ext4Extent (block : Nat → Byte) (offset : Nat) : Ext4Extent where
  eeBlock := le32 block offset
  eeLen := le16 block (offset + 4)
  eeStart := joinInt32 (le16 block (offset + 6)) (le32 block (offset + 8))

def ext4ExtentIdx (block : Nat → Byte) (offset : Nat) : Ext4ExtentIdx where
  eiBlock := le32 block offset
  eiLeaf := joinInt32 (le16 block (offset + 8)) (le32 block (offset + 4))

def ehEntriesOf (block : Nat → Byte) : Nat := le16 block 2
def ehDepthOf (block : Nat → Byte) : Nat := le16 block 6

/-- The extents of a leaf and the entries of an inner node. -/
def nodeExtents (block : Nat → Byte) : List Ext4Extent :=
  (List.range (ehEntriesOf block)).map fun i => ext4Extent block (12 + i * 12)

def nodeIdxs (block : Nat → Byte) : List Ext4ExtentIdx :=
  (List.range (ehEntriesOf block)).map fun i => ext4ExtentIdx block (12 + i * 12)

/-- The header has its magic, and the entries are inside the block. -/
def NodeFits (block : Nat → Byte) (len : Nat) : Prop :=
  le16 block 0 = 0xF30A ∧ 12 + ehEntriesOf block * 12 ≤ len

instance (block : Nat → Byte) (len : Nat) : Decidable (NodeFits block len) :=
  inferInstanceAs (Decidable (_ ∧ _))

def nodeEntries (block : Nat → Byte) : List Ext4Entry :=
  if ehDepthOf block = 0 then (nodeExtents block).map .extent else (nodeIdxs block).map .idx

/-- `parse_extent_data` of `len` bytes. -/
def parseExtentData (block : Nat → Byte) (len : Nat) : Option (Nat × List Ext4Entry) :=
  if NodeFits block len then some (ehDepthOf block, nodeEntries block) else none

/-- One pass of the loop of `parse_extent_tree`, over the entries of a level. -/
def nextLevel : List Ext4Entry → Option (List Ext4Entry)
  | [] => some []
  | .extent _ :: _ => none
  | .idx e :: entries =>
      (parseExtentData (readBlock fs sb e.eiLeaf) sb.blockSize).bind fun r =>
        (nextLevel entries).map (r.2 ++ ·)

/-- The loop of `parse_extent_tree`. -/
def descend : Nat → List Ext4Entry → Option (List Ext4Entry)
  | 0, entries => some entries
  | depth + 1, entries => (nextLevel fs sb entries).bind (descend depth)

/-- `parse_extent_tree` -/
def parseExtentTree (root : Nat → Byte) (rootLen : Nat) : Option (List Ext4Entry) :=
  (parseExtentData root rootLen).bind fun r => descend fs sb r.1 r.2

/-- The key of the sort, which entries of inner nodes do not have. -/
def leafEntries : List Ext4Entry → Option (List Ext4Extent)
  | [] => some []
  | .extent e :: entries => (leafEntries entries).map (e :: ·)
  | .idx _ :: _ => none

/-- The loop of `parse_extent_tree_chunks`, with the block that it is at. -/
def extentChunks : Nat → List Ext4Extent → Option (List Chunk)
  | _, [] => some []
  | block, e :: es =>
      if e.eeBlock = block then
        (extentChunks (block + e.eeLen) es).map
          (⟨e.eeStart * sb.blockSize, e.eeLen * sb.blockSize⟩ :: ·)
      else none

/-- `parse_extent_tree_chunks` -/
def parseExtentTreeChunks (root : Nat → Byte) (rootLen : Nat) : Option (List Chunk) :=
  (parseExtentTree fs sb root rootLen).bind fun entries =>
    (leafEntries entries).bind fun es =>
      extentChunks sb 0 (es.mergeSort fun a b => a.eeBlock ≤ b.eeBlock)

/-! ## Indirect blocks -/

/-- The pointers in `n` words. -/
def blockWords (block : Nat → Byte) (n : Nat) : List Nat :=
  (List.range n).map fun i => le32 block (i * 4)

/-- `unpack_pointers` of `len` bytes. -/
def unpackPointers (block : Nat → Byte) (len : Nat) : List Nat :=
  (blockWords block (len / 4)).filter (· ≠ 0)

/-- The pointers in the block behind a pointer. -/
def unpackBlock (pointer : Nat) : List Nat :=
  unpackPointers (readBlock fs sb pointer) sb.blockSize

/-- `data_blocks` of `parse_indirect_blocks_chunks`. -/
def indirectBlocks (data : Nat → Byte) : List Nat :=
  let pointer12 := le32 data 48
  let pointer13 := le32 data 52
  let pointer14 := le32 data 56
  unpackPointers data (12 * 4) ++
    (if pointer12 ≠ 0 then unpackBlock fs sb pointer12 else []) ++
    (if pointer13 ≠ 0 then
      (unpackBlock fs sb pointer13).flatMap (unpackBlock fs sb)
    else []) ++
    (if pointer14 ≠ 0 then
      (unpackBlock fs sb pointer14).flatMap fun pointer =>
        (unpackBlock fs sb pointer).flatMap (unpackBlock fs sb)
    else [])

/-- The loop of `join_ranges` behind its first entry. -/
def joinFrom (lastFrom lastTo : Nat) : List Nat → List (Nat × Nat)
  | [] => [(lastFrom, lastTo - lastFrom + 1)]
  | entry :: arr =>
      if entry = lastTo + 1 then joinFrom lastFrom entry arr
      else (lastFrom, lastTo - lastFrom + 1) :: joinFrom entry entry arr

/-- `join_ranges`, as pairs of `first` and `total`. -/
def joinRanges : List Nat → List (Nat × Nat)
  | [] => []
  | entry :: arr => joinFrom entry entry arr

/-- `parse_indirect_blocks_chunks` -/
def parseIndirectBlocksChunks (data : Nat → Byte) : List Chunk :=
  (joinRanges (indirectBlocks fs sb data)).map fun r =>
    ⟨r.1 * sb.blockSize, r.2 * sb.blockSize⟩

/-! ## Inodes -/

/-- `inode_to_chunks` -/
def inodeToChunks (inode : Ext4Inode) : Option (Nat × List Chunk) :=
  if inode.hasInlineData then none
  else if inode.usesExtents then
    (parseExtentTreeChunks fs sb inode.data Ext4Inode.dataSize).map (inode.size, ·)
  else some (inode.size, parseIndirectBlocksChunks fs sb inode.data)

end

/-- What the device holds in a chunk. -/
def chunkBytes (device : Nat → Byte) (c : Chunk) : List Byte :=
  (List.range' c.addr c.len).map device

/-! ## What an inode maps -/

/-- `EXT_INIT_MAX_LEN`: a longer extent is unwritten. -/
def extInitMaxLen : Nat := 32768

/-- The blocks of an extent, written or not. -/
def Ext4Extent.blocks (e : Ext4Extent) : Nat :=
  if e.eeLen ≤ extInitMaxLen then e.eeLen else e.eeLen - extInitMaxLen

/-- Logical block `i` is in this extent and written. -/
def Ext4Extent.Maps (e : Ext4Extent) (i : Nat) : Prop :=
  e.eeLen ≤ extInitMaxLen ∧ e.eeBlock ≤ i ∧ i < e.eeBlock + e.eeLen

instance (e : Ext4Extent) (i : Nat) : Decidable (e.Maps i) :=
  inferInstanceAs (Decidable (_ ∧ _))

/-- The block of the device with logical block `i`, if it is mapped and written. -/
def extentMap (es : List Ext4Extent) (i : Nat) : Option Nat :=
  (es.find? fun e => e.Maps i).map fun e => e.eeStart + (i - e.eeBlock)

section

variable (fs : Nat → Byte) (sb : Ext4Super)

/-- The blocks of the nodes below an inner node. -/
def childBlocks (block : Nat → Byte) : List (Nat → Byte) :=
  (nodeIdxs block).map fun e => readBlock fs sb e.eiLeaf

/-- The extents of the leaves below a node of this depth, in their order. -/
def extentsUnder : Nat → (Nat → Byte) → List Ext4Extent
  | 0, block => nodeExtents block
  | depth + 1, block => (childBlocks fs sb block).flatMap (extentsUnder depth)

/-- A node of this depth with its header, over nodes that are one less deep. -/
def NodeWellFormed : Nat → Nat → (Nat → Byte) → Prop
  | 0, len, block => NodeFits block len ∧ ehDepthOf block = 0
  | depth + 1, len, block =>
      NodeFits block len ∧ ehDepthOf block = depth + 1 ∧
        ∀ child ∈ childBlocks fs sb block, NodeWellFormed depth sb.blockSize child

/-- The pointers of the logical blocks below a pointer, zero where there is none. -/
def pointersUnder : Nat → Nat → List Nat
  | 0, pointer => [pointer]
  | level + 1, pointer =>
      if pointer = 0 then List.replicate ((sb.blockSize / 4) ^ (level + 1)) 0
      else (blockWords (readBlock fs sb pointer) (sb.blockSize / 4)).flatMap (pointersUnder level)

end

namespace Ext4Inode

variable (fs : Nat → Byte) (sb : Ext4Super) (inode : Ext4Inode)

/-- The extents of the inode's tree. -/
def extents : List Ext4Extent := extentsUnder fs sb (ehDepthOf inode.data) inode.data

/-- The pointers of the inode's logical blocks: twelve of its own, and those below
its single, double and triple indirect pointers. -/
def pointers : List Nat :=
  blockWords inode.data 12 ++
    (pointersUnder fs sb 1 (le32 inode.data 48) ++
      (pointersUnder fs sb 2 (le32 inode.data 52) ++
        pointersUnder fs sb 3 (le32 inode.data 56)))

/-- The block of the device with the data of logical block `i`; there is none for
a hole and for an unwritten block. -/
def mapped (i : Nat) : Option Nat :=
  if inode.usesExtents then extentMap (inode.extents fs sb) i
  else (inode.pointers fs sb)[i]?.filter (· ≠ 0)

/-- The file's blocks. -/
def blockCount : Nat := (inode.size + sb.blockSize - 1) / sb.blockSize

/-- A byte of a logical block, of whatever the device holds. -/
def logicalByte (device : Nat → Byte) (i j : Nat) : Byte :=
  match inode.mapped fs sb i with
  | some block => device (block * sb.blockSize + j)
  | none => 0

/-- The data is not in the inode, and its extent tree, if it has one, is one: the
depth falls by one from level to level, and the extents ascend. -/
structure WellFormed : Prop where
  not_inline : ¬inode.hasInlineData
  tree : inode.usesExtents →
    NodeWellFormed fs sb (ehDepthOf inode.data) dataSize inode.data
  ascending : inode.usesExtents →
    (inode.extents fs sb).Pairwise fun e e' => e.eeBlock + e.blocks ≤ e'.eeBlock

/-- The chunks of the inode, one after the other, have the data of each block of
the file in its place, whatever the device holds in them. -/
def PlacesData : Prop :=
  ∃ size chunks, inodeToChunks fs sb inode = some (size, chunks) ∧
    ∀ device : Nat → Byte, ∀ i < inode.blockCount sb, ∀ j < sb.blockSize,
      (chunks.flatMap (chunkBytes device))[i * sb.blockSize + j]? =
        some (inode.logicalByte fs sb device i j)

end Ext4Inode

/-- The extents follow one another from a block on, by their lengths as stored. -/
def Contiguous : Nat → List Ext4Extent → Prop
  | _, [] => True
  | block, e :: es => e.eeBlock = block ∧ Contiguous (block + e.eeLen) es

/-! ## Blocks of chunks -/

section

variable {fs : Nat → Byte} {sb : Ext4Super} {inode : Ext4Inode}

theorem blockSize_pos : 0 < sb.blockSize :=
  Nat.mul_pos (by decide) (Nat.pow_pos (by decide))

/-- What the device holds in a block. -/
def blockBytes (sb : Ext4Super) (device : Nat → Byte) (block : Nat) : List Byte :=
  (List.range' (block * sb.blockSize) sb.blockSize).map device

@[simp] theorem length_blockBytes (device : Nat → Byte) (block : Nat) :
    (blockBytes sb device block).length = sb.blockSize := by
  simp [blockBytes]

theorem getElem?_blockBytes (device : Nat → Byte) (block : Nat) {j : Nat}
    (hj : j < sb.blockSize) :
    (blockBytes sb device block)[j]? = some (device (block * sb.blockSize + j)) := by
  simp [blockBytes, hj]

/-- These chunks are of these blocks, in this order. -/
def ChunksOf (sb : Ext4Super) (chunks : List Chunk) (blocks : List Nat) : Prop :=
  ∀ device, chunks.flatMap (chunkBytes device) = blocks.flatMap (blockBytes sb device)

theorem chunkBytes_mul (device : Nat → Byte) (first total : Nat) :
    chunkBytes device ⟨first * sb.blockSize, total * sb.blockSize⟩ =
      (List.range' first total).flatMap (blockBytes sb device) :=
  Pieces.map_range'_mul device first total

theorem ChunksOf.cons {chunks : List Chunk} {blocks : List Nat}
    (h : ChunksOf sb chunks blocks) (first total : Nat) :
    ChunksOf sb (⟨first * sb.blockSize, total * sb.blockSize⟩ :: chunks)
      (List.range' first total ++ blocks) := by
  intro device
  rw [List.flatMap_cons, List.flatMap_append, chunkBytes_mul, h device]

variable (fs inode) in
/-- Chunks place the data exactly where their blocks are those of the mapping. -/
theorem chunks_place_iff {chunks : List Chunk} {blocks : List Nat}
    (h : ChunksOf sb chunks blocks) :
    (∀ device : Nat → Byte, ∀ i < inode.blockCount sb, ∀ j < sb.blockSize,
      (chunks.flatMap (chunkBytes device))[i * sb.blockSize + j]? =
        some (inode.logicalByte fs sb device i j)) ↔
      ∀ i < inode.blockCount sb,
        ∃ block, inode.mapped fs sb i = some block ∧ blocks[i]? = some block := by
  have hread : ∀ (device : Nat → Byte) (i j : Nat), j < sb.blockSize →
      (chunks.flatMap (chunkBytes device))[i * sb.blockSize + j]? =
        blocks[i]?.map fun block => device (block * sb.blockSize + j) := by
    intro device i j hj
    rw [h device, Pieces.getElem?_flatMap (length_blockBytes device) blocks i hj]
    cases blocks[i]? with
    | none => rfl
    | some block => exact getElem?_blockBytes device block hj
  constructor
  · intro hplace i hi
    -- A device of ones shows a hole, and one with a single one the block.
    have hones := hplace (fun _ => 1) i hi 0 blockSize_pos
    rw [hread _ _ _ blockSize_pos] at hones
    rcases Option.map_eq_some_iff.mp hones with ⟨block, hblock, hone⟩
    unfold Ext4Inode.logicalByte at hone hplace
    cases hmapped : inode.mapped fs sb i with
    | none =>
        rw [hmapped] at hone
        have hzero : (1 : Byte) = 0 := hone
        exact absurd hzero (by decide)
    | some target =>
        have hmark := hplace (fun a => if a = block * sb.blockSize then 1 else 0) i hi 0
          blockSize_pos
        rw [hread _ _ _ blockSize_pos, hblock, hmapped] at hmark
        simp only [Option.map_some, Nat.add_zero, if_true, Option.some.injEq] at hmark
        have hsame : target * sb.blockSize = block * sb.blockSize := by
          by_contra hne
          rw [if_neg hne] at hmark
          exact absurd hmark (by decide)
        exact ⟨target, rfl, by rw [hblock, Nat.eq_of_mul_eq_mul_right blockSize_pos hsame]⟩
  · intro hmaps device i hi j hj
    rcases hmaps i hi with ⟨block, hmapped, hblock⟩
    rw [hread device i j hj, hblock]
    unfold Ext4Inode.logicalByte
    rw [hmapped]
    rfl

/-! ## Extent trees -/

theorem parseExtentData_of_fits {block : Nat → Byte} {len : Nat} (h : NodeFits block len) :
    parseExtentData block len = some (ehDepthOf block, nodeEntries block) :=
  if_pos h

theorem nodeEntries_leaf {block : Nat → Byte} (h : ehDepthOf block = 0) :
    nodeEntries block = (nodeExtents block).map .extent :=
  if_pos h

theorem nodeEntries_inner {block : Nat → Byte} {depth : Nat}
    (h : ehDepthOf block = depth + 1) : nodeEntries block = (nodeIdxs block).map .idx :=
  if_neg (by omega)

/-- The children of the entries of a level are its next level. -/
theorem nextLevel_idxs {es : List Ext4ExtentIdx}
    (hfits : ∀ e ∈ es, NodeFits (readBlock fs sb e.eiLeaf) sb.blockSize) :
    nextLevel fs sb (es.map .idx) =
      some ((es.map fun e => readBlock fs sb e.eiLeaf).flatMap nodeEntries) := by
  induction es with
  | nil => rfl
  | cons e es ih =>
      rcases List.forall_mem_cons.mp hfits with ⟨hhead, htail⟩
      simp only [List.map_cons, nextLevel, parseExtentData_of_fits hhead, ih htail,
        Option.bind_some, Option.map_some, List.flatMap_cons]

/-- The loop over the levels comes to the extents of the leaves, in their order. -/
theorem descend_nodes {depth len : Nat} {blocks : List (Nat → Byte)}
    (hformed : ∀ block ∈ blocks, NodeWellFormed fs sb depth len block) :
    descend fs sb depth (blocks.flatMap nodeEntries) =
      some ((blocks.flatMap (extentsUnder fs sb depth)).map .extent) := by
  induction depth generalizing len blocks with
  | zero =>
      have hleaf : blocks.flatMap nodeEntries =
          blocks.flatMap fun block => (nodeExtents block).map .extent :=
        List.flatMap_congr fun block hblock => nodeEntries_leaf (hformed block hblock).2
      rw [descend, hleaf, List.map_flatMap]
      rfl
  | succ depth ih =>
      have hinner : blocks.flatMap nodeEntries = (blocks.flatMap nodeIdxs).map .idx := by
        rw [List.map_flatMap]
        exact List.flatMap_congr fun block hblock =>
          nodeEntries_inner (hformed block hblock).2.1
      have hchild : ∀ child ∈ blocks.flatMap (childBlocks fs sb),
          NodeWellFormed fs sb depth sb.blockSize child := by
        intro child hmem
        rcases List.mem_flatMap.mp hmem with ⟨block, hblock, hchild⟩
        exact (hformed block hblock).2.2 child hchild
      have hchildren : (blocks.flatMap nodeIdxs).map (fun e => readBlock fs sb e.eiLeaf) =
          blocks.flatMap (childBlocks fs sb) := List.map_flatMap
      have hfits : ∀ e ∈ blocks.flatMap nodeIdxs,
          NodeFits (readBlock fs sb e.eiLeaf) sb.blockSize := by
        intro e he
        have hmem : readBlock fs sb e.eiLeaf ∈ blocks.flatMap (childBlocks fs sb) := by
          rw [← hchildren]
          exact List.mem_map_of_mem he
        have hnode := hchild _ hmem
        cases depth with
        | zero => exact hnode.1
        | succ depth => exact hnode.1
      rw [descend, hinner, nextLevel_idxs hfits, hchildren, Option.bind_some, ih hchild,
        List.flatMap_assoc]
      rfl

theorem parseExtentTree_of_formed {root : Nat → Byte} {len : Nat}
    (h : NodeWellFormed fs sb (ehDepthOf root) len root) :
    parseExtentTree fs sb root len =
      some ((extentsUnder fs sb (ehDepthOf root) root).map .extent) := by
  have hfits : NodeFits root len := by
    cases hdepth : ehDepthOf root with
    | zero =>
        rw [hdepth] at h
        exact h.1
    | succ depth =>
        rw [hdepth] at h
        exact h.1
  have hroot : ∀ block ∈ [root], NodeWellFormed fs sb (ehDepthOf root) len block := by
    intro block hblock
    rw [List.mem_singleton.mp hblock]
    exact h
  have hrun := descend_nodes hroot
  unfold parseExtentTree
  rw [parseExtentData_of_fits hfits, Option.bind_some]
  simpa only [List.flatMap_cons, List.flatMap_nil, List.append_nil] using hrun

@[simp] theorem leafEntries_extents (es : List Ext4Extent) :
    leafEntries (es.map .extent) = some es := by
  induction es with
  | nil => rfl
  | cons e es ih => simp only [List.map_cons, leafEntries, ih, Option.map_some]

/-- The extents of a well-formed tree are sorted before the sort. -/
theorem parseExtentTreeChunks_of_formed (h : inode.WellFormed fs sb)
    (hextents : inode.usesExtents) :
    parseExtentTreeChunks fs sb inode.data Ext4Inode.dataSize =
      extentChunks sb 0 (inode.extents fs sb) := by
  have hsorted : (inode.extents fs sb).Pairwise
      fun a b => decide (a.eeBlock ≤ b.eeBlock) = true := by
    refine (h.ascending hextents).imp ?_
    intro e e' hle
    exact decide_eq_true (by omega)
  unfold parseExtentTreeChunks
  rw [parseExtentTree_of_formed (h.tree hextents), Option.bind_some, leafEntries_extents,
    Option.bind_some]
  exact congrArg (extentChunks sb 0) (List.mergeSort_of_pairwise hsorted)

/-! ## Contiguous extents -/

/-- The blocks of the chunks of extents. -/
def rawBlocks (es : List Ext4Extent) : List Nat :=
  es.flatMap fun e => List.range' e.eeStart e.eeLen

theorem extentChunks_cons_of_eq {start : Nat} {e : Ext4Extent} {es : List Ext4Extent}
    (h : e.eeBlock = start) :
    extentChunks sb start (e :: es) =
      (extentChunks sb (start + e.eeLen) es).map
        (⟨e.eeStart * sb.blockSize, e.eeLen * sb.blockSize⟩ :: ·) :=
  if_pos h

theorem extentChunks_cons_of_ne {start : Nat} {e : Ext4Extent} {es : List Ext4Extent}
    (h : e.eeBlock ≠ start) : extentChunks sb start (e :: es) = none :=
  if_neg h

/-- The assertion holds in each pass exactly where the extents are contiguous. -/
theorem extentChunks_eq_some_iff {start : Nat} {es : List Ext4Extent} :
    (∃ chunks, extentChunks sb start es = some chunks) ↔ Contiguous start es := by
  induction es generalizing start with
  | nil => exact ⟨fun _ => trivial, fun _ => ⟨[], rfl⟩⟩
  | cons e es ih =>
      unfold Contiguous
      by_cases hblock : e.eeBlock = start
      · rw [extentChunks_cons_of_eq hblock, and_iff_right hblock, ← ih]
        constructor
        · rintro ⟨chunks, h⟩
          rcases Option.map_eq_some_iff.mp h with ⟨rest, hrest, -⟩
          exact ⟨rest, hrest⟩
        · rintro ⟨rest, hrest⟩
          exact ⟨_, Option.map_eq_some_iff.mpr ⟨rest, hrest, rfl⟩⟩
      · rw [extentChunks_cons_of_ne hblock]
        constructor
        · rintro ⟨chunks, h⟩
          cases h
        · rintro ⟨h, -⟩
          exact absurd h hblock

theorem chunksOf_extentChunks {start : Nat} {es : List Ext4Extent} {chunks : List Chunk}
    (h : extentChunks sb start es = some chunks) : ChunksOf sb chunks (rawBlocks es) := by
  induction es generalizing start chunks with
  | nil =>
      cases h
      intro device
      rfl
  | cons e es ih =>
      unfold extentChunks at h
      split_ifs at h with hblock
      rcases Option.map_eq_some_iff.mp h with ⟨rest, hrest, rfl⟩
      exact (ih hrest).cons e.eeStart e.eeLen

theorem extentMap_cons_of_maps {e : Ext4Extent} {es : List Ext4Extent} {i : Nat}
    (h : e.Maps i) : extentMap (e :: es) i = some (e.eeStart + (i - e.eeBlock)) := by
  unfold extentMap
  rw [List.find?_cons_of_pos (by simpa using h)]
  rfl

theorem extentMap_cons_of_not {e : Ext4Extent} {es : List Ext4Extent} {i : Nat}
    (h : ¬e.Maps i) : extentMap (e :: es) i = extentMap es i := by
  unfold extentMap
  rw [List.find?_cons_of_neg (by simpa using h)]

/-- Contiguous extents map no block before the first. -/
theorem le_of_extentMap {start i block : Nat} {es : List Ext4Extent}
    (h : Contiguous start es) (hmap : extentMap es i = some block) : start ≤ i := by
  induction es generalizing start with
  | nil => cases hmap
  | cons e es ih =>
      by_cases hmaps : e.Maps i
      · rw [← h.1]
        exact hmaps.2.1
      · rw [extentMap_cons_of_not hmaps] at hmap
        exact (Nat.le_add_right _ _).trans (ih h.2 hmap)

/-- A mapped block is in its place among the blocks of contiguous extents. -/
theorem rawBlocks_of_extentMap {start i block : Nat} {es : List Ext4Extent}
    (h : Contiguous start es) (hmap : extentMap es i = some block) :
    (rawBlocks es)[i - start]? = some block := by
  induction es generalizing start with
  | nil => cases hmap
  | cons e es ih =>
      unfold rawBlocks
      rw [List.flatMap_cons]
      by_cases hmaps : e.Maps i
      · rw [extentMap_cons_of_maps hmaps] at hmap
        rcases hmaps with ⟨-, hlow, hhigh⟩
        have hstart := h.1
        have hin : i - start < e.eeLen := by omega
        rw [List.getElem?_append_left (by simpa using hin), List.getElem?_range' hin, ← hmap,
          hstart, Nat.one_mul]
      · rw [extentMap_cons_of_not hmaps] at hmap
        have hbehind := le_of_extentMap h.2 hmap
        have hindex : i - start = e.eeLen + (i - (start + e.eeLen)) := by omega
        rw [hindex, List.getElem?_append_right (by simp), List.length_range',
          Nat.add_sub_cancel_left]
        exact ih h.2 hmap

/-! ## Indirect blocks -/

/-- The ranges of a list hold its entries, in their order. -/
theorem flatMap_joinFrom {lastFrom lastTo : Nat} (h : lastFrom ≤ lastTo) (arr : List Nat) :
    (joinFrom lastFrom lastTo arr).flatMap (fun r => List.range' r.1 r.2) =
      List.range' lastFrom (lastTo - lastFrom + 1) ++ arr := by
  induction arr generalizing lastFrom lastTo with
  | nil => simp only [joinFrom, List.flatMap_cons, List.flatMap_nil]
  | cons entry arr ih =>
      unfold joinFrom
      split_ifs with hnext
      · have hlen : entry - lastFrom + 1 = (lastTo - lastFrom + 1) + 1 := by omega
        have hentry : lastFrom + (lastTo - lastFrom + 1) = entry := by omega
        rw [ih (by omega), hlen, List.range'_1_concat, hentry, List.append_assoc]
        rfl
      · rw [List.flatMap_cons, ih le_rfl, Nat.sub_self]
        rfl

theorem flatMap_joinRanges (arr : List Nat) :
    (joinRanges arr).flatMap (fun r => List.range' r.1 r.2) = arr := by
  cases arr with
  | nil => rfl
  | cons entry arr =>
      rw [joinRanges, flatMap_joinFrom le_rfl, Nat.sub_self]
      rfl

variable (sb) in
theorem chunksOf_ranges (rs : List (Nat × Nat)) :
    ChunksOf sb (rs.map fun r => ⟨r.1 * sb.blockSize, r.2 * sb.blockSize⟩)
      (rs.flatMap fun r => List.range' r.1 r.2) := by
  induction rs with
  | nil =>
      intro device
      rfl
  | cons r rs ih => exact ih.cons r.1 r.2

variable (fs sb) in
theorem chunksOf_indirect (data : Nat → Byte) :
    ChunksOf sb (parseIndirectBlocksChunks fs sb data) (indirectBlocks fs sb data) := by
  have h := chunksOf_ranges sb (joinRanges (indirectBlocks fs sb data))
  rw [flatMap_joinRanges] at h
  exact h

/-- No block is below a zero pointer. -/
theorem filter_pointersUnder_zero (level : Nat) :
    (pointersUnder fs sb level 0).filter (· ≠ 0) = [] := by
  cases level with
  | zero => rfl
  | succ level =>
      rw [pointersUnder, if_pos rfl]
      exact List.filter_replicate_of_neg (by decide)

/-- The blocks below a pointer are those below the pointers that its block has. -/
theorem filter_pointersUnder_succ (level : Nat) {pointer : Nat} (h : pointer ≠ 0) :
    (pointersUnder fs sb (level + 1) pointer).filter (· ≠ 0) =
      (unpackBlock fs sb pointer).flatMap fun q =>
        (pointersUnder fs sb level q).filter (· ≠ 0) := by
  rw [pointersUnder, if_neg h, List.filter_flatMap]
  refine (Pieces.flatMap_filter ?_).symm
  intro q hq
  have hzero : q = 0 := by simpa using hq
  rw [hzero]
  exact filter_pointersUnder_zero level

theorem filter_pointersUnder_zero_level {q : Nat} {xs : List Nat}
    (hq : q ∈ xs.filter (· ≠ 0)) : (pointersUnder fs sb 0 q).filter (· ≠ 0) = [q] :=
  List.filter_cons_of_pos (List.mem_filter.mp hq).2

theorem filter_pointersUnder_one {pointer : Nat} (h : pointer ≠ 0) :
    (pointersUnder fs sb 1 pointer).filter (· ≠ 0) = unpackBlock fs sb pointer := by
  rw [filter_pointersUnder_succ 0 h]
  refine (List.flatMap_congr fun q hq => filter_pointersUnder_zero_level hq).trans ?_
  exact List.flatMap_singleton' _

theorem filter_pointersUnder_two {pointer : Nat} (h : pointer ≠ 0) :
    (pointersUnder fs sb 2 pointer).filter (· ≠ 0) =
      (unpackBlock fs sb pointer).flatMap (unpackBlock fs sb) := by
  rw [filter_pointersUnder_succ 1 h]
  refine List.flatMap_congr fun q hq => filter_pointersUnder_one ?_
  simpa using (List.mem_filter.mp hq).2

theorem filter_pointersUnder_three {pointer : Nat} (h : pointer ≠ 0) :
    (pointersUnder fs sb 3 pointer).filter (· ≠ 0) =
      (unpackBlock fs sb pointer).flatMap fun q =>
        (unpackBlock fs sb q).flatMap (unpackBlock fs sb) := by
  rw [filter_pointersUnder_succ 2 h]
  refine List.flatMap_congr fun q hq => filter_pointersUnder_two ?_
  simpa using (List.mem_filter.mp hq).2

/-- The tool's blocks are the pointers of the logical blocks without the holes. -/
theorem indirectBlocks_eq :
    indirectBlocks fs sb inode.data = (inode.pointers fs sb).filter (· ≠ 0) := by
  have hlevel : ∀ (level pointer : Nat) (blocks : List Nat),
      (pointer ≠ 0 → (pointersUnder fs sb level pointer).filter (· ≠ 0) = blocks) →
        (if pointer ≠ 0 then blocks else []) =
          (pointersUnder fs sb level pointer).filter (· ≠ 0) := by
    intro level pointer blocks hblocks
    by_cases hzero : pointer = 0
    · rw [hzero, filter_pointersUnder_zero]
      rfl
    · rw [if_pos hzero, hblocks hzero]
  unfold indirectBlocks Ext4Inode.pointers
  dsimp only
  rw [List.filter_append, List.filter_append, List.filter_append,
    hlevel 1 _ _ filter_pointersUnder_one, hlevel 2 _ _ filter_pointersUnder_two,
    hlevel 3 _ _ filter_pointersUnder_three, List.append_assoc, List.append_assoc]
  rfl

/-! ## Inodes -/

/-- Each block of the file is mapped and written, and the extents leave no gap,
even behind the end of the file. -/
def Ext4Inode.HasNoHole (fs : Nat → Byte) (sb : Ext4Super) (inode : Ext4Inode) : Prop :=
  (∀ i < inode.blockCount sb, inode.mapped fs sb i ≠ none) ∧
    (inode.usesExtents → Contiguous 0 (inode.extents fs sb))

theorem inodeToChunks_extents (h : inode.WellFormed fs sb) (hextents : inode.usesExtents) :
    inodeToChunks fs sb inode =
      (extentChunks sb 0 (inode.extents fs sb)).map (inode.size, ·) := by
  unfold inodeToChunks
  rw [if_neg h.not_inline, if_pos hextents, parseExtentTreeChunks_of_formed h hextents]

theorem inodeToChunks_indirect (h : inode.WellFormed fs sb) (hextents : ¬inode.usesExtents) :
    inodeToChunks fs sb inode =
      some (inode.size, parseIndirectBlocksChunks fs sb inode.data) := by
  unfold inodeToChunks
  rw [if_neg h.not_inline, if_neg hextents]

theorem placesData_extents_iff (h : inode.WellFormed fs sb) (hextents : inode.usesExtents) :
    inode.PlacesData fs sb ↔
      (∀ i < inode.blockCount sb, inode.mapped fs sb i ≠ none) ∧
        Contiguous 0 (inode.extents fs sb) := by
  unfold Ext4Inode.PlacesData
  rw [inodeToChunks_extents h hextents]
  constructor
  · rintro ⟨size, chunks, hchunks, hplace⟩
    rcases Option.map_eq_some_iff.mp hchunks with ⟨chunks', hrun, hpair⟩
    cases hpair
    refine ⟨?_, extentChunks_eq_some_iff.mp ⟨chunks, hrun⟩⟩
    intro i hi hhole
    rcases (chunks_place_iff fs inode (chunksOf_extentChunks hrun)).mp hplace i hi with
      ⟨block, hmapped, -⟩
    rw [hhole] at hmapped
    cases hmapped
  · rintro ⟨hmaps, hcontiguous⟩
    rcases extentChunks_eq_some_iff.mpr hcontiguous with ⟨chunks, hrun⟩
    refine ⟨inode.size, chunks, Option.map_eq_some_iff.mpr ⟨chunks, hrun, rfl⟩, ?_⟩
    refine (chunks_place_iff fs inode (chunksOf_extentChunks hrun)).mpr fun i hi => ?_
    rcases Option.ne_none_iff_exists'.mp (hmaps i hi) with ⟨block, hmapped⟩
    refine ⟨block, hmapped, ?_⟩
    unfold Ext4Inode.mapped at hmapped
    rw [if_pos hextents] at hmapped
    simpa using rawBlocks_of_extentMap hcontiguous hmapped

theorem placesData_indirect_iff (h : inode.WellFormed fs sb)
    (hextents : ¬inode.usesExtents) :
    inode.PlacesData fs sb ↔ ∀ i < inode.blockCount sb, inode.mapped fs sb i ≠ none := by
  have hplace := chunks_place_iff fs inode (chunksOf_indirect fs sb inode.data)
  have hmapped : ∀ i, inode.mapped fs sb i = (inode.pointers fs sb)[i]?.filter (· ≠ 0) :=
    fun i => if_neg hextents
  unfold Ext4Inode.PlacesData
  rw [inodeToChunks_indirect h hextents]
  constructor
  · rintro ⟨size, chunks, hchunks, hplaces⟩ i hi hhole
    cases hchunks
    rcases hplace.mp hplaces i hi with ⟨block, hblock, -⟩
    rw [hhole] at hblock
    cases hblock
  · intro hmaps
    refine ⟨_, _, rfl, hplace.mpr fun i hi => ?_⟩
    have hpointer : ∀ j ≤ i, ∃ block, (inode.pointers fs sb)[j]? = some block ∧ block ≠ 0 := by
      intro j hj
      rcases Option.ne_none_iff_exists'.mp (hmaps j (by omega)) with ⟨block, hblock⟩
      rw [hmapped] at hblock
      rcases Option.filter_eq_some_iff.mp hblock with ⟨hread, hne⟩
      exact ⟨block, hread, by simpa using hne⟩
    rcases hpointer i le_rfl with ⟨block, hread, hne⟩
    refine ⟨block, ?_, ?_⟩
    · rw [hmapped, hread]
      exact Option.filter_eq_some_iff.mpr ⟨rfl, by simpa using hne⟩
    · rw [indirectBlocks_eq]
      refine Pieces.getElem?_filter ?_ hread (by simpa using hne)
      intro j hj y hy
      rcases hpointer j hj.le with ⟨block', hread', hne'⟩
      rw [hy] at hread'
      cases hread'
      simpa using hne'

/-- The chunks of a well-formed inode place its data exactly where the file has no
hole and no unwritten block, and its extents no gap. -/
theorem ext4_chunks_place_data_iff (h : inode.WellFormed fs sb) :
    inode.PlacesData fs sb ↔ inode.HasNoHole fs sb := by
  unfold Ext4Inode.HasNoHole
  by_cases hextents : inode.usesExtents
  · rw [placesData_extents_iff h hextents]
    exact and_congr_right fun _ => ⟨fun hcontiguous _ => hcontiguous, fun hc => hc hextents⟩
  · rw [placesData_indirect_iff h hextents]
    exact ⟨fun hmaps => ⟨hmaps, fun hc => absurd hc hextents⟩, fun hmaps => hmaps.1⟩

end

/-! ## Inodes with and without holes -/

/-- An inode of two blocks with one extent, from block 100 of the device on. -/
def oneExtentInode (eeBlock lenLow lenHigh : Byte) : Ext4Inode where
  flags := 0x80000
  size := 2048
  data i :=
    [0x0A, 0xF3, 1, 0, 4, 0, 0, 0, 0, 0, 0, 0, eeBlock, 0, 0, 0, lenLow, lenHigh, 0, 0,
      100, 0, 0, 0].getD i 0

theorem oneExtentInode_wellFormed (eeBlock lenLow lenHigh : Byte) :
    (oneExtentInode eeBlock lenLow lenHigh).WellFormed (fun _ => 0) ⟨0⟩ := by
  have hflags : (oneExtentInode eeBlock lenLow lenHigh).flags = 0x80000 := rfl
  have hmagic : le16 (oneExtentInode eeBlock lenLow lenHigh).data 0 = 0xF30A := by
    simp [le16, oneExtentInode]
  have hentries : ehEntriesOf (oneExtentInode eeBlock lenLow lenHigh).data = 1 := by
    simp [ehEntriesOf, le16, oneExtentInode]
  have hdepth : ehDepthOf (oneExtentInode eeBlock lenLow lenHigh).data = 0 := by
    simp [ehDepthOf, le16, oneExtentInode]
  refine ⟨?_, fun _ => ?_, fun _ => ?_⟩
  · unfold Ext4Inode.hasInlineData
    rw [hflags]
    decide
  · rw [hdepth]
    refine ⟨⟨hmagic, ?_⟩, hdepth⟩
    rw [hentries]
    decide
  · unfold Ext4Inode.extents
    rw [hdepth, extentsUnder, nodeExtents, hentries]
    exact List.pairwise_singleton _ _

/-- An extent over both blocks. -/
theorem ext4_dense_inode_placed :
    (oneExtentInode 0 2 0).PlacesData (fun _ => 0) ⟨0⟩ := by
  refine (ext4_chunks_place_data_iff (oneExtentInode_wellFormed 0 2 0)).mpr ⟨?_, ?_⟩
  · decide
  · intro _
    exact ⟨by decide, trivial⟩

/-- An inode of two blocks with its first pointer zero. -/
def holePointerInode : Ext4Inode where
  flags := 0
  size := 2048
  data i := [0, 0, 0, 0, 100, 0, 0, 0].getD i 0

theorem holePointerInode_wellFormed :
    holePointerInode.WellFormed (fun _ => 0) ⟨0⟩ where
  not_inline := by decide
  tree := fun h => absurd h (by decide)
  ascending := fun h => absurd h (by decide)

/-- The data is not placed behind a hole, in an unwritten extent and behind a zero
pointer. -/
theorem ext4_holes_not_placed :
    ((oneExtentInode 1 1 0).WellFormed (fun _ => 0) ⟨0⟩ ∧
        ¬(oneExtentInode 1 1 0).PlacesData (fun _ => 0) ⟨0⟩) ∧
      ((oneExtentInode 0 2 0x80).WellFormed (fun _ => 0) ⟨0⟩ ∧
        ¬(oneExtentInode 0 2 0x80).PlacesData (fun _ => 0) ⟨0⟩) ∧
      (holePointerInode.WellFormed (fun _ => 0) ⟨0⟩ ∧
        ¬holePointerInode.PlacesData (fun _ => 0) ⟨0⟩) := by
  refine ⟨⟨oneExtentInode_wellFormed _ _ _, ?_⟩, ⟨oneExtentInode_wellFormed _ _ _, ?_⟩,
    holePointerInode_wellFormed, ?_⟩
  · rw [placesData_extents_iff (oneExtentInode_wellFormed _ _ _) (by decide)]
    rintro ⟨-, hblock, -⟩
    exact absurd hblock (by decide)
  · rw [placesData_extents_iff (oneExtentInode_wellFormed _ _ _) (by decide)]
    rintro ⟨hmaps, -⟩
    exact hmaps 0 (by decide) (by decide)
  · rw [placesData_indirect_iff holePointerInode_wellFormed (by decide)]
    intro hmaps
    refine hmaps 0 (by decide) ?_
    unfold Ext4Inode.mapped Ext4Inode.pointers
    rw [if_neg (by decide), List.getElem?_append_left (by decide)]
    decide

end RansomTag

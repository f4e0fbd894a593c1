import RansomTag.Recovery.Ext4Chunks
import RansomTag.Library.Slices

/-!
# File extraction

`get_file_from_chunks` reads each chunk in blocks of its own and cuts what is
behind the size of the file.  For a chunk that begins behind the size, the bound
of the cut is negative, and it drops a tail instead.
-/

namespace RansomTag

/-- The bytes that one `pread` transfers at most. -/
def preadLimit : Nat := 0x7ffff000

section

variable (fs : Nat → Byte) (sb : Ext4Super)

/-- `read_blocks` -/
def readBlocks (addr total : Nat) : List Byte :=
  (List.range' (addr * sb.blockSize) (min preadLimit (total * sb.blockSize))).map fs

/-- `data` of a chunk in `get_file_from_chunks`. -/
def chunkData (c : Chunk) : List Byte :=
  let dataInBlocks := readBlocks fs sb (c.addr / sb.blockSize) (c.len / sb.blockSize + 1)
  let dataOffsetInBlocks := c.addr % sb.blockSize
  Slices.slice dataInBlocks dataOffsetInBlocks (dataOffsetInBlocks + c.len)

/-- What `get_file_from_chunks` writes of a chunk, with `chunks_size` behind it. -/
def writeChunk (size : Option Nat) (chunksSize : Nat) (c : Chunk) : List Byte :=
  match size with
  | none => chunkData fs sb c
  | some size =>
      if size < chunksSize then
        let diff := chunksSize - size
        Slices.slice (chunkData fs sb c) 0 ((c.len : Int) - diff)
      else chunkData fs sb c

/-- The loop of `get_file_from_chunks`, with `chunks_size` before. -/
def writeChunks (size : Option Nat) : Nat → List Chunk → List Byte
  | _, [] => []
  | chunksSize, c :: chunks =>
      writeChunk fs sb size (chunksSize + c.len) c ++
        writeChunks size (chunksSize + c.len) chunks

/-- `get_file_from_chunks` -/
def getFileFromChunks (chunks : List Chunk) (size : Option Nat) : List Byte :=
  writeChunks fs sb size 0 chunks

end

/-! ## What the file is -/

/-- The contents of the chunks, up to the size. -/
def fileContent (fs : Nat → Byte) (size : Option Nat) (chunks : List Chunk) : List Byte :=
  match size with
  | none => chunks.flatMap (chunkBytes fs)
  | some size => (chunks.flatMap (chunkBytes fs)).take size

/-- The bytes of a chunk are in the blocks that are read for it, by one read. -/
def Chunk.InBlocks (sb : Ext4Super) (c : Chunk) : Prop :=
  c.addr % sb.blockSize + c.len ≤
    min preadLimit ((c.len / sb.blockSize + 1) * sb.blockSize)

instance (sb : Ext4Super) (c : Chunk) : Decidable (c.InBlocks sb) :=
  inferInstanceAs (Decidable (_ ≤ _))

/-- From `before` bytes on, each chunk begins before the size of the file or is no
longer than the bytes from there to its begin. -/
def CutsBeforeSize (size : Nat) : Nat → List Chunk → Prop
  | _, [] => True
  | before, c :: chunks =>
      (before ≤ size ∨ c.len ≤ before - size) ∧ CutsBeforeSize size (before + c.len) chunks

instance decidableCutsBeforeSize (size : Nat) :
    (before : Nat) → (chunks : List Chunk) → Decidable (CutsBeforeSize size before chunks)
  | _, [] => .isTrue trivial
  | before, c :: chunks =>
      have := decidableCutsBeforeSize size (before + c.len) chunks
      inferInstanceAs (Decidable (_ ∧ _))

section

variable {fs : Nat → Byte} {sb : Ext4Super} {c : Chunk} {chunks : List Chunk}
  {size before : Nat}

@[simp] theorem length_chunkBytes : (chunkBytes fs c).length = c.len := by
  simp [chunkBytes]

theorem chunkData_of_inBlocks (h : c.InBlocks sb) : chunkData fs sb c = chunkBytes fs c := by
  have haddr : c.addr / sb.blockSize * sb.blockSize + c.addr % sb.blockSize = c.addr :=
    Nat.div_add_mod' c.addr sb.blockSize
  have hstop : ((c.addr % sb.blockSize : Nat) : Int) + (c.len : Int) =
      ((c.addr % sb.blockSize + c.len : Nat) : Int) := by omega
  unfold Chunk.InBlocks at h
  unfold chunkData readBlocks
  simp only
  rw [hstop, Slices.slice_natCast, ← List.map_take, ← List.map_drop,
    Pieces.drop_take_range' h, haddr]
  rfl

/-- Of a chunk that begins before the size, what is before the size is written. -/
theorem writeChunk_of_le (h : c.InBlocks sb) (hbefore : before ≤ size) :
    writeChunk fs sb (some size) (before + c.len) c = (chunkBytes fs c).take (size - before) := by
  unfold writeChunk
  simp only [chunkData_of_inBlocks h]
  split_ifs with hcut
  · have hstop : (c.len : Int) - ((before + c.len - size : Nat) : Int) =
        ((size - before : Nat) : Int) := by omega
    rw [hstop, Slices.slice_zero_natCast]
  · refine (List.take_of_length_le ?_).symm
    rw [length_chunkBytes]
    omega

/-- Of a chunk that begins behind the size, all but a tail is written. -/
theorem writeChunk_of_lt (h : c.InBlocks sb) (hbefore : size < before) :
    writeChunk fs sb (some size) (before + c.len) c =
      (chunkBytes fs c).take (c.len - (before - size)) := by
  have hcut : size < before + c.len := by omega
  have hstop : (c.len : Int) - ((before + c.len - size : Nat) : Int) =
      -((before - size : Nat) : Int) := by omega
  unfold writeChunk
  simp only [chunkData_of_inBlocks h]
  rw [if_pos hcut, hstop, Slices.slice_zero_neg (by omega), length_chunkBytes]

theorem writeChunks_none (h : ∀ c ∈ chunks, c.InBlocks sb) :
    writeChunks fs sb none before chunks = chunks.flatMap (chunkBytes fs) := by
  induction chunks generalizing before with
  | nil => rfl
  | cons c chunks ih =>
      rcases List.forall_mem_cons.mp h with ⟨hc, hchunks⟩
      rw [writeChunks, ih hchunks, List.flatMap_cons]
      exact congrArg (· ++ _) (chunkData_of_inBlocks hc)

/-- The loop writes the rest of the file exactly where each cut is before it. -/
theorem writeChunks_eq_iff (h : ∀ c ∈ chunks, c.InBlocks sb) :
    writeChunks fs sb (some size) before chunks =
        (chunks.flatMap (chunkBytes fs)).take (size - before) ↔
      CutsBeforeSize size before chunks := by
  induction chunks generalizing before with
  | nil =>
      refine iff_of_true ?_ trivial
      rw [List.flatMap_nil, List.take_nil]
      rfl
  | cons c chunks ih =>
      rcases List.forall_mem_cons.mp h with ⟨hc, hchunks⟩
      have hrest : size - before - c.len = size - (before + c.len) := by omega
      rw [writeChunks, CutsBeforeSize, ← ih hchunks, List.flatMap_cons, List.take_append,
        length_chunkBytes, hrest]
      by_cases hbefore : before ≤ size
      · rw [writeChunk_of_le hc hbefore, List.append_cancel_left_eq]
        exact ⟨fun hrun => ⟨.inl hbefore, hrun⟩, fun hrun => hrun.2⟩
      · -- The file is complete before this chunk: it must add nothing.
        have hzero : size - before = 0 := by omega
        have hzero' : size - (before + c.len) = 0 := by omega
        rw [writeChunk_of_lt hc (by omega), hzero, hzero', List.take_zero, List.take_zero,
          List.append_nil, List.append_eq_nil_iff, List.take_eq_nil_iff]
        refine and_congr_left fun _ => ?_
        constructor
        · rintro (hlen | hempty)
          · exact .inr (by omega)
          · have hlen := congrArg List.length hempty
            rw [length_chunkBytes] at hlen
            exact .inr (by rw [hlen]; exact Nat.zero_le _)
        · rintro (hle | hlen)
          · exact absurd hle hbefore
          · exact .inl (by omega)

end

end RansomTag

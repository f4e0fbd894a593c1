import RansomTag.Recovery.DirectoryBlocks
import RansomTag.Recovery.BlockGroups
import RansomTag.Recovery.FileExtraction
import Mathlib.Data.List.Destutter

/-!
# Snapshots

`generate_snapshot` reads the inode bitmap of the first group and the inodes in
several versions, and stores the chunks of the regular files and the paths of the
directories.  A read between the two triggers can have an old version of a block as
its answer; the reads that the triggers themselves consist of are left out.
-/

namespace RansomTag

/-- The number of versions that are read. -/
def versions : Nat := 5

/-- What the device answers: to the reads outside of the triggers, and to each of the
reads between them in their order. -/
structure TaggedDevice where
  current : Nat → Byte
  tagged : Nat → Nat → Byte

/-- What is known of the file system; an inode is inside a block. -/
structure Ext4FileSystem extends Ext4Layout where
  inodeSize : Nat
  features : List String
  inodeSize_ge : 128 ≤ inodeSize
  inodeSize_dvd : inodeSize ∣ toExt4Layout.toExt4Super.blockSize

/-! ## Inodes -/

inductive InodeFiletype where
  | fifo
  | chr
  | dir
  | blk
  | reg
  | lnk
  | sock
  deriving DecidableEq

/-- `get_filetype` -/
def getFiletype (iMode : Nat) : Option InodeFiletype :=
  match iMode &&& 0xF000 with
  | 0x1000 => some .fifo
  | 0x2000 => some .chr
  | 0x4000 => some .dir
  | 0x6000 => some .blk
  | 0x8000 => some .reg
  | 0xA000 => some .lnk
  | 0xC000 => some .sock
  | _ => none

/-- `inode_parse`, without the links, which the snapshot does not use. -/
structure ParsedInode extends Ext4Inode where
  filetype : Option InodeFiletype

def inodeParse (data : Nat → Byte) : ParsedInode where
  filetype := getFiletype (le16 data 0)
  flags := le32 data 32
  data := fun i => data (40 + i)
  size := joinInt32 (le32 data 108) (le32 data 4)

/-- `size` and `chunks` of `inode_to_chunks` -/
abbrev FileVersion := Nat × List Chunk

section

variable (dev : TaggedDevice) (sb : Ext4FileSystem) (bgs : BlockGroups)

/-! ## Bitmaps and inodes in versions -/

/-- A version of the inode bitmap of a group, which is the `i`-th tagged read. -/
def bitmapVersion (bg : BlockGroup) (i : Nat) : List Byte :=
  blockBytes sb.toExt4Super (dev.tagged i) bg.ibitmap

/-- `indexes` behind the loop over the bitmaps: only the first group is scanned, and
each version replaces the one before. -/
def lastIndexes : List Nat :=
  match bgs.rows with
  | [] => []
  | bg :: _ =>
      if testBlockGroupsFlag sb.toExt4Layout "INODE_UNINIT" bg.group then []
      else
        ((List.range versions).map fun i =>
          parseBitmap (bitmapVersion dev sb bg i) sb.inodesPerGroup).getLastD []

/-- `inodes`, with the keys in their order. -/
def inodeAddresses : List (Nat × Nat) :=
  bgs.rows.flatMap fun bg =>
    if testBlockGroupsFlag sb.toExt4Layout "INODE_UNINIT" bg.group then []
    else
      (lastIndexes dev sb bgs).map fun index =>
        (index + sb.inodesPerGroup * bg.group + 1,
          index * sb.inodeSize + bg.itable * sb.blockSize)

/-- `inode_data` of the `n`-th tagged read. -/
def inodeData (n addr : Nat) : Nat → Byte := fun i =>
  readBlock (dev.tagged n) sb.toExt4Super (addr / sb.blockSize) (addr % sb.blockSize + i)

/-- The loop over `inodes.items()`, from the `n`-th tagged read on. -/
def readInodes : Nat → List (Nat × Nat) → List (Nat × List ParsedInode)
  | _, [] => []
  | n, (inodeId, inodeAddr) :: inodes =>
      (inodeId, (List.range versions).map fun j =>
        inodeParse (inodeData dev sb (n + j) inodeAddr)) :: readInodes (n + versions) inodes

/-- The inodes as a pass over the versions reads them, behind the bitmaps and the
passes before. -/
def passInodes (pass : Nat) : List (Nat × List ParsedInode) :=
  readInodes dev sb (versions + pass * (versions * (inodeAddresses dev sb bgs).length))
    (inodeAddresses dev sb bgs)

/-- `parsed_inodes`: the entry of inode `i + 1` at index `i`, if it was read.  The
entries of `snapshot_version` are one object, with that of the last pass. -/
def parsedInodes : List (Option (List ParsedInode)) :=
  (List.range (sb.inodesPerGroup * bgs.rows.length)).map fun idx =>
    (passInodes dev sb bgs (versions - 1)).lookup (idx + 1)

/-! ## Chunks -/

/-- What the loop over the versions of an inode leaves. -/
structure InodeChunks where
  files : List FileVersion
  dir : Option FileVersion

/-- Only regular files above inode 11 are stored. -/
def ParsedInode.Stored (inodeId : Nat) (inode : ParsedInode) : Prop :=
  inode.filetype = some .reg ∧ 11 < inodeId

instance (inodeId : Nat) (inode : ParsedInode) : Decidable (inode.Stored inodeId) :=
  inferInstanceAs (Decidable (_ ∧ _))

/-- The loop over the versions of an inode, with `tup_previous`. -/
def chunkVersions (inodeId : Nat) :
    Option FileVersion → InodeChunks → List ParsedInode → Option InodeChunks
  | _, found, [] => some found
  | tupPrevious, found, inode :: inodes =>
      if inode.Stored inodeId then
        (inodeToChunks dev.current sb.toExt4Super inode.toExt4Inode).bind fun tup =>
          if some tup = tupPrevious then chunkVersions inodeId tupPrevious found inodes
          else chunkVersions inodeId (some tup) ⟨found.files ++ [tup], found.dir⟩ inodes
      else if inode.filetype = some .dir then
        (inodeToChunks dev.current sb.toExt4Super inode.toExt4Inode).bind fun tup =>
          chunkVersions inodeId tupPrevious ⟨found.files, some tup⟩ inodes
      else chunkVersions inodeId tupPrevious found inodes

/-- The loop over `parsed_inodes`, from an index on. -/
def chunkInodes : Nat → List (Option (List ParsedInode)) → Option (List (Nat × InodeChunks))
  | _, [] => some []
  | idx, none :: inodes => chunkInodes (idx + 1) inodes
  | idx, some inodeMultiVer :: inodes =>
      (chunkVersions dev sb (idx + 1) none ⟨[], none⟩ inodeMultiVer).bind fun found =>
        (chunkInodes (idx + 1) inodes).map ((idx + 1, found) :: ·)

/-- What a pass appends to `files_chunks_total` of an inode. -/
def filesOf (found : List (Nat × InodeChunks)) (inodeId : Nat) : List FileVersion :=
  ((found.lookup inodeId).map (·.files)).getD []

/-- `dirs_chunks` -/
def dirsOf (found : List (Nat × InodeChunks)) (inodeId : Nat) : Option FileVersion :=
  (found.lookup inodeId).bind (·.dir)

/-! ## Directories -/

/-- The walk over the directories: what is left of `dirs_chunks`, the entries, and the
number of tagged reads so far. -/
structure DirsWalk where
  dirsChunks : Nat → Option FileVersion
  entries : List (String × Nat)
  reads : Nat

variable (fuel : Nat)

/-- The versions of a chunk of a directory; the loop of `readdir_block` has this fuel. -/
def readdirChunk (n : Nat) (c : Chunk) : Option (List DirEntry) :=
  ((List.range versions).mapM fun version =>
    let block := (List.range' c.addr (min preadLimit c.len)).map (dev.tagged (n + version))
    (Loops.run (readdirExit sb.features block version) (readdirNext sb.features block version)
      fuel ⟨0, []⟩).join).map List.flatten

/-- `readdir_from_chunks`; a chunk beyond the size ends it, as `data` is not there. -/
def readdirFromChunks (size : Nat) : Nat → Nat → List Chunk → Option (List DirEntry × Nat)
  | _, n, [] => some ([], n)
  | chunksSize, n, c :: chunks =>
      if c.len % sb.blockSize = 0 ∧ ¬size < chunksSize + c.len then
        (readdirChunk dev sb fuel n c).bind fun entries =>
          (readdirFromChunks size (chunksSize + c.len) (n + versions) chunks).map fun rest =>
            (entries ++ rest.1, rest.2)
      else none

/-- The entries of a directory that name a file. -/
def filePaths (path : String) (entries : List DirEntry) : List (String × Nat) :=
  (entries.filter fun e => e.name ≠ "." ∧ e.name ≠ ".." ∧ e.filetype = .reg).map fun e =>
    (path ++ e.name, e.inode)

/-- The entries of a directory that are walked next. -/
def dirPaths (path : String) (entries : List DirEntry) : List (String × Nat) :=
  (entries.filter fun e => e.name ≠ "." ∧ e.name ≠ ".." ∧ e.filetype = .dir).map fun e =>
    (path ++ e.name ++ "/", e.inode)

/-- The loop over `last_inodes`, with the directories of the next iteration. -/
def walkLevel : List (String × Nat) → DirsWalk → Option (List (String × Nat) × DirsWalk)
  | [], w => some ([], w)
  | (path, inode) :: lastInodes, w =>
      match w.dirsChunks inode with
      | none => walkLevel lastInodes w
      | some (size, chunks) =>
          (readdirFromChunks dev sb fuel size 0 w.reads chunks).bind fun r =>
            (walkLevel lastInodes
              ⟨Function.update w.dirsChunks inode none, w.entries ++ filePaths path r.1,
                r.2⟩).map fun rest => (dirPaths path r.1 ++ rest.1, rest.2)

/-- The loop over the depth. -/
def walkDirs : Nat → List (String × Nat) → DirsWalk → Option DirsWalk
  | 0, _, w => some w
  | _ + 1, [], w => some w
  | depth + 1, inodesDir, w =>
      (walkLevel dev sb fuel inodesDir w).bind fun r => walkDirs depth r.1 r.2

/-! ## The snapshot -/

/-- What the passes carry along. -/
structure SnapshotState where
  filesChunksTotal : Nat → List FileVersion
  entriesTotal : List (String × Nat)
  reads : Nat

variable (dirsMaxDepth : Nat)

/-- A pass over the inodes and, from the root inode 2, over the directories. -/
def snapshotPass (s : SnapshotState) : Option SnapshotState :=
  (chunkInodes dev sb 0 (parsedInodes dev sb bgs)).bind fun found =>
    (walkDirs dev sb fuel dirsMaxDepth [("/", 2)] ⟨dirsOf found, [], s.reads⟩).map fun w =>
      ⟨fun inodeId => s.filesChunksTotal inodeId ++ filesOf found inodeId,
        s.entriesTotal ++ w.entries, w.reads⟩

def snapshotPasses : Nat → SnapshotState → Option SnapshotState
  | 0, s => some s
  | passes + 1, s =>
      (snapshotPass dev sb bgs fuel dirsMaxDepth s).bind (snapshotPasses passes)

/-- What is saved; an inode without chunks has no entry in `inodes`. -/
structure Snapshot where
  dirs : List (String × Nat)
  inodes : Nat → List FileVersion

/-- The number of tagged reads before the passes. -/
def readsBefore : Nat := versions + versions * (versions * (inodeAddresses dev sb bgs).length)

/-- `generate_snapshot`; the order of `dirs`, which comes from a set, is left open. -/
def generateSnapshot : Option Snapshot :=
  (snapshotPasses dev sb bgs fuel dirsMaxDepth versions
    ⟨fun _ => [], [], readsBefore dev sb bgs⟩).map fun s =>
      ⟨s.entriesTotal.dedup, s.filesChunksTotal⟩

end

/-! ## What the snapshot should have -/

section

variable (dev : TaggedDevice) (sb : Ext4FileSystem) (bgs : BlockGroups)

/-- A version of the bitmap of the inode's group has its bit; there are versions of the
bitmap of the first group. -/
def MarkedInode (inodeId : Nat) : Prop :=
  1 ≤ inodeId ∧ inodeId ≤ sb.inodesPerGroup ∧ ∃ bg, bgs.rows[0]? = some bg ∧
    ∃ i < versions, BitSet (bitmapVersion dev sb bg i) (inodeId - 1)

/-- The last version of the bitmap has the bit of the inode. -/
def InLastBitmap (inodeId : Nat) : Prop :=
  ∃ bg, bgs.rows[0]? = some bg ∧ BitSet (bitmapVersion dev sb bg (versions - 1)) (inodeId - 1)

/-- The chunks of an inode. -/
def toChunks (inode : ParsedInode) : Option FileVersion :=
  inodeToChunks dev.current sb.toExt4Super inode.toExt4Inode

/-- The history is that of the stored versions that a pass reads of the inode. -/
def HistoryOf (inodeId : Nat) (history : List FileVersion) : Prop :=
  ∃ pass < versions, ∃ (inodes : List ParsedInode) (tups : List FileVersion),
    (passInodes dev sb bgs pass).lookup inodeId = some inodes ∧
      tups.map some = (inodes.filter (·.Stored inodeId)).map (toChunks dev sb) ∧
      history = tups.destutter (· ≠ ·)

/-- Each marked inode is examined and has its history. -/
def Snapshot.Complete (s : Snapshot) : Prop :=
  ∀ inodeId, MarkedInode dev sb bgs inodeId →
    inodeId ∈ (inodeAddresses dev sb bgs).map Prod.fst ∧
      HistoryOf dev sb bgs inodeId (s.inodes inodeId)

/-- No version of the inode that the last pass reads is stored. -/
def NothingStored (inodeId : Nat) : Prop :=
  ∀ inodes, (passInodes dev sb bgs (versions - 1)).lookup inodeId = some inodes →
    ∀ inode ∈ inodes, ¬inode.Stored inodeId

/-- The walks over the directories of the passes, one after the other. -/
def walkPasses (fuel dirsMaxDepth : Nat) (dirs : Nat → Option FileVersion) :
    Nat → Nat → Option (List (String × Nat) × Nat)
  | 0, n => some ([], n)
  | passes + 1, n =>
      (walkDirs dev sb fuel dirsMaxDepth [("/", 2)] ⟨dirs, [], n⟩).bind fun w =>
        (walkPasses fuel dirsMaxDepth dirs passes w.reads).map fun rest =>
          (w.entries ++ rest.1, rest.2)

/-- The chunks of every version that is stored or a directory can be read. -/
def ChunksRead : Prop :=
  ∀ inodeId inodes, (passInodes dev sb bgs (versions - 1)).lookup inodeId = some inodes →
    ∀ inode ∈ inodes, inode.Stored inodeId ∨ inode.filetype = some .dir →
      ∃ tup, toChunks dev sb inode = some tup

/-- The chunks of the last version of an inode that is a directory. -/
def lastDirChunks (inodes : List ParsedInode) : Option FileVersion :=
  (inodes.filter (·.filetype = some .dir)).getLast?.bind (toChunks dev sb)

/-- The directories that the walks of a pass start with. -/
def dirChunks (inodeId : Nat) : Option FileVersion :=
  ((passInodes dev sb bgs (versions - 1)).lookup inodeId).bind (lastDirChunks dev sb)

/-- The chunks of the inodes can be read, and the walks end. -/
def PassesEnd (dirsMaxDepth : Nat) : Prop :=
  ChunksRead dev sb bgs ∧ ∃ fuel walked,
    walkPasses dev sb fuel dirsMaxDepth (dirChunks dev sb bgs) versions
      (readsBefore dev sb bgs) = some walked

end

/-! ## The inodes that are read -/

section

variable {dev : TaggedDevice} {sb : Ext4FileSystem} {bgs : BlockGroups} {inodeId : Nat}

theorem lastIndexes_eq {bg : BlockGroup} (hbg : bgs.rows[0]? = some bg) :
    lastIndexes dev sb bgs =
      parseBitmap (bitmapVersion dev sb bg (versions - 1)) sb.inodesPerGroup := by
  unfold lastIndexes
  cases hrows : bgs.rows with
  | nil =>
      rw [hrows] at hbg
      cases hbg
  | cons bg' rows =>
      rw [hrows] at hbg
      cases hbg
      simp only [testBlockGroupsFlag_eq_false, Bool.false_eq_true, if_false]
      rfl

theorem mem_inodeAddresses_iff :
    inodeId ∈ (inodeAddresses dev sb bgs).map Prod.fst ↔
      ∃ bg ∈ bgs.rows, ∃ index ∈ lastIndexes dev sb bgs,
        index + sb.inodesPerGroup * bg.group + 1 = inodeId := by
  simp [inodeAddresses, List.mem_flatMap]

theorem lastIndexes_lt {index : Nat} (h : index ∈ lastIndexes dev sb bgs) :
    index < sb.inodesPerGroup := by
  cases hbg : bgs.rows[0]? with
  | none =>
      have hrows : bgs.rows = [] := List.eq_nil_of_length_eq_zero
        (Nat.le_zero.mp (List.getElem?_eq_none_iff.mp hbg))
      unfold lastIndexes at h
      rw [hrows] at h
      cases h
  | some bg =>
      rw [lastIndexes_eq hbg] at h
      exact (mem_parseBitmap.mp h).1

/-- Of the first group, the inodes of the last bitmap are examined. -/
theorem mem_inodeAddresses_first (hpos : 1 ≤ inodeId) (hfirst : inodeId ≤ sb.inodesPerGroup) :
    inodeId ∈ (inodeAddresses dev sb bgs).map Prod.fst ↔ InLastBitmap dev sb bgs inodeId := by
  rw [mem_inodeAddresses_iff]
  constructor
  · rintro ⟨bg, hbg, index, hindex, rfl⟩
    have hlt := lastIndexes_lt hindex
    have hzero : bg.group = 0 := by
      by_contra hne
      have hmul := Nat.le_mul_of_pos_right sb.inodesPerGroup (Nat.pos_of_ne_zero hne)
      omega
    rcases List.mem_iff_getElem?.mp hbg with ⟨g, hg⟩
    have hg0 : g = 0 := (bgs.numbered g bg hg).symm.trans hzero
    subst hg0
    rw [lastIndexes_eq hg] at hindex
    rw [hzero, Nat.mul_zero, Nat.add_zero]
    exact ⟨bg, hg, (mem_parseBitmap.mp hindex).2⟩
  · rintro ⟨bg, hbg, hset⟩
    refine ⟨bg, List.mem_of_getElem? hbg, inodeId - 1, ?_, ?_⟩
    · rw [lastIndexes_eq hbg]
      exact mem_parseBitmap.mpr ⟨by omega, hset⟩
    · rw [bgs.numbered 0 bg hbg]
      omega

theorem inodeAddresses_le (h : inodeId ∈ (inodeAddresses dev sb bgs).map Prod.fst) :
    1 ≤ inodeId ∧ inodeId ≤ sb.inodesPerGroup * bgs.rows.length := by
  rcases mem_inodeAddresses_iff.mp h with ⟨bg, hbg, index, hindex, rfl⟩
  have hlt := lastIndexes_lt hindex
  rcases List.mem_iff_getElem?.mp hbg with ⟨g, hg⟩
  have hrange := (List.getElem?_eq_some_iff.mp hg).1
  have hmul := Nat.mul_le_mul_left sb.inodesPerGroup (Nat.succ_le_of_lt hrange)
  rw [Nat.mul_succ] at hmul
  rw [bgs.numbered g bg hg]
  omega

variable (dev sb) in
theorem keys_readInodes (n : Nat) (inodes : List (Nat × Nat)) :
    (readInodes dev sb n inodes).map Prod.fst = inodes.map Prod.fst := by
  induction inodes generalizing n with
  | nil => rfl
  | cons e inodes ih =>
      rw [readInodes, List.map_cons, List.map_cons, ih]

theorem mem_of_lookup {α : Type} {l : List (Nat × α)} {k : Nat} {x : α}
    (h : l.lookup k = some x) : (k, x) ∈ l := by
  rcases List.lookup_eq_some_iff.mp h with ⟨front, back, hsplit, -⟩
  rw [hsplit]
  exact List.mem_append_right _ List.mem_cons_self

theorem length_of_mem_readInodes {n : Nat} {inodes : List (Nat × Nat)}
    {e : Nat × List ParsedInode} (h : e ∈ readInodes dev sb n inodes) :
    e.2.length = versions := by
  induction inodes generalizing n with
  | nil => cases h
  | cons a inodes ih =>
      rw [readInodes] at h
      rcases List.mem_cons.mp h with rfl | hrest
      · rw [List.length_map, List.length_range]
      · exact ih hrest

/-- A pass has five versions of the examined inodes. -/
theorem lookup_passInodes (pass : Nat)
    (hid : inodeId ∈ (inodeAddresses dev sb bgs).map Prod.fst) :
    ∃ inodes, (passInodes dev sb bgs pass).lookup inodeId = some inodes ∧
      inodes.length = versions := by
  unfold passInodes
  rw [← keys_readInodes dev sb
    (versions + pass * (versions * (inodeAddresses dev sb bgs).length))] at hid
  rcases List.mem_map.mp hid with ⟨e, he, rfl⟩
  have hsome := List.lookup_isSome_iff.mpr ⟨e, he, beq_self_eq_true e.1⟩
  rcases Option.isSome_iff_exists.mp hsome with ⟨inodes, hinodes⟩
  exact ⟨inodes, hinodes, length_of_mem_readInodes (mem_of_lookup hinodes)⟩

theorem length_of_lookup_passInodes {pass : Nat} {inodes : List ParsedInode}
    (h : (passInodes dev sb bgs pass).lookup inodeId = some inodes) :
    inodes.length = versions :=
  length_of_mem_readInodes (mem_of_lookup h)

theorem getElem?_parsedInodes (hid : inodeId ∈ (inodeAddresses dev sb bgs).map Prod.fst) :
    (parsedInodes dev sb bgs)[inodeId - 1]?.join =
      (passInodes dev sb bgs (versions - 1)).lookup inodeId := by
  rcases inodeAddresses_le hid with ⟨hpos, hlast⟩
  have hindex : inodeId - 1 < sb.inodesPerGroup * bgs.rows.length := by omega
  have hback : inodeId - 1 + 1 = inodeId := by omega
  unfold parsedInodes
  rw [List.getElem?_map, List.getElem?_range hindex, Option.map_some, Option.join_some, hback]

/-! ## The histories -/

/-- The loop collapses equal neighbours, also of the version before. -/
theorem files_of_chunkVersions {prev : Option FileVersion} {found r : InodeChunks}
    {before : List FileVersion} {inodes : List ParsedInode}
    (hfound : found.files = before ++ prev.toList)
    (h : chunkVersions dev sb inodeId prev found inodes = some r) :
    ∃ tups : List FileVersion,
      tups.map some = (inodes.filter (·.Stored inodeId)).map (toChunks dev sb) ∧
      r.files = before ++ (prev.toList ++ tups).destutter (· ≠ ·) := by
  induction inodes generalizing prev found before with
  | nil =>
      cases h
      refine ⟨[], rfl, ?_⟩
      rw [hfound]
      cases prev <;> rfl
  | cons inode inodes ih =>
      rw [chunkVersions] at h
      by_cases hstored : inode.Stored inodeId
      · rw [if_pos hstored] at h
        rcases Option.bind_eq_some_iff.mp h with ⟨tup, htup, hrest⟩
        have hchunks : toChunks dev sb inode = some tup := htup
        have hmap : ∀ tups : List FileVersion,
            tups.map some = (inodes.filter (·.Stored inodeId)).map (toChunks dev sb) →
              (tup :: tups).map some =
                ((inode :: inodes).filter (·.Stored inodeId)).map (toChunks dev sb) := by
          intro tups htups
          rw [List.filter_cons_of_pos (by simpa using hstored), List.map_cons, List.map_cons,
            hchunks, htups]
        by_cases hsame : some tup = prev
        · rw [if_pos hsame] at hrest
          rcases ih hfound hrest with ⟨tups, htups, hfiles⟩
          refine ⟨tup :: tups, hmap tups htups, ?_⟩
          rw [hfiles, ← hsame, Option.toList_some, List.singleton_append, List.singleton_append,
            List.destutter_cons_cons, if_neg (fun hne => hne rfl), List.destutter_cons']
        · rw [if_neg hsame] at hrest
          have hnew : found.files ++ [tup] = (before ++ prev.toList) ++ (some tup).toList := by
            rw [hfound]
            rfl
          rcases ih hnew hrest with ⟨tups, htups, hfiles⟩
          refine ⟨tup :: tups, hmap tups htups, ?_⟩
          rw [hfiles, List.append_assoc]
          cases prev with
          | none => rfl
          | some p =>
              have hdiffer : p ≠ tup := fun heq => hsame (by rw [heq])
              rw [Option.toList_some, Option.toList_some, List.singleton_append,
                List.singleton_append, List.singleton_append, List.destutter_cons_cons,
                if_pos hdiffer, List.destutter_cons']
      · rw [if_neg hstored] at h
        rw [List.filter_cons_of_neg (by simpa using hstored)]
        split_ifs at h with hdir
        · rcases Option.bind_eq_some_iff.mp h with ⟨tup, -, hrest⟩
          have hkept : (⟨found.files, some tup⟩ : InodeChunks).files =
              before ++ prev.toList := hfound
          exact ih hkept hrest
        · exact ih hfound h

/-- What the loop over the inodes finds of an inode with versions. -/
theorem lookup_chunkInodes {idx : Nat} {inodes : List (Option (List ParsedInode))}
    {found : List (Nat × InodeChunks)} {inodeMultiVer : List ParsedInode}
    (h : chunkInodes dev sb idx inodes = some found) (hid : idx < inodeId)
    (hentry : inodes[inodeId - 1 - idx]? = some (some inodeMultiVer)) :
    ∃ r, chunkVersions dev sb inodeId none ⟨[], none⟩ inodeMultiVer = some r ∧
      found.lookup inodeId = some r := by
  induction inodes generalizing idx found with
  | nil => cases hentry
  | cons entry inodes ih =>
      by_cases hthis : inodeId = idx + 1
      · have hzero : inodeId - 1 - idx = 0 := by omega
        rw [hzero] at hentry
        cases hentry
        rcases Option.bind_eq_some_iff.mp h with ⟨r, hr, hrest⟩
        rcases Option.map_eq_some_iff.mp hrest with ⟨rest, -, rfl⟩
        rw [hthis]
        exact ⟨r, hr, List.lookup_cons_self⟩
      · have hindex : inodeId - 1 - idx = inodeId - 1 - (idx + 1) + 1 := by omega
        rw [hindex, List.getElem?_cons_succ] at hentry
        have hnext : idx + 1 < inodeId := by omega
        cases entry with
        | none => exact ih h hnext hentry
        | some other =>
            rcases Option.bind_eq_some_iff.mp h with ⟨r', -, hrest⟩
            rcases Option.map_eq_some_iff.mp hrest with ⟨rest, hchunks, rfl⟩
            have hother : (inodeId == idx + 1) = false := beq_false_of_ne hthis
            rw [List.lookup_cons, hother]
            exact ih hchunks hnext hentry

/-- The history that a pass appends. -/
theorem filesOf_eq {found : List (Nat × InodeChunks)} {inodes : List ParsedInode}
    (h : chunkInodes dev sb 0 (parsedInodes dev sb bgs) = some found)
    (hid : inodeId ∈ (inodeAddresses dev sb bgs).map Prod.fst)
    (hinodes : (passInodes dev sb bgs (versions - 1)).lookup inodeId = some inodes) :
    ∃ tups : List FileVersion,
      tups.map some = (inodes.filter (·.Stored inodeId)).map (toChunks dev sb) ∧
      filesOf found inodeId = tups.destutter (· ≠ ·) := by
  have hentry : (parsedInodes dev sb bgs)[inodeId - 1]? = some (some inodes) :=
    Option.join_eq_some_iff.mp ((getElem?_parsedInodes hid).trans hinodes)
  rcases lookup_chunkInodes h (inodeAddresses_le hid).1 hentry with ⟨r, hr, hlookup⟩
  have hnone : (⟨[], none⟩ : InodeChunks).files = [] ++ (none : Option FileVersion).toList := rfl
  rcases files_of_chunkVersions hnone hr with ⟨tups, htups, hfiles⟩
  refine ⟨tups, htups, ?_⟩
  unfold filesOf
  rw [hlookup]
  exact hfiles

/-! ## The chunks that are read -/

theorem lastDirChunks_cons_of_ne {inode : ParsedInode} {inodes : List ParsedInode}
    (h : inode.filetype ≠ some .dir) :
    lastDirChunks dev sb (inode :: inodes) = lastDirChunks dev sb inodes := by
  unfold lastDirChunks
  rw [List.filter_cons_of_neg (by simpa using h)]

/-- A loop over the versions that ends has read their chunks, and keeps the directory of the
last one. -/
theorem dir_of_chunkVersions {prev : Option FileVersion} {found r : InodeChunks}
    {inodes : List ParsedInode} (h : chunkVersions dev sb inodeId prev found inodes = some r) :
    (∀ inode ∈ inodes, inode.Stored inodeId ∨ inode.filetype = some .dir →
        ∃ tup, toChunks dev sb inode = some tup) ∧
      r.dir = (lastDirChunks dev sb inodes).or found.dir := by
  induction inodes generalizing prev found with
  | nil =>
      cases h
      exact ⟨fun inode hmem => absurd hmem List.not_mem_nil, rfl⟩
  | cons inode inodes ih =>
      rw [chunkVersions] at h
      by_cases hstored : inode.Stored inodeId
      · rw [if_pos hstored] at h
        rcases Option.bind_eq_some_iff.mp h with ⟨tup, htup, hrest⟩
        have hnotDir : inode.filetype ≠ some .dir := by
          rw [hstored.1]
          decide
        rw [lastDirChunks_cons_of_ne hnotDir]
        split_ifs at hrest
        · exact ⟨List.forall_mem_cons.mpr ⟨fun _ => ⟨tup, htup⟩, (ih hrest).1⟩, (ih hrest).2⟩
        · exact ⟨List.forall_mem_cons.mpr ⟨fun _ => ⟨tup, htup⟩, (ih hrest).1⟩, (ih hrest).2⟩
      · rw [if_neg hstored] at h
        by_cases hdir : inode.filetype = some .dir
        · rw [if_pos hdir] at h
          rcases Option.bind_eq_some_iff.mp h with ⟨tup, htup, hrest⟩
          rcases ih hrest with ⟨hread, hkept⟩
          refine ⟨List.forall_mem_cons.mpr ⟨fun _ => ⟨tup, htup⟩, hread⟩, ?_⟩
          rw [hkept]
          unfold lastDirChunks
          rw [List.filter_cons_of_pos (by simpa using hdir), List.getLast?_cons]
          cases hlast : (inodes.filter (·.filetype = some .dir)).getLast? with
          | none => exact congrArg (Option.or · found.dir) htup.symm
          | some last =>
              rcases List.mem_filter.mp (List.mem_of_getLast? hlast) with ⟨hmem, hlastDir⟩
              rcases hread last hmem (.inr (of_decide_eq_true hlastDir)) with ⟨chunks, hchunks⟩
              simp only [Option.bind_some, Option.getD_some, hchunks, Option.some_or]
        · rw [if_neg hdir] at h
          rw [lastDirChunks_cons_of_ne hdir]
          exact ⟨List.forall_mem_cons.mpr
            ⟨fun hread => absurd hread (not_or.mpr ⟨hstored, hdir⟩), (ih h).1⟩, (ih h).2⟩

theorem exists_chunkVersions {prev : Option FileVersion} {found : InodeChunks}
    {inodes : List ParsedInode}
    (h : ∀ inode ∈ inodes, inode.Stored inodeId ∨ inode.filetype = some .dir →
      ∃ tup, toChunks dev sb inode = some tup) :
    ∃ r, chunkVersions dev sb inodeId prev found inodes = some r := by
  induction inodes generalizing prev found with
  | nil => exact ⟨found, rfl⟩
  | cons inode inodes ih =>
      rcases List.forall_mem_cons.mp h with ⟨hthis, hrest⟩
      rw [chunkVersions]
      by_cases hstored : inode.Stored inodeId
      · rcases hthis (.inl hstored) with ⟨tup, htup⟩
        have hchunks : inodeToChunks dev.current sb.toExt4Super inode.toExt4Inode = some tup := htup
        rw [if_pos hstored, hchunks, Option.bind_some]
        split_ifs
        · exact ih hrest
        · exact ih hrest
      · rw [if_neg hstored]
        by_cases hdir : inode.filetype = some .dir
        · rcases hthis (.inr hdir) with ⟨tup, htup⟩
          have hchunks : inodeToChunks dev.current sb.toExt4Super inode.toExt4Inode = some tup :=
            htup
          rw [if_pos hdir, hchunks, Option.bind_some]
          exact ih hrest
        · rw [if_neg hdir]
          exact ih hrest

theorem exists_chunkInodes {idx : Nat} {inodes : List (Option (List ParsedInode))}
    (h : ∀ i inodeMultiVer, inodes[i]? = some (some inodeMultiVer) →
      ∃ r, chunkVersions dev sb (idx + i + 1) none ⟨[], none⟩ inodeMultiVer = some r) :
    ∃ found, chunkInodes dev sb idx inodes = some found := by
  induction inodes generalizing idx with
  | nil => exact ⟨[], rfl⟩
  | cons entry inodes ih =>
      have hnext : ∀ i inodeMultiVer, inodes[i]? = some (some inodeMultiVer) →
          ∃ r, chunkVersions dev sb (idx + 1 + i + 1) none ⟨[], none⟩ inodeMultiVer = some r := by
        intro i inodeMultiVer hentry
        rw [Nat.add_right_comm idx 1 i]
        exact h (i + 1) inodeMultiVer hentry
      rcases ih hnext with ⟨rest, hrest⟩
      cases entry with
      | none => exact ⟨rest, hrest⟩
      | some inodeMultiVer =>
          rcases h 0 inodeMultiVer rfl with ⟨r, hr⟩
          have hthis : chunkVersions dev sb (idx + 1) none ⟨[], none⟩ inodeMultiVer = some r := hr
          refine ⟨(idx + 1, r) :: rest, ?_⟩
          rw [chunkInodes, hthis, Option.bind_some, hrest, Option.map_some]

/-- The loop over the inodes finds nothing of an inode that was not read. -/
theorem mem_chunkInodes {idx : Nat} {inodes : List (Option (List ParsedInode))}
    {found : List (Nat × InodeChunks)} {e : Nat × InodeChunks}
    (h : chunkInodes dev sb idx inodes = some found) (he : e ∈ found) :
    ∃ i inodeMultiVer, e.1 = idx + i + 1 ∧ inodes[i]? = some (some inodeMultiVer) := by
  induction inodes generalizing idx found with
  | nil =>
      cases h
      exact absurd he List.not_mem_nil
  | cons entry inodes ih =>
      have hnext : ∀ {rest : List (Nat × InodeChunks)},
          chunkInodes dev sb (idx + 1) inodes = some rest → e ∈ rest →
            ∃ i inodeMultiVer, e.1 = idx + i + 1 ∧
              (entry :: inodes)[i]? = some (some inodeMultiVer) := by
        intro rest hrest hmem
        rcases ih hrest hmem with ⟨i, inodeMultiVer, hid, hentry⟩
        exact ⟨i + 1, inodeMultiVer, by omega, hentry⟩
      cases entry with
      | none => exact hnext h he
      | some inodeMultiVer =>
          rcases Option.bind_eq_some_iff.mp h with ⟨r, -, hmap⟩
          rcases Option.map_eq_some_iff.mp hmap with ⟨rest, hrest, rfl⟩
          rcases List.mem_cons.mp he with rfl | hmem
          · exact ⟨0, inodeMultiVer, rfl, rfl⟩
          · exact hnext hrest hmem

/-- The entries of `parsed_inodes` are what the last pass reads. -/
theorem lookup_of_parsedInodes {i : Nat} {inodeMultiVer : List ParsedInode}
    (h : (parsedInodes dev sb bgs)[i]? = some (some inodeMultiVer)) :
    (passInodes dev sb bgs (versions - 1)).lookup (i + 1) = some inodeMultiVer := by
  unfold parsedInodes at h
  rw [List.getElem?_map] at h
  rcases Option.map_eq_some_iff.mp h with ⟨idx, hidx, hlookup⟩
  rcases List.getElem?_eq_some_iff.mp hidx with ⟨hlt, hrange⟩
  rw [List.getElem_range] at hrange
  rwa [hrange]

theorem mem_of_lookup_passInodes {pass : Nat} {inodes : List ParsedInode}
    (h : (passInodes dev sb bgs pass).lookup inodeId = some inodes) :
    inodeId ∈ (inodeAddresses dev sb bgs).map Prod.fst := by
  have hmem := List.mem_map_of_mem (f := Prod.fst) (mem_of_lookup h)
  rwa [passInodes, keys_readInodes] at hmem

theorem chunksRead_iff :
    ChunksRead dev sb bgs ↔ ∃ found, chunkInodes dev sb 0 (parsedInodes dev sb bgs) = some found := by
  constructor
  · intro h
    refine exists_chunkInodes fun i inodeMultiVer hentry => ?_
    rw [Nat.zero_add]
    exact exists_chunkVersions (h (i + 1) inodeMultiVer (lookup_of_parsedInodes hentry))
  · rintro ⟨found, hfound⟩ inodeId inodes hinodes
    have hid := mem_of_lookup_passInodes hinodes
    have hentry := Option.join_eq_some_iff.mp ((getElem?_parsedInodes hid).trans hinodes)
    rcases lookup_chunkInodes hfound (inodeAddresses_le hid).1 hentry with ⟨r, hr, -⟩
    exact (dir_of_chunkVersions hr).1

/-- `dirs_chunks` has the last directory version of each inode. -/
theorem dirsOf_eq {found : List (Nat × InodeChunks)}
    (h : chunkInodes dev sb 0 (parsedInodes dev sb bgs) = some found) :
    dirsOf found = dirChunks dev sb bgs := by
  funext inodeId
  unfold dirsOf dirChunks
  cases hinodes : (passInodes dev sb bgs (versions - 1)).lookup inodeId with
  | none =>
      cases hlookup : found.lookup inodeId with
      | none => rfl
      | some r =>
          rcases mem_chunkInodes h (mem_of_lookup hlookup) with ⟨i, inodeMultiVer, hid, hentry⟩
          have hnumber : inodeId = i + 1 := hid.trans (congrArg (· + 1) (Nat.zero_add i))
          rw [hnumber, lookup_of_parsedInodes hentry] at hinodes
          cases hinodes
  | some inodes =>
      have hid := mem_of_lookup_passInodes hinodes
      have hentry := Option.join_eq_some_iff.mp ((getElem?_parsedInodes hid).trans hinodes)
      rcases lookup_chunkInodes h (inodeAddresses_le hid).1 hentry with ⟨r, hr, hlookup⟩
      rw [hlookup, Option.bind_some, Option.bind_some, (dir_of_chunkVersions hr).2, Option.or_none]

/-! ## The passes -/

variable {fuel dirsMaxDepth : Nat}

theorem snapshotPasses_eq {found : List (Nat × InodeChunks)}
    (h : chunkInodes dev sb 0 (parsedInodes dev sb bgs) = some found) (passes : Nat)
    (s : SnapshotState) :
    snapshotPasses dev sb bgs fuel dirsMaxDepth passes s =
      (walkPasses dev sb fuel dirsMaxDepth (dirsOf found) passes s.reads).map fun walked =>
        ⟨fun inodeId => s.filesChunksTotal inodeId ++
            (List.replicate passes (filesOf found inodeId)).flatten,
          s.entriesTotal ++ walked.1, walked.2⟩ := by
  induction passes generalizing s with
  | zero =>
      simp [snapshotPasses, walkPasses]
  | succ passes ih =>
      simp only [snapshotPasses, walkPasses, snapshotPass, h, Option.bind_some]
      cases walkDirs dev sb fuel dirsMaxDepth [("/", 2)] ⟨dirsOf found, [], s.reads⟩ with
      | none => rfl
      | some w =>
          simp only [Option.map_some, Option.bind_some, ih, Option.map_map]
          refine congrArg₂ Option.map (funext fun walked => ?_) rfl
          simp [List.replicate_succ]

theorem snapshotPasses_succ_isSome {passes : Nat} {s s' : SnapshotState}
    (h : snapshotPasses dev sb bgs fuel dirsMaxDepth (passes + 1) s = some s') :
    ∃ found, chunkInodes dev sb 0 (parsedInodes dev sb bgs) = some found := by
  rcases Option.bind_eq_some_iff.mp h with ⟨s₁, hpass, -⟩
  rcases Option.bind_eq_some_iff.mp hpass with ⟨found, hfound, -⟩
  exact ⟨found, hfound⟩

/-- A repeated history is none of at most five versions. -/
theorem repeated_ne_destutter {history tups : List FileVersion} (hne : history ≠ [])
    (hlength : tups.length ≤ versions) :
    (List.replicate versions history).flatten ≠ tups.destutter (· ≠ ·) := by
  intro hsame
  have hle := (List.destutter_sublist (· ≠ ·) tups).length_le
  have hchain := List.isChain_destutter (· ≠ ·) tups
  rw [← hsame] at hle hchain
  rcases List.exists_cons_of_ne_nil hne with ⟨tup, rest, rfl⟩
  cases rest with
  | nil =>
      have htwo : (List.replicate versions [tup]).flatten = tup :: tup :: [tup, tup, tup] := rfl
      rw [htwo, List.isChain_cons_cons] at hchain
      exact hchain.1 rfl
  | cons tup' rest =>
      have hlong : (List.replicate versions (tup :: tup' :: rest)).flatten.length =
          5 * (rest.length + 2) := by
        simp [versions, List.replicate]
        omega
      unfold versions at hlength
      omega

/-- Where the passes end, the run ends, with each history once for each pass. -/
theorem generateSnapshot_of_found {found : List (Nat × InodeChunks)}
    {walked : List (String × Nat) × Nat}
    (h : chunkInodes dev sb 0 (parsedInodes dev sb bgs) = some found)
    (hwalk : walkPasses dev sb fuel dirsMaxDepth (dirsOf found) versions
      (readsBefore dev sb bgs) = some walked) :
    generateSnapshot dev sb bgs fuel dirsMaxDepth = some
      ⟨walked.1.dedup, fun inodeId =>
        (List.replicate versions (filesOf found inodeId)).flatten⟩ := by
  unfold generateSnapshot
  rw [snapshotPasses_eq h, hwalk]
  simp only [Option.map_some, List.nil_append]

/-- What a run that ends has done. -/
theorem of_generateSnapshot {s : Snapshot}
    (h : generateSnapshot dev sb bgs fuel dirsMaxDepth = some s) :
    ∃ found walked, chunkInodes dev sb 0 (parsedInodes dev sb bgs) = some found ∧
      walkPasses dev sb fuel dirsMaxDepth (dirsOf found) versions
        (readsBefore dev sb bgs) = some walked ∧
      ∀ inodeId, s.inodes inodeId =
        (List.replicate versions (filesOf found inodeId)).flatten := by
  rcases Option.map_eq_some_iff.mp h with ⟨last, hpasses, rfl⟩
  rcases snapshotPasses_succ_isSome hpasses with ⟨found, hfound⟩
  rw [snapshotPasses_eq hfound] at hpasses
  rcases Option.map_eq_some_iff.mp hpasses with ⟨walked, hwalk, rfl⟩
  exact ⟨found, walked, hfound, hwalk, fun _ => rfl⟩

theorem nothingStored_of_complete {s : Snapshot}
    (h : generateSnapshot dev sb bgs fuel dirsMaxDepth = some s)
    (hcomplete : s.Complete dev sb bgs) (hmarked : MarkedInode dev sb bgs inodeId) :
    NothingStored dev sb bgs inodeId := by
  intro inodes hinodes inode hmem hstored
  rcases of_generateSnapshot h with ⟨found, walked, hfound, -, hhistory⟩
  rcases hcomplete inodeId hmarked with ⟨hid, pass, -, inodes', tups', hinodes', htups', hsame⟩
  rcases filesOf_eq hfound hid hinodes with ⟨tups, htups, hfiles⟩
  have hfilter : inode ∈ inodes.filter (·.Stored inodeId) :=
    List.mem_filter.mpr ⟨hmem, decide_eq_true hstored⟩
  have hne : filesOf found inodeId ≠ [] := by
    intro hnil
    rw [hfiles, List.destutter_eq_nil] at hnil
    rw [hnil] at htups
    rw [List.map_eq_nil_iff.mp htups.symm] at hfilter
    cases hfilter
  have hlength : tups'.length ≤ versions := by
    have hmap := congrArg List.length htups'
    have hfilter := List.length_filter_le (fun i => decide (i.Stored inodeId)) inodes'
    rw [List.length_map, List.length_map] at hmap
    rw [length_of_lookup_passInodes hinodes'] at hfilter
    omega
  exact repeated_ne_destutter hne hlength ((hhistory inodeId).symm.trans hsame)

theorem inLastBitmap_of_complete {s : Snapshot} (hcomplete : s.Complete dev sb bgs)
    (hmarked : MarkedInode dev sb bgs inodeId) : InLastBitmap dev sb bgs inodeId :=
  (mem_inodeAddresses_first hmarked.1 hmarked.2.1).mp (hcomplete inodeId hmarked).1

/-- An examined inode of which nothing is stored has an empty history. -/
theorem historyOf_nothing {found : List (Nat × InodeChunks)}
    (h : chunkInodes dev sb 0 (parsedInodes dev sb bgs) = some found)
    (hid : inodeId ∈ (inodeAddresses dev sb bgs).map Prod.fst)
    (hnothing : NothingStored dev sb bgs inodeId) :
    HistoryOf dev sb bgs inodeId
      (List.replicate versions (filesOf found inodeId)).flatten := by
  rcases lookup_passInodes (versions - 1) hid with ⟨inodes, hinodes, -⟩
  have hfilter : inodes.filter (·.Stored inodeId) = [] := by
    refine List.filter_eq_nil_iff.mpr fun inode hmem => ?_
    rw [decide_eq_true_iff]
    exact hnothing inodes hinodes inode hmem
  rcases filesOf_eq h hid hinodes with ⟨tups, htups, hfiles⟩
  rw [hfilter, List.map_nil, List.map_eq_nil_iff] at htups
  rw [htups, List.destutter_nil] at hfiles
  refine ⟨versions - 1, by decide, inodes, [], hinodes, ?_, ?_⟩
  · rw [hfilter]
    rfl
  · rw [hfiles]
    rfl

end

/-- A complete snapshot is stored exactly where the passes end, the bits of the first
group's bitmap are all in its last version, and nothing is stored of its inodes: what
is stored of an inode is there once for each pass. -/
theorem generateSnapshot_complete_iff (dev : TaggedDevice) (sb : Ext4FileSystem)
    (bgs : BlockGroups) (dirsMaxDepth : Nat) :
    (∃ fuel s, generateSnapshot dev sb bgs fuel dirsMaxDepth = some s ∧
        s.Complete dev sb bgs) ↔
      PassesEnd dev sb bgs dirsMaxDepth ∧
        ∀ inodeId, MarkedInode dev sb bgs inodeId →
          InLastBitmap dev sb bgs inodeId ∧ NothingStored dev sb bgs inodeId := by
  constructor
  · rintro ⟨fuel, s, hrun, hcomplete⟩
    rcases of_generateSnapshot hrun with ⟨found, walked, hfound, hwalk, -⟩
    rw [dirsOf_eq hfound] at hwalk
    refine ⟨⟨chunksRead_iff.mpr ⟨found, hfound⟩, fuel, walked, hwalk⟩, fun inodeId hmarked => ?_⟩
    exact ⟨inLastBitmap_of_complete hcomplete hmarked,
      nothingStored_of_complete hrun hcomplete hmarked⟩
  · rintro ⟨⟨hread, fuel, walked, hwalk⟩, hinodes⟩
    rcases chunksRead_iff.mp hread with ⟨found, hfound⟩
    rw [← dirsOf_eq hfound] at hwalk
    refine ⟨fuel, _, generateSnapshot_of_found hfound hwalk, fun inodeId hmarked => ?_⟩
    rcases hinodes inodeId hmarked with ⟨hlast, hnothing⟩
    have hid : inodeId ∈ (inodeAddresses dev sb bgs).map Prod.fst :=
      (mem_inodeAddresses_first hmarked.1 hmarked.2.1).mpr hlast
    exact ⟨hid, historyOf_nothing hfound hid hnothing⟩

/-- A file system with blocks of 1024 bytes. -/
def smallFileSystem : Ext4FileSystem where
  toExt4Layout := smallBlocks
  inodeSize := 128
  features := ["filetype"]
  inodeSize_ge := by decide
  inodeSize_dvd := by decide

/-- A device whose newest version of the inode bitmap, in block 6, marks inode 12. -/
def inodeTwelveCreated : TaggedDevice where
  current := fun _ => 0
  tagged := fun n a => if n = 0 ∧ a = 6145 then 8 else 0

/-- The newest inode is missed, as only the oldest bitmap is used. -/
theorem generateSnapshot_inodeTwelve :
    ¬∃ fuel s, generateSnapshot inodeTwelveCreated smallFileSystem oneGroup fuel 100 = some s ∧
      s.Complete inodeTwelveCreated smallFileSystem oneGroup := by
  have hbyte : ∀ n, (bitmapVersion inodeTwelveCreated smallFileSystem ⟨0, 5, 6, 7⟩ n)[1]? =
      some (inodeTwelveCreated.tagged n 6145) :=
    fun n => getElem?_blockBytes _ _ (show 1 < 1024 by decide)
  have hmarked : MarkedInode inodeTwelveCreated smallFileSystem oneGroup 12 :=
    ⟨by decide, by decide, _, rfl, 0, by decide, _, hbyte 0, by decide⟩
  rintro ⟨fuel, s, -, hcomplete⟩
  rcases inLastBitmap_of_complete hcomplete hmarked with ⟨bg, hbg, byte, hget, hset⟩
  cases hbg
  have hlast := hget.symm.trans (hbyte 4)
  cases hlast
  exact absurd hset (by decide)

end RansomTag

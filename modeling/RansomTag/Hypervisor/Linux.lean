import Mathlib.Data.Fintype.Pi
import RansomTag.Hypervisor.Mft
import RansomTag.Library.SlotTable

/-!
# The hypervisor under a Linux guest

`linux_analyse_cbw` sees each command block wrapper, and
`linux_ransomtag_storage_handle_sectors` the sectors that follow it.  An access
outside an array or a buffer and a division by zero are faults: nothing is said
about what the program does after them.
-/

namespace RansomTag

inductive LinuxFault where
  | division
  | groupArray
  | buffer
  | directoryArray
  deriving DecidableEq

/-! ## State -/

/-- `struct ext4_super_block`, the fields in use and the block size. -/
structure Ext4SuperBlock where
  sBlocksCountLo : Nat
  sLogBlockSize : Nat
  sBlocksPerGroup : Nat
  sInodesPerGroup : Nat
  sInodeSize : Nat
  deriving DecidableEq

/-- `struct ext4_group_desc`, the fields in use. -/
structure Ext4GroupDesc where
  bgInodeBitmapLo : Nat
  bgInodeTableLo : Nat
  bgFlags : Nat
  deriving DecidableEq

/-- The variables about the file system. -/
structure LinuxFs where
  superBlock : Ext4SuperBlock
  superBlockLoaded : Bool
  readExt4Metadata : Bool
  groupTotal : Nat
  loadedGroupDescCount : Nat
  groupDesc : Fin 4 → Ext4GroupDesc
  inodeTableStartSector : Fin 4 → Nat
  inodeBitmapBlocks : Fin 4 → Nat
  groupDescLoaded : Bool
  readGroupDescMetadata : Bool
  parseInodeTrigger : Bool
  dirInodeExtentBlock : SlotTable Nat 500
  sectorIndex : Nat
  deriving DecidableEq

/-- `trigger_mfttag_start` and `trigger_recovertag_start`. -/
structure LinuxWindows where
  triggerMfttagStart : Bool
  triggerRecovertagStart : Bool
  deriving DecidableEq

structure LinuxState where
  fs : LinuxFs
  windows : LinuxWindows
  deriving DecidableEq

/-- The variables before the first command. -/
def LinuxFs.initial : LinuxFs where
  superBlock := ⟨0, 0, 0, 0, 0⟩
  superBlockLoaded := false
  readExt4Metadata := false
  groupTotal := 0
  loadedGroupDescCount := 0
  groupDesc := fun _ => ⟨0, 0, 0⟩
  inodeTableStartSector := fun _ => 0
  inodeBitmapBlocks := fun _ => 0
  groupDescLoaded := false
  readGroupDescMetadata := false
  parseInodeTrigger := false
  dirInodeExtentBlock := SlotTable.fill 500 0
  sectorIndex := 0

def LinuxWindows.closed : LinuxWindows := ⟨false, false⟩

def LinuxState.initial : LinuxState := ⟨.initial, .closed⟩

/-! ## Sectors and blocks -/

/-- `SECTOR_TO_EXT4_BLOCK` of an `unsigned int`. -/
def sectorToExt4Block (sector : Nat) : Nat := sector * 512 % 4294967296 / 4096

/-- `SECTOR_TO_EXT4_BLOCK` of an `int` with these bits, as an `unsigned int`.
The product wraps around. -/
def sectorToExt4BlockInt (sector : Nat) : Nat :=
  ((BitVec.ofNat 32 (sector * 512)).sdiv 4096).toNat

/-- `EXT4_BLOCK_TO_SECTOR_START` -/
def ext4BlockToSectorStart (block : Nat) : Nat := block * 8 % 4294967296

/-! ## Directory blocks -/

abbrev isUnused : Nat → Bool := fun entry => entry == 0

/-- `linux_add_to_dir_inode_extent_block`, with its answer. -/
def linuxAddToDirInodeExtentBlock (t : SlotTable Nat 500) (block : Nat) :
    Except LinuxFault (SlotTable Nat 500 × Int) :=
  if block = 0 then .ok (t, -1)
  else
    match t.add isUnused (· == block) block with
    | some (t, _) => .ok (t, 1)
    | none => .error .directoryArray

/-- `linux_traverse_dir_inode_extent_block` -/
def linuxTraverseDirInodeExtentBlock (t : SlotTable Nat 500) (block : Nat) :
    Except LinuxFault Bool :=
  match t.search isUnused (· == block) with
  | some found => .ok found
  | none => .error .directoryArray

/-! ## Commands -/

/-- `linux_AddTag`; the body is that of `win_AddTag`. -/
abbrev linuxAddTag (c : Cbw) (tag : Byte) : Cbw := winAddTag c tag

namespace LinuxFs

variable (fs : LinuxFs)

/-- `itable_blocks_count` -/
def itableBlocksCount : Nat :=
  fs.superBlock.sInodeSize * fs.superBlock.sInodesPerGroup % 4294967296 / 4096

/-- `inode_table_end_sector` -/
def inodeTableEndSector (group : Fin 4) : Nat :=
  ext4BlockToSectorStart
    ((sectorToExt4BlockInt (fs.inodeTableStartSector group) + fs.itableBlocksCount) % 4294967296)

/-- `linux_is_inode_table_sector`; the length that it is given has no effect. -/
def linuxIsInodeTableSector (lba : Nat) : Prop :=
  ∃ group : Fin 4, fs.inodeTableStartSector group ≤ lba ∧ lba ≤ fs.inodeTableEndSector group

/-- `linux_is_inode_bitmap_blocks` -/
def linuxIsInodeBitmapBlocks (lba : Nat) : Prop :=
  ∃ group : Fin 4, sectorToExt4Block lba = fs.inodeBitmapBlocks group

instance (lba : Nat) : Decidable (fs.linuxIsInodeTableSector lba) :=
  inferInstanceAs (Decidable (∃ _ : Fin 4, _))

instance (lba : Nat) : Decidable (fs.linuxIsInodeBitmapBlocks lba) :=
  inferInstanceAs (Decidable (∃ _ : Fin 4, _))

/-- What a read tells about the data that follows it. -/
def expectMetadata (c : Cbw) : LinuxFs :=
  if c.lba = 0 then
    if c.dDataLength = 4096 ∧ fs.superBlockLoaded = false then
      { fs with readExt4Metadata := true }
    else if 4096 ≤ c.dDataLength ∧ fs.superBlockLoaded = false ∧ fs.groupDescLoaded = false then
      { fs with readExt4Metadata := true, readGroupDescMetadata := true }
    else fs
  else if c.lba = ext4BlockToSectorStart (sectorToExt4Block 0 + 1) ∧
      fs.superBlockLoaded = true ∧ fs.groupDescLoaded = false then
    { fs with readGroupDescMetadata := true }
  else fs

/-- The data that follows is taken for inodes if the command starts in a table. -/
def expectInodes (c : Cbw) : LinuxFs :=
  if fs.linuxIsInodeTableSector c.lba then { fs with parseInodeTrigger := true } else fs

/-- The tag of a `WRITE(10)` at `lba`. -/
def writeTag (lba : Nat) : Except LinuxFault Byte :=
  if fs.linuxIsInodeTableSector lba then .ok ransomTagMft
  else if fs.linuxIsInodeBitmapBlocks lba then .ok ransomTagMft
  else
    (linuxTraverseDirInodeExtentBlock fs.dirInodeExtentBlock (sectorToExt4Block lba)).map
      fun found => if found then ransomTagMft else ransomTag

/-- The case of `WRITE(10)`. -/
def tagWrite (c : Cbw) : Except LinuxFault Cbw := (fs.writeTag c.lba).map (linuxAddTag c)

end LinuxFs

/-- The blocks that the recovery program reads to open and close its windows. -/
def mfttagStartBlock : Nat := 120000
def mfttagEndBlock : Nat := 120001
def recovertagStartBlock : Nat := 120002
def recovertagEndBlock : Nat := 120003

/-- A read of one of the four blocks. -/
def isWindowMarker (lba : Nat) : Prop :=
  lba = ext4BlockToSectorStart mfttagStartBlock ∨ lba = ext4BlockToSectorStart mfttagEndBlock ∨
    lba = ext4BlockToSectorStart recovertagStartBlock ∨
    lba = ext4BlockToSectorStart recovertagEndBlock

instance (lba : Nat) : Decidable (isWindowMarker lba) :=
  inferInstanceAs (Decidable (_ ∨ _ ∨ _ ∨ _))

/-- The end of the case of `READ(10)`: the windows, and the tag inside them. -/
def LinuxWindows.read (w : LinuxWindows) (c : Cbw) : LinuxWindows × Cbw :=
  if c.lba = ext4BlockToSectorStart mfttagStartBlock then
    ({ w with triggerMfttagStart := true }, c)
  else if w.triggerMfttagStart = true ∧ ¬isWindowMarker c.lba then
    (w, linuxAddTag c ransomTagMft)
  else if c.lba = ext4BlockToSectorStart mfttagEndBlock ∧ w.triggerMfttagStart = true then
    ({ w with triggerMfttagStart := false }, c)
  else if c.lba = ext4BlockToSectorStart recovertagStartBlock then
    ({ w with triggerRecovertagStart := true }, c)
  else if w.triggerRecovertagStart = true ∧ ¬isWindowMarker c.lba then
    (w, linuxAddTag c recoverTag)
  else if c.lba = ext4BlockToSectorStart recovertagEndBlock ∧ w.triggerRecovertagStart = true then
    ({ w with triggerRecovertagStart := false }, c)
  else (w, c)

/-- `linux_analyse_cbw`.  The search for a directory block only reads, so the
variables after it are known where the wrapper is not. -/
def linuxAnalyseCbw (s : LinuxState) (c : Cbw) : LinuxState × Except LinuxFault Cbw :=
  let fs := { s.fs with sectorIndex := c.lba }
  if c.opcode = scsiRead10 then
    (⟨(fs.expectMetadata c).expectInodes c, (s.windows.read c).1⟩, .ok (s.windows.read c).2)
  else if c.opcode = scsiWrite10 then
    (⟨fs.expectInodes c, s.windows⟩, fs.tagWrite c)
  else (⟨fs, s.windows⟩, .ok c)

section

variable (s : LinuxState) {c : Cbw}

theorem linuxAnalyseCbw_read (hread : c.opcode = scsiRead10) :
    linuxAnalyseCbw s c =
      (⟨(({ s.fs with sectorIndex := c.lba } : LinuxFs).expectMetadata c).expectInodes c,
        (s.windows.read c).1⟩, .ok (s.windows.read c).2) :=
  if_pos hread

theorem linuxAnalyseCbw_write (hwrite : c.opcode = scsiWrite10) :
    linuxAnalyseCbw s c =
      (⟨({ s.fs with sectorIndex := c.lba } : LinuxFs).expectInodes c, s.windows⟩,
        s.fs.tagWrite c) := by
  have hread : c.opcode ≠ scsiRead10 := by
    rw [hwrite]
    decide
  exact (if_neg hread).trans (if_pos hwrite)

theorem linuxAnalyseCbw_other (hread : c.opcode ≠ scsiRead10) (hwrite : c.opcode ≠ scsiWrite10) :
    linuxAnalyseCbw s c = (⟨{ s.fs with sectorIndex := c.lba }, s.windows⟩, .ok c) :=
  (if_neg hread).trans (if_neg hwrite)

end

/-! ## Sectors -/

/-- The sectors of a `storage_access` and the memory behind them; `inPlace` says
that source and destination are the same. -/
structure SectorAccess where
  count : Nat
  sectorSize : Nat
  inPlace : Bool
  content : GuestBuffer
  length_lt : count * sectorSize < 4294967296

def SectorAccess.length (a : SectorAccess) : Nat := a.count * a.sectorSize

/-- Two bytes of the buffer. -/
def SectorAccess.u16 (a : SectorAccess) (p : Nat) : Except LinuxFault Nat :=
  if p + 2 ≤ a.length then .ok (le16 a.content p) else .error .buffer

/-- Four bytes of the buffer. -/
def SectorAccess.u32 (a : SectorAccess) (p : Nat) : Except LinuxFault Nat :=
  if p + 4 ≤ a.length then .ok (le32 a.content p) else .error .buffer

/-- The super block that starts at `p`. -/
def superBlockAt (buf : GuestBuffer) (p : Nat) : Ext4SuperBlock where
  sBlocksCountLo := le32 buf (p + 4)
  sLogBlockSize := le32 buf (p + 24)
  sBlocksPerGroup := le32 buf (p + 32)
  sInodesPerGroup := le32 buf (p + 40)
  sInodeSize := le16 buf (p + 88)

/-- The group descriptor that starts at `p`. -/
def groupDescAt (buf : GuestBuffer) (p : Nat) : Ext4GroupDesc where
  bgInodeBitmapLo := le32 buf (p + 4)
  bgInodeTableLo := le32 buf (p + 8)
  bgFlags := le16 buf (p + 18)

@[simp, reducible] def ext4SuperblockOffsetByte : Nat := 1024
@[simp, reducible] def ext4SuperblockSize : Nat := 1024
@[simp, reducible] def ext4GroupDescSize : Nat := 32

namespace LinuxFs

/-- `linux_parse_ext4_superblock`; a wrong magic number is only reported. -/
def linuxParseExt4Superblock (fs : LinuxFs) (a : SectorAccess) : Except LinuxFault LinuxFs :=
  if a.length < ext4SuperblockSize then .ok fs
  else if a.length < ext4SuperblockOffsetByte + ext4SuperblockSize then .error .buffer
  else
    .ok { fs with
      superBlock := superBlockAt a.content ext4SuperblockOffsetByte
      readExt4Metadata := false
      superBlockLoaded := true }

/-- `group_total` -/
def countGroups (fs : LinuxFs) : Nat :=
  (fs.superBlock.sBlocksCountLo + fs.superBlock.sBlocksPerGroup - 1) % 4294967296 /
    fs.superBlock.sBlocksPerGroup

/-- A descriptor that is in use goes into the three arrays. -/
def storeGroupDesc (fs : LinuxFs) (group : Fin 4) (d : Ext4GroupDesc) : LinuxFs :=
  { fs with
    groupDesc := Function.update fs.groupDesc group d
    inodeTableStartSector :=
      Function.update fs.inodeTableStartSector group (ext4BlockToSectorStart d.bgInodeTableLo)
    inodeBitmapBlocks := Function.update fs.inodeBitmapBlocks group d.bgInodeBitmapLo
    loadedGroupDescCount := fs.loadedGroupDescCount + 1 }

/-- The loop of `linux_parse_ext4_group_desc` over `remaining` descriptors from
`p` on, and whether it went through without an invalid one. -/
def loadGroupDescs (a : SectorAccess) :
    Nat → Nat → LinuxFs → Except LinuxFault (LinuxFs × Bool)
  | 0, _, fs => .ok (fs, true)
  | remaining + 1, p, fs =>
      if h : fs.loadedGroupDescCount < 4 then
        if a.length < p + ext4GroupDescSize then .error .buffer
        else if (groupDescAt a.content p).bgFlags = 0 then
          .ok ({ fs with
            groupDesc := Function.update fs.groupDesc ⟨fs.loadedGroupDescCount, h⟩
              (groupDescAt a.content p) }, false)
        else
          loadGroupDescs a remaining (p + ext4GroupDescSize)
            (fs.storeGroupDesc ⟨fs.loadedGroupDescCount, h⟩ (groupDescAt a.content p))
      else .error .groupArray

/-- The variable `block_num` is 1. -/
def atGroupDescs (fs : LinuxFs) : Prop :=
  fs.sectorIndex * 512 % 18446744073709551616 / 4096 % 4294967296 = 1

instance (fs : LinuxFs) : Decidable fs.atGroupDescs := inferInstanceAs (Decidable (_ = _))

/-- The loop with its guard. -/
def loadMissingGroupDescs (fs : LinuxFs) (a : SectorAccess) : Except LinuxFault (LinuxFs × Bool) :=
  if fs.atGroupDescs ∧ fs.loadedGroupDescCount < fs.groupTotal then
    loadGroupDescs a (fs.groupTotal - fs.loadedGroupDescCount) 0 fs
  else .ok (fs, true)

/-- `linux_parse_ext4_group_desc` -/
def linuxParseExt4GroupDesc (fs : LinuxFs) (a : SectorAccess) : Except LinuxFault LinuxFs :=
  if fs.superBlock.sBlocksPerGroup = 0 then .error .division
  else
    (loadMissingGroupDescs { fs with groupTotal := fs.countGroups } a).map fun (fs, complete) =>
      if complete then { fs with readGroupDescMetadata := false, groupDescLoaded := true } else fs

/-- The inode that starts at `p`: the block that it contributes. -/
def inodeContribution (a : SectorAccess) (p : Nat) : Except LinuxFault (Option Nat) := do
  let mode ← a.u16 p
  if mode &&& 0x4000 = 0 then .ok none
  else
    let magic ← a.u16 (p + 40)
    if magic = 0xF30A then (a.u32 (p + 60)).map some else .ok none

def recordContribution (fs : LinuxFs) : Option Nat → Except LinuxFault LinuxFs
  | none => .ok fs
  | some block =>
      (linuxAddToDirInodeExtentBlock fs.dirInodeExtentBlock block).map
        fun (t, _) => { fs with dirInodeExtentBlock := t }

theorem recordContribution_some (fs : LinuxFs) (block : Nat) :
    fs.recordContribution (some block) =
      (linuxAddToDirInodeExtentBlock fs.dirInodeExtentBlock block).map
        fun (t, _) => { fs with dirInodeExtentBlock := t } := rfl

/-- One round of the loop over the inodes. -/
def parseInode (a : SectorAccess) (fs : LinuxFs) (p : Nat) : Except LinuxFault LinuxFs :=
  (inodeContribution a p).bind fs.recordContribution

/-- The loop over the inodes. -/
def parseInodes (fs : LinuxFs) (a : SectorAccess) : Except LinuxFault LinuxFs :=
  if fs.superBlock.sInodeSize = 0 then .error .division
  else
    ((List.range (a.length / fs.superBlock.sInodeSize)).map (· * fs.superBlock.sInodeSize)).foldlM
      (parseInode a) fs

/-- The two parsers. -/
def parseMetadata (fs : LinuxFs) (a : SectorAccess) : Except LinuxFault LinuxFs :=
  (if fs.readExt4Metadata then fs.linuxParseExt4Superblock a else .ok fs).bind fun fs =>
  if fs.readGroupDescMetadata && fs.superBlockLoaded then fs.linuxParseExt4GroupDesc a
  else .ok fs

/-- The data is taken for inodes. -/
def takesInodes (fs : LinuxFs) : Bool :=
  fs.parseInodeTrigger && fs.superBlockLoaded && fs.groupDescLoaded

/-- What the handler does with the copied data. -/
def handleData (fs : LinuxFs) (a : SectorAccess) : Except LinuxFault LinuxFs :=
  (fs.parseMetadata a).bind fun fs => if fs.takesInodes then fs.parseInodes a else .ok fs

/-- `linux_ransomtag_storage_handle_sectors` -/
def linuxRansomtagStorageHandleSectors (fs : LinuxFs) (a : SectorAccess) :
    Except LinuxFault LinuxFs :=
  (if 0 < a.count ∧ a.inPlace = false then fs.handleData a else .ok fs).map fun fs =>
    { fs with sectorIndex := (fs.sectorIndex + a.count) % 18446744073709551616 }

end LinuxFs

/-! ## Runs -/

/-- What reaches the hypervisor: a wrapper, or sectors of a data phase. -/
inductive LinuxEvent where
  | command (c : Cbw)
  | data (a : SectorAccess)

def LinuxState.step (s : LinuxState) : LinuxEvent → Except LinuxFault LinuxState
  | .command c => (linuxAnalyseCbw s c).2.map fun _ => (linuxAnalyseCbw s c).1
  | .data a => (s.fs.linuxRansomtagStorageHandleSectors a).map fun fs => { s with fs := fs }

def LinuxState.run (s : LinuxState) (events : List LinuxEvent) : Except LinuxFault LinuxState :=
  events.foldlM LinuxState.step s

end RansomTag

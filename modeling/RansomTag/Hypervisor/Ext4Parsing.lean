import RansomTag.Hypervisor.Linux
import RansomTag.Library.Faults

/-!
# Parsing the super block, the group descriptors and the inodes

Where the numbers in intercepted blocks take the parser outside its arrays and
its buffer.  The search in the list of directory blocks has faults of its own.
-/

namespace RansomTag

/-! ## Contents that stay inside -/

namespace LinuxFs

/-- The variables after the super block was copied. -/
def afterSuperBlock (fs : LinuxFs) (a : SectorAccess) : LinuxFs :=
  if fs.readExt4Metadata = true ∧ ext4SuperblockSize ≤ a.length then
    { fs with
      superBlock := superBlockAt a.content ext4SuperblockOffsetByte
      readExt4Metadata := false
      superBlockLoaded := true }
  else fs

/-- The flags of the descriptor with this number in the buffer. -/
def flagsAt (a : SectorAccess) (k : Nat) : Nat :=
  (groupDescAt a.content (k * ext4GroupDescSize)).bgFlags

/-- How many descriptors the loop looks for. -/
def missingGroups (fs : LinuxFs) : Nat :=
  if fs.atGroupDescs then fs.countGroups - fs.loadedGroupDescCount else 0

/-- There are groups, and each descriptor that is looked at has its entry in the
arrays and is in the buffer. -/
structure GroupDescsInside (fs : LinuxFs) (a : SectorAccess) : Prop where
  groups : fs.superBlock.sBlocksPerGroup ≠ 0
  inside : ∀ k < fs.missingGroups, (∀ j < k, flagsAt a j ≠ 0) →
    fs.loadedGroupDescCount + k < 4 ∧ (k + 1) * ext4GroupDescSize ≤ a.length

/-- What is read of the inode at `p` is in the buffer. -/
structure InodeInside (a : SectorAccess) (p : Nat) : Prop where
  mode : p + 2 ≤ a.length
  magic : le16 a.content p &&& 0x4000 ≠ 0 → p + 42 ≤ a.length
  extent : le16 a.content p &&& 0x4000 ≠ 0 → le16 a.content (p + 40) = 0xF30A →
    p + 64 ≤ a.length

/-- The data will be taken for inodes. -/
def handlesInodes (fs : LinuxFs) (a : SectorAccess) : Prop :=
  fs.parseInodeTrigger = true ∧ fs.superBlockLoaded = true ∧
    (fs.groupDescLoaded = true ∨
      fs.readGroupDescMetadata = true ∧ ∀ k < fs.missingGroups, flagsAt a k ≠ 0)

/-- The contents of a buffer keep the parser inside the arrays and the buffer. -/
structure ParsesInside (fs : LinuxFs) (a : SectorAccess) : Prop where
  superBlock : fs.readExt4Metadata = true → a.length < ext4SuperblockSize ∨
    ext4SuperblockOffsetByte + ext4SuperblockSize ≤ a.length
  groupDescs : (fs.afterSuperBlock a).readGroupDescMetadata = true →
    (fs.afterSuperBlock a).superBlockLoaded = true → (fs.afterSuperBlock a).GroupDescsInside a
  inodeSize : (fs.afterSuperBlock a).handlesInodes a →
    (fs.afterSuperBlock a).superBlock.sInodeSize ≠ 0
  inodes : (fs.afterSuperBlock a).handlesInodes a →
    ∀ i < a.length / (fs.afterSuperBlock a).superBlock.sInodeSize,
      InodeInside a (i * (fs.afterSuperBlock a).superBlock.sInodeSize)

/-! ## The super block -/

variable {fs fs' : LinuxFs} {a : SectorAccess}

theorem superBlock_inside (h : fs.readExt4Metadata = true → a.length < ext4SuperblockSize ∨
      ext4SuperblockOffsetByte + ext4SuperblockSize ≤ a.length) :
    (if fs.readExt4Metadata = true then fs.linuxParseExt4Superblock a else .ok fs) =
      .ok (fs.afterSuperBlock a) := by
  unfold afterSuperBlock linuxParseExt4Superblock
  by_cases hread : fs.readExt4Metadata = true
  · by_cases hshort : a.length < ext4SuperblockSize
    · rw [if_pos hread, if_pos hshort, if_neg (by omega)]
    · have hlong := (h hread).resolve_left hshort
      rw [if_pos hread, if_neg hshort, if_neg (by omega), if_pos ⟨hread, by omega⟩]
  · rw [if_neg hread, if_neg (fun hboth => hread hboth.1)]

/-! ## The group descriptors -/

/-- What the parsing of descriptors leaves alone. -/
structure SameInodes (fs fs' : LinuxFs) : Prop where
  superBlock : fs'.superBlock = fs.superBlock
  superBlockLoaded : fs'.superBlockLoaded = fs.superBlockLoaded
  groupDescLoaded : fs'.groupDescLoaded = fs.groupDescLoaded
  parseInodeTrigger : fs'.parseInodeTrigger = fs.parseInodeTrigger

/-- The loop from descriptor `first` on, with `remaining` of them missing. -/
theorem loadGroupDescs_inside (remaining first : Nat) (fs : LinuxFs)
    (hinside : ∀ k < remaining, (∀ j < k, flagsAt a (first + j) ≠ 0) →
      fs.loadedGroupDescCount + k < 4 ∧ (first + k + 1) * ext4GroupDescSize ≤ a.length) :
    ∃ fs' complete, loadGroupDescs a remaining (first * ext4GroupDescSize) fs =
        .ok (fs', complete) ∧ fs.SameInodes fs' ∧
      (complete = true → ∀ k < remaining, flagsAt a (first + k) ≠ 0) := by
  induction remaining generalizing first fs with
  | zero => exact ⟨fs, true, rfl, ⟨rfl, rfl, rfl, rfl⟩, fun _ k hk => absurd hk (Nat.not_lt_zero k)⟩
  | succ remaining ih =>
      rcases hinside 0 (Nat.succ_pos _) (fun j hj => absurd hj (Nat.not_lt_zero j)) with
        ⟨hfirst, hbuffer⟩
      have harray : fs.loadedGroupDescCount < 4 := hfirst
      have hoffset : first * ext4GroupDescSize + ext4GroupDescSize =
          (first + 1) * ext4GroupDescSize := (Nat.succ_mul _ _).symm
      unfold loadGroupDescs
      rw [dif_pos harray, if_neg (by rw [hoffset]; exact Nat.not_lt.mpr hbuffer), hoffset]
      by_cases hflags : (groupDescAt a.content (first * ext4GroupDescSize)).bgFlags = 0
      · rw [if_pos hflags]
        exact ⟨_, false, rfl, ⟨rfl, rfl, rfl, rfl⟩, fun h => absurd h Bool.false_ne_true⟩
      · rw [if_neg hflags]
        have hnext : ∀ k < remaining, (∀ j < k, flagsAt a (first + 1 + j) ≠ 0) →
            (fs.storeGroupDesc ⟨fs.loadedGroupDescCount, harray⟩
              (groupDescAt a.content (first * ext4GroupDescSize))).loadedGroupDescCount + k < 4 ∧
            (first + 1 + k + 1) * ext4GroupDescSize ≤ a.length := by
          intro k hk hbefore
          have hshift := hinside (k + 1) (by omega) (fun j hj => by
            cases j with
            | zero => exact hflags
            | succ j =>
                have heq : first + (j + 1) = first + 1 + j := by omega
                rw [heq]
                exact hbefore j (by omega))
          have hcount : (fs.storeGroupDesc ⟨fs.loadedGroupDescCount, harray⟩
              (groupDescAt a.content (first * ext4GroupDescSize))).loadedGroupDescCount =
              fs.loadedGroupDescCount + 1 := rfl
          rw [hcount]
          have heq : first + 1 + k + 1 = first + (k + 1) + 1 := by omega
          rw [heq]
          exact ⟨by omega, hshift.2⟩
        rcases ih (first + 1) _ hnext with ⟨fs', complete, hload, hsame, hcomplete⟩
        refine ⟨fs', complete, hload,
          ⟨hsame.1, hsame.2, hsame.3, hsame.4⟩, fun hall k hk => ?_⟩
        cases k with
        | zero => exact hflags
        | succ k =>
            have heq : first + (k + 1) = first + 1 + k := by omega
            rw [heq]
            exact hcomplete hall k (by omega)

theorem loadMissingGroupDescs_inside (h : fs.GroupDescsInside a) :
    ∃ fs' complete, ({ fs with groupTotal := fs.countGroups } : LinuxFs).loadMissingGroupDescs a =
        .ok (fs', complete) ∧ fs.SameInodes fs' ∧
      (complete = true → ∀ k < fs.missingGroups, flagsAt a k ≠ 0) := by
  have hinside := h.inside
  unfold missingGroups at hinside ⊢
  unfold loadMissingGroupDescs
  by_cases hat : fs.atGroupDescs
  · rw [if_pos hat] at hinside ⊢
    by_cases hmissing : fs.loadedGroupDescCount < fs.countGroups
    · rw [if_pos ⟨hat, hmissing⟩]
      have hloop := loadGroupDescs_inside (fs.countGroups - fs.loadedGroupDescCount) 0
        { fs with groupTotal := fs.countGroups } (a := a)
      simp only [Nat.zero_add] at hloop
      rcases hloop hinside with ⟨fs', complete, hload, hsame, hcomplete⟩
      refine ⟨fs', complete, hload, ⟨hsame.1, hsame.2, hsame.3, hsame.4⟩, hcomplete⟩
    · rw [if_neg fun hboth => hmissing hboth.2]
      exact ⟨_, true, rfl, ⟨rfl, rfl, rfl, rfl⟩, fun _ k hk => by omega⟩
  · rw [if_neg hat, if_neg fun hboth => hat hboth.1]
    exact ⟨_, true, rfl, ⟨rfl, rfl, rfl, rfl⟩, fun _ k hk => absurd hk (Nat.not_lt_zero k)⟩

/-- The parser of descriptors stays inside, and then says whether it knows the groups. -/
theorem groupDesc_inside (h : fs.readGroupDescMetadata = true → fs.superBlockLoaded = true →
      fs.GroupDescsInside a) :
    ∃ fs', (if (fs.readGroupDescMetadata && fs.superBlockLoaded) = true then
        fs.linuxParseExt4GroupDesc a else .ok fs) = .ok fs' ∧
      fs'.superBlock = fs.superBlock ∧
      (fs'.takesInodes = true →
        fs.handlesInodes a) := by
  by_cases hread : (fs.readGroupDescMetadata && fs.superBlockLoaded) = true
  · rw [if_pos hread]
    rcases (Bool.and_eq_true _ _).mp hread with ⟨hmetadata, hloaded⟩
    have hinside := h hmetadata hloaded
    rcases loadMissingGroupDescs_inside hinside with ⟨fs', complete, hload, hsame, hcomplete⟩
    unfold linuxParseExt4GroupDesc
    rw [if_neg hinside.groups, hload]
    cases complete with
    | true =>
        refine ⟨_, rfl, hsame.superBlock, fun htrigger => ?_⟩
        simp only [takesInodes, Bool.and_eq_true] at htrigger
        exact ⟨hsame.parseInodeTrigger.symm.trans htrigger.1.1, hloaded,
          .inr ⟨hmetadata, hcomplete rfl⟩⟩
    | false =>
        refine ⟨_, rfl, hsame.superBlock, fun htrigger => ?_⟩
        simp only [takesInodes, Bool.and_eq_true] at htrigger
        exact ⟨hsame.parseInodeTrigger.symm.trans htrigger.1.1, hloaded,
          .inl (hsame.groupDescLoaded.symm.trans htrigger.2)⟩
  · rw [if_neg hread]
    refine ⟨fs, rfl, rfl, fun htrigger => ?_⟩
    simp only [takesInodes, Bool.and_eq_true] at htrigger
    exact ⟨htrigger.1.1, htrigger.1.2, .inl htrigger.2⟩

/-! ## The inodes -/

/-- The block that the inode at `p` contributes. -/
def firstBlock (buf : GuestBuffer) (p : Nat) : Option Nat :=
  if le16 buf p &&& 0x4000 = 0 then none
  else if le16 buf (p + 40) = 0xF30A then some (le32 buf (p + 60))
  else none

theorem inodeContribution_inside {p : Nat} (h : InodeInside a p) :
    inodeContribution a p = .ok (firstBlock a.content p) := by
  have hmode : a.u16 p = .ok (le16 a.content p) := if_pos h.mode
  unfold inodeContribution firstBlock
  rw [hmode]
  by_cases hdirectory : le16 a.content p &&& 0x4000 = 0
  · rw [if_pos hdirectory]
    exact if_pos hdirectory
  · have hmagic : a.u16 (p + 40) = .ok (le16 a.content (p + 40)) :=
      if_pos (h.magic hdirectory)
    rw [if_neg hdirectory]
    refine (if_neg hdirectory).trans ?_
    rw [hmagic]
    by_cases hextent : le16 a.content (p + 40) = 0xF30A
    · have hblock : a.u32 (p + 60) = .ok (le32 a.content (p + 60)) :=
        if_pos (h.extent hdirectory hextent)
      rw [if_pos hextent]
      refine (if_pos hextent).trans ?_
      rw [hblock]
      rfl
    · rw [if_neg hextent]
      exact if_neg hextent

theorem linuxAddToDirInodeExtentBlock_fault {t : SlotTable Nat 500} {block : Nat}
    {f : LinuxFault} (h : linuxAddToDirInodeExtentBlock t block = .error f) :
    f = .directoryArray := by
  unfold linuxAddToDirInodeExtentBlock at h
  by_cases hblock : block = 0
  · rw [if_pos hblock] at h
    cases h
  · rw [if_neg hblock] at h
    cases hadd : t.add isUnused (· == block) block with
    | none =>
        rw [hadd] at h
        cases h
        rfl
    | some pair =>
        rw [hadd] at h
        cases h

/-- A round whose inode is in the buffer has no fault but that of the list. -/
theorem parseInode_inside {p : Nat} (h : InodeInside a p) {f : LinuxFault}
    (hfault : parseInode a fs p = .error f) : f = .directoryArray := by
  unfold parseInode at hfault
  rw [inodeContribution_inside h, Faults.bind_ok] at hfault
  cases hcontribution : firstBlock a.content p with
  | none =>
      rw [hcontribution] at hfault
      cases hfault
  | some block =>
      rw [hcontribution] at hfault
      rw [recordContribution_some] at hfault
      cases hadd : linuxAddToDirInodeExtentBlock fs.dirInodeExtentBlock block with
      | error f' =>
          rw [hadd] at hfault
          cases hfault
          exact linuxAddToDirInodeExtentBlock_fault hadd
      | ok pair =>
          rw [hadd] at hfault
          cases hfault

theorem parseInodes_inside (hsize : fs.superBlock.sInodeSize ≠ 0)
    (hinodes : ∀ i < a.length / fs.superBlock.sInodeSize,
      InodeInside a (i * fs.superBlock.sInodeSize)) {f : LinuxFault}
    (hfault : fs.parseInodes a = .error f) : f = .directoryArray := by
  unfold parseInodes at hfault
  rw [if_neg hsize] at hfault
  apply Faults.foldlM_fault (fun _ => True) (fun _ _ _ _ _ _ => trivial) _ trivial hfault
  intro p hp fs' f' _ hround
  rcases List.mem_map.mp hp with ⟨i, hi, rfl⟩
  exact parseInode_inside (hinodes i (List.mem_range.mp hi)) hround

theorem handleData_inside (h : fs.ParsesInside a) {f : LinuxFault}
    (hfault : fs.handleData a = .error f) : f = .directoryArray := by
  rcases groupDesc_inside h.groupDescs with ⟨fs', hgroups, hsuper, hhandles⟩
  have hdata : fs.handleData a =
      if fs'.takesInodes = true then
        fs'.parseInodes a
      else .ok fs' := by
    unfold handleData parseMetadata
    rw [superBlock_inside h.superBlock, Faults.bind_ok, hgroups, Faults.bind_ok]
  rw [hdata] at hfault
  by_cases hinodes : fs'.takesInodes = true
  · rw [if_pos hinodes] at hfault
    have hsize := h.inodeSize (hhandles hinodes)
    have hinside := h.inodes (hhandles hinodes)
    rw [← hsuper] at hsize hinside
    exact parseInodes_inside hsize hinside hfault
  · rw [if_neg hinodes] at hfault
    cases hfault

end LinuxFs

/-! ## Runs -/

/-- The event does not take the parser outside its arrays and its buffer. -/
def LinuxState.ParsesInside (s : LinuxState) : LinuxEvent → Prop
  | .command _ => True
  | .data a => 0 < a.count → a.inPlace = false → s.fs.ParsesInside a

theorem writeTag_fault {fs : LinuxFs} {lba : Nat} {f : LinuxFault}
    (h : fs.writeTag lba = .error f) : f = .directoryArray := by
  unfold LinuxFs.writeTag linuxTraverseDirInodeExtentBlock at h
  split_ifs at h
  cases hsearch : fs.dirInodeExtentBlock.search isUnused (· == sectorToExt4Block lba) with
  | none =>
      rw [hsearch] at h
      cases h
      rfl
  | some found =>
      rw [hsearch] at h
      cases h

theorem linuxAnalyseCbw_fault {s : LinuxState} {c : Cbw} {f : LinuxFault}
    (h : (linuxAnalyseCbw s c).2 = .error f) : f = .directoryArray := by
  by_cases hread : c.opcode = scsiRead10
  · rw [linuxAnalyseCbw_read s hread] at h
    cases h
  · by_cases hwrite : c.opcode = scsiWrite10
    · rw [linuxAnalyseCbw_write s hwrite] at h
      change (s.fs.writeTag c.lba).map _ = .error f at h
      cases htag : s.fs.writeTag c.lba with
      | error f' =>
          rw [htag] at h
          cases h
          exact writeTag_fault htag
      | ok tag =>
          rw [htag] at h
          cases h
    · rw [linuxAnalyseCbw_other s hread hwrite] at h
      cases h

/-- A step that meets its condition has no fault of the parser. -/
theorem step_inside {s : LinuxState} {e : LinuxEvent} (h : s.ParsesInside e) {f : LinuxFault}
    (hfault : s.step e = .error f) : f = .directoryArray := by
  cases e with
  | command c =>
      change (linuxAnalyseCbw s c).2.map _ = .error f at hfault
      cases hresult : (linuxAnalyseCbw s c).2 with
      | error f' =>
          rw [hresult] at hfault
          cases hfault
          exact linuxAnalyseCbw_fault hresult
      | ok c' =>
          rw [hresult] at hfault
          cases hfault
  | data a =>
      change (s.fs.linuxRansomtagStorageHandleSectors a).map _ = .error f at hfault
      by_cases hcopy : 0 < a.count ∧ a.inPlace = false
      · cases hdata : s.fs.handleData a with
        | error f' =>
            have hhandler : s.fs.linuxRansomtagStorageHandleSectors a = .error f' := by
              unfold LinuxFs.linuxRansomtagStorageHandleSectors
              rw [if_pos hcopy, hdata]
              rfl
            rw [hhandler] at hfault
            cases hfault
            exact LinuxFs.handleData_inside (h hcopy.1 hcopy.2) hdata
        | ok fs =>
            have hhandler : s.fs.linuxRansomtagStorageHandleSectors a =
                .ok { fs with
                  sectorIndex := (fs.sectorIndex + a.count) % 18446744073709551616 } := by
              unfold LinuxFs.linuxRansomtagStorageHandleSectors
              rw [if_pos hcopy, hdata]
              rfl
            rw [hhandler] at hfault
            cases hfault
      · have hhandler : s.fs.linuxRansomtagStorageHandleSectors a =
            .ok { s.fs with
              sectorIndex := (s.fs.sectorIndex + a.count) % 18446744073709551616 } := by
          unfold LinuxFs.linuxRansomtagStorageHandleSectors
          rw [if_neg hcopy]
          rfl
        rw [hhandler] at hfault
        cases hfault

/-- No prefix of the run ends with a fault of the parser. -/
def ParsesExt4Safely (events : List LinuxEvent) : Prop :=
  ∀ n f, LinuxState.initial.run (events.take n) = .error f → f = .directoryArray

/-- Each event meets its condition where it arrives. -/
def EventsInside (events : List LinuxEvent) : Prop :=
  ∀ n s e, LinuxState.initial.run (events.take n) = .ok s → events[n]? = some e →
    s.ParsesInside e

/-- In a run whose events meet their conditions the parser has no fault. -/
theorem ext4_parsing_inside (events : List LinuxEvent) (h : EventsInside events) :
    ParsesExt4Safely events := by
  intro n f hfault
  rcases Faults.foldlM_error_at hfault with ⟨m, s, e, hrun, he, hstep⟩
  rw [List.take_take] at hrun
  have hm : m < n := by
    by_contra hle
    rw [List.getElem?_take_eq_none (by omega)] at he
    cases he
  rw [Nat.min_eq_left hm.le] at hrun
  rw [List.getElem?_take_of_lt hm] at he
  exact step_inside (h m s e hrun he) hstep

/-! ## A file system of five groups -/

/-- A data phase of one block. -/
def blockOf (content : GuestBuffer) : SectorAccess where
  count := 8
  sectorSize := 512
  inPlace := false
  content := content
  length_lt := by decide

/-- The super block: 163840 blocks in groups of 32768. -/
def fiveGroups : GuestBuffer := fun i =>
  if i = 1029 then 0x80 else if i = 1030 then 0x02 else if i = 1057 then 0x80 else 0

/-- Descriptors with a flag set. -/
def usedGroupDescs : GuestBuffer := fun i => if i % 32 = 18 then 1 else 0

/-! ## A file system of two groups -/

/-- The super block: 65536 blocks of 4096 bytes in groups of 32768, and 32 inodes of
256 bytes in each group. -/
def twoGroups : GuestBuffer := fun i =>
  if i = 1030 then 1 else if i = 1048 then 2 else if i = 1057 then 0x80 else if i = 1064 then 32
  else if i = 1113 then 1 else 0

/-- The bitmap of the first group is block 900, its table begins at block 1000; the
second descriptor is not in use. -/
def firstGroupDesc : GuestBuffer := fun i =>
  if i = 4 then 0x84 else if i = 5 then 3 else if i = 8 then 0xE8 else if i = 9 then 3
  else if i = 18 then 1 else 0

/-- The first inode is a directory of one block, 2000; the others are free. -/
def directoryInode : GuestBuffer := fun i =>
  if i = 1 then 0x40 else if i = 40 then 0x0A else if i = 41 then 0xF3 else if i = 42 then 1
  else if i = 56 then 1 else if i = 60 then 0xD0 else if i = 61 then 7 else 0

/-- Reads of the super block, of the descriptors and of the first inode table. -/
def mountEvents : List LinuxEvent :=
  [.command (tenByteCommand scsiRead10 0 8), .data (blockOf twoGroups),
    .command (tenByteCommand scsiRead10 8 8), .data (blockOf firstGroupDesc),
    .command (tenByteCommand scsiRead10 8000 8), .data (blockOf directoryInode)]

/-- The variables behind the super block. -/
def mountedSuperBlock : LinuxFs :=
  { LinuxFs.initial with
    superBlock := superBlockAt twoGroups 1024
    superBlockLoaded := true
    parseInodeTrigger := true
    sectorIndex := 8 }

/-- The variables behind the descriptors, of which the second one ended the loop. -/
def mountedGroup : LinuxFs :=
  { ({ mountedSuperBlock with groupTotal := 2 } : LinuxFs).storeGroupDesc 0
      (groupDescAt firstGroupDesc 0) with
    groupDesc := Function.update
      (Function.update LinuxFs.initial.groupDesc 0 (groupDescAt firstGroupDesc 0)) 1 ⟨0, 0, 0⟩
    readGroupDescMetadata := true
    sectorIndex := 16 }

/-- The variables behind the inodes. -/
def mountedDirectory : LinuxFs :=
  { mountedGroup with
    readGroupDescMetadata := false
    groupDescLoaded := true
    dirInodeExtentBlock := (SlotTable.fill 500 0).put 0 2000
    sectorIndex := 8008 }

/-- The states that the events are met in. -/
def mountState : Nat → LinuxFs
  | 0 => .initial
  | 1 => { LinuxFs.initial with readExt4Metadata := true, parseInodeTrigger := true }
  | 2 => mountedSuperBlock
  | 3 => { mountedSuperBlock with readGroupDescMetadata := true }
  | 4 => mountedGroup
  | 5 => { mountedGroup with sectorIndex := 8000 }
  | _ => mountedDirectory

theorem mountEvents_run (n : Nat) :
    LinuxState.initial.run (mountEvents.take n) = .ok ⟨mountState n, .closed⟩ := by
  rcases n with _ | _ | _ | _ | _ | _ | n
  · rfl
  · decide +kernel
  · decide +kernel
  · decide +kernel
  · decide +kernel
  · decide +kernel
  · have hall : LinuxState.initial.run mountEvents = .ok ⟨mountedDirectory, .closed⟩ := by
      decide +kernel
    rw [List.take_of_length_le (by simp [mountEvents])]
    exact hall

theorem blockOf_length (content : GuestBuffer) : (blockOf content).length = 4096 := by
  simp [SectorAccess.length, blockOf]

theorem blockOf_inodeInside {content : GuestBuffer} {i : Nat} (hi : i < 16) :
    LinuxFs.InodeInside (blockOf content) (i * 256) := by
  have hlength := blockOf_length content
  exact ⟨by omega, fun _ => by omega, fun _ _ => by omega⟩

/-- The super block, the descriptors and the inodes are parsed inside their buffers;
the second descriptor has no flags, and the loop stops there. -/
theorem ext4_parsing_inside_mount : ParsesExt4Safely mountEvents := by
  apply ext4_parsing_inside
  intro n s e hrun he
  rw [← Except.ok.inj ((mountEvents_run n).symm.trans hrun)]
  rcases n with _ | _ | _ | _ | _ | _ | n
  · rw [← Option.some.inj he]
    trivial
  · rw [← Option.some.inj he]
    have hskips : ¬((mountState 1).afterSuperBlock (blockOf twoGroups)).handlesInodes
        (blockOf twoGroups) := by
      rintro ⟨-, -, hdone | ⟨hdescs, -⟩⟩
      · exact absurd hdone (by decide +kernel)
      · exact absurd hdescs (by decide +kernel)
    exact fun _ _ =>
      { superBlock := fun _ => .inr (by rw [blockOf_length]; decide)
        groupDescs := fun hdescs => absurd hdescs (by decide +kernel)
        inodeSize := fun hhandles => absurd hhandles hskips
        inodes := fun hhandles => absurd hhandles hskips }
  · rw [← Option.some.inj he]
    trivial
  · rw [← Option.some.inj he]
    have hmissing : ((mountState 3).afterSuperBlock (blockOf firstGroupDesc)).missingGroups = 2 := by
      decide +kernel
    have hskips : ¬((mountState 3).afterSuperBlock (blockOf firstGroupDesc)).handlesInodes
        (blockOf firstGroupDesc) := by
      rintro ⟨-, -, hdone | ⟨-, hflags⟩⟩
      · exact absurd hdone (by decide +kernel)
      · rw [hmissing] at hflags
        exact hflags 1 (by decide) (by decide +kernel)
    refine fun _ _ =>
      { superBlock := fun hread => absurd hread (by decide +kernel)
        groupDescs := fun _ _ => ⟨by decide +kernel, fun k hk _ => ?_⟩
        inodeSize := fun hhandles => absurd hhandles hskips
        inodes := fun hhandles => absurd hhandles hskips }
    rw [hmissing] at hk
    have hcount : ((mountState 3).afterSuperBlock (blockOf firstGroupDesc)).loadedGroupDescCount =
        0 := by
      decide +kernel
    rw [hcount, blockOf_length]
    simp only [ext4GroupDescSize]
    omega
  · rw [← Option.some.inj he]
    trivial
  · rw [← Option.some.inj he]
    have hmissing : ((mountState 5).afterSuperBlock (blockOf directoryInode)).missingGroups = 0 := by
      decide +kernel
    have hsize : ((mountState 5).afterSuperBlock (blockOf directoryInode)).superBlock.sInodeSize =
        256 := by
      decide +kernel
    refine fun _ _ =>
      { superBlock := fun hread => absurd hread (by decide +kernel)
        groupDescs := fun _ _ => ⟨by decide +kernel, fun k hk _ => ?_⟩
        inodeSize := fun _ => by rw [hsize]; decide
        inodes := fun _ i hi => ?_ }
    · rw [hmissing] at hk
      exact absurd hk (Nat.not_lt_zero k)
    · rw [hsize] at hi ⊢
      exact blockOf_inodeInside hi
  · rw [List.getElem?_eq_none (by simp [mountEvents])] at he
    cases he

/-- The fifth descriptor has no entry in the arrays. -/
theorem ext4_fifth_group_outside :
    ¬ParsesExt4Safely
      [.command (tenByteCommand scsiRead10 0 8), .data (blockOf fiveGroups),
        .command (tenByteCommand scsiRead10 8 8), .data (blockOf usedGroupDescs)] := by
  intro h
  have hrun : LinuxState.initial.run
      [.command (tenByteCommand scsiRead10 0 8), .data (blockOf fiveGroups),
        .command (tenByteCommand scsiRead10 8 8), .data (blockOf usedGroupDescs)] =
      .error .groupArray := by
    rfl
  exact absurd (h 4 _ hrun) (by decide)

end RansomTag

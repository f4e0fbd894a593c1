import RansomTag.Hypervisor.GuestMemory
import RansomTag.Hypervisor.Windows
import RansomTag.Library.Faults

/-!
# The introspection of a Windows guest

`win_analyse` reads the record of the current process, its IRP list and the names
of their files from guest memory into arrays on its stack.  A copy beyond the end
of its array ends the run.
-/

namespace RansomTag

/-! ## Records -/

/-- The arrays that guest data is copied to. -/
inductive WinArray where
  | processName
  | fileNameStr
  | irpInfo
  deriving DecidableEq

def processNameSize : Nat := 15
def fileNameStrSize : Nat := 512
abbrev irpInfoSize : Nat := 5

/-- `win_file_object_info`; `length` and `buffer` are those of `FileName`. -/
structure WinFileObjectInfo where
  fileObject : VirtAddr
  length : BitVec 16
  buffer : VirtAddr
  fileNameStr : Vector Byte fileNameStrSize
  byteOffset : BitVec 64
  isMft : Bool
  isBitmap : Bool

/-- `win_irp_info` -/
structure WinIrpInfo where
  irp : VirtAddr
  stackCount : BitVec 8
  currentLocation : BitVec 8
  currentStackLocation : VirtAddr
  topStackLocation : VirtAddr
  majorFunction : BitVec 8
  fileObjectInfo : WinFileObjectInfo
  readWriteLength : BitVec 64
  used : Bool

/-- `win_process_info`; `listEntryField`, `flink` and `blink` are `IrpList`. -/
structure WinProcessRecord where
  eProcess : VirtAddr
  eThread : VirtAddr
  listEntryField : VirtAddr
  flink : VirtAddr
  blink : VirtAddr
  directoryTableBase : BitVec 64
  cr3 : BitVec 64
  processName : Vector Byte processNameSize
  irpInfo : Fin irpInfoSize → WinIrpInfo

/-- What the tagging uses of the record. -/
def WinProcessRecord.info (p : WinProcessRecord) : WinProcessInfo where
  eThread := p.eThread.toNat
  processName := p.processName.toList
  isMft := (p.irpInfo 0).fileObjectInfo.isMft

/-- The globals of the bitmap comparison that an IRP of `$Bitmap` sets. -/
structure WinBitmapTriggers where
  bitmapInited : Bool
  bitmapCheckTrigger : Bool
  bitmapLba : Nat
  bitmapOffset : BitVec 64

/-- What an introspection finds in the registers of the processor and on its
stack, where no variable is set. -/
structure WinFrame where
  gsBase : VirtAddr
  cr3 : BitVec 64
  kprcb : VirtAddr
  currentThread : VirtAddr
  currentProcess : VirtAddr
  directoryTableBase : BitVec 64
  flink : VirtAddr
  process : WinProcessRecord

/-! ## Reads -/

def structKpcrKprcbOffset : VirtAddr := 0x20
def structKprcbCurrentThreadOffset : VirtAddr := 0x8
def structEthreadProcessOffset : VirtAddr := 0x220
def structEthreadIrplistOffset : VirtAddr := 0x670
def structEprocessImageFileNameOffset : VirtAddr := 0x450
def structEprocessDirectoryTableBaseOffset : VirtAddr := 0x28
def structIrpThreadListEntryOffset : VirtAddr := 0x20
def structIrpStackCountOffset : VirtAddr := 0x42
def structIrpCurrentLocationOffset : VirtAddr := 0x43
def irpIoStackLocationOffset : VirtAddr := 0x78 + 0x0 + 0x40
def irpOriginalFileObjectOffset : VirtAddr := 0x78 + 0x0 + 0x48
def sizeofStructIoStackLocation : VirtAddr := 0x48
def structIoStackLocationLengthOffset : VirtAddr := 0x8
def structIoStackLocationByteoffsetOffset : VirtAddr := 0x18
def structFileObjectFilenameOffset : VirtAddr := 0x58
def structUnicodeStringBufferOffset : VirtAddr := 0x8
def irpMjRead : BitVec 8 := 3
def irpMjWrite : BitVec 8 := 4
def bitmapLbaOfVolume : Nat := 2072

/-- `is_win_kernel_addr` of an address. -/
def isWinKernel (addr : VirtAddr) : Bool := isWinKernelAddr addr.toNat

namespace Guest

variable (g : Guest)

/-- `win_read_virtaddr_data` into a variable. -/
def winRead {w : Nat} (virtAddr : VirtAddr) (old : BitVec w) : BitVec w :=
  g.readValue isWinKernel virtAddr old

/-- One of `readLen` bytes has its place behind the end of an array of `n`, and its
page is mapped, so that it is stored. -/
def LeavesArray (virtAddr : VirtAddr) (readLen n : Nat) : Prop :=
  ∃ i < readLen, n ≤ i ∧ (g.byteAt (virtAddr + BitVec.ofNat 64 i)).isSome = true

instance (virtAddr : VirtAddr) (readLen n : Nat) : Decidable (g.LeavesArray virtAddr readLen n) :=
  inferInstanceAs (Decidable (∃ i < readLen, _))

/-- `win_read_virtaddr_data` of `readLen` bytes into an array. -/
def winReadVirtaddrData (array : WinArray) (virtAddr : VirtAddr) (readLen : Nat) {n : Nat}
    (data : Vector Byte n) : Except WinArray (Vector Byte n) :=
  if isWinKernel virtAddr then
    if g.LeavesArray virtAddr readLen n then .error array
    else
      .ok (data.mapIdx fun i b =>
        if i < readLen then g.readLinearaddrB (virtAddr + BitVec.ofNat 64 i) b else b)
  else .ok data

/-- `win_get_CurrentThread`, by way of `win_get_KPRCB`. -/
def winGetCurrentThread (f : WinFrame) : VirtAddr :=
  let kprcb := g.winRead (f.gsBase + structKpcrKprcbOffset) f.kprcb
  g.winRead (kprcb + structKprcbCurrentThreadOffset) f.currentThread

/-- The link to the process, as `win_get_CurrentProcessInfo` reads it. -/
def winCurrentProcess (f : WinFrame) : VirtAddr :=
  g.winRead (g.winGetCurrentThread f + structEthreadProcessOffset) f.currentProcess

/-- `win_get_CurrentProcessInfo` -/
def winGetCurrentProcessInfo (f : WinFrame) : Except WinArray WinProcessRecord :=
  let thread := g.winGetCurrentThread f
  if isWinKernel thread then
    let process := g.winCurrentProcess f
    (g.winReadVirtaddrData .processName (process + structEprocessImageFileNameOffset) 16
      f.process.processName).bind fun name =>
      .ok { f.process with
        eProcess := process
        eThread := thread
        listEntryField := thread + structEthreadIrplistOffset
        flink := g.winRead (thread + structEthreadIrplistOffset) f.process.flink
        blink := g.winRead (thread + structEthreadIrplistOffset + 8) f.process.blink
        directoryTableBase :=
          g.winRead (process + structEprocessDirectoryTableBaseOffset) f.directoryTableBase
        cr3 := f.cr3
        processName := name
        irpInfo := fun i => { f.process.irpInfo i with used := false } }
  else .ok f.process

/-- `win_get_FileObjectInfo` -/
def winGetFileObjectInfo (info : WinFileObjectInfo) : Except WinArray WinFileObjectInfo :=
  let length := g.winRead (info.fileObject + structFileObjectFilenameOffset) info.length
  let buffer :=
    g.winRead
      (info.fileObject + structFileObjectFilenameOffset + structUnicodeStringBufferOffset)
      info.buffer
  (g.winReadVirtaddrData .fileNameStr buffer length.toNat info.fileNameStr).bind fun name =>
    .ok { info with length := length, buffer := buffer, fileNameStr := name }

end Guest

/-- `NTFS_MetaFile_MFT` and `NTFS_MetaFile_Bitmap`, as far as they are compared. -/
def ntfsMetaFileMft : List Byte := [0x5C, 0x0, 0x24, 0x0, 0x4D, 0x0, 0x66, 0x0, 0x74]

def ntfsMetaFileBitmap : List Byte :=
  [0x5C, 0x0, 0x24, 0x0, 0x42, 0x0, 0x69, 0x0, 0x74, 0x0, 0x4D, 0x0, 0x61, 0x0, 0x70]

/-- The two files that `win_is_MFT_or_Bitmap` knows. -/
inductive WinMetaFile where
  | mft
  | bitmap
  deriving DecidableEq

/-- `win_is_MFT_or_Bitmap` -/
def winIsMftOrBitmap (fileNameStr : Vector Byte fileNameStrSize) (lba : Nat) :
    Option WinMetaFile :=
  if fileNameStr.toList.take 9 = ntfsMetaFileMft then some .mft
  else if lba = bitmapLbaOfVolume ∨ fileNameStr.toList.take 15 = ntfsMetaFileBitmap then
    some .bitmap
  else none

namespace Guest

variable (g : Guest)

/-- The end of `win_get_IrpInfo`, behind the file object. -/
def winSetIrpInfo (lba : Nat) (info : WinIrpInfo) (t : WinBitmapTriggers) :
    WinIrpInfo × WinBitmapTriggers :=
  let moves := info.majorFunction = irpMjRead ∨ info.majorFunction = irpMjWrite
  let byteOffset :=
    if moves then
      g.winRead (info.topStackLocation + structIoStackLocationByteoffsetOffset)
        info.fileObjectInfo.byteOffset
    else 0
  let readWriteLength :=
    if moves then
      g.winRead (info.topStackLocation + structIoStackLocationLengthOffset) info.readWriteLength
    else 0
  let file := winIsMftOrBitmap info.fileObjectInfo.fileNameStr lba
  ({ info with
      fileObjectInfo := { info.fileObjectInfo with
        byteOffset := byteOffset
        isMft := file == some .mft
        isBitmap := file == some .bitmap }
      readWriteLength := readWriteLength
      used := true },
    if file = some .bitmap then
      { t with
        bitmapCheckTrigger :=
          t.bitmapCheckTrigger || t.bitmapInited && info.majorFunction == irpMjWrite
        bitmapLba := lba
        bitmapOffset := byteOffset }
    else t)

/-- `win_get_IrpInfo` -/
def winGetIrpInfo (lba : Nat) (info : WinIrpInfo) (t : WinBitmapTriggers) :
    Except WinArray (WinIrpInfo × WinBitmapTriggers) :=
  if isWinKernel info.irp then
    let stackCount := g.winRead (info.irp + structIrpStackCountOffset) info.stackCount
    let currentLocation :=
      g.winRead (info.irp + structIrpCurrentLocationOffset) info.currentLocation
    let currentStackLocation :=
      g.winRead (info.irp + irpIoStackLocationOffset) info.currentStackLocation
    let topStackLocation :=
      currentStackLocation +
        (stackCount.signExtend 64 - currentLocation.signExtend 64) * sizeofStructIoStackLocation
    let fileObject :=
      g.winRead (info.irp + irpOriginalFileObjectOffset) info.fileObjectInfo.fileObject
    let read : WinIrpInfo :=
      { info with
        stackCount := stackCount
        currentLocation := currentLocation
        currentStackLocation := currentStackLocation
        topStackLocation := topStackLocation
        majorFunction := g.winRead topStackLocation info.majorFunction
        fileObjectInfo := { info.fileObjectInfo with fileObject := fileObject } }
    if isWinKernel fileObject then
      (g.winGetFileObjectInfo read.fileObjectInfo).bind fun file =>
        .ok (g.winSetIrpInfo lba { read with fileObjectInfo := file } t)
    else .ok (read, t)
  else .ok (info, t)

/-- The loop of `traverse_IrpList`, with `room` entries left in `IrpInfo`. -/
def traverseIrps (lba : Nat) : Nat → VirtAddr → VirtAddr → WinProcessRecord →
    WinBitmapTriggers → Except WinArray (WinProcessRecord × WinBitmapTriggers)
  | 0, _, _, _, _ => .error .irpInfo
  | room + 1, index, flink, p, t =>
      let irpCount := irpInfoSize - (room + 1)
      let irp := index - structIrpThreadListEntryOffset
      if index = p.listEntryField then .ok (p, t)
      else if isWinKernel index && isWinKernel irp then
        let i : Fin irpInfoSize := ⟨irpCount, by unfold irpCount irpInfoSize; omega⟩
        (g.winGetIrpInfo lba { p.irpInfo i with irp := irp } t).bind fun r =>
          let p := { p with irpInfo := Function.update p.irpInfo i r.1 }
          let flink := g.winRead index flink
          if irpCount + 1 = 4 then .ok (p, r.2)
          else traverseIrps lba room flink flink p r.2
      else .ok (p, t)

/-- `traverse_IrpList`, with what its `Flink` holds before. -/
def traverseIrpList (lba : Nat) (flink : VirtAddr) (p : WinProcessRecord)
    (t : WinBitmapTriggers) : Except WinArray (WinProcessRecord × WinBitmapTriggers) :=
  if isWinKernel p.listEntryField then
    g.traverseIrps lba irpInfoSize p.flink flink p t
  else .ok (p, t)

end Guest

/-- What `win_analyse` knows of the guest when it tags: the second record is that
of `win_Handle_Recovery`. -/
structure WinSeen where
  current : WinProcessRecord
  recovery : Option WinProcessRecord
  triggers : WinBitmapTriggers

namespace Guest

variable (g : Guest)

/-- The introspection of `win_analyse` and, for a read, of `win_Handle_Recovery`. -/
def winIntrospect (f recovery : WinFrame) (t : WinBitmapTriggers) (c : Cbw) :
    Except WinArray WinSeen :=
  (g.winGetCurrentProcessInfo f).bind fun p =>
    if isWinKernel p.eThread then
      (g.traverseIrpList c.lba f.flink p t).bind fun r =>
        if c.opcode = scsiRead10 then
          (g.winGetCurrentProcessInfo recovery).bind fun q => .ok ⟨r.1, some q, r.2⟩
        else .ok ⟨r.1, none, r.2⟩
    else .ok ⟨p, none, t⟩

/-- `win_analyse` on a guest, with `sector2048count` before and after. -/
def winAnalyse (f recovery : WinFrame) (t : WinBitmapTriggers) (count : Nat) (c : Cbw) :
    Except WinArray (Cbw × Nat) :=
  (g.winIntrospect f recovery t c).map fun seen =>
    RansomTag.winAnalyse ⟨seen.current.info, (seen.recovery.getD seen.current).info⟩ count c

end Guest

/-! ## What a copy needs -/

namespace Guest

variable (g : Guest)

/-- The name of the process is read, sixteen bytes for an array of fifteen, and the
last of them is mapped. -/
def NameLeavesArray (f : WinFrame) : Prop :=
  isWinKernel (g.winGetCurrentThread f) ∧
    isWinKernel (g.winCurrentProcess f + structEprocessImageFileNameOffset) ∧
      (g.byteAt (g.winCurrentProcess f + structEprocessImageFileNameOffset + 15)).isSome = true

instance (f : WinFrame) : Decidable (g.NameLeavesArray f) :=
  inferInstanceAs (Decidable (_ ∧ _ ∧ _))

/-- A byte of the name behind the read: the guest's, where it is read and mapped. -/
def nameByte (f : WinFrame) (i : Nat) (old : Byte) : Byte :=
  if isWinKernel (g.winCurrentProcess f + structEprocessImageFileNameOffset) then
    (g.byteAt (g.winCurrentProcess f + structEprocessImageFileNameOffset +
      BitVec.ofNat 64 i)).getD old
  else old

/-- One of the fifteen bytes is zero; without a thread it is one of the stack. -/
def NameEnds (f : WinFrame) : Prop :=
  (isWinKernel (g.winGetCurrentThread f) = true →
    ∃ i, ∃ h : i < processNameSize, g.nameByte f i f.process.processName[i] = 0) ∧
  (isWinKernel (g.winGetCurrentThread f) = false → 0 ∈ f.process.processName.toList)

/-- The record of the process. -/
def winProcessRead (f : WinFrame) : WinProcessRecord :=
  let thread := g.winGetCurrentThread f
  let process := g.winCurrentProcess f
  if isWinKernel thread then
    { f.process with
      eProcess := process
      eThread := thread
      listEntryField := thread + structEthreadIrplistOffset
      flink := g.winRead (thread + structEthreadIrplistOffset) f.process.flink
      blink := g.winRead (thread + structEthreadIrplistOffset + 8) f.process.blink
      directoryTableBase :=
        g.winRead (process + structEprocessDirectoryTableBaseOffset) f.directoryTableBase
      cr3 := f.cr3
      processName := f.process.processName.mapIdx fun i b => g.nameByte f i b
      irpInfo := fun i => { f.process.irpInfo i with used := false } }
  else f.process

/-- The file object of this IRP has a name that fits, or none is read. -/
def FileNameFits (old : WinFileObjectInfo) (irp : VirtAddr) : Prop :=
  let fileObject := g.winRead (irp + irpOriginalFileObjectOffset) old.fileObject
  let name := fileObject + structFileObjectFilenameOffset
  isWinKernel fileObject →
    isWinKernel (g.winRead (name + structUnicodeStringBufferOffset) old.buffer) →
      ¬g.LeavesArray (g.winRead (name + structUnicodeStringBufferOffset) old.buffer)
        (g.winRead name old.length).toNat fileNameStrSize

/-- The links of the IRP list that the loop follows, with `room` entries left. -/
def irpLinks (listEntryField : VirtAddr) : Nat → VirtAddr → VirtAddr → List VirtAddr
  | 0, _, _ => []
  | room + 1, index, flink =>
      if index = listEntryField then []
      else if isWinKernel index && isWinKernel (index - structIrpThreadListEntryOffset) then
        index ::
          if irpInfoSize - (room + 1) + 1 = 4 then []
          else
            irpLinks listEntryField room (g.winRead index flink) (g.winRead index flink)
      else []

end Guest

/-! ## Copies -/

section

variable {g : Guest}

/-- A copy stays in its array exactly where it stores no byte behind it. -/
theorem winReadVirtaddrData_ok_iff {array : WinArray} {virtAddr : VirtAddr} {readLen n : Nat}
    {data : Vector Byte n} :
    (∃ r, g.winReadVirtaddrData array virtAddr readLen data = .ok r) ↔
      (isWinKernel virtAddr = true → ¬g.LeavesArray virtAddr readLen n) := by
  unfold Guest.winReadVirtaddrData
  split_ifs with hkernel hleaves
  · refine ⟨?_, fun h => absurd hleaves (h hkernel)⟩
    rintro ⟨r, hr⟩
    cases hr
  · exact ⟨fun _ _ => hleaves, fun _ => ⟨_, rfl⟩⟩
  · exact ⟨fun _ h => absurd h hkernel, fun _ => ⟨_, rfl⟩⟩

/-- Of the sixteen bytes of the name only the last one has no place. -/
theorem leavesArray_name_iff {virtAddr : VirtAddr} :
    g.LeavesArray virtAddr 16 processNameSize ↔ (g.byteAt (virtAddr + 15)).isSome = true := by
  constructor
  · rintro ⟨i, hi, hle, hmapped⟩
    unfold processNameSize at hle
    obtain rfl : i = 15 := by omega
    simpa using hmapped
  · intro hmapped
    exact ⟨15, by decide, le_rfl, hmapped⟩

theorem winGetCurrentProcessInfo_of_leaves {f : WinFrame} (h : g.NameLeavesArray f) :
    g.winGetCurrentProcessInfo f = .error .processName := by
  have hleaves := leavesArray_name_iff.mpr h.2.2
  unfold Guest.winGetCurrentProcessInfo Guest.winReadVirtaddrData
  simp only [h.1, h.2.1, if_true, if_pos hleaves]
  rfl

theorem winGetCurrentProcessInfo_of_not_leaves {f : WinFrame} (h : ¬g.NameLeavesArray f) :
    g.winGetCurrentProcessInfo f = .ok (g.winProcessRead f) := by
  unfold Guest.winGetCurrentProcessInfo Guest.winProcessRead
  by_cases hthread : isWinKernel (g.winGetCurrentThread f) = true
  · unfold Guest.winReadVirtaddrData Guest.nameByte
    by_cases hname : isWinKernel
        (g.winCurrentProcess f + structEprocessImageFileNameOffset) = true
    · have hfits : ¬g.LeavesArray (g.winCurrentProcess f + structEprocessImageFileNameOffset) 16
          processNameSize := by
        intro hleaves
        exact h ⟨hthread, hname, leavesArray_name_iff.mp hleaves⟩
      have hcopied : (f.process.processName.mapIdx fun i b =>
          if i < 16 then
            g.readLinearaddrB (g.winCurrentProcess f + structEprocessImageFileNameOffset +
              BitVec.ofNat 64 i) b
          else b) = f.process.processName.mapIdx fun i b =>
            (g.byteAt (g.winCurrentProcess f + structEprocessImageFileNameOffset +
              BitVec.ofNat 64 i)).getD b := by
        apply Vector.ext
        intro i hi
        have hlt : i < 16 := by
          unfold processNameSize at hi
          omega
        simp only [Vector.getElem_mapIdx, if_pos hlt, Guest.readLinearaddrB_eq]
      simp only [hthread, hname, if_true, if_neg hfits, Faults.bind_ok, hcopied]
    · have hsame : f.process.processName.mapIdx (fun _ b => b) = f.process.processName := by
        apply Vector.ext
        intro i hi
        simp
      simp only [hthread, hname, if_true, Bool.false_eq_true, if_false, Faults.bind_ok, hsame]
  · simp only [hthread, Bool.false_eq_true, if_false]

/-- The record of the process is read exactly where its name stays in the array. -/
theorem winGetCurrentProcessInfo_eq_ok_iff {f : WinFrame} {p : WinProcessRecord} :
    g.winGetCurrentProcessInfo f = .ok p ↔ ¬g.NameLeavesArray f ∧ p = g.winProcessRead f := by
  by_cases hread : g.NameLeavesArray f
  · rw [winGetCurrentProcessInfo_of_leaves hread]
    simp [hread]
  · rw [winGetCurrentProcessInfo_of_not_leaves hread]
    simp [hread, eq_comm]

theorem winGetFileObjectInfo_ok_iff {info : WinFileObjectInfo} :
    (∃ r, g.winGetFileObjectInfo info = .ok r) ↔
      (isWinKernel
          (g.winRead
            (info.fileObject + structFileObjectFilenameOffset +
              structUnicodeStringBufferOffset) info.buffer) = true →
        ¬g.LeavesArray
          (g.winRead
            (info.fileObject + structFileObjectFilenameOffset +
              structUnicodeStringBufferOffset) info.buffer)
          (g.winRead (info.fileObject + structFileObjectFilenameOffset) info.length).toNat
          fileNameStrSize) := by
  unfold Guest.winGetFileObjectInfo
  rw [Faults.isOk_bind_pure, winReadVirtaddrData_ok_iff]

/-- A name with these values does not fit. -/
theorem not_fileNameFits {old : WinFileObjectInfo} {irp : VirtAddr} (object buffer : VirtAddr)
    (length : BitVec 16)
    (hobject : g.winRead (irp + irpOriginalFileObjectOffset) old.fileObject = object)
    (hbuffer : g.winRead (object + structFileObjectFilenameOffset +
      structUnicodeStringBufferOffset) old.buffer = buffer)
    (hlength : g.winRead (object + structFileObjectFilenameOffset) old.length = length)
    (hobjectKernel : isWinKernel object = true) (hbufferKernel : isWinKernel buffer = true)
    (hleaves : g.LeavesArray buffer length.toNat fileNameStrSize) : ¬g.FileNameFits old irp := by
  subst hobject hbuffer hlength
  intro hfits
  exact hfits hobjectKernel hbufferKernel hleaves

/-- An IRP is read exactly where the name of its file fits. -/
theorem winGetIrpInfo_ok_iff (lba : Nat) (info : WinIrpInfo) (t : WinBitmapTriggers)
    (hirp : isWinKernel info.irp = true) :
    (∃ r, g.winGetIrpInfo lba info t = .ok r) ↔
      g.FileNameFits info.fileObjectInfo info.irp := by
  unfold Guest.winGetIrpInfo Guest.FileNameFits
  simp only [if_pos hirp]
  split_ifs with hfile
  · rw [Faults.isOk_bind_pure, winGetFileObjectInfo_ok_iff]
    exact ⟨fun h _ => h, fun h => h hfile⟩
  · exact ⟨fun _ h => absurd h hfile, fun _ => ⟨_, rfl⟩⟩

/-- What holds of the entries from `k` on that a list is laid out over. -/
theorem forall_entries_cons {k : Nat} (hk : k < irpInfoSize) {x : VirtAddr}
    {xs : List VirtAddr} {P : Fin irpInfoSize → VirtAddr → Prop} :
    (∀ (j : Nat) (i : Fin irpInfoSize) (link : VirtAddr), i.val = k + j →
        (x :: xs)[j]? = some link → P i link) ↔
      P ⟨k, hk⟩ x ∧
        ∀ (j : Nat) (i : Fin irpInfoSize) (link : VirtAddr), i.val = k + 1 + j →
          xs[j]? = some link → P i link := by
  constructor
  · intro h
    exact ⟨h 0 ⟨k, hk⟩ x rfl rfl, fun j i link hi hlink =>
      h (j + 1) i link (by omega) (by simpa using hlink)⟩
  · rintro ⟨hfirst, hrest⟩ j i link hi hlink
    cases j with
    | zero =>
        have hfin : i = ⟨k, hk⟩ := Fin.ext hi
        cases hlink
        rw [hfin]
        exact hfirst
    | succ j => exact hrest j i link (by omega) (by simpa using hlink)

/-- The loop goes through exactly where the name of each file that it comes to
fits; the break at four entries keeps it in `IrpInfo`. -/
theorem traverseIrps_ok_iff {lba room : Nat} {index flink : VirtAddr} {p : WinProcessRecord}
    {t : WinBitmapTriggers} (hlow : 2 ≤ room) (hhigh : room ≤ irpInfoSize) :
    (∃ r, g.traverseIrps lba room index flink p t = .ok r) ↔
      ∀ (j : Nat) (i : Fin irpInfoSize) (link : VirtAddr), i.val = irpInfoSize - room + j →
        (g.irpLinks p.listEntryField room index flink)[j]? = some link →
          g.FileNameFits (p.irpInfo i).fileObjectInfo
            (link - structIrpThreadListEntryOffset) := by
  induction room generalizing index flink p t with
  | zero => omega
  | succ room ih =>
      unfold Guest.traverseIrps Guest.irpLinks
      by_cases hend : index = p.listEntryField
      · simp only [if_pos hend]
        exact ⟨fun _ j i link _ h => by simp at h, fun _ => ⟨_, rfl⟩⟩
      · simp only [if_neg hend]
        by_cases hkernel :
            (isWinKernel index && isWinKernel (index - structIrpThreadListEntryOffset)) = true
        · simp only [if_pos hkernel]
          have hk : irpInfoSize - (room + 1) < irpInfoSize := by omega
          have hirp := (Bool.and_eq_true_iff.mp hkernel).2
          rw [Faults.isOk_bind, forall_entries_cons hk]
          rw [← winGetIrpInfo_ok_iff lba
            { p.irpInfo ⟨_, hk⟩ with irp := index - structIrpThreadListEntryOffset } t hirp,
            ← exists_and_right]
          refine exists_congr fun r => and_congr_right fun _ => ?_
          by_cases hbreak : irpInfoSize - (room + 1) + 1 = 4
          · simp only [if_pos hbreak]
            exact ⟨fun _ j i link _ h => by simp at h, fun _ => ⟨_, rfl⟩⟩
          · simp only [if_neg hbreak]
            have hsize : irpInfoSize = 5 := rfl
            have hcount : irpInfoSize - room = irpInfoSize - (room + 1) + 1 := by omega
            rw [ih (by omega) (by omega), hcount]
            refine forall₄_congr fun j i link hi => ?_
            have hne : i ≠ ⟨irpInfoSize - (room + 1), hk⟩ := by
              rintro rfl
              simp only at hi
              omega
            simp only [Function.update_of_ne hne]
        · simp only [if_neg hkernel]
          exact ⟨fun _ j i link _ h => by simp at h, fun _ => ⟨_, rfl⟩⟩

theorem traverseIrpList_ok_iff {lba : Nat} {flink : VirtAddr} {p : WinProcessRecord}
    {t : WinBitmapTriggers} :
    (∃ r, g.traverseIrpList lba flink p t = .ok r) ↔
      (isWinKernel p.listEntryField = true → ∀ (i : Fin irpInfoSize) link,
        (g.irpLinks p.listEntryField irpInfoSize p.flink flink)[i.val]? = some link →
          g.FileNameFits (p.irpInfo i).fileObjectInfo
            (link - structIrpThreadListEntryOffset)) := by
  unfold Guest.traverseIrpList
  split_ifs with hfield
  · rw [traverseIrps_ok_iff (by decide) le_rfl]
    constructor
    · intro h _ i link hlink
      exact h i.val i link (by omega) hlink
    · intro h j i link hi hlink
      have hj : j = i.val := by omega
      rw [hj] at hlink
      exact h hfield i link hlink
  · exact ⟨fun _ h => absurd h hfield, fun _ => ⟨_, rfl⟩⟩

end

/-! ## The introspection -/

namespace Guest

variable (g : Guest) (f recovery : WinFrame) (t : WinBitmapTriggers) (c : Cbw)

/-- No copy leaves its array, and the name that `win_Handle_Recovery` searches
ends in its own. -/
def IntrospectsInBounds : Prop :=
  ∃ seen, g.winIntrospect f recovery t c = .ok seen ∧
    ∀ q, seen.recovery = some q → isWinKernel q.eThread → 0 ∈ q.processName.toList

/-- No name of a process has its sixteenth byte mapped, the names of the files on the
IRP list fit, and the name that is searched has an end. -/
structure CopiesFit : Prop where
  name : ¬g.NameLeavesArray f
  files : isWinKernel (g.winProcessRead f).eThread →
    isWinKernel (g.winProcessRead f).listEntryField →
      ∀ (i : Fin irpInfoSize) link,
        (g.irpLinks (g.winProcessRead f).listEntryField irpInfoSize
            (g.winProcessRead f).flink f.flink)[i.val]? = some link →
          g.FileNameFits ((g.winProcessRead f).irpInfo i).fileObjectInfo
            (link - structIrpThreadListEntryOffset)
  recovery : isWinKernel (g.winProcessRead f).eThread → c.opcode = scsiRead10 →
    ¬g.NameLeavesArray recovery ∧
      (isWinKernel (g.winProcessRead recovery).eThread → g.NameEnds recovery)

variable {g f recovery t c}

theorem winProcessRead_nameEnds_iff :
    0 ∈ (g.winProcessRead f).processName.toList ↔ g.NameEnds f := by
  unfold winProcessRead NameEnds
  cases hthread : isWinKernel (g.winGetCurrentThread f) with
  | true =>
      simp only [hthread, if_true, Vector.mem_toList_iff, Vector.mem_iff_getElem,
        Vector.getElem_mapIdx, forall_const, Bool.true_eq_false, false_imp_iff, and_true]
  | false =>
      simp only [hthread, Bool.false_eq_true, if_false, false_imp_iff, forall_const, true_and]

theorem recovery_ends_iff {q : WinProcessRecord} (h : q = g.winProcessRead f) :
    (∀ q', some q = some q' → isWinKernel q'.eThread = true → 0 ∈ q'.processName.toList) ↔
      (isWinKernel (g.winProcessRead f).eThread = true → g.NameEnds f) := by
  rw [← winProcessRead_nameEnds_iff, ← h]
  constructor
  · intro hall
    exact hall q rfl
  · intro hends q' hq'
    rw [← Option.some.inj hq']
    exact hends

theorem IntrospectsInBounds.copiesFit (h : g.IntrospectsInBounds f recovery t c) :
    g.CopiesFit f recovery c := by
  obtain ⟨seen, hseen, hend⟩ := h
  unfold winIntrospect at hseen
  by_cases hname : g.NameLeavesArray f
  · rw [winGetCurrentProcessInfo_of_leaves hname] at hseen
    cases hseen
  · rw [winGetCurrentProcessInfo_of_not_leaves hname, Faults.bind_ok] at hseen
    by_cases hthread : isWinKernel (g.winProcessRead f).eThread = true
    · rw [if_pos hthread] at hseen
      rcases Faults.bind_eq_ok_iff.mp hseen with ⟨r, hwalk, hrest⟩
      refine ⟨hname, fun _ => traverseIrpList_ok_iff.mp ⟨r, hwalk⟩, fun _ hread => ?_⟩
      rw [if_pos hread] at hrest
      rcases Faults.bind_eq_ok_iff.mp hrest with ⟨q, hq, hseen⟩
      rcases winGetCurrentProcessInfo_eq_ok_iff.mp hq with ⟨hrecovery, hrecord⟩
      rw [← Except.ok.inj hseen] at hend
      exact ⟨hrecovery, (recovery_ends_iff hrecord).mp hend⟩
    · exact ⟨hname, fun h => absurd h hthread, fun h => absurd h hthread⟩

theorem CopiesFit.introspectsInBounds (h : g.CopiesFit f recovery c) :
    g.IntrospectsInBounds f recovery t c := by
  unfold IntrospectsInBounds winIntrospect
  rw [winGetCurrentProcessInfo_of_not_leaves h.name]
  simp only [Faults.bind_ok]
  by_cases hthread : isWinKernel (g.winProcessRead f).eThread = true
  · simp only [if_pos hthread]
    rcases traverseIrpList_ok_iff.mpr (h.files hthread) with ⟨r, hwalk⟩
    rw [hwalk]
    simp only [Faults.bind_ok]
    by_cases hread : c.opcode = scsiRead10
    · rcases h.recovery hthread hread with ⟨hname, hend⟩
      rw [if_pos hread, winGetCurrentProcessInfo_of_not_leaves hname, Faults.bind_ok]
      exact ⟨_, rfl, (recovery_ends_iff rfl).mpr hend⟩
    · rw [if_neg hread]
      refine ⟨_, rfl, ?_⟩
      rintro q hq
      cases hq
  · simp only [if_neg hthread]
    refine ⟨_, rfl, ?_⟩
    rintro q hq
    cases hq

/-- The introspection stays in its arrays exactly where what it copies fits. -/
theorem introspectsInBounds_iff :
    g.IntrospectsInBounds f recovery t c ↔ g.CopiesFit f recovery c :=
  ⟨IntrospectsInBounds.copiesFit, CopiesFit.introspectsInBounds⟩

/-- A command whose introspection goes through reaches the device as the guest sent
it, but for its tag. -/
theorem winAnalyse_decodes_of_ok {count : Nat} {r : Cbw × Nat}
    (h : g.winAnalyse f recovery t count c = .ok r) :
    r.1.opcode = c.opcode ∧ r.1.lba = c.lba ∧ r.1.blocks = c.blocks := by
  unfold winAnalyse at h
  cases hseen : g.winIntrospect f recovery t c with
  | error array =>
      rw [hseen] at h
      cases h
  | ok seen =>
      rw [hseen] at h
      rw [← Except.ok.inj h]
      exact RansomTag.winAnalyse_decodes _ count c

end Guest

/-! ## Copies beyond the arrays -/

/-- A stack of zeros. -/
def clearedFrame : WinFrame where
  gsBase := 0xFFFFF80000000000
  cr3 := 0
  kprcb := 0
  currentThread := 0
  currentProcess := 0
  directoryTableBase := 0
  flink := 0
  process :=
    { eProcess := 0
      eThread := 0
      listEntryField := 0
      flink := 0
      blink := 0
      directoryTableBase := 0
      cr3 := 0
      processName := .replicate _ 0
      irpInfo := fun _ =>
        { irp := 0
          stackCount := 0
          currentLocation := 0
          currentStackLocation := 0
          topStackLocation := 0
          majorFunction := 0
          fileObjectInfo :=
            { fileObject := 0
              length := 0
              buffer := 0
              fileNameStr := .replicate _ 0
              byteOffset := 0
              isMft := false
              isBitmap := false }
          readWriteLength := 0
          used := false } }

/-- The words of a guest with a thread and a process in its kernel. -/
def processWord (addr : BitVec 64) : BitVec 64 :=
  if addr = 0xFFFFF80000000020 then 0xFFFFF80000001000
  else if addr = 0xFFFFF80000001008 then 0xFFFFF80000002000
  else if addr = 0xFFFFF80000002220 then 0xFFFFF80000003000
  else 0

/-- The words of a guest whose thread has no process, and an IRP for a file with a
name of 32768 bytes. -/
def fileWord (addr : BitVec 64) : BitVec 64 :=
  if addr = 0xFFFFF80000000020 then 0xFFFFF80000001000
  else if addr = 0xFFFFF80000001008 then 0xFFFFF80000002000
  else if addr = 0xFFFFF80000002670 then 0xFFFFF80000004020
  else if addr = 0xFFFFF800000040C0 then 0xFFFFF80000005000
  else if addr = 0xFFFFF80000005058 then 0x8000
  else if addr = 0xFFFFF80000005060 then 0xFFFFF80000006000
  else 0

/-- The name of an ordinary process leaves its array, and so does a long name of a
file. -/
theorem win_introspection_overflows :
    ¬(Guest.ofWords processWord).IntrospectsInBounds clearedFrame clearedFrame
        ⟨false, false, 0, 0⟩ (tenByteCommand scsiWrite10 4096 8) ∧
      ¬(Guest.ofWords fileWord).IntrospectsInBounds clearedFrame clearedFrame
        ⟨false, false, 0, 0⟩ (tenByteCommand scsiWrite10 4096 8) := by
  constructor
  · intro h
    exact h.copiesFit.name (by decide +kernel)
  · intro h
    have hfits := h.copiesFit.files (by decide +kernel) (by decide +kernel) 0 0xFFFFF80000004020
      (by decide +kernel)
    have hleaves : (Guest.ofWords fileWord).LeavesArray 0xFFFFF80000006000
        (0x8000 : BitVec 16).toNat fileNameStrSize := ⟨512, by decide, by decide, by decide +kernel⟩
    exact not_fileNameFits 0xFFFFF80000005000 0xFFFFF80000006000 0x8000 (by decide +kernel)
      (by decide +kernel) (by decide +kernel) (by decide +kernel) (by decide +kernel) hleaves hfits

end RansomTag

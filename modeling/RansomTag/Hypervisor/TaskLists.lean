import RansomTag.Hypervisor.GuestMemory
import RansomTag.Library.Loops

/-!
# Walks of the guest's task list

`traverse_task_list_by_inode` and `traverse_task_list_by_cr3` follow the links
of the guest's tasks until the search finds one, or a link leads back to the
start.  The record of a task is filled by reads of guest memory; where these
fail, it keeps what it held of the task before.
-/

namespace RansomTag

/-- `is_linux_kernel_addr` -/
def isLinuxKernelAddr (addr : VirtAddr) : Bool :=
  0xFFFF800000000000 ≤ addr && addr ≤ 0xFFFFFFFFFFFFFFFF

/-! ## Records of tasks -/

def taskStructStackOffset : VirtAddr := 0x18
def taskStructTasksOffset : VirtAddr := 0x7A0
def taskStructMmOffset : VirtAddr := 0x7F0
def taskStructActiveMmOffset : VirtAddr := 0x7F8
def taskStructPidOffset : VirtAddr := 0x8A0
def taskStructParentOffset : VirtAddr := 0x8B8
def taskStructCommOffset : VirtAddr := 0xA58
def taskStructFilesOffset : VirtAddr := 0xAA0
def mmStructPgdOffset : VirtAddr := 0x50
def filesStructFdtOffset : VirtAddr := 0x20
def fdtableFdOffset : VirtAddr := 0x8
def structFileFinodeOffset : VirtAddr := 0x20
def linuxAddrSize : VirtAddr := 8
def nrOpenDefault : Nat := 64

/-- `linux_task_info`; `listHeadField`, `next` and `prev` are `list_head_tasks`. -/
structure LinuxTaskInfo where
  taskStruct : VirtAddr
  stack : VirtAddr
  files : VirtAddr
  fdtable : VirtAddr
  listHeadField : VirtAddr
  next : VirtAddr
  prev : VirtAddr
  pid : BitVec 32
  parentTaskStruct : VirtAddr
  parentPid : BitVec 32
  mm : VirtAddr
  mmPgd : VirtAddr
  mmPgdPhys : BitVec 64
  activeMm : VirtAddr
  activeMmPgd : VirtAddr
  activeMmPgdPhys : BitVec 64
  taskName : List Byte

/-- `container_of` -/
def containerOf (fieldAddr offset : VirtAddr) : VirtAddr := fieldAddr - offset

namespace Guest

variable (g : Guest)

/-- `read_virtaddr_data` -/
def readVirtaddrData (virtAddr : VirtAddr) (data : List Byte) : List Byte :=
  g.readBytes isLinuxKernelAddr virtAddr data

/-- `read_virtaddr_data` into a variable of a task's record. -/
def readTask {w : Nat} (virtAddr : VirtAddr) (old : BitVec w) : BitVec w :=
  g.readValue isLinuxKernelAddr virtAddr old

/-- `get_linux_task_struct_info`.  The reads of a `pid` are of eight bytes, of
which four go to the padding behind it. -/
def getLinuxTaskStructInfo (taskStruct : VirtAddr) (info : LinuxTaskInfo) : LinuxTaskInfo :=
  let files := g.readTask (taskStruct + taskStructFilesOffset) info.files
  let parentTaskStruct :=
    g.readTask (taskStruct + taskStructParentOffset) info.parentTaskStruct
  let mm := g.readTask (taskStruct + taskStructMmOffset) info.mm
  let mmPgd := g.readTask (mm + mmStructPgdOffset) info.mmPgd
  let activeMm := g.readTask (taskStruct + taskStructActiveMmOffset) info.activeMm
  let activeMmPgd := g.readTask (activeMm + mmStructPgdOffset) info.activeMmPgd
  { taskStruct := taskStruct
    stack := g.readTask (taskStruct + taskStructStackOffset) info.stack
    files := files
    fdtable := g.readTask (files + filesStructFdtOffset) info.fdtable
    listHeadField := taskStruct + taskStructTasksOffset
    next := g.readTask (taskStruct + taskStructTasksOffset) info.next
    prev := g.readTask (taskStruct + taskStructTasksOffset + linuxAddrSize) info.prev
    pid := g.readTask (taskStruct + taskStructPidOffset) info.pid
    parentTaskStruct := parentTaskStruct
    parentPid := g.readTask (parentTaskStruct + taskStructPidOffset) info.parentPid
    mm := mm
    mmPgd := mmPgd
    mmPgdPhys := g.guestvirtToGuestphys mmPgd
    activeMm := activeMm
    activeMmPgd := activeMmPgd
    activeMmPgdPhys := g.guestvirtToGuestphys activeMmPgd
    taskName :=
      g.readVirtaddrData (taskStruct + taskStructCommOffset) (info.taskName.take 16) ++
        info.taskName.drop 16 }

/-! ## Searches -/

/-- The local variables of `find_inode_in_task`, which it does not set before the
first reads. -/
structure InodeSearch where
  fd : VirtAddr
  file : VirtAddr
  inodeInTask : VirtAddr

/-- The loop of `find_inode_in_task`, for this many more descriptors. -/
def findInodeInFds (inode : VirtAddr) : Nat → InodeSearch → Bool
  | 0, _ => false
  | n + 1, v =>
      let file := g.readTask v.fd v.file
      let inodeInTask := g.readTask (file + structFileFinodeOffset) v.inodeInTask
      if inodeInTask = inode then true
      else findInodeInFds inode n ⟨v.fd + linuxAddrSize, file, inodeInTask⟩

/-- `find_inode_in_task`, whether it returns 1. -/
def findInodeInTask (info : LinuxTaskInfo) (inode : VirtAddr) (v : InodeSearch) : Bool :=
  isLinuxKernelAddr info.fdtable &&
    g.findInodeInFds inode nrOpenDefault
      { v with fd := g.readTask (info.fdtable + fdtableFdOffset) v.fd }

end Guest

/-- `find_cr3_in_task` -/
def findCr3InTask (info : LinuxTaskInfo) (cr3 : BitVec 64) : Bool :=
  if info.mm = 0 then cr3 == info.activeMmPgdPhys else cr3 == info.mmPgdPhys

/-! ## Walks -/

namespace Guest

variable (g : Guest)

/-- The exit of a walk: `count` tasks were searched before this one.  The result
`none` is the zeroed record. -/
def walkExit (found : Nat → LinuxTaskInfo → Bool) (start : LinuxTaskInfo)
    (s : Nat × LinuxTaskInfo) : Option (Option LinuxTaskInfo) :=
  if s.2.next = start.listHeadField then some none
  else if found s.1 s.2 then some (some s.2)
  else none

def walkNext (s : Nat × LinuxTaskInfo) : Nat × LinuxTaskInfo :=
  (s.1 + 1, g.getLinuxTaskStructInfo (containerOf s.2.next taskStructTasksOffset) s.2)

/-- The loop of both walks, over at most `fuel` tasks. -/
def traverseTaskList (found : Nat → LinuxTaskInfo → Bool) (start : LinuxTaskInfo)
    (fuel : Nat) : Option (Option LinuxTaskInfo) :=
  Loops.run (walkExit found start) g.walkNext fuel (0, start)

/-- The search of `traverse_task_list_by_inode`, with what the variables of
`find_inode_in_task` hold at each call. -/
def foundByInode (inode : VirtAddr) (frames : Nat → InodeSearch) (count : Nat)
    (info : LinuxTaskInfo) : Bool :=
  info.parentPid ≠ 2 && g.findInodeInTask info inode (frames count)

/-- `traverse_task_list_by_inode` -/
def traverseTaskListByInode (taskInfo : LinuxTaskInfo) (inode : VirtAddr)
    (frames : Nat → InodeSearch) : Nat → Option (Option LinuxTaskInfo) :=
  g.traverseTaskList (g.foundByInode inode frames) taskInfo

/-- `traverse_task_list_by_cr3` -/
def traverseTaskListByCr3 (taskInfo : LinuxTaskInfo) (cr3 : BitVec 64) :
    Nat → Option (Option LinuxTaskInfo) :=
  g.traverseTaskList (fun _ info => findCr3InTask info cr3) taskInfo

end Guest

/-! ## What guest memory holds -/

namespace Guest

variable (g : Guest)

/-- The value of a field of the guest's kernel, where all of it can be read. -/
def taskValue (w : Nat) (virt : VirtAddr) : Option (BitVec w) :=
  g.valueAt w isLinuxKernelAddr virt

/-- The process of the parent of a task. -/
def parentPidOf (task : VirtAddr) : Option (BitVec 32) :=
  (g.taskValue 64 (task + taskStructParentOffset)).bind fun parent =>
    g.taskValue 32 (parent + taskStructPidOffset)

/-- The first of the descriptors of a task. -/
def fdOf (task : VirtAddr) : Option VirtAddr :=
  (g.taskValue 64 (task + taskStructFilesOffset)).bind fun files =>
    (g.taskValue 64 (files + filesStructFdtOffset)).bind fun fdtable =>
      if isLinuxKernelAddr fdtable then g.taskValue 64 (fdtable + fdtableFdOffset) else none

/-- The inode of the file behind a descriptor. -/
def inodeAt (fd : VirtAddr) : Option VirtAddr :=
  (g.taskValue 64 fd).bind fun file => g.taskValue 64 (file + structFileFinodeOffset)

/-- The task is no child of the kernel thread daemon and has the inode open. -/
def HoldsInode (inode task : VirtAddr) : Prop :=
  (∃ pid, g.parentPidOf task = some pid ∧ pid ≠ 2) ∧
    ∃ fd, g.fdOf task = some fd ∧
      ∃ i < nrOpenDefault, g.inodeAt (fd + BitVec.ofNat 64 i * linuxAddrSize) = some inode

/-- The physical address of the page table of an address space. -/
def pgdPhysOf (mm : VirtAddr) : Option (BitVec 64) :=
  (g.taskValue 64 (mm + mmStructPgdOffset)).bind fun pgd => (g.translate pgd).toOption

/-- The task runs on this page table, its own or the one it borrows. -/
def UsesCr3 (cr3 : BitVec 64) (task : VirtAddr) : Prop :=
  ∃ mm, g.taskValue 64 (task + taskStructMmOffset) = some mm ∧
    if mm = 0 then
      ∃ activeMm, g.taskValue 64 (task + taskStructActiveMmOffset) = some activeMm ∧
        g.pgdPhysOf activeMm = some cr3
    else g.pgdPhysOf mm = some cr3

/-- The `n`-th task of the list that begins with `start`, as the links are in
memory. -/
def listed (start : LinuxTaskInfo) : Nat → Option VirtAddr
  | 0 => some start.taskStruct
  | 1 =>
      if start.next = start.listHeadField then none
      else some (containerOf start.next taskStructTasksOffset)
  | n + 2 =>
      (listed start (n + 1)).bind fun task =>
        (g.taskValue 64 (task + taskStructTasksOffset)).bind fun next =>
          if next = start.listHeadField then none
          else some (containerOf next taskStructTasksOffset)

/-- The link of the `n`-th task of the list, as it is in memory. -/
def linkAt (start : LinuxTaskInfo) : Nat → Option VirtAddr
  | 0 => some start.next
  | n + 1 => (g.listed start (n + 1)).bind fun task => g.taskValue 64 (task + taskStructTasksOffset)

/-- A read of an address leaves the variable as it was. -/
def NotRead (virt : VirtAddr) : Prop :=
  isLinuxKernelAddr virt = false ∨ ∀ i < 8, g.byteAt (virt + BitVec.ofNat 64 i) = none

/-- The descriptor can be read, and the inode of the file behind it either can or is
none at all, as that of a free descriptor. -/
def FileMapped (fd : VirtAddr) : Prop :=
  ∃ file ∈ g.taskValue 64 fd,
    (g.taskValue 64 (file + structFileFinodeOffset)).isSome ∨
      g.NotRead (file + structFileFinodeOffset)

/-- What the search by inode reads of a task is mapped: the parent, and where this is
not the kernel thread daemon the table of descriptors. -/
def FilesMapped (task : VirtAddr) : Prop :=
  ∃ pid ∈ g.parentPidOf task, pid = 2 ∨
    ∃ files ∈ g.taskValue 64 (task + taskStructFilesOffset),
      ∃ fdtable ∈ g.taskValue 64 (files + filesStructFdtOffset),
        isLinuxKernelAddr fdtable = false ∨
          ∃ fd ∈ g.taskValue 64 (fdtable + fdtableFdOffset),
            ∀ i < nrOpenDefault, g.FileMapped (fd + BitVec.ofNat 64 i * linuxAddrSize)

/-- The page table that the search by page table compares is mapped. -/
def PageTableMapped (task : VirtAddr) : Prop :=
  ∃ mm ∈ g.taskValue 64 (task + taskStructMmOffset),
    if mm = 0 then
      ∃ activeMm ∈ g.taskValue 64 (task + taskStructActiveMmOffset),
        (g.pgdPhysOf activeMm).isSome
    else (g.pgdPhysOf mm).isSome

end Guest

/-! ## The records of a walk -/

namespace Guest

variable {g : Guest} {start : LinuxTaskInfo}

theorem readTask_of_value {w : Nat} {virt : VirtAddr} {value : BitVec w}
    (h : g.taskValue w virt = some value) (old : BitVec w) : g.readTask virt old = value :=
  readValue_of_valueAt h old

section

variable (task : VirtAddr) (info : LinuxTaskInfo)

@[simp] theorem getLinuxTaskStructInfo_taskStruct :
    (g.getLinuxTaskStructInfo task info).taskStruct = task := rfl

@[simp] theorem getLinuxTaskStructInfo_next :
    (g.getLinuxTaskStructInfo task info).next =
      g.readTask (task + taskStructTasksOffset) info.next := by
  simp only [getLinuxTaskStructInfo]

end

/-- The state of a walk before its `n`-th search. -/
def walkState (g : Guest) (start : LinuxTaskInfo) (n : Nat) : Nat × LinuxTaskInfo :=
  g.walkNext^[n] (0, start)

theorem walkState_succ (n : Nat) : g.walkState start (n + 1) = g.walkNext (g.walkState start n) :=
  Function.iterate_succ_apply' _ _ _

theorem walkState_count (n : Nat) : (g.walkState start n).1 = n := by
  induction n with
  | zero => rfl
  | succ n ih =>
      rw [walkState_succ]
      exact congrArg (· + 1) ih

/-- The record of the `n`-th task that a walk comes to. -/
def taskAt (g : Guest) (start : LinuxTaskInfo) (n : Nat) : LinuxTaskInfo :=
  (g.walkState start n).2

theorem taskAt_succ (n : Nat) :
    g.taskAt start (n + 1) =
      g.getLinuxTaskStructInfo
        (containerOf (g.taskAt start n).next taskStructTasksOffset) (g.taskAt start n) := by
  unfold taskAt
  rw [walkState_succ]
  rfl

/-- The links as they are in memory are those that the walk follows. -/
theorem taskAt_of_listed {n : Nat} {task : VirtAddr} (h : g.listed start n = some task) :
    (g.taskAt start n).taskStruct = task := by
  induction n generalizing task with
  | zero => exact Option.some.inj h
  | succ n ih =>
      rw [taskAt_succ]
      cases n with
      | zero =>
          unfold listed at h
          split_ifs at h with hend
          rw [getLinuxTaskStructInfo_taskStruct]
          exact Option.some.inj h
      | succ n =>
          rw [listed] at h
          rcases Option.bind_eq_some_iff.mp h with ⟨before, hbefore, hlink⟩
          rcases Option.bind_eq_some_iff.mp hlink with ⟨next, hnext, hrest⟩
          split_ifs at hrest with hend
          have hread : (g.taskAt start (n + 1)).next = next := by
            have htask := ih hbefore
            rw [taskAt_succ, getLinuxTaskStructInfo_taskStruct] at htask
            rw [taskAt_succ, getLinuxTaskStructInfo_next, htask]
            exact readTask_of_value hnext _
          rw [getLinuxTaskStructInfo_taskStruct, hread]
          exact Option.some.inj hrest

/-! ## Searches of fresh records -/

section

variable {task : VirtAddr} (info : LinuxTaskInfo)

theorem guestvirtToGuestphys_of_some {virt phys : BitVec 64}
    (h : (g.translate virt).toOption = some phys) : g.guestvirtToGuestphys virt = phys := by
  unfold guestvirtToGuestphys
  cases htranslate : g.translate virt with
  | ok p =>
      rw [htranslate] at h
      exact Option.some.inj h
  | error code =>
      rw [htranslate] at h
      cases h

theorem pgdPhysOf_read {mm phys : BitVec 64} (h : g.pgdPhysOf mm = some phys)
    (old : BitVec 64) :
    g.guestvirtToGuestphys (g.readTask (mm + mmStructPgdOffset) old) = phys := by
  rcases Option.bind_eq_some_iff.mp h with ⟨pgd, hpgd, hphys⟩
  rw [readTask_of_value hpgd]
  exact guestvirtToGuestphys_of_some hphys

/-- The search by page table finds each task that runs on it. -/
theorem findCr3InTask_of_uses {cr3 : BitVec 64} (h : g.UsesCr3 cr3 task) :
    findCr3InTask (g.getLinuxTaskStructInfo task info) cr3 = true := by
  rcases h with ⟨mm, hmm, hpgd⟩
  unfold findCr3InTask
  simp only [getLinuxTaskStructInfo, readTask_of_value hmm]
  by_cases hzero : mm = 0
  · rw [if_pos hzero] at hpgd ⊢
    rcases hpgd with ⟨activeMm, hactive, hphys⟩
    rw [readTask_of_value hactive, pgdPhysOf_read hphys]
    exact beq_self_eq_true cr3
  · rw [if_neg hzero] at hpgd ⊢
    rw [pgdPhysOf_read hpgd]
    exact beq_self_eq_true cr3

theorem findInodeInFds_of_inode {inode : VirtAddr} {n i : Nat} (hi : i < n)
    (v : InodeSearch)
    (h : g.inodeAt (v.fd + BitVec.ofNat 64 i * linuxAddrSize) = some inode) :
    g.findInodeInFds inode n v = true := by
  induction n generalizing i v with
  | zero => exact absurd hi (Nat.not_lt_zero i)
  | succ n ih =>
      unfold findInodeInFds
      simp only
      split_ifs with hfound
      · rfl
      · cases i with
        | zero =>
            refine absurd ?_ hfound
            rcases Option.bind_eq_some_iff.mp h with ⟨file, hfile, hinode⟩
            have hfd : v.fd + BitVec.ofNat 64 0 * linuxAddrSize = v.fd := by simp
            rw [hfd] at hfile
            rw [readTask_of_value hfile, readTask_of_value hinode]
        | succ i =>
            apply ih (by omega : i < n)
            have hfd : v.fd + linuxAddrSize + BitVec.ofNat 64 i * linuxAddrSize =
                v.fd + BitVec.ofNat 64 (i + 1) * linuxAddrSize := by
              unfold linuxAddrSize
              bv_omega
            rw [hfd]
            exact h

/-- The search by inode finds each task that has it open, whatever its variables
hold before. -/
theorem foundByInode_of_holds {inode : VirtAddr} (frames : Nat → InodeSearch) (count : Nat)
    (h : g.HoldsInode inode task) :
    g.foundByInode inode frames count (g.getLinuxTaskStructInfo task info) = true := by
  rcases h with ⟨⟨pid, hpid, hne⟩, fd, hfd, i, hi, hinode⟩
  rcases Option.bind_eq_some_iff.mp hpid with ⟨parent, hparent, hpid⟩
  rcases Option.bind_eq_some_iff.mp hfd with ⟨files, hfiles, hrest⟩
  rcases Option.bind_eq_some_iff.mp hrest with ⟨fdtable, hfdtable, hfd⟩
  split_ifs at hfd with hkernel
  unfold foundByInode findInodeInTask
  simp only [getLinuxTaskStructInfo, readTask_of_value hparent, readTask_of_value hpid,
    readTask_of_value hfiles, readTask_of_value hfdtable, readTask_of_value hfd, hkernel,
    Bool.true_and, Bool.and_eq_true, decide_eq_true_eq]
  exact ⟨hne, findInodeInFds_of_inode hi _ hinode⟩

end

section

variable {task : VirtAddr} (info : LinuxTaskInfo)

theorem readTask_of_notRead {virt : VirtAddr} (h : g.NotRead virt) (old : VirtAddr) :
    g.readTask virt old = old :=
  readValue_of_unread (n := 8) h old

/-- The search by page table finds no other task whose page table is mapped. -/
theorem uses_of_findCr3InTask {cr3 : BitVec 64} (hmapped : g.PageTableMapped task)
    (h : findCr3InTask (g.getLinuxTaskStructInfo task info) cr3 = true) :
    g.UsesCr3 cr3 task := by
  rcases hmapped with ⟨mm, hmm, hpgd⟩
  unfold findCr3InTask at h
  simp only [getLinuxTaskStructInfo, readTask_of_value hmm] at h
  refine ⟨mm, hmm, ?_⟩
  by_cases hzero : mm = 0
  · rw [if_pos hzero] at hpgd h ⊢
    rcases hpgd with ⟨activeMm, hactive, hphys⟩
    rcases Option.isSome_iff_exists.mp hphys with ⟨phys, hphys⟩
    rw [readTask_of_value hactive, pgdPhysOf_read hphys] at h
    exact ⟨activeMm, hactive, by rw [hphys, eq_of_beq h]⟩
  · rw [if_neg hzero] at hpgd h ⊢
    rcases Option.isSome_iff_exists.mp hpgd with ⟨phys, hphys⟩
    rw [pgdPhysOf_read hphys] at h
    rw [hphys, eq_of_beq h]

/-- Among descriptors that are mapped, the search stops at a file of the inode only:
behind a free one it compares the inode before again. -/
theorem exists_inode_of_findInodeInFds {inode : VirtAddr} {n : Nat} (v : InodeSearch)
    (hmapped : ∀ i < n, g.FileMapped (v.fd + BitVec.ofNat 64 i * linuxAddrSize))
    (hbefore : v.inodeInTask ≠ inode) (h : g.findInodeInFds inode n v = true) :
    ∃ i < n, g.inodeAt (v.fd + BitVec.ofNat 64 i * linuxAddrSize) = some inode := by
  induction n generalizing v with
  | zero => cases h
  | succ n ih =>
      have hfirst : v.fd + BitVec.ofNat 64 0 * linuxAddrSize = v.fd := by simp
      have hshift : ∀ i, v.fd + linuxAddrSize + BitVec.ofNat 64 i * linuxAddrSize =
          v.fd + BitVec.ofNat 64 (i + 1) * linuxAddrSize := by
        intro i
        unfold linuxAddrSize
        bv_omega
      rcases hmapped 0 (by omega) with ⟨file, hfile, hinode⟩
      rw [hfirst] at hfile
      unfold findInodeInFds at h
      simp only [readTask_of_value hfile] at h
      split_ifs at h with hfound
      · refine ⟨0, by omega, ?_⟩
        rw [hfirst]
        rcases hinode with hinode | hfree
        · rcases Option.isSome_iff_exists.mp hinode with ⟨value, hvalue⟩
          rw [readTask_of_value hvalue] at hfound
          exact Option.bind_eq_some_iff.mpr ⟨file, hfile, hfound ▸ hvalue⟩
        · rw [readTask_of_notRead hfree] at hfound
          exact absurd hfound hbefore
      · rcases ih ⟨v.fd + linuxAddrSize, file, _⟩ (fun i hi => by
          rw [hshift]
          exact hmapped (i + 1) (by omega)) hfound h with ⟨i, hi, hinode⟩
        rw [hshift] at hinode
        exact ⟨i + 1, by omega, hinode⟩

/-- The search by inode finds no other task whose descriptors are mapped, where its
variables do not hold the inode before. -/
theorem holds_of_foundByInode {inode : VirtAddr} {frames : Nat → InodeSearch} {count : Nat}
    (hmapped : g.FilesMapped task) (hframe : (frames count).inodeInTask ≠ inode)
    (h : g.foundByInode inode frames count (g.getLinuxTaskStructInfo task info) = true) :
    g.HoldsInode inode task := by
  rcases hmapped with ⟨pid, hpid, hrest⟩
  rcases Option.bind_eq_some_iff.mp hpid with ⟨parent, hparent, hparentPid⟩
  unfold foundByInode findInodeInTask at h
  simp only [getLinuxTaskStructInfo, readTask_of_value hparent, readTask_of_value hparentPid,
    Bool.and_eq_true, decide_eq_true_eq] at h
  rcases h with ⟨hne, hkernel, hfound⟩
  rcases hrest.resolve_left hne with ⟨files, hfiles, fdtable, hfdtable, hrest⟩
  rw [readTask_of_value hfiles, readTask_of_value hfdtable] at hkernel hfound
  rcases hrest.resolve_left (by simp [hkernel]) with ⟨fd, hfd, hfds⟩
  rw [readTask_of_value hfd] at hfound
  have hinode := exists_inode_of_findInodeInFds { frames count with fd := fd } hfds hframe hfound
  refine ⟨⟨pid, hpid, hne⟩, fd, ?_, hinode⟩
  refine Option.bind_eq_some_iff.mpr ⟨files, hfiles, ?_⟩
  refine Option.bind_eq_some_iff.mpr ⟨fdtable, hfdtable, ?_⟩
  rw [if_pos hkernel]
  exact hfd

end

theorem listed_succ (n : Nat) :
    g.listed start (n + 1) = (g.linkAt start n).bind fun next =>
      if next = start.listHeadField then none
      else some (containerOf next taskStructTasksOffset) := by
  cases n with
  | zero => rfl
  | succ n => exact (Option.bind_assoc _ _ _).symm

theorem exists_link_of_listed_succ {n : Nat} {task : VirtAddr}
    (h : g.listed start (n + 1) = some task) :
    ∃ next ∈ g.linkAt start n, next ≠ start.listHeadField := by
  rw [listed_succ] at h
  rcases Option.bind_eq_some_iff.mp h with ⟨next, hnext, hrest⟩
  split_ifs at hrest with hend
  exact ⟨next, hnext, hend⟩

theorem exists_listed_of_le {j k : Nat} (hle : j ≤ k) {task : VirtAddr}
    (h : g.listed start k = some task) : ∃ task, g.listed start j = some task := by
  induction k generalizing task with
  | zero => exact ⟨_, (Nat.le_zero.mp hle).symm ▸ h⟩
  | succ k ih =>
      rcases Nat.le_succ_iff.mp hle with hle | rfl
      · rcases exists_link_of_listed_succ h with ⟨next, hnext, -⟩
        cases k with
        | zero => exact ⟨start.taskStruct, (Nat.le_zero.mp hle).symm ▸ rfl⟩
        | succ k =>
            rcases Option.bind_eq_some_iff.mp hnext with ⟨before, hbefore, -⟩
            exact ih hle hbefore
      · exact ⟨task, h⟩

/-- The walk follows the links as they are in memory. -/
theorem taskAt_next_of_link {n : Nat} {next : VirtAddr} (h : g.linkAt start n = some next) :
    (g.taskAt start n).next = next := by
  cases n with
  | zero => exact Option.some.inj h
  | succ n =>
      rcases Option.bind_eq_some_iff.mp h with ⟨task, htask, hnext⟩
      have hread := taskAt_of_listed htask
      rw [taskAt_succ, getLinuxTaskStructInfo_taskStruct] at hread
      rw [taskAt_succ, getLinuxTaskStructInfo_next, hread]
      exact readTask_of_value hnext _

/-- Behind a task whose link is back at the start, none is listed. -/
theorem listed_succ_of_end {k : Nat} (hend : (g.taskAt start k).next = start.listHeadField) :
    g.listed start (k + 1) = none := by
  cases k with
  | zero => exact if_pos hend
  | succ k =>
      rw [listed]
      refine Option.bind_eq_none_iff.mpr fun task htask => ?_
      refine Option.bind_eq_none_iff.mpr fun next hnext => ?_
      refine if_pos ?_
      have hread := taskAt_of_listed htask
      rw [taskAt_succ, getLinuxTaskStructInfo_taskStruct] at hread
      rw [taskAt_succ, getLinuxTaskStructInfo_next, hread, readTask_of_value hnext] at hend
      exact hend

theorem listed_of_end {k n : Nat} (hend : (g.taskAt start k).next = start.listHeadField)
    (hn : k < n) : g.listed start n = none := by
  induction n with
  | zero => exact absurd hn (Nat.not_lt_zero k)
  | succ n ih =>
      rcases Nat.lt_succ_iff_lt_or_eq.mp hn with hlt | rfl
      · cases n with
        | zero => exact absurd hlt (Nat.not_lt_zero k)
        | succ n =>
            rw [listed, ih hlt]
            rfl
      · exact listed_succ_of_end hend

end Guest

/-! ## Searches and what they look for -/

/-- A search of the records of tasks, and the tasks that it is for: it finds each
of them in a record that was just read, and no other among the tasks that are
mapped. -/
structure TaskSearch (g : Guest) where
  found : Nat → LinuxTaskInfo → Bool
  Satisfies : VirtAddr → Prop
  Mapped : VirtAddr → Prop
  found_of_satisfies : ∀ count task info, Satisfies task →
    found count (g.getLinuxTaskStructInfo task info) = true
  satisfies_of_found : ∀ count task info, Mapped task →
    found count (g.getLinuxTaskStructInfo task info) = true → Satisfies task

namespace Guest

/-- The search of `traverse_task_list_by_inode`. -/
def inodeSearch (g : Guest) (inode : VirtAddr) (frames : Nat → InodeSearch) :
    TaskSearch g where
  found := g.foundByInode inode frames
  Satisfies := g.HoldsInode inode
  Mapped task := g.FilesMapped task ∧ ∀ count, (frames count).inodeInTask ≠ inode
  found_of_satisfies count _ info h := foundByInode_of_holds info frames count h
  satisfies_of_found count _ info hmapped h := holds_of_foundByInode info hmapped.1
    (hmapped.2 count) h

/-- The search of `traverse_task_list_by_cr3`. -/
def cr3Search (g : Guest) (cr3 : BitVec 64) : TaskSearch g where
  found := fun _ info => findCr3InTask info cr3
  Satisfies := g.UsesCr3 cr3
  Mapped := g.PageTableMapped
  found_of_satisfies _ _ info h := findCr3InTask_of_uses info h
  satisfies_of_found _ _ info hmapped h := uses_of_findCr3InTask info hmapped h

end Guest

namespace TaskSearch

variable {g : Guest} (S : TaskSearch g) (start : LinuxTaskInfo)

/-- The task satisfies the search, or no task of the list does. -/
def Truthful : Option LinuxTaskInfo → Prop
  | some info => S.Satisfies info.taskStruct
  | none => ∀ n task, g.listed start n = some task → ¬S.Satisfies task

/-- The walk goes on from its `n`-th task. -/
def PassesBy (n : Nat) : Prop :=
  (g.taskAt start n).next ≠ start.listHeadField ∧ S.found n (g.taskAt start n) = false

/-- The search finds the `n`-th task, and it satisfies the search. -/
def StopsAtTask (n : Nat) : Prop :=
  (g.taskAt start n).next ≠ start.listHeadField ∧ S.found n (g.taskAt start n) = true ∧
    S.Satisfies (g.taskAt start n).taskStruct

/-- The link of the `n`-th task is back at the start, and neither this task, which
is not searched, nor the start satisfies the search. -/
def StopsAtEnd (n : Nat) : Prop :=
  (g.taskAt start n).next = start.listHeadField ∧ ¬S.Satisfies start.taskStruct ∧
    ∀ task, g.listed start n = some task → ¬S.Satisfies task

section

variable {S start} {n : Nat}

theorem walkExit_none_iff :
    Guest.walkExit S.found start (g.walkState start n) = none ↔ S.PassesBy start n := by
  unfold Guest.walkExit PassesBy Guest.taskAt
  rw [Guest.walkState_count]
  split_ifs with hend hfound
  · simp [hend]
  · simp [hfound]
  · simp [hend, hfound]

theorem walkExit_found_iff {info : LinuxTaskInfo} :
    Guest.walkExit S.found start (g.walkState start n) = some (some info) ↔
      (g.taskAt start n).next ≠ start.listHeadField ∧ S.found n (g.taskAt start n) = true ∧
        info = g.taskAt start n := by
  unfold Guest.walkExit Guest.taskAt
  rw [Guest.walkState_count]
  split_ifs with hend hfound
  · simp [hend]
  · simp [hend, hfound, eq_comm]
  · simp [hfound]

theorem walkExit_end_iff :
    Guest.walkExit S.found start (g.walkState start n) = some none ↔
      (g.taskAt start n).next = start.listHeadField := by
  unfold Guest.walkExit Guest.taskAt
  rw [Guest.walkState_count]
  split_ifs with hend hfound
  · simp [hend]
  · simp [hend]
  · simp [hend]

/-- What a walk returns is what its first exit yields. -/
theorem traverse_eq_iff {r : Option LinuxTaskInfo} :
    (∃ fuel, g.traverseTaskList S.found start fuel = some r) ↔
      ∃ k, (∀ j < k, S.PassesBy start j) ∧
        Guest.walkExit S.found start (g.walkState start k) = some r := by
  refine Loops.ends_iff.trans (exists_congr fun k => and_congr_left fun _ => ?_)
  exact forall₂_congr fun j _ => walkExit_none_iff

/-- A listed task that is searched and passed by does not satisfy the search. -/
theorem not_satisfies_of_passesBy {task : VirtAddr} (hpass : S.PassesBy start (n + 1))
    (hlisted : g.listed start (n + 1) = some task) : ¬S.Satisfies task := by
  intro hsat
  have htask := Guest.taskAt_of_listed hlisted
  have hfound := hpass.2
  rw [Guest.taskAt_succ] at htask hfound
  rw [Guest.getLinuxTaskStructInfo_taskStruct] at htask
  rw [htask, S.found_of_satisfies _ _ _ hsat] at hfound
  cases hfound

theorem truthful_none_iff {k : Nat} (hpass : ∀ j < k, S.PassesBy start j)
    (hend : (g.taskAt start k).next = start.listHeadField) :
    S.Truthful start none ↔
      ¬S.Satisfies start.taskStruct ∧
        ∀ task, g.listed start k = some task → ¬S.Satisfies task := by
  constructor
  · intro h
    exact ⟨h 0 start.taskStruct rfl, h k⟩
  · rintro ⟨hstart, hlast⟩ n task hlisted
    rcases lt_trichotomy n k with hlt | rfl | hgt
    · cases n with
      | zero =>
          cases hlisted
          exact hstart
      | succ n => exact not_satisfies_of_passesBy (hpass _ hlt) hlisted
    · exact hlast task hlisted
    · rw [Guest.listed_of_end hend hgt] at hlisted
      cases hlisted

variable (S start) in
/-- A walk ends with a true answer exactly where it comes, past tasks that the
search does not find, to one that satisfies the search or to a last one where it
misses none. -/
theorem ends_truthfully_iff :
    (∃ fuel r, g.traverseTaskList S.found start fuel = some r ∧ S.Truthful start r) ↔
      ∃ k, (∀ j < k, S.PassesBy start j) ∧ (S.StopsAtTask start k ∨ S.StopsAtEnd start k) := by
  constructor
  · rintro ⟨fuel, r, hrun, htrue⟩
    rcases traverse_eq_iff.mp ⟨fuel, hrun⟩ with ⟨k, hpass, hexit⟩
    refine ⟨k, hpass, ?_⟩
    cases r with
    | some info =>
        rcases walkExit_found_iff.mp hexit with ⟨hnext, hfound, rfl⟩
        exact .inl ⟨hnext, hfound, htrue⟩
    | none =>
        have hend := walkExit_end_iff.mp hexit
        exact .inr ⟨hend, (truthful_none_iff hpass hend).mp htrue⟩
  · rintro ⟨k, hpass, ⟨hnext, hfound, hsat⟩ | ⟨hend, hmissed⟩⟩
    · rcases traverse_eq_iff.mpr ⟨k, hpass, walkExit_found_iff.mpr ⟨hnext, hfound, rfl⟩⟩ with
        ⟨fuel, hrun⟩
      exact ⟨fuel, _, hrun, hsat⟩
    · rcases traverse_eq_iff.mpr ⟨k, hpass, walkExit_end_iff.mpr hend⟩ with ⟨fuel, hrun⟩
      exact ⟨fuel, none, hrun, (truthful_none_iff hpass hend).mpr hmissed⟩

end

/-! ## Answers from guest memory -/

/-- The `k`-th task of the list is one that satisfies the search with a link onward,
or the last one and does not satisfy it. -/
def AnswersAt (k : Nat) : Prop :=
  ∃ task ∈ g.listed start k, ∃ next ∈ g.linkAt start k,
    next ≠ start.listHeadField ∧ S.Satisfies task ∨
      next = start.listHeadField ∧ ¬S.Satisfies task

/-- The record of the start, which the walk did not fill, is found where the start
satisfies the search; a start that is alone is not searched. -/
def StartTells : Prop :=
  start.next = start.listHeadField ∨ (S.found 0 start = true ↔ S.Satisfies start.taskStruct)

/-- In guest memory the links lead from the start to a task that answers, and those in
between are mapped where the search reads them. -/
def AnswersInMemory : Prop :=
  S.StartTells start ∧ ∃ k, S.AnswersAt start k ∧
    ∀ n task, 0 < n → n < k → g.listed start n = some task → S.Mapped task

/-- All tasks of the list are mapped where the search and the walk read them. -/
def ListMapped : Prop :=
  S.StartTells start ∧ ∀ n task, g.listed start (n + 1) = some task →
    S.Mapped task ∧ (g.taskValue 64 (task + taskStructTasksOffset)).isSome

section

variable {S start} {n : Nat}

theorem next_ne_of_listed_succ {task : VirtAddr} (h : g.listed start (n + 1) = some task) :
    (g.taskAt start n).next ≠ start.listHeadField := by
  rcases Guest.exists_link_of_listed_succ h with ⟨next, hnext, hne⟩
  rw [Guest.taskAt_next_of_link hnext]
  exact hne

/-- On a mapped list the record of a task tells whether the task satisfies the
search. -/
theorem found_taskAt_iff (htells : S.StartTells start) {task : VirtAddr}
    (hlisted : g.listed start n = some task)
    (hmapped : 0 < n → S.Mapped task)
    (hnext : (g.taskAt start n).next ≠ start.listHeadField) :
    S.found n (g.taskAt start n) = true ↔ S.Satisfies task := by
  cases n with
  | zero =>
      cases hlisted
      exact htells.resolve_left hnext
  | succ n =>
      have htask := Guest.taskAt_of_listed hlisted
      rw [Guest.taskAt_succ, Guest.getLinuxTaskStructInfo_taskStruct] at htask
      rw [Guest.taskAt_succ, htask]
      exact ⟨S.satisfies_of_found _ _ _ (hmapped (Nat.succ_pos n)),
        S.found_of_satisfies _ _ _⟩

/-- A walk passes by each listed task that does not answer. -/
theorem passesBy_of_not_answers (htells : S.StartTells start) {task succ : VirtAddr}
    (hlisted : g.listed start n = some task) (hsucc : g.listed start (n + 1) = some succ)
    (hmapped : 0 < n → S.Mapped task) (hnot : ¬S.AnswersAt start n) :
    S.PassesBy start n ∧ ¬S.Satisfies task := by
  rcases Guest.exists_link_of_listed_succ hsucc with ⟨onward, honward, hne⟩
  have hunsat : ¬S.Satisfies task := fun hsat =>
    hnot ⟨task, hlisted, onward, honward, .inl ⟨hne, hsat⟩⟩
  have hstay := next_ne_of_listed_succ hsucc
  refine ⟨⟨hstay, ?_⟩, hunsat⟩
  rw [← Bool.not_eq_true, found_taskAt_iff htells hlisted hmapped hstay]
  exact hunsat

/-- A walk whose list answers in memory goes past the tasks that do not satisfy the
search, to the first that does or to the last. -/
theorem ends_of_answersInMemory (h : S.AnswersInMemory start) :
    ∃ fuel r, g.traverseTaskList S.found start fuel = some r ∧ S.Truthful start r := by
  rw [ends_truthfully_iff]
  rcases h with ⟨htells, hanswer⟩
  -- the least task that answers: those before it have a link onward and do not satisfy
  classical
  rcases Nat.find_spec hanswer with ⟨⟨task, hlisted, next, hnext, hanswers⟩, hmapped⟩
  have hmin := fun j => @Nat.find_min _ _ hanswer j
  generalize Nat.find hanswer = k at hlisted hnext hmapped hmin
  have hlink := Guest.taskAt_next_of_link hnext
  have hpass : ∀ j < k, S.PassesBy start j ∧
      ∀ task, g.listed start j = some task → ¬S.Satisfies task := by
    intro j hj
    rcases Guest.exists_listed_of_le hj hlisted with ⟨succ, hsucc⟩
    rcases Guest.exists_listed_of_le hj.le hlisted with ⟨here, hhere⟩
    have hsilent : ¬S.AnswersAt start j := fun hans =>
      hmin j hj ⟨hans, fun n task hpos hlt => hmapped n task hpos (hlt.trans hj)⟩
    rcases passesBy_of_not_answers htells hhere hsucc (fun hpos => hmapped j here hpos hj hhere)
      hsilent with ⟨hby, hnot⟩
    refine ⟨hby, fun task htask => ?_⟩
    cases hhere.symm.trans htask
    exact hnot
  have htask := Guest.taskAt_of_listed hlisted
  refine ⟨k, fun j hj => (hpass j hj).1, ?_⟩
  rcases hanswers with ⟨hne, hsat⟩ | ⟨hend, hnot⟩
  · left
    refine ⟨by rw [hlink]; exact hne, ?_, by rw [htask]; exact hsat⟩
    cases k with
    | zero =>
        cases hlisted
        cases hnext
        exact (htells.resolve_left hne).mpr hsat
    | succ k =>
        rw [Guest.taskAt_succ, Guest.getLinuxTaskStructInfo_taskStruct] at htask
        rw [Guest.taskAt_succ, htask]
        exact S.found_of_satisfies _ _ _ hsat
  · right
    refine ⟨by rw [hlink]; exact hend, ?_, ?_⟩
    · cases k with
      | zero =>
          cases hlisted
          exact hnot
      | succ k => exact (hpass 0 (Nat.succ_pos k)).2 _ rfl
    · intro task htask
      cases hlisted.symm.trans htask
      exact hnot

/-- A walk along a mapped list that ends with a true answer has come to a task that
answers in memory. -/
theorem answersInMemory_of_ends (hmapped : S.ListMapped start)
    (h : ∃ fuel r, g.traverseTaskList S.found start fuel = some r ∧ S.Truthful start r) :
    S.AnswersInMemory start := by
  rcases (ends_truthfully_iff S start).mp h with ⟨k, hpass, hstop⟩
  have hlink : ∀ j task, g.listed start j = some task → ∃ next, g.linkAt start j = some next := by
    intro j task hlisted
    cases j with
    | zero => exact ⟨start.next, rfl⟩
    | succ j =>
        rcases Option.isSome_iff_exists.mp (hmapped.2 j task hlisted).2 with ⟨next, hnext⟩
        exact ⟨next, Option.bind_eq_some_iff.mpr ⟨task, hlisted, hnext⟩⟩
  have hlisted : ∀ j ≤ k, ∃ task, g.listed start j = some task := by
    intro j hj
    induction j with
    | zero => exact ⟨start.taskStruct, rfl⟩
    | succ j ih =>
        rcases ih (by omega) with ⟨task, htask⟩
        rcases hlink j task htask with ⟨next, hnext⟩
        have hne := (hpass j (by omega)).1
        rw [Guest.taskAt_next_of_link hnext] at hne
        refine ⟨containerOf next taskStructTasksOffset, ?_⟩
        rw [Guest.listed_succ]
        exact Option.bind_eq_some_iff.mpr ⟨next, hnext, if_neg hne⟩
  rcases hlisted k le_rfl with ⟨task, htask⟩
  rcases hlink k task htask with ⟨next, hnext⟩
  refine ⟨hmapped.1, k, ⟨task, htask, next, hnext, ?_⟩, ?_⟩
  · rw [← Guest.taskAt_next_of_link hnext]
    rcases hstop with ⟨hne, -, hsat⟩ | ⟨hend, -, hlast⟩
    · rw [Guest.taskAt_of_listed htask] at hsat
      exact .inl ⟨hne, hsat⟩
    · exact .inr ⟨hend, hlast task htask⟩
  · intro n task hpos _ htask
    rcases Nat.exists_eq_add_one.mpr hpos with ⟨n, rfl⟩
    exact (hmapped.2 n task htask).1

end

end TaskSearch

/-- A walk among records that the search passes by has no answer. -/
theorem Guest.not_traverse_of_invariant {g : Guest} {found : Nat → LinuxTaskInfo → Bool}
    {start : LinuxTaskInfo} {Inv : Nat × LinuxTaskInfo → Prop}
    (hlast : ∀ s, Inv s → s.2.next ≠ start.listHeadField)
    (hfound : ∀ s, Inv s → found s.1 s.2 = false)
    (hnext : ∀ s, Inv s → Inv (g.walkNext s)) (hstart : Inv (0, start)) :
    ¬∃ fuel r, g.traverseTaskList found start fuel = some r := by
  rintro ⟨fuel, r, hrun⟩
  refine Loops.not_ends_of_invariant ?_ hnext hstart ⟨fuel, hrun⟩
  intro s hs
  unfold Guest.walkExit
  rw [if_neg (hlast s hs), hfound s hs]
  exact if_neg Bool.false_ne_true

def firstTask : VirtAddr := 0xFFFF888000100000
def secondTask : VirtAddr := 0xFFFF888000200000
def thirdTask : VirtAddr := 0xFFFF888000B00000
def initTask : VirtAddr := 0xFFFF888000000000
def openInode : VirtAddr := 0xFFFF888000300000

/-- The words of this guest's memory.  The first task is a kernel thread on the page
table at `0x2000`; the second has the one at `0x3000`, and the file of the inode behind
its second descriptor. -/
def threeTaskWord (addr : BitVec 64) : BitVec 64 :=
  if addr = firstTask + taskStructTasksOffset then secondTask + taskStructTasksOffset
  else if addr = secondTask + taskStructTasksOffset then thirdTask + taskStructTasksOffset
  else if addr = thirdTask + taskStructTasksOffset then initTask + taskStructTasksOffset
  else if addr = firstTask + taskStructParentOffset then initTask
  else if addr = secondTask + taskStructParentOffset then firstTask
  else if addr = firstTask + taskStructPidOffset then 1
  else if addr = firstTask + taskStructActiveMmOffset then 0xFFFF888000400000
  else if addr = 0xFFFF888000400000 + mmStructPgdOffset then 0x2000
  else if addr = firstTask + taskStructFilesOffset then 0xFFFF888000500000
  else if addr = secondTask + taskStructMmOffset then 0xFFFF888000600000
  else if addr = 0xFFFF888000600000 + mmStructPgdOffset then 0x3000
  else if addr = secondTask + taskStructFilesOffset then 0xFFFF888000700000
  else if addr = 0xFFFF888000700000 + filesStructFdtOffset then 0xFFFF888000800000
  else if addr = 0xFFFF888000800000 + fdtableFdOffset then 0xFFFF888000900000
  else if addr = 0xFFFF888000900008 then 0xFFFF888000A00000
  else if addr = 0xFFFF888000A00000 + structFileFinodeOffset then openInode
  else 0

def threeTaskGuest : Guest := .ofWords threeTaskWord

/-- The record of a start whose link is to the first of these tasks. -/
def beforeThreeTasks : LinuxTaskInfo where
  taskStruct := initTask
  stack := 0
  files := 0
  fdtable := 0
  listHeadField := initTask + taskStructTasksOffset
  next := firstTask + taskStructTasksOffset
  prev := thirdTask + taskStructTasksOffset
  pid := 0
  parentTaskStruct := 0
  parentPid := 0
  mm := 0
  mmPgd := 0
  mmPgdPhys := 0
  activeMm := 0
  activeMmPgd := 0
  activeMmPgdPhys := 0
  taskName := []

theorem threeTasks_listed :
    threeTaskGuest.listed beforeThreeTasks 1 = some firstTask ∧
      threeTaskGuest.listed beforeThreeTasks 2 = some secondTask ∧
      threeTaskGuest.linkAt beforeThreeTasks 2 = some (thirdTask + taskStructTasksOffset) := by
  refine ⟨?_, ?_, ?_⟩ <;> decide +kernel

/-- The task of the cycle. -/
def cycleTask : VirtAddr := 0xFFFF888000100000

/-- The words of this guest's memory: the task's link is to itself. -/
def cycleWord (addr : BitVec 64) : BitVec 64 :=
  if addr = cycleTask + taskStructTasksOffset then cycleTask + taskStructTasksOffset
  else if addr = cycleTask + taskStructActiveMmOffset then cycleTask
  else if addr = cycleTask + taskStructFilesOffset then cycleTask
  else 0

def cycleGuest : Guest := .ofWords cycleWord

/-- The record of a first task, whose link leads to the cycle. -/
def beforeCycle : LinuxTaskInfo where
  taskStruct := 0xFFFF888000000000
  stack := 0
  files := 0
  fdtable := 0
  listHeadField := 0xFFFF888000000000 + taskStructTasksOffset
  next := cycleTask + taskStructTasksOffset
  prev := cycleTask + taskStructTasksOffset
  pid := 0
  parentTaskStruct := 0
  parentPid := 0
  mm := 0
  mmPgd := 0
  mmPgdPhys := 0
  activeMm := 0
  activeMmPgd := 0
  activeMmPgdPhys := 0
  taskName := []

/-- What the records of a walk along the cycle have in common. -/
def InCycle (s : Nat × LinuxTaskInfo) : Prop :=
  s.2.next = cycleTask + taskStructTasksOffset ∧ s.2.mm = 0 ∧ s.2.activeMmPgdPhys = 0 ∧
    s.2.fdtable = 0

theorem inCycle_walkNext {s : Nat × LinuxTaskInfo} (h : InCycle s) :
    InCycle (cycleGuest.walkNext s) := by
  have hnext : cycleGuest.taskValue 64 (cycleTask + taskStructTasksOffset) =
      some (cycleTask + taskStructTasksOffset) := by decide +kernel
  have hmm : cycleGuest.taskValue 64 (cycleTask + taskStructMmOffset) = some 0 := by
    decide +kernel
  have hactive : cycleGuest.taskValue 64 (cycleTask + taskStructActiveMmOffset) =
      some cycleTask := by decide +kernel
  have hpgd : cycleGuest.pgdPhysOf cycleTask = some 0 := by decide +kernel
  have hfiles : cycleGuest.taskValue 64 (cycleTask + taskStructFilesOffset) =
      some cycleTask := by decide +kernel
  have hfdtable : cycleGuest.taskValue 64 (cycleTask + filesStructFdtOffset) = some 0 := by
    decide +kernel
  have htask : containerOf s.2.next taskStructTasksOffset = cycleTask := by
    rw [h.1]
    decide +kernel
  unfold InCycle Guest.walkNext
  simp only [htask, Guest.getLinuxTaskStructInfo, Guest.readTask_of_value hnext,
    Guest.readTask_of_value hmm, Guest.readTask_of_value hactive, Guest.pgdPhysOf_read hpgd,
    Guest.readTask_of_value hfiles, Guest.readTask_of_value hfdtable, and_self]

end RansomTag

import RansomTag.Library.Leases
import RansomTag.Onfm.Sectors
import RansomTag.Usb.ReadPath

/-!
# Page buffers

The pool of `buf_api.c` with everything that points into it: the write buffer
and the merge buffer, the buffer of the pending OUT transfer, the queue, and
the page that `UBI_Write` holds until its die is ready.  A write from the host
is one whole page, so that `ONFM_Write` hands it to `FTL_Write` and leaves the
write buffer and the merge buffer alone.
-/

namespace RansomTag

/-- What the media answer to one `UBI_Write`: whether `MTD_WaitReady` succeeds,
once the bad blocks are reclaimed, and whether `MTD_Program` does. -/
structure MediaAnswer where
  ready : Bool
  programmed : Bool

/-- The calls of `UBI_Write` in one call of the storage.  `DATA_Write` passes
the page of the caller on, at most once; the other calls flush a die or write
memory outside of the pool. -/
structure UbiCalls where
  before : List MediaAnswer
  data : Option MediaAnswer
  after : List MediaAnswer

/-- A storage, with the calls of `UBI_Write` that it makes. -/
structure PoolStorage (σ : Type) extends Onfm σ where
  readCalls : Transaction → σ → List MediaAnswer
  writeCalls : Transaction → σ → UbiCalls

structure PoolDevice (σ : Type) where
  device : Device σ
  writeBuffer : Option (Fin 4)
  mergeBuffer : Option (Fin 4)
  /-- `dice_hold[0].buffer` when it is a page buffer; there is one die. -/
  dieHold : Option (Fin 4)

variable {σ : Type}

abbrev Pool (σ : Type) (α : Type) := Program (PoolDevice σ) Halt α

/-! ## The pool -/

/-- The page buffer `i` is free again. -/
def Device.freed (d : Device σ) (i : Fin 4) : Device σ :=
  { d with
    poolUsed := Function.update d.poolUsed i false
    handed := Function.update d.handed i false }

/-- `BUF_Free` -/
def bufFree (i : Fin 4) : Pool σ Unit := do
  let p ← get
  if p.device.poolUsed i = true then
    modify fun p => { p with device := p.device.freed i }
  else Program.stop .assertion

/-- `BUF_Free(dice_hold[0].buffer)` -/
def releaseDie : Pool σ Unit := do
  let p ← get
  match p.dieHold with
  | some i =>
      bufFree i
      modify fun p => { p with dieHold := none }
  | none => pure ()

/-- `UBI_Write` as far as the page buffers go, when `buffer` is the page. -/
def ubiWritePage (buffer : Option (Fin 4)) (answer : MediaAnswer) : Pool σ Unit := do
  if answer.ready = true then
    releaseDie
    if answer.programmed = true then
      match buffer with
      | some i => modify fun p => { p with dieHold := some i }
      | none => pure ()

/-- The calls of `UBI_Write` of a call of the storage on the page `buffer`. -/
def runUbiCalls (buffer : Option (Fin 4)) (calls : UbiCalls) : Pool σ Unit := do
  calls.before.forM (ubiWritePage none)
  match calls.data with
  | some answer => ubiWritePage buffer answer
  | none => pure ()
  calls.after.forM (ubiWritePage none)

/-! ## The task -/

/-- The page that a write transaction has. -/
def Transaction.writePage (t : Transaction) : Option (Fin 4) :=
  match t.type, t.buffer with
  | .write, some (.page i) => some i
  | _, _ => none

/-- The calls of `UBI_Write` in the next round of the task. -/
def Device.ubiCalls (d : Device σ) (s : PoolStorage σ) : UbiCalls :=
  if d.utList.pop = d.utList.push then ⟨[], none, []⟩
  else
    match d.current.type with
    | .write => s.writeCalls d.current d.onfm
    | .read =>
        if d.readBulkLen = 0 then ⟨s.readCalls d.current d.onfm, none, []⟩ else ⟨[], none, []⟩
    | .merge =>
        if d.mergeStage = .start then ⟨s.readCalls d.current d.onfm, none, []⟩ else ⟨[], none, []⟩

/-- A handler runs on the device. -/
def onDevice {α : Type} (m : Isr σ α) : Pool σ α := fun p =>
  match m p.device with
  | .ok (a, d) => .ok (a, { p with device := d })
  | .error e => .error e

/-- One round of the task, with what it does to the pool. -/
def usbPoolTask (s : PoolStorage σ) : Pool σ Unit := do
  let p ← get
  onDevice (usbUserTask s.toOnfm)
  runUbiCalls p.device.current.writePage (p.device.ubiCalls s)

/-! ## Runs -/

/-- One event: a handler of the device, or a round of the task. -/
inductive PoolStep (s : PoolStorage σ) : PoolDevice σ → Event → PoolDevice σ → Prop where
  | usb {p : PoolDevice σ} {e : Event} {d : Device σ} : e ≠ .task → (∀ i, e ≠ .free i) →
      Step s.toOnfm p.device e d → PoolStep s p e { p with device := d }
  | task {p p' : PoolDevice σ} : usbPoolTask s p = .ok ((), p') → PoolStep s p .task p'

/-- A run with its states and events, the latest first. -/
inductive PoolRun (s : PoolStorage σ) (p₀ : PoolDevice σ) :
    List (PoolDevice σ × Event) → PoolDevice σ → Prop where
  | nil : PoolRun s p₀ [] p₀
  | step {p p' : PoolDevice σ} {e : Event} {steps : List (PoolDevice σ × Event)} :
      PoolRun s p₀ steps p → PoolStep s p e p' → PoolRun s p₀ ((p, e) :: steps) p'

/-- After `BUF_Init`, `MSC_Init` and the start of UBI. -/
def PoolDevice.init (onfm : σ) (blockCount : Nat) (pool : Fin 4 → Buffer) : PoolDevice σ where
  device := .init onfm blockCount pool
  writeBuffer := some 0
  mergeBuffer := none
  dieHold := none

/-! ## Owners -/

/-- The buffer that an OUT transfer is waiting for. -/
def Device.bulkPage (d : Device σ) : Option (Fin 4) :=
  match d.outRequest with
  | some (.page i _ _) => some i
  | _ => if d.mergeStage = .none then none else d.bulkBuf

/-- The pages of the queued writes. -/
def Device.queuedPages (d : Device σ) : List (Fin 4) := d.pending.filterMap Transaction.writePage

/-- The page buffers that somebody has, one entry for each owner. -/
def PoolDevice.owners (p : PoolDevice σ) : List (Fin 4) :=
  p.device.bulkPage.toList ++ p.device.queuedPages ++ p.writeBuffer.toList ++
    p.mergeBuffer.toList ++ p.dieHold.toList

/-- The page buffers are in order: one owner for each that is used, none for
the others, `BUF_Allocate` fails only for want of free ones, and the next round
of the task frees no buffer that is free. -/
structure PoolDevice.Orderly (s : PoolStorage σ) (p : PoolDevice σ) : Prop where
  owned : Leases.Accounted p.device.poolUsed p.owners
  starved : p.device.bufAllocate = none → ∀ i, i ∈ p.owners
  freed : Program.wp (runUbiCalls p.device.current.writePage (p.device.ubiCalls s))
    (fun _ _ => True) (fun _ => False) p

end RansomTag

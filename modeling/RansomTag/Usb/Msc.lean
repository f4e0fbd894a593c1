import RansomTag.Library.Program
import RansomTag.Library.RingBuffer
import RansomTag.Ftl.State
import RansomTag.Usb.Command

/-!
# The mass-storage device

`mscuser.c` with the consumer loop of `main.c`: the endpoint handlers run in the
interrupt and log transactions, the loop executes them.  The storage below is
an `Onfm`.  `DevStatusFS2HS` is set at every reset and never cleared, so that
its tests are left out, and so are the bytes of the answers to the short
commands.
-/

namespace RansomTag

/-- `ONFM_Read` and `ONFM_Write` at a start and a number of sectors; `none` when
the call does not return. -/
structure Onfm (σ : Type) where
  read : Nat → Nat → Buffer → Bool → Bool → σ → Option (Buffer × σ)
  write : Nat → Nat → Buffer → Bool → Bool → σ → Option σ

@[simp, reducible] def utListSize : Nat := 8
@[simp, reducible] def mppBytes : Nat := 4096

/-- `UT_TYPE`; nothing logs `UT_PREREAD`. -/
inductive UtType where
  | read
  | write
  | merge
  deriving DecidableEq

/-- `MERGE_STAGE` -/
inductive MergeStage where
  | none
  | start
  | finish
  deriving DecidableEq

inductive BulkStage where
  | cbw
  | dataOut
  | dataIn
  | dataInLast
  | dataInLastStall
  | csw
  | error
  deriving DecidableEq

instance poolSize_neZero : NeZero 4 := ⟨by decide⟩

/-- The buffers a transaction can point to: `pb_pool[i]` and `Read_BulkBuf`. -/
inductive BufferPtr where
  | page (i : Fin 4)
  | readBulk
  deriving DecidableEq

/-- `USB_TRANSCATION` -/
structure Transaction where
  type : UtType
  offset : Nat
  length : Nat
  buffer : Option BufferPtr
  tag : Byte
  deriving DecidableEq

inductive CswStatus where
  | passed
  | failed
  | phaseError
  deriving DecidableEq

/-- `MSC_CSW`, whose signature is set whenever it is sent. -/
structure Csw where
  dTag : Nat
  dDataResidue : Nat
  bStatus : CswStatus

/-- What the OUT endpoint was primed to receive: a command block wrapper, or
`len` bytes from sector `first` of a page buffer on. -/
inductive OutRequest where
  | cbw
  | page (buffer : Fin 4) (first len : Nat)

/-- What the IN endpoint was primed to send. -/
inductive InPrime where
  | data (content : Buffer) (len : Nat)
  | command (len : Nat)
  | csw (csw : Csw)

/-- What the device did, for the statements about runs. -/
inductive Note where
  | command (c : Cbw)
  | push (t : Transaction)
  | prime (p : InPrime)
  | returned (t : Transaction) (flag mft : Bool) (content : Buffer)
  | wrote (t : Transaction) (content : Buffer)
  | subtract (a b : Nat)
  | stall

structure Device (σ : Type) where
  onfm : σ
  /-- `MSC_BlockCount` -/
  blockCount : Nat
  offset : Nat
  length : Nat
  bulkBuf : Option (Fin 4)
  bulkLen : Nat
  readBulkLen : Nat
  readBulkBuf : Buffer
  cbw : Cbw
  csw : Csw
  bulkStage : BulkStage
  utList : RingBuffer Transaction
  mergeStage : MergeStage
  mergeCount : Nat
  pool : Fin 4 → Buffer
  poolUsed : Fin 4 → Bool
  /-- The page buffers that `ONFM_Write` has and will free. -/
  handed : Fin 4 → Bool
  outRequest : Option OutRequest
  inRequest : Option InPrime
  trace : List Note

/-- Why the device stops for good. -/
inductive Halt where
  | assertion
  | nullBuffer

abbrev Isr (σ : Type) (α : Type) := Program (Device σ) Halt α

/-! ## 32-bit arithmetic -/

def add32 (a b : Nat) : Nat := (a + b) % 4294967296
def sub32 (a b : Nat) : Nat := (a + (4294967296 - b)) % 4294967296

theorem add32_of_lt {a b : Nat} (h : a + b < 4294967296) : add32 a b = a + b :=
  Nat.mod_eq_of_lt h

theorem sub32_of_le {a b : Nat} (h : b ≤ a) (ha : a < 4294967296) : sub32 a b = a - b := by
  unfold sub32
  omega

namespace Device

variable {σ : Type} (d : Device σ)

def note (n : Note) : Device σ := { d with trace := n :: d.trace }

/-- `USB_WriteEP` on the IN endpoint. -/
def writeEp (p : InPrime) : Device σ :=
  { d with
    inRequest := some p
    trace := .prime p :: d.trace }

/-- `BUF_Allocate`: the halves of the pool take turns. -/
def bufAllocate : Option (Fin 4) := [0, 2, 1, 3].find? fun i => !d.poolUsed i

/-- The pages that `BUF_Allocate` took. -/
def take : Device σ :=
  match d.bufAllocate with
  | some i => { d with bulkBuf := some i, poolUsed := Function.update d.poolUsed i true }
  | none => { d with bulkBuf := none }

end Device

variable {σ : Type}

/-- An entry of `ut_list` is filled and the ring may not be full then. -/
def logTransaction (t : Transaction) : Isr σ Unit := do
  modify fun d => { d.note (.push t) with utList := d.utList.log utListSize t }
  let d ← get
  if d.utList.push ≠ d.utList.pop then pure () else Program.stop .assertion

/-! ## Handlers -/

/-- `MSC_SetCSW` -/
def mscSetCsw : Isr σ Unit :=
  modify fun d => { d.writeEp (.csw d.csw) with bulkStage := .csw }

/-- `CSW.bStatus = status; MSC_SetCSW();` -/
def mscFinish (status : CswStatus) : Isr σ Unit := do
  modify fun d => { d with csw := { d.csw with bStatus := status } }
  mscSetCsw

/-- `MSC_SetStallEP` -/
def mscSetStallEp : Isr σ Unit := modify (·.note .stall)

/-- `MSC_MemoryRead` -/
def mscMemoryRead : Isr σ Unit := do
  let d ← get
  -- read sectors aligned to a multi-plane page
  let n := min (sectorPerMpp - d.offset % sectorPerMpp) d.length
  if d.blockCount < add32 d.offset n then
    modify fun d => { d.note (.subtract d.blockCount d.offset) with
      bulkStage := .dataInLastStall }
  let n := if d.blockCount < add32 d.offset n then sub32 d.blockCount d.offset else n
  logTransaction ⟨.read, d.offset, n, some .readBulk, d.cbw.tagByte⟩
  modify fun d => { d.note (.subtract d.length n) with
    readBulkLen := 0
    offset := add32 d.offset n
    length := sub32 d.length n
    csw := { d.csw with
      dDataResidue := sub32 d.csw.dDataResidue (n * mscBlockSize % 4294967296) } }

/-- `MSC_MemoryWrite` -/
def mscMemoryWrite : Isr σ Unit := do
  let d ← get
  if d.bulkLen % mscBlockSize = 0 then
    let n := d.bulkLen / mscBlockSize
    if d.blockCount < add32 d.offset n then
      modify fun d => { d.note (.subtract d.blockCount d.offset) with
        bulkLen := sub32 d.blockCount d.offset * mscBlockSize % 4294967296
        bulkStage := .csw }
      mscSetStallEp
    logTransaction ⟨.write, d.offset / sectorPerMpp * sectorPerMpp, sectorPerMpp,
      d.bulkBuf.map .page, d.cbw.tagByte⟩
    modify fun d => { d.note (.subtract d.length n) with
      offset := add32 d.offset n
      length := sub32 d.length n
      csw := { d.csw with dDataResidue := sub32 d.csw.dDataResidue d.bulkLen } }
    let d ← get
    if d.length = 0 ∨ d.bulkStage = .csw then mscFinish .passed

/-- `MSC_MemoryVerify` -/
def mscMemoryVerify : Isr σ Unit := do
  modify fun d => { d with
    offset := add32 d.offset d.length
    length := 0
    csw := { d.csw with dDataResidue := 0 } }
  mscFinish .passed

/-- `MSC_RWSetup` -/
def mscRwSetup : Isr σ Bool := do
  modify fun d => { d with offset := d.cbw.lba, length := d.cbw.blocks }
  let d ← get
  if d.cbw.dDataLength = 0 then
    mscFinish .failed
    pure false
  else if d.cbw.dDataLength ≠ d.cbw.blocks * mscBlockSize % 4294967296 then
    mscSetStallEp
    mscFinish .failed
    pure false
  else pure true

/-- `MSC_TestUnitReady` -/
def mscTestUnitReady : Isr σ Unit := do
  let d ← get
  if d.cbw.dDataLength ≠ 0 then mscSetStallEp
  mscFinish .passed

/-- `DataIn_Format`, then `BulkLen = len; DataIn_Transfer();`: the commands that
answer with `len` bytes of `CMD_BulkBuf`. -/
def mscDataIn (len : Nat) : Isr σ Unit := do
  let d ← get
  if d.cbw.dDataLength = 0 then mscFinish .phaseError
  else if ¬ d.cbw.toHost then do
    mscSetStallEp
    mscFinish .phaseError
  else
    modify fun d =>
      let len := min len d.cbw.dDataLength
      { d.writeEp (.command len) with
        bulkLen := len
        bulkStage := .dataInLast
        csw := { d.csw with dDataResidue := 0, bStatus := .passed } }

/-- `MSC_RequestSense` -/
def mscRequestSense : Isr σ Unit := mscDataIn 18
/-- `MSC_Inquiry` -/
def mscInquiry : Isr σ Unit := mscDataIn 36
/-- `MSC_ModeSense6` -/
def mscModeSense6 : Isr σ Unit := mscDataIn 4
/-- `MSC_ModeSense10` -/
def mscModeSense10 : Isr σ Unit := mscDataIn 8
/-- `MSC_ReadCapacity` -/
def mscReadCapacity : Isr σ Unit := mscDataIn 8
/-- `MSC_ReadFormatCapacity` -/
def mscReadFormatCapacity : Isr σ Unit := mscDataIn 12

/-- The read commands in `MSC_GetCBW`. -/
def mscStartRead : Isr σ Unit := do
  if ← mscRwSetup then
    let d ← get
    if d.cbw.toHost then
      modify fun d => { d with bulkStage := .dataIn }
      mscMemoryRead
    else
      mscSetStallEp
      mscFinish .phaseError

/-- The write commands in `MSC_GetCBW`, and a verification with data. -/
def mscStartWrite : Isr σ Unit := do
  if ← mscRwSetup then
    let d ← get
    if ¬ d.cbw.toHost then modify fun d => { d with bulkStage := .dataOut }
    else
      mscSetStallEp
      mscFinish .phaseError

/-- `MSC_GetCBW` -/
def mscGetCbw : Isr σ Unit := do
  let d ← get
  if d.cbw.Valid d.bulkLen then
    modify fun d => { d.note (.command d.cbw) with
      csw := { d.csw with dTag := d.cbw.dTag, dDataResidue := d.cbw.dDataLength } }
    if ¬ d.cbw.Meaningful then mscFinish .failed
    else if d.cbw.opcode = scsiTestUnitReady then mscTestUnitReady
    else if d.cbw.opcode = scsiRequestSense then mscRequestSense
    else if d.cbw.opcode = scsiInquiry then mscInquiry
    else if d.cbw.opcode = scsiModeSense6 then mscModeSense6
    else if d.cbw.opcode = scsiModeSense10 then mscModeSense10
    else if d.cbw.opcode = scsiReadFormatCapacities then mscReadFormatCapacity
    else if d.cbw.opcode = scsiReadCapacity then mscReadCapacity
    else if d.cbw.isRead then mscStartRead
    else if d.cbw.isWrite then mscStartWrite
    else if d.cbw.opcode = scsiVerify10 then
      if d.cbw.cb 1 &&& 0x02 = 0 then mscFinish .passed else mscStartWrite
    else mscFinish .failed
  else do
    mscSetStallEp
    modify fun d => { d with bulkStage := .error }

/-- `MSC_BulkInNak` -/
def mscBulkInNak : Isr σ Unit := do
  let d ← get
  if d.readBulkLen ≠ 0 then
    -- the read buffer is ready to prime
    modify fun d => d.writeEp (.data d.readBulkBuf d.readBulkLen)
    if d.length = 0 then modify fun d => { d with bulkStage := .dataInLast }
    let d ← get
    if d.bulkStage ≠ .dataIn then
      modify fun d => { d with csw := { d.csw with bStatus := .passed } }

/-- `MSC_BulkIn` -/
def mscBulkIn : Isr σ Unit := do
  let d ← get
  match d.bulkStage with
  | .dataIn => if d.cbw.isRead then mscMemoryRead
  | .dataInLast => mscSetCsw
  | .dataInLastStall => do
      mscSetStallEp
      mscSetCsw
  | .csw => modify fun d => { d with bulkStage := .cbw }
  | _ => pure ()

/-- The sectors that the next OUT transfer covers. -/
def Device.outCount (d : Device σ) : Nat :=
  min (sectorPerMpp - d.offset % sectorPerMpp) d.length

/-- `MSC_BulkOutNak` -/
def mscBulkOutNak : Isr σ Unit := do
  let d ← get
  if d.bulkStage = .dataOut then
    match d.mergeStage with
    -- the page to merge with is still to be read
    | .start => pure ()
    | .finish =>
        match d.bulkBuf with
        | some i =>
            modify fun d => { d with
              outRequest := some (.page i (d.offset % sectorPerMpp)
                (d.mergeCount * mscBlockSize))
              mergeStage := .none
              mergeCount := 0 }
        | none => Program.stop .nullBuffer
    | .none => do
        modify (·.take)
        let d ← get
        match d.bulkBuf with
        | some i =>
            if d.outCount ≠ sectorPerMpp then
              -- the tag of the entry is left as it is
              logTransaction ⟨.merge, d.offset / sectorPerMpp * sectorPerMpp, sectorPerMpp,
                some (.page i), (d.utList.slots d.utList.push).tag⟩
              modify fun d => { d with mergeStage := .start, mergeCount := d.outCount }
            else
              modify fun d => { d with outRequest := some (.page i 0 mppBytes) }
        | none => pure ()
  else if d.bulkStage = .cbw then
    modify fun d => { d with outRequest := some .cbw }

/-- `MSC_BulkOut`, when `received` bytes came. -/
def mscBulkOut (received : Nat) : Isr σ Unit := do
  modify fun d => { d with bulkLen := received }
  let d ← get
  match d.bulkStage with
  | .cbw => mscGetCbw
  | .dataOut =>
      if d.cbw.isWrite then mscMemoryWrite
      else if d.cbw.opcode = scsiVerify10 then mscMemoryVerify
  | .csw => pure ()
  | _ => do
      mscSetStallEp
      mscFinish .phaseError

/-! ## The task -/

namespace Device

variable (d : Device σ)

/-- What a buffer holds. -/
def content : BufferPtr → Buffer
  | .page i => d.pool i
  | .readBulk => d.readBulkBuf

def setContent (data : Buffer) : BufferPtr → Device σ
  | .page i => { d with pool := Function.update d.pool i data }
  | .readBulk => { d with readBulkBuf := data }

/-- The buffer of a transaction is handed to `ONFM_Write`. -/
def handOver : BufferPtr → Device σ
  | .page i => { d with handed := Function.update d.handed i true }
  | .readBulk => d

end Device

/-- A call of the storage on a buffer. -/
def callOnfm (p : Option BufferPtr)
    (f : BufferPtr → Device σ → Option (Device σ)) : Isr σ Unit := do
  match p with
  | none => Program.stop .nullBuffer
  | some p =>
      let d ← get
      match f p d with
      | some d' => set d'
      | none => Program.stop .assertion

/-- `ONFM_Read` into the buffer of a transaction. -/
def runRead (onfm : Onfm σ) (t : Transaction) (flag mft : Bool) : Isr σ Unit :=
  callOnfm t.buffer fun p d =>
    (onfm.read t.offset t.length (d.content p) flag mft d.onfm).map fun (data, onfm') =>
      { (d.setContent data p).note (.returned t flag mft data) with onfm := onfm' }

/-- `ONFM_Write` from the buffer of a transaction. -/
def runWrite (onfm : Onfm σ) (t : Transaction) (flag mft : Bool) : Isr σ Unit :=
  callOnfm t.buffer fun p d =>
    (onfm.write t.offset t.length (d.content p) flag mft d.onfm).map fun onfm' =>
      { (d.handOver p).note (.wrote t (d.content p)) with onfm := onfm' }

/-- One round of `usb_user_task_loop`. -/
def usbUserTask (onfm : Onfm σ) : Isr σ Unit := do
  let d ← get
  if d.utList.pop ≠ d.utList.push then
    let t := d.utList.slots d.utList.pop
    match t.type with
    | .write =>
        runWrite onfm t (checkTag t.tag == 1) (checkTag t.tag == 2)
    | .read =>
        if d.readBulkLen = 0 then
          runRead onfm t (checkTag t.tag == 3) (checkTag t.tag == 2)
          -- tell the NAK handler that the buffer is ready to prime
          modify fun d => { d with
            readBulkLen := t.length * mscBlockSize % 4294967296 }
    | .merge =>
        if d.mergeStage = .start then
          runRead onfm t false false
          modify fun d => { d with mergeStage := .finish }
    modify fun d => { d with utList := d.utList.drop utListSize }

/-! ## Runs -/

/-- What arrives at the OUT endpoint: a command block wrapper, or data. -/
inductive Packet where
  | cbw (c : Cbw) (len : Nat)
  | data (bytes : Nat → Nat) (len : Nat)

inductive Event where
  | outNak
  | outDone (p : Packet)
  | inNak
  | inDone
  | task
  | free (i : Fin 4)

/-- The direct memory access of a packet into what the OUT endpoint was primed
with. -/
def Device.receive (d : Device σ) : OutRequest → Packet → Option (Device σ × Nat)
  | .cbw, .cbw c len =>
      if len ≤ 31 then some ({ d with cbw := c, outRequest := none }, len) else none
  | .page i first size, .data bytes len =>
      if len ≤ size then
        some ({ d with
          pool := Function.update d.pool i
            ((d.pool i).splice (first * mscBlockSize) len bytes)
          outRequest := none }, len)
      else none
  | _, _ => none

/-- One event.  A NAK of the OUT endpoint is reported only while it is not
primed; a NAK of the IN endpoint may have been recorded before it was primed. -/
inductive Step (onfm : Onfm σ) : Device σ → Event → Device σ → Prop where
  | outNak {d d' : Device σ} : d.outRequest = none → mscBulkOutNak d = .ok ((), d') →
      Step onfm d .outNak d'
  | outDone {d d₁ d' : Device σ} {r : OutRequest} {p : Packet} {len : Nat} :
      d.outRequest = some r → d.receive r p = some (d₁, len) →
      mscBulkOut len d₁ = .ok ((), d') → Step onfm d (.outDone p) d'
  | inNak {d d' : Device σ} : mscBulkInNak d = .ok ((), d') → Step onfm d .inNak d'
  | inDone {d d' : Device σ} : d.inRequest ≠ none →
      mscBulkIn { d with inRequest := none } = .ok ((), d') → Step onfm d .inDone d'
  | task {d d' : Device σ} : usbUserTask onfm d = .ok ((), d') → Step onfm d .task d'
  | free {d : Device σ} {i : Fin 4} : d.handed i = true →
      Step onfm d (.free i) { d with
        poolUsed := Function.update d.poolUsed i false
        handed := Function.update d.handed i false }

/-- A run, its latest event first. -/
inductive Run (onfm : Onfm σ) : Device σ → List Event → Device σ → Prop where
  | nil {d : Device σ} : Run onfm d [] d
  | step {d d' d'' : Device σ} {e : Event} {es : List Event} :
      Run onfm d es d' → Step onfm d' e d'' → Run onfm d (e :: es) d''

/-- The device after `BUF_Init` and `MSC_Init`: the first page buffer is the
write buffer of the layer below. -/
def Device.init (onfm : σ) (blockCount : Nat) (pool : Fin 4 → Buffer) : Device σ where
  onfm := onfm
  blockCount := blockCount
  offset := 0
  length := 0
  bulkBuf := none
  bulkLen := 0
  readBulkLen := 0
  readBulkBuf := .zeros
  cbw := ⟨0, 0, 0, 0, 0, 0, fun _ => 0⟩
  csw := ⟨0, 0, .passed⟩
  bulkStage := .cbw
  utList := ⟨fun _ => ⟨.read, 0, 0, none, 0⟩, 0, 0⟩
  mergeStage := .none
  mergeCount := 0
  pool := pool
  poolUsed := fun i => i = 0
  handed := fun _ => false
  outRequest := none
  inRequest := none
  trace := []

end RansomTag

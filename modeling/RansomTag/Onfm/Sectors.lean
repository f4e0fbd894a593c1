import RansomTag.Ftl.Api

/-!
# Sector interface

`onfm.c` over the page interface of the translation layer, with the page
buffer of `buf_api.c` that gathers the sectors of a write.  A request that is
one whole page bypasses both the read buffer and the write buffer.
-/

namespace RansomTag

@[simp, reducible] def invalidLsaddr : Nat := 4294967295

/-- The translation layer below, and the statics of `onfm.c` and `buf_api.c`.
Of the four pages of the pool one is the write buffer, one is merged into and
one may be with the die, so that `BUF_Allocate` always finds a page. -/
structure OnfmState where
  ftl : FtlState
  readBuffer : Buffer
  readBufferStartSector : Nat
  startingSector : Nat
  sectorWritten : Nat → Bool
  writeBuffer : Buffer
  bufStartAddr : Nat
  bufEndAddr : Nat
  /-- What the pages hold that `BUF_Allocate` takes next. -/
  stale : Nat → Buffer

abbrev Sector (α : Type) := Program OnfmState Stop α

/-- A call of the translation layer. -/
def callFtl {α : Type} (m : Ftl α) : Sector α := fun o =>
  match m o.ftl with
  | .ok (a, s) => .ok (a, { o with ftl := s })
  | .error e => .error e

/-- Power-on: the read buffer is invalid from `ONFM_Mount` on. -/
def OnfmState.powerOn (ftl : FtlState) (stale : Nat → Buffer) : OnfmState where
  ftl := ftl
  readBuffer := .zeros
  readBufferStartSector := 0
  startingSector := invalidLsaddr
  sectorWritten := fun _ => false
  writeBuffer := .zeros
  bufStartAddr := 0
  bufEndAddr := 0
  stale := stale

/-! ## Write buffer -/

/-- `BUF_Allocate` -/
def bufAllocate : Sector Buffer := do
  let o ← get
  modify fun o => { o with stale := fun i => o.stale (i + 1) }
  pure (o.stale 0)

/-- `BUF_Init` -/
def bufInit : Sector Unit := do
  modify fun o => { o with
    bufStartAddr := invalidLsaddr
    bufEndAddr := invalidLsaddr
    sectorWritten := fun _ => false }
  let buffer ← bufAllocate
  modify fun o => { o with writeBuffer := buffer }

/-- `BUF_PutSector` -/
def bufPutSector (addr : Nat) (sector : Nat → Nat) : Sector Unit := do
  let o ← get
  if o.bufEndAddr = invalidLsaddr then
    modify fun o => { o with
      bufStartAddr := addr / sectorPerMpp * sectorPerMpp
      bufEndAddr := addr / sectorPerMpp * sectorPerMpp + (sectorPerMpp - 1) }
  let o ← get
  callFtl (assert (o.bufStartAddr ≤ addr ∧ addr ≤ o.bufEndAddr))
  modify fun o => { o with
    writeBuffer := o.writeBuffer.splice ((addr - o.bufStartAddr) * sectorSize) sectorSize sector
    sectorWritten := fun i => if i = addr - o.bufStartAddr then true else o.sectorWritten i }

/-- Copy the sectors of `is` that are written from the write buffer over the
merge buffer. -/
def mergeSectors (written : Nat → Bool) (write : Buffer) : List Nat → Buffer → Buffer
  | [], merge => merge
  | i :: is, merge => mergeSectors written write is
      (if written i then
        merge.splice (i * sectorSize) sectorSize fun k => write.byte (i * sectorSize + k)
      else merge)

/-- `BUF_GetPage`: the page address, and the page to write. -/
def bufGetPage [Platform] (flag mft : Bool) : Sector (Nat × Buffer) := do
  let o ← get
  let pageAddr := o.bufStartAddr / sectorPerMpp
  callFtl (assert (o.bufStartAddr ≠ invalidLsaddr))
  let buffer ←
    if (List.range sectorPerMpp).any fun i => !o.sectorWritten i then do
      let merge ← bufAllocate
      -- read back the page and merge with the written sectors
      let (ret, data) ← callFtl (ftlRead pageAddr flag mft)
      let merge := data.getD merge
      pure (if ret = .success then
        mergeSectors o.sectorWritten o.writeBuffer (List.range sectorPerMpp) merge
      else merge)
    else pure o.writeBuffer
  modify fun o => { o with
    bufStartAddr := invalidLsaddr
    bufEndAddr := invalidLsaddr
    sectorWritten := fun _ => false }
  let fresh ← bufAllocate
  modify fun o => { o with writeBuffer := fresh }
  pure (pageAddr, buffer)

/-! ## Format and mount -/

/-- `ONFM_Format` -/
def onfmFormat [Platform] : Sector Status := callFtl ftlFormat

/-- `ONFM_Mount` -/
def onfmMount [Platform] (fuel : Nat) : Sector Status := do
  modify fun o => { o with readBufferStartSector := invalidLsaddr }
  bufInit
  callFtl (ftlInit fuel)

/-! ## Read -/

/-- Whether a page is in the read buffer that holds the sector. -/
def OnfmState.Buffered (o : OnfmState) (addr : Nat) : Prop :=
  o.readBufferStartSector ≤ addr ∧
    addr < (o.readBufferStartSector + sectorPerMpp) % 4294967296

instance (o : OnfmState) (addr : Nat) : Decidable (o.Buffered addr) := by
  unfold OnfmState.Buffered
  infer_instance

variable [Platform]

/-- `onfm_read_sector`; `none` is its failure. -/
def onfmReadSector (addr : Nat) (flag mft : Bool) : Sector (Option (Nat → Nat)) := do
  let o ← get
  let ret ←
    -- no need to read from FTL, just get data from the read cache
    if o.Buffered addr then pure .success
    else do
      let pageAddr := addr / sectorPerMpp
      let (ret, data) ← callFtl (ftlRead pageAddr flag mft)
      modify fun o => { o with readBuffer := data.getD o.readBuffer }
      if ret = .success then
        modify fun o => { o with readBufferStartSector := pageAddr * sectorPerMpp }
      pure ret
  if ret = .success then
    let o ← get
    pure (some fun k => o.readBuffer.byte ((addr - o.readBufferStartSector) * sectorSize + k))
  else
    modify fun o => { o with readBufferStartSector := invalidLsaddr }
    pure none

/-- The loop of `ONFM_Read` over `n` sectors from the `i`-th on. -/
def onfmReadSectors (addr : Nat) (flag mft : Bool) :
    Nat → Nat → Buffer → Sector (Status × Buffer)
  | 0, _, out => pure (.success, out)
  | n + 1, i, out => do
      match ← onfmReadSector (addr + i) flag mft with
      | some bytes =>
          onfmReadSectors addr flag mft n (i + 1) (out.splice (i * sectorSize) sectorSize bytes)
      | none => pure (.failure, out)

/-- One whole page, at its start. -/
def WholePage (addr count : Nat) : Prop := addr % sectorPerMpp = 0 ∧ count = sectorPerMpp

instance (addr count : Nat) : Decidable (WholePage addr count) := by
  unfold WholePage
  infer_instance

/-- `ONFM_Read` of `count` sectors into the buffer `out`. -/
def onfmRead (addr count : Nat) (out : Buffer) (flag mft : Bool) : Sector (Status × Buffer) := do
  let (ret, out) ←
    if WholePage addr count then do
      let (ret, data) ← callFtl (ftlRead (addr / sectorPerMpp) flag mft)
      pure (ret, data.getD out)
    else onfmReadSectors addr flag mft count 0 out
  callFtl (assert (ret = .success))
  pure (ret, out)

/-! ## Write -/

/-- Write the page in the write buffer to the translation layer. -/
def onfmFlushPage (flag mft : Bool) : Sector Status := do
  let (pageAddr, buffer) ← bufGetPage flag mft
  callFtl (ftlWrite pageAddr (some buffer) flag mft)

/-- `onfm_write_sector`; no sector writes out what is gathered. -/
def onfmWriteSector (addr : Nat) (sector : Option (Nat → Nat)) (flag mft : Bool) :
    Sector Status := do
  let o ← get
  match sector with
  | some sector =>
      if o.startingSector = invalidLsaddr then do
        modify fun o => { o with startingSector := addr / sectorPerMpp * sectorPerMpp }
        bufPutSector addr sector
        pure .success
      else if o.startingSector ≤ addr ∧
          addr < (o.startingSector + sectorPerMpp) % 4294967296 then do
        bufPutSector addr sector
        pure .success
      else do
        callFtl (assert (addr = (o.startingSector + sectorPerMpp) % 4294967296))
        let ret ← onfmFlushPage flag mft
        if ret = .success then
          -- fill the buffer with the next sector
          modify fun o => { o with startingSector := addr / sectorPerMpp * sectorPerMpp }
          bufPutSector addr sector
        pure ret
  | none =>
      if o.startingSector = invalidLsaddr then pure .success
      else do
        let ret ← onfmFlushPage flag mft
        if ret = .success then
          callFtl (assert (addr = 4294967295))
          modify fun o => { o with startingSector := invalidLsaddr }
        pure ret

/-- The loop of `ONFM_Write` over `n` sectors from the `i`-th on. -/
def onfmWriteSectors (addr : Nat) (data : Buffer) (flag mft : Bool) :
    Nat → Nat → Sector Status
  | 0, _ => pure .success
  | n + 1, i => do
      let ret ← onfmWriteSector (addr + i)
        (some fun k => data.byte (i * sectorSize + k)) flag mft
      if ret = .success then onfmWriteSectors addr data flag mft n (i + 1) else pure ret

/-- `ONFM_Write` of `count` sectors. -/
def onfmWrite (addr count : Nat) (data : Buffer) (flag mft : Bool) : Sector Status := do
  -- disable the read buffer if something is written
  modify fun o => { o with readBufferStartSector := invalidLsaddr }
  if WholePage addr count then
    callFtl (ftlWrite (addr / sectorPerMpp) (some data) flag mft)
  else do
    let ret ← onfmWriteSectors addr data flag mft count 0
    -- flush the data in the buffer
    if ret = .success then onfmWriteSector 4294967295 none flag mft else pure ret

end RansomTag

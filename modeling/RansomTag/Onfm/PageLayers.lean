import RansomTag.Onfm.Writes

/-!
# The sector interface over any translation layer

`onfm.c` and `buf_api.c` again, over any translation layer and any pool of
pages: a call of the layer may fail, and `BUF_Allocate` may find no page.  The
sector interface over the modelled translation layer is one instance.
-/

namespace RansomTag

open Program

/-- The translation layer and the pool, as the sector interface calls them. -/
structure PageLayer (τ : Type) where
  /-- `FTL_Read`: its status, and what it put into the buffer. -/
  read : Nat → Bool → Bool → Program τ Stop (Status × Option Buffer)
  /-- `FTL_Write`; no buffer is a trim. -/
  write : Nat → Option Buffer → Bool → Bool → Program τ Stop Status
  /-- `BUF_Allocate` -/
  allocate : τ → Option Buffer × τ
  /-- `BUF_Free` of the write buffer. -/
  free : τ → τ

/-- A call of the translation layer that returned. -/
inductive PageCall where
  | read (page : Nat) (ret : Status)
  | write (page : Nat) (ret : Status)
  deriving DecidableEq

def PageCall.status : PageCall → Status
  | .read _ ret => ret
  | .write _ ret => ret

/-- The layer, the calls of it since the request began, and the statics of
`onfm.c` and `buf_api.c`. -/
structure Gather (τ : Type) where
  layer : τ
  calls : List PageCall
  readBuffer : Buffer
  readBufferStartSector : Nat
  startingSector : Nat
  sectorWritten : Nat → Bool
  writeBuffer : Option Buffer
  bufStartAddr : Nat
  bufEndAddr : Nat

/-- A stop leaves the calls before it. -/
abbrev Gathering (τ : Type) (α : Type) := Program (Gather τ) (List PageCall) α

variable {τ α : Type}

/-- A call of the translation layer, which `call` notes. -/
def callLayer (m : Program τ Stop α) (call : α → PageCall) : Gathering τ α := fun o =>
  match m o.layer with
  | .ok (a, l) => .ok (a, { o with
      layer := l
      calls := call a :: o.calls })
  | .error _ => .error o.calls

/-- `ASSERT(c)` -/
def require (c : Prop) [Decidable c] : Gathering τ Unit := fun o =>
  if c then .ok ((), o) else .error o.calls

namespace PageLayer

variable (L : PageLayer τ)

/-- `BUF_Allocate` -/
def bufAllocate : Gathering τ (Option Buffer) := fun o =>
  .ok ((L.allocate o.layer).1, { o with layer := (L.allocate o.layer).2 })

/-- `BUF_Free(write_buffer)` -/
def bufFree : Gathering τ Unit := modify fun o => { o with layer := L.free o.layer }

/-- `BUF_PutSector` -/
def bufPutSector (addr : Nat) (sector : Nat → Nat) : Gathering τ Unit := do
  let o ← get
  require (o.writeBuffer.isSome = true)
  if o.bufEndAddr = invalidLsaddr then
    modify fun o => { o with
      bufStartAddr := addr / sectorPerMpp * sectorPerMpp
      bufEndAddr := addr / sectorPerMpp * sectorPerMpp + (sectorPerMpp - 1) }
  let o ← get
  require (o.bufStartAddr ≤ addr ∧ addr ≤ o.bufEndAddr)
  modify fun o => { o with
    writeBuffer := o.writeBuffer.map fun b =>
      b.splice ((addr - o.bufStartAddr) * sectorSize) sectorSize sector
    sectorWritten := fun i => if i = addr - o.bufStartAddr then true else o.sectorWritten i }

/-- The written sectors are copied from the write buffer over the merge buffer;
a copy from or to no buffer is a stop. -/
def mergeWritten (written : Nat → Bool) (write merge : Option Buffer) :
    Gathering τ (Option Buffer) :=
  match write, merge with
  | some write, some merge =>
      pure (some (mergeSectors written write (List.range sectorPerMpp) merge))
  | _, _ => do
      require False
      pure none

/-- `BUF_GetPage`: the page address, and the page to write. -/
def bufGetPage (flag mft : Bool) : Gathering τ (Nat × Option Buffer) := do
  let o ← get
  let pageAddr := o.bufStartAddr / sectorPerMpp
  require (o.bufStartAddr ≠ invalidLsaddr)
  let buffer ←
    if (List.range sectorPerMpp).any fun i => !o.sectorWritten i then do
      let merge ← L.bufAllocate
      -- read back the page and merge with the written sectors
      let (ret, data) ← callLayer (L.read pageAddr flag mft) fun r => .read pageAddr r.1
      let merge := merge.map fun m => data.getD m
      let merge ←
        if ret = .success then mergeWritten o.sectorWritten o.writeBuffer merge else pure merge
      L.bufFree
      pure merge
    else pure o.writeBuffer
  modify fun o => { o with
    bufStartAddr := invalidLsaddr
    bufEndAddr := invalidLsaddr
    sectorWritten := fun _ => false }
  let fresh ← L.bufAllocate
  modify fun o => { o with writeBuffer := fresh }
  pure (pageAddr, buffer)

/-- Write the page in the write buffer to the translation layer. -/
def onfmFlushPage (flag mft : Bool) : Gathering τ Status := do
  let (pageAddr, buffer) ← L.bufGetPage flag mft
  callLayer (L.write pageAddr buffer flag mft) fun ret => .write pageAddr ret

/-- `onfm_write_sector`; no sector writes out what is gathered. -/
def onfmWriteSector (addr : Nat) (sector : Option (Nat → Nat)) (flag mft : Bool) :
    Gathering τ Status := do
  let o ← get
  match sector with
  | some sector =>
      if o.startingSector = invalidLsaddr then do
        modify fun o => { o with startingSector := addr / sectorPerMpp * sectorPerMpp }
        bufPutSector addr sector
        pure .success
      else if o.startingSector ≤ addr ∧
          addr < (o.startingSector + sectorPerMpp) % 4294967296 then do
        bufPutSector addr sector
        pure .success
      else do
        require (addr = (o.startingSector + sectorPerMpp) % 4294967296)
        let ret ← L.onfmFlushPage flag mft
        if ret = .success then
          -- fill the buffer with the next sector
          modify fun o => { o with startingSector := addr / sectorPerMpp * sectorPerMpp }
          bufPutSector addr sector
        pure ret
  | none =>
      if o.startingSector = invalidLsaddr then pure .success
      else do
        let ret ← L.onfmFlushPage flag mft
        if ret = .success then
          require (addr = 4294967295)
          modify fun o => { o with startingSector := invalidLsaddr }
        pure ret

/-- The loop of `ONFM_Write` over `n` sectors from the `i`-th on. -/
def onfmWriteSectors (addr : Nat) (data : Buffer) (flag mft : Bool) :
    Nat → Nat → Gathering τ Status
  | 0, _ => pure .success
  | n + 1, i => do
      let ret ← L.onfmWriteSector (addr + i)
        (some fun k => data.byte (i * sectorSize + k)) flag mft
      if ret = .success then onfmWriteSectors addr data flag mft n (i + 1) else pure ret

/-- `ONFM_Write` of `count` sectors. -/
def onfmWrite (addr count : Nat) (data : Buffer) (flag mft : Bool) : Gathering τ Status := do
  -- disable the read buffer if something is written
  modify fun o => { o with readBufferStartSector := invalidLsaddr }
  if WholePage addr count then
    callLayer (L.write (addr / sectorPerMpp) (some data) flag mft)
      fun ret => .write (addr / sectorPerMpp) ret
  else do
    let ret ← L.onfmWriteSectors addr data flag mft count 0
    -- flush the data in the buffer
    if ret = .success then L.onfmWriteSector 4294967295 none flag mft else pure ret

/-- `onfm_read_sector`; `none` is its failure. -/
def onfmReadSector (addr : Nat) (flag mft : Bool) : Gathering τ (Option (Nat → Nat)) := do
  let o ← get
  let ret ←
    if o.readBufferStartSector ≤ addr ∧
        addr < (o.readBufferStartSector + sectorPerMpp) % 4294967296 then pure .success
    else do
      let pageAddr := addr / sectorPerMpp
      let (ret, data) ← callLayer (L.read pageAddr flag mft) fun r => .read pageAddr r.1
      modify fun o => { o with readBuffer := data.getD o.readBuffer }
      if ret = .success then
        modify fun o => { o with readBufferStartSector := pageAddr * sectorPerMpp }
      pure ret
  if ret = .success then
    let o ← get
    pure (some fun k => o.readBuffer.byte ((addr - o.readBufferStartSector) * sectorSize + k))
  else
    modify fun o => { o with readBufferStartSector := invalidLsaddr }
    pure none

/-- The loop of `ONFM_Read` over `n` sectors from the `i`-th on. -/
def onfmReadSectors (addr : Nat) (flag mft : Bool) :
    Nat → Nat → Buffer → Gathering τ (Status × Buffer)
  | 0, _, out => pure (.success, out)
  | n + 1, i, out => do
      match ← L.onfmReadSector (addr + i) flag mft with
      | some bytes =>
          onfmReadSectors addr flag mft n (i + 1) (out.splice (i * sectorSize) sectorSize bytes)
      | none => pure (.failure, out)

/-- `ONFM_Read` of `count` sectors into the buffer `out`. -/
def onfmRead (addr count : Nat) (out : Buffer) (flag mft : Bool) :
    Gathering τ (Status × Buffer) := do
  let (ret, out) ←
    if WholePage addr count then do
      let (ret, data) ← callLayer (L.read (addr / sectorPerMpp) flag mft)
        fun r => .read (addr / sectorPerMpp) r.1
      pure (ret, data.getD out)
    else L.onfmReadSectors addr flag mft count 0 out
  require (ret = .success)
  pure (ret, out)

end PageLayer

/-! ## The modelled translation layer -/

section

variable [Platform]

/-- The modelled translation layer, with a pool that always has a page. -/
def ftlLayer : PageLayer (FtlState × (Nat → Buffer)) where
  read := fun page flag mft l =>
    (ftlRead page flag mft l.1).map fun r => (r.1, (r.2, l.2))
  write := fun page buffer flag mft l =>
    (ftlWrite page buffer flag mft l.1).map fun r => (r.1, (r.2, l.2))
  allocate := fun l => (some (l.2 0), (l.1, fun i => l.2 (i + 1)))
  free := id

omit [Platform] in
/-- A state of the sector interface, after some calls. -/
def OnfmState.gather (o : OnfmState) (calls : List PageCall) :
    Gather (FtlState × (Nat → Buffer)) where
  layer := (o.ftl, o.stale)
  calls := calls
  readBuffer := o.readBuffer
  readBufferStartSector := o.readBufferStartSector
  startingSector := o.startingSector
  sectorWritten := o.sectorWritten
  writeBuffer := some o.writeBuffer
  bufStartAddr := o.bufStartAddr
  bufEndAddr := o.bufEndAddr

/-- `m` does over the layer what `m'` does, and returns `f` of what it returns. -/
def Simulates {α β : Type} (f : β → α) (m : Gathering (FtlState × (Nat → Buffer)) α)
    (m' : Sector β) (o : OnfmState) (calls : List PageCall) : Prop :=
  match m' o with
  | .ok (b, o') => ∃ calls', m (o.gather calls) = .ok (f b, o'.gather calls')
  | .error _ => ∃ calls', m (o.gather calls) = .error calls'

namespace Simulates

variable {α α' β β' : Type} {f : β → α} {g : β' → α'} {o : OnfmState} {calls : List PageCall}

omit [Platform] in
theorem of_pure (b : β) : Simulates f (pure (f b)) (pure b) o calls := ⟨calls, rfl⟩

omit [Platform] in
theorem bind {m : Gathering (FtlState × (Nat → Buffer)) α} {m' : Sector β}
    {k : α → Gathering (FtlState × (Nat → Buffer)) α'} {k' : β → Sector β'}
    (h : Simulates f m m' o calls)
    (hk : ∀ b o' calls', Simulates g (k (f b)) (k' b) o' calls') :
    Simulates g (m >>= k) (m' >>= k') o calls := by
  change match StateT.bind m' k' o with
    | .ok (b, o') => ∃ calls', StateT.bind m k (o.gather calls) = .ok (g b, o'.gather calls')
    | .error _ => ∃ calls', StateT.bind m k (o.gather calls) = .error calls'
  unfold Simulates at h
  simp only [StateT.bind, Bind.bind, Except.bind]
  cases hrun : m' o with
  | error e =>
      rw [hrun] at h
      obtain ⟨calls', hcalls⟩ := h
      rw [hcalls]
      exact ⟨calls', rfl⟩
  | ok r =>
      rw [hrun] at h
      obtain ⟨calls', hcalls⟩ := h
      rw [hcalls]
      exact hk r.1 r.2 calls'

omit [Platform] in
theorem of_get {m : Gather (FtlState × (Nat → Buffer)) → Gathering (FtlState × (Nat → Buffer)) α}
    {m' : OnfmState → Sector β} (h : Simulates f (m (o.gather calls)) (m' o) o calls) :
    Simulates f (get >>= m) (get >>= m') o calls := h

omit [Platform] in
theorem of_modify {u : Gather (FtlState × (Nat → Buffer)) → Gather (FtlState × (Nat → Buffer))}
    {u' : OnfmState → OnfmState} (h : u (o.gather calls) = (u' o).gather calls) :
    Simulates (fun _ : PUnit => PUnit.unit) (modify u) (modify u') o calls :=
  ⟨calls, congrArg (fun o => Except.ok (PUnit.unit, o)) h⟩

omit [Platform] in
theorem of_ite {c : Prop} [Decidable c] {m₁ m₂ : Gathering (FtlState × (Nat → Buffer)) α}
    {m₁' m₂' : Sector β} (h₁ : c → Simulates f m₁ m₁' o calls)
    (h₂ : ¬ c → Simulates f m₂ m₂' o calls) :
    Simulates f (if c then m₁ else m₂) (if c then m₁' else m₂') o calls := by
  by_cases hc : c
  · rw [if_pos hc, if_pos hc]
    exact h₁ hc
  · rw [if_neg hc, if_neg hc]
    exact h₂ hc

omit [Platform] in
theorem of_require {c : Prop} [Decidable c] :
    Simulates (fun _ : Unit => ()) (require c) (callFtl (assert c)) o calls := by
  unfold Simulates require callFtl assert
  by_cases hc : c
  · rw [if_pos hc, if_pos hc]
    exact ⟨calls, rfl⟩
  · rw [if_neg hc, if_neg hc]
    exact ⟨calls, rfl⟩

end Simulates

section

variable {o : OnfmState} {calls : List PageCall}

omit [Platform] in
theorem callLayer_simulates {α : Type} {m : Ftl α} {call : α → PageCall} :
    Simulates id (callLayer (fun l : FtlState × (Nat → Buffer) =>
      (m l.1).map fun r => (r.1, (r.2, l.2))) call) (callFtl m) o calls := by
  unfold Simulates callLayer callFtl OnfmState.gather
  dsimp only
  cases hrun : m o.ftl with
  | error e => exact ⟨calls, rfl⟩
  | ok r => exact ⟨call r.1 :: calls, rfl⟩

theorem bufAllocate_simulates :
    Simulates some ftlLayer.bufAllocate bufAllocate o calls := ⟨calls, rfl⟩

omit [Platform] in
theorem bufPutSector_simulates {addr : Nat} {sector : Nat → Nat} :
    Simulates (fun _ : Unit => ()) (PageLayer.bufPutSector addr sector)
      (bufPutSector addr sector) o calls := by
  unfold PageLayer.bufPutSector bufPutSector
  apply Simulates.of_get
  have hput : ∀ o calls, Simulates (fun _ : Unit => ()) (do
      let o ← get
      require (o.bufStartAddr ≤ addr ∧ addr ≤ o.bufEndAddr)
      modify fun o => { o with
        writeBuffer := o.writeBuffer.map fun b =>
          b.splice ((addr - o.bufStartAddr) * sectorSize) sectorSize sector
        sectorWritten := fun i =>
          if i = addr - o.bufStartAddr then true else o.sectorWritten i }) (do
      let o ← get
      callFtl (assert (o.bufStartAddr ≤ addr ∧ addr ≤ o.bufEndAddr))
      modify fun o => { o with
        writeBuffer := o.writeBuffer.splice ((addr - o.bufStartAddr) * sectorSize) sectorSize sector
        sectorWritten := fun i =>
          if i = addr - o.bufStartAddr then true else o.sectorWritten i }) o calls := by
    intro o calls
    apply Simulates.of_get
    apply Simulates.of_require.bind
    intro _ o calls
    exact .of_modify rfl
  change Simulates _ (if o.bufEndAddr = invalidLsaddr then _ else _) _ o calls
  apply Simulates.of_ite
  · intro _
    apply Simulates.bind (.of_modify rfl)
    intro _ o calls
    exact hput o calls
  · intro _
    exact hput o calls

theorem bufGetPage_simulates {flag mft : Bool} :
    Simulates (fun r : Nat × Buffer => (r.1, some r.2)) (ftlLayer.bufGetPage flag mft)
      (bufGetPage flag mft) o calls := by
  have hrest : ∀ pageAddr (buffer : Buffer) o calls,
      Simulates (fun r : Nat × Buffer => (r.1, some r.2)) (do
        modify fun o => { o with
          bufStartAddr := invalidLsaddr
          bufEndAddr := invalidLsaddr
          sectorWritten := fun _ => false }
        let fresh ← ftlLayer.bufAllocate
        modify fun o => { o with writeBuffer := fresh }
        pure (pageAddr, some buffer)) (do
        modify fun o => { o with
          bufStartAddr := invalidLsaddr
          bufEndAddr := invalidLsaddr
          sectorWritten := fun _ => false }
        let fresh ← bufAllocate
        modify fun o => { o with writeBuffer := fresh }
        pure (pageAddr, buffer)) o calls := by
    intro pageAddr buffer o calls
    apply Simulates.bind (.of_modify rfl)
    intro _ o calls
    apply bufAllocate_simulates.bind
    intro fresh o calls
    apply Simulates.bind (.of_modify rfl)
    intro _ o calls
    exact .of_pure (pageAddr, buffer)
  unfold PageLayer.bufGetPage bufGetPage
  apply Simulates.of_get
  apply Simulates.of_require.bind
  intro _ o₁ calls
  dsimp only []
  apply Simulates.of_ite
  · intro _
    apply bufAllocate_simulates.bind
    intro merge o₂ calls
    apply callLayer_simulates.bind
    rintro ⟨ret, data⟩ o₃ calls
    dsimp only [id_eq, Option.map_some]
    by_cases hret : ret = .success
    · simp only [hret, if_true]
      exact hrest _ _ o₃ calls
    · simp only [hret, if_false]
      exact hrest _ _ o₃ calls
  · intro _
    exact hrest _ o.writeBuffer o₁ calls

variable {addr count n i : Nat} {data out : Buffer} {flag mft : Bool}

theorem onfmFlushPage_simulates :
    Simulates id (ftlLayer.onfmFlushPage flag mft) (onfmFlushPage flag mft) o calls := by
  unfold PageLayer.onfmFlushPage onfmFlushPage
  apply bufGetPage_simulates.bind
  intro r o calls
  exact callLayer_simulates

theorem onfmWriteSector_simulates {sector : Option (Nat → Nat)} :
    Simulates id (ftlLayer.onfmWriteSector addr sector flag mft)
      (onfmWriteSector addr sector flag mft) o calls := by
  unfold PageLayer.onfmWriteSector onfmWriteSector
  apply Simulates.of_get
  cases sector with
  | some sector =>
      dsimp only
      apply Simulates.of_ite
      · intro _
        apply Simulates.bind (.of_modify rfl)
        intro _ o calls
        apply bufPutSector_simulates.bind
        intro _ o calls
        exact .of_pure _
      intro _
      apply Simulates.of_ite
      · intro _
        apply bufPutSector_simulates.bind
        intro _ o calls
        exact .of_pure _
      · intro _
        apply Simulates.of_require.bind
        intro _ o calls
        apply onfmFlushPage_simulates.bind
        intro ret o calls
        dsimp only [id_eq]
        apply Simulates.of_ite
        · intro _
          apply Simulates.bind (.of_modify rfl)
          intro _ o calls
          apply bufPutSector_simulates.bind
          intro _ o calls
          exact .of_pure _
        · intro _
          exact .of_pure _
  | none =>
      dsimp only
      apply Simulates.of_ite
      · intro _
        exact .of_pure _
      · intro _
        apply onfmFlushPage_simulates.bind
        intro ret o calls
        dsimp only [id_eq]
        apply Simulates.of_ite
        · intro _
          apply Simulates.of_require.bind
          intro _ o calls
          apply Simulates.bind (.of_modify rfl)
          intro _ o calls
          exact .of_pure _
        · intro _
          exact .of_pure _

theorem onfmWriteSectors_simulates :
    Simulates id (ftlLayer.onfmWriteSectors addr data flag mft n i)
      (onfmWriteSectors addr data flag mft n i) o calls := by
  induction n generalizing i o calls with
  | zero => exact .of_pure _
  | succ n ih =>
      unfold PageLayer.onfmWriteSectors onfmWriteSectors
      apply onfmWriteSector_simulates.bind
      intro ret o calls
      dsimp only [id_eq]
      apply Simulates.of_ite
      · intro _
        exact ih
      · intro _
        exact .of_pure _

/-- `ONFM_Write` over the modelled translation layer is that of `Sectors`. -/
theorem onfmWrite_simulates :
    Simulates id (ftlLayer.onfmWrite addr count data flag mft)
      (onfmWrite addr count data flag mft) o calls := by
  unfold PageLayer.onfmWrite onfmWrite
  apply Simulates.bind (.of_modify rfl)
  intro _ o calls
  apply Simulates.of_ite
  · intro _
    exact callLayer_simulates
  · intro _
    apply onfmWriteSectors_simulates.bind
    intro ret o calls
    dsimp only [id_eq]
    apply Simulates.of_ite
    · intro _
      exact onfmWriteSector_simulates
    · intro _
      exact .of_pure _

theorem onfmReadSector_simulates :
    Simulates id (ftlLayer.onfmReadSector addr flag mft) (onfmReadSector addr flag mft)
      o calls := by
  have hrest : ∀ (ret : Status) o calls, Simulates id (do
      if ret = .success then
        let o ← get
        pure (some fun k => o.readBuffer.byte ((addr - o.readBufferStartSector) * sectorSize + k))
      else
        modify fun o => { o with readBufferStartSector := invalidLsaddr }
        pure none) (do
      if ret = .success then
        let o ← get
        pure (some fun k => o.readBuffer.byte ((addr - o.readBufferStartSector) * sectorSize + k))
      else
        modify fun o => { o with readBufferStartSector := invalidLsaddr }
        pure none) o calls := by
    intro ret o calls
    apply Simulates.of_ite
    · intro _
      apply Simulates.of_get
      exact .of_pure _
    · intro _
      apply Simulates.bind (.of_modify rfl)
      intro _ o calls
      exact .of_pure _
  unfold PageLayer.onfmReadSector onfmReadSector
  apply Simulates.of_get
  dsimp only []
  by_cases hbuf : o.Buffered addr
  · have hbuf' : (o.gather calls).readBufferStartSector ≤ addr ∧
        addr < ((o.gather calls).readBufferStartSector + sectorPerMpp) % 4294967296 := hbuf
    rw [if_pos hbuf, if_pos hbuf']
    exact hrest .success o calls
  · have hbuf' : ¬ ((o.gather calls).readBufferStartSector ≤ addr ∧
        addr < ((o.gather calls).readBufferStartSector + sectorPerMpp) % 4294967296) := hbuf
    rw [if_neg hbuf, if_neg hbuf']
    apply callLayer_simulates.bind
    rintro ⟨ret, data⟩ o calls
    apply Simulates.bind (.of_modify rfl)
    intro _ o calls
    dsimp only [id_eq]
    by_cases hret : ret = .success
    · rw [if_pos hret, if_pos hret]
      apply Simulates.bind (.of_modify rfl)
      intro _ o calls
      exact hrest ret o calls
    · rw [if_neg hret, if_neg hret]
      exact hrest ret o calls

theorem onfmReadSectors_simulates :
    Simulates id (ftlLayer.onfmReadSectors addr flag mft n i out)
      (onfmReadSectors addr flag mft n i out) o calls := by
  induction n generalizing i out o calls with
  | zero => exact .of_pure _
  | succ n ih =>
      unfold PageLayer.onfmReadSectors onfmReadSectors
      apply onfmReadSector_simulates.bind
      intro bytes o calls
      cases bytes with
      | some bytes => exact ih
      | none => exact .of_pure _

/-- `ONFM_Read` over the modelled translation layer is that of `Sectors`. -/
theorem onfmRead_simulates :
    Simulates id (ftlLayer.onfmRead addr count out flag mft) (onfmRead addr count out flag mft)
      o calls := by
  have hrest : ∀ (r : Status × Buffer) o calls, Simulates id (do
      require (r.1 = .success)
      pure r) (do
      callFtl (assert (r.1 = .success))
      pure r) o calls := by
    intro r o calls
    apply Simulates.of_require.bind
    intro _ o calls
    exact .of_pure _
  unfold PageLayer.onfmRead onfmRead
  dsimp only []
  by_cases hwhole : WholePage addr count
  · rw [if_pos hwhole, if_pos hwhole]
    apply callLayer_simulates.bind
    rintro ⟨ret, data⟩ o calls
    exact hrest (ret, data.getD out) o calls
  · rw [if_neg hwhole, if_neg hwhole]
    apply onfmReadSectors_simulates.bind
    intro r o calls
    exact hrest r o calls

end

end

end RansomTag

import RansomTag.Usb.Outcomes

/-!
# Handlers that return

The handlers stop only at a full ring and at a null buffer.  Where neither is
in the way, these are the states that they return.
-/

namespace RansomTag

open Program

/-- A storage that answers every call at once. -/
def Onfm.idle : Onfm Unit where
  read := fun _ _ data _ _ _ => some (data, ())
  write := fun _ _ _ _ _ _ => some ()

variable {σ : Type} {d : Device σ} {i : Fin 4}

theorem logTransaction_ok (hroom : d.Room) (t : Transaction) :
    logTransaction t d = .ok ((), d.logged t) := by
  have hwp : wp (logTransaction t) (fun _ d' => d' = d.logged t) (fun _ => False) d := by
    have hne : (d.logged t).utList.push ≠ (d.logged t).utList.pop := hroom t
    unfold logTransaction
    rw [wp_bind, wp_modify, wp_bind, wp_get]
    change wp (if (d.logged t).utList.push ≠ (d.logged t).utList.pop then _ else _) _ _ _
    rw [if_pos hne]
    exact rfl
  obtain ⟨_, d', hok, rfl⟩ := exists_ok_of_wp hwp
  exact hok

/-- A wrapper that the device executes as a write. -/
theorem mscGetCbw_write (hvalid : d.cbw.Valid d.bulkLen) (hstarts : d.cbw.StartsWrite)
    (hop : d.cbw.isWrite) :
    mscGetCbw d = .ok ((), { d.accepted.addressed with bulkStage := .dataOut }) := by
  have hwp : wp mscGetCbw (fun _ d' => d' = { d.accepted.addressed with bulkStage := .dataOut })
      (fun _ => False) d := by
    have hread : ¬ d.cbw.isRead := fun h => h.not_isWrite.1 hop
    have hshort : ∀ {code : Byte}, code ∈ [scsiTestUnitReady, scsiRequestSense, scsiInquiry,
        scsiModeSense6, scsiModeSense10, scsiReadFormatCapacities, scsiReadCapacity] →
        d.cbw.opcode ≠ code :=
      fun hmem h => (Cbw.not_starts_of_short h hmem).2 hstarts
    unfold mscGetCbw
    rw [wp_bind, wp_get, if_pos hvalid, wp_bind, wp_modify, if_neg (not_not.mpr hstarts.1)]
    change wp _ _ _ d.accepted
    rw [if_neg (hshort (by simp)), if_neg (hshort (by simp)), if_neg (hshort (by simp)),
      if_neg (hshort (by simp)), if_neg (hshort (by simp)), if_neg (hshort (by simp)),
      if_neg (hshort (by simp)), if_neg hread, if_pos hop]
    unfold mscStartWrite
    rw [wp_bind]
    apply wp_mscRwSetup
    · intro _
      have hin : ¬ d.accepted.addressed.cbw.toHost := hstarts.2.2.2
      simp only [if_true]
      rw [wp_bind, wp_get, if_pos hin, wp_modify]
    · intro d' hnot
      exact absurd hstarts.2.2.1 hnot
  obtain ⟨_, d', hok, rfl⟩ := exists_ok_of_wp hwp
  exact hok

theorem mscMemoryRead_ok (hroom : d.Room) : mscMemoryRead d = .ok ((), d.memoryRead) := by
  have hwp : wp mscMemoryRead (fun _ d' => d' = d.memoryRead) (fun _ => False) d := by
    unfold mscMemoryRead
    rw [wp_bind, wp_get]
    by_cases hclip : d.Clips d.inCount
    · have hclip' : d.blockCount <
          add32 d.offset (min (sectorPerMpp - d.offset % sectorPerMpp) d.length) := hclip
      simp only [hclip', if_true, wp_bind, wp_modify]
      refine Iff.mpr (wp_iff_of_ok (logTransaction_ok (by exact hroom) _)) ?_
      simp only [Device.memoryRead, Device.readTransaction, Device.readCount, Device.clipNote,
        hclip, if_true, Device.note, Device.logged]
      exact rfl
    · have hclip' : ¬ d.blockCount <
          add32 d.offset (min (sectorPerMpp - d.offset % sectorPerMpp) d.length) := hclip
      simp only [hclip', if_false, wp_bind]
      refine Iff.mpr (wp_iff_of_ok (logTransaction_ok (by exact hroom) _)) ?_
      simp only [Device.memoryRead, Device.readTransaction, Device.readCount, Device.clipNote,
        hclip, if_false, Device.note, Device.logged]
      exact rfl
  obtain ⟨_, d', hok, rfl⟩ := exists_ok_of_wp hwp
  exact hok

/-- A wrapper that the device executes as a read. -/
theorem mscGetCbw_read (hvalid : d.cbw.Valid d.bulkLen) (hstarts : d.cbw.StartsRead)
    (hroom : d.Room) :
    mscGetCbw d =
      .ok ((), ({ d.accepted.addressed with bulkStage := .dataIn } : Device σ).memoryRead) := by
  have hwp : wp mscGetCbw
      (fun _ d' => d' =
        ({ d.accepted.addressed with bulkStage := .dataIn } : Device σ).memoryRead)
      (fun _ => False) d := by
    have hop : d.cbw.isRead := hstarts.2.1
    have hshort : ∀ {code : Byte}, code ∈ [scsiTestUnitReady, scsiRequestSense, scsiInquiry,
        scsiModeSense6, scsiModeSense10, scsiReadFormatCapacities, scsiReadCapacity] →
        d.cbw.opcode ≠ code :=
      fun hmem h => (Cbw.not_starts_of_short h hmem).1 hstarts
    unfold mscGetCbw
    rw [wp_bind, wp_get, if_pos hvalid, wp_bind, wp_modify, if_neg (not_not.mpr hstarts.1)]
    change wp _ _ _ d.accepted
    rw [if_neg (hshort (by simp)), if_neg (hshort (by simp)), if_neg (hshort (by simp)),
      if_neg (hshort (by simp)), if_neg (hshort (by simp)), if_neg (hshort (by simp)),
      if_neg (hshort (by simp)), if_pos hop]
    unfold mscStartRead
    rw [wp_bind]
    apply wp_mscRwSetup
    · intro _
      have hin : d.accepted.addressed.cbw.toHost := hstarts.2.2.2
      simp only [if_true]
      rw [wp_bind, wp_get, if_pos hin, wp_bind, wp_modify]
      exact Iff.mpr (wp_iff_of_ok (mscMemoryRead_ok (by exact hroom))) rfl
    · intro d' hnot
      exact absurd hstarts.2.2.1 hnot
  obtain ⟨_, d', hok, rfl⟩ := exists_ok_of_wp hwp
  exact hok

theorem mscBulkOut_eq (received : Nat) :
    mscBulkOut received d = (match d.bulkStage with
      | .cbw => mscGetCbw
      | .dataOut =>
          if d.cbw.isWrite then mscMemoryWrite
          else if d.cbw.opcode = scsiVerify10 then mscMemoryVerify else pure ()
      | .csw => pure ()
      | _ => do
          mscSetStallEp
          mscFinish .phaseError) { d with bulkLen := received } := rfl

theorem mscBulkOut_command (received : Nat) (hstage : d.bulkStage = .cbw) :
    mscBulkOut received d = mscGetCbw { d with bulkLen := received } := by
  rw [mscBulkOut_eq]
  generalize ({ d with bulkLen := received } : Device σ) = t
  rw [hstage]

/-- A wrapper is received whole. -/
theorem step_command {onfm : Onfm σ} {c : Cbw} {d' : Device σ} (hreq : d.outRequest = some .cbw)
    (hstage : d.bulkStage = .cbw)
    (hrun : mscGetCbw { d with
      cbw := c
      outRequest := none
      bulkLen := 31 } = .ok ((), d')) : Step onfm d (.outDone (.cbw c 31)) d' := by
  have hrecv : d.receive .cbw (.cbw c 31) = some ({ d with
      cbw := c
      outRequest := none }, 31) := rfl
  have hout := mscBulkOut_command (d := { d with
    cbw := c
    outRequest := none }) 31 hstage
  exact .outDone hreq hrecv (hout.trans hrun)

theorem mscBulkOut_write {received : Nat} (hstage : d.bulkStage = .dataOut)
    (hop : d.cbw.isWrite) :
    mscBulkOut received d = mscMemoryWrite { d with bulkLen := received } := by
  rw [mscBulkOut_eq]
  generalize ({ d with bulkLen := received } : Device σ) = t
  rw [hstage]
  dsimp only
  rw [if_pos hop]

theorem mscBulkOutNak_merge (hstage : d.bulkStage = .dataOut) (hmerge : d.mergeStage = .none)
    (halloc : d.bufAllocate = some i) (hcount : d.outCount ≠ sectorPerMpp) (hroom : d.Room) :
    mscBulkOutNak d = .ok ((), { (d.took i).logged (d.mergeTransaction i) with
      mergeStage := .start
      mergeCount := d.outCount }) := by
  have htake : d.take = d.took i := by
    unfold Device.take
    rw [halloc]
    rfl
  have hcount' : (d.took i).outCount ≠ sectorPerMpp := hcount
  have hwp : wp mscBulkOutNak (fun _ d' => d' = { (d.took i).logged (d.mergeTransaction i) with
      mergeStage := .start
      mergeCount := d.outCount }) (fun _ => False) d := by
    unfold mscBulkOutNak
    rw [wp_bind, wp_get, if_pos hstage, hmerge]
    dsimp only
    rw [wp_bind, wp_modify, wp_bind, wp_get, htake]
    change wp (if (d.took i).outCount ≠ sectorPerMpp then _ else _) _ _ (d.took i)
    rw [if_pos hcount', wp_bind, wp_iff_of_ok (logTransaction_ok (d := d.took i) hroom _)]
    exact rfl
  obtain ⟨_, d', hok, rfl⟩ := exists_ok_of_wp hwp
  exact hok

theorem mscBulkOutNak_whole (hstage : d.bulkStage = .dataOut) (hmerge : d.mergeStage = .none)
    (halloc : d.bufAllocate = some i) (hcount : d.outCount = sectorPerMpp) :
    mscBulkOutNak d = .ok ((), { d.took i with outRequest := some (.page i 0 mppBytes) }) := by
  have htake : d.take = d.took i := by
    unfold Device.take
    rw [halloc]
    rfl
  have hcount' : ¬ (d.took i).outCount ≠ sectorPerMpp := not_not.mpr hcount
  have hwp : wp mscBulkOutNak
      (fun _ d' => d' = { d.took i with outRequest := some (.page i 0 mppBytes) })
      (fun _ => False) d := by
    unfold mscBulkOutNak
    rw [wp_bind, wp_get, if_pos hstage, hmerge]
    dsimp only
    rw [wp_bind, wp_modify, wp_bind, wp_get, htake]
    change wp (if (d.took i).outCount ≠ sectorPerMpp then _ else _) _ _ (d.took i)
    rw [if_neg hcount']
    exact rfl
  obtain ⟨_, d', hok, rfl⟩ := exists_ok_of_wp hwp
  exact hok

theorem mscBulkOutNak_merged (hstage : d.bulkStage = .dataOut) (hmerge : d.mergeStage = .finish)
    (hbuf : d.bulkBuf = some i) :
    mscBulkOutNak d = .ok ((), { d with
      outRequest := some (.page i (d.offset % sectorPerMpp) (d.mergeCount * mscBlockSize))
      mergeStage := .none
      mergeCount := 0 }) := by
  have hwp : wp mscBulkOutNak (fun _ d' => d' = { d with
      outRequest := some (.page i (d.offset % sectorPerMpp) (d.mergeCount * mscBlockSize))
      mergeStage := .none
      mergeCount := 0 }) (fun _ => False) d := by
    unfold mscBulkOutNak
    rw [wp_bind, wp_get, if_pos hstage, hmerge]
    dsimp only
    split
    · next j hj =>
        obtain rfl : j = i := Option.some.inj (hj.symm.trans hbuf)
        exact rfl
    · next hnull => exact absurd (hnull.symm.trans hbuf) (by simp)
  obtain ⟨_, d', hok, rfl⟩ := exists_ok_of_wp hwp
  exact hok

theorem callOnfm_ok {p : BufferPtr} {f : BufferPtr → Device σ → Option (Device σ)}
    {d' : Device σ} (hf : f p d = some d') : callOnfm (some p) f d = .ok ((), d') := by
  have hwp : wp (callOnfm (some p) f) (fun _ x => x = d') (fun _ => False) d := by
    unfold callOnfm
    dsimp only
    rw [wp_bind, wp_get, hf]
    exact rfl
  obtain ⟨_, x, hok, rfl⟩ := exists_ok_of_wp hwp
  exact hok

theorem usbUserTask_merge {onfm : Onfm σ} {p : BufferPtr} {data : Buffer} {below : σ}
    (hne : d.utList.pop ≠ d.utList.push) (htype : d.current.type = .merge)
    (hstart : d.mergeStage = .start) (hp : d.current.buffer = some p)
    (hread : onfm.read d.current.offset d.current.length (d.content p) false false d.onfm =
      some (data, below)) :
    usbUserTask onfm d =
      .ok ((), { d.filled p false false data below with mergeStage := .finish }.dropped) := by
  have hrun : runRead onfm d.current false false d =
      .ok ((), d.filled p false false data below) := by
    unfold runRead
    rw [hp]
    apply callOnfm_ok
    rw [hread]
    rfl
  have hwp : wp (usbUserTask onfm)
      (fun _ d' => d' = { d.filled p false false data below with mergeStage := .finish }.dropped)
      (fun _ => False) d := by
    have htype' : (d.utList.slots d.utList.pop).type = .merge := htype
    unfold usbUserTask
    rw [wp_bind, wp_get, if_pos hne]
    dsimp only
    rw [htype']
    dsimp only
    rw [if_pos hstart, wp_bind]
    refine Iff.mpr (wp_iff_of_ok hrun) ?_
    exact rfl
  obtain ⟨_, d', hok, rfl⟩ := exists_ok_of_wp hwp
  exact hok

/-- Whole sectors of data are logged as a write. -/
theorem mscMemoryWrite_logs (hlen : d.bulkLen % mscBlockSize = 0) (hroom : d.Room) :
    ∃ d' new, mscMemoryWrite d = .ok ((), d') ∧ d'.trace = new ++ d.trace ∧
      .push d.writeTransaction ∈ new := by
  have hend : wp (do
      let d ← get
      if d.length = 0 ∨ d.bulkStage = .csw then mscFinish .passed)
      (fun _ d' => ∃ new, d'.trace = new ++ d.trace ∧ Note.push d.writeTransaction ∈ new)
      (fun _ => False) d.memoryWrite := by
    obtain ⟨new, htrace, _⟩ := Device.adds_memoryWrite (d := d) (P := fun _ => True) trivial
    have hmem : Note.push d.writeTransaction ∈ new := by
      have hsplit : d.memoryWrite.trace = (.subtract d.length d.writeCount ::
          .push d.writeTransaction :: ((if d.Clips d.writeCount then [.stall] else []) ++
            d.clipNote d.writeCount)) ++ d.trace := by
        simp only [Device.memoryWrite, List.cons_append, List.append_assoc]
      rw [List.append_cancel_right (htrace.symm.trans hsplit)]
      simp
    rw [wp_bind, wp_get]
    split
    · exact ⟨.prime _ :: new, congrArg (List.cons _) htrace, List.mem_cons_of_mem _ hmem⟩
    · exact ⟨new, htrace, hmem⟩
  have hwp : wp mscMemoryWrite
      (fun _ d' => ∃ new, d'.trace = new ++ d.trace ∧ Note.push d.writeTransaction ∈ new)
      (fun _ => False) d := by
    unfold mscMemoryWrite
    rw [wp_bind, wp_get]
    simp only [hlen, if_true]
    by_cases hclip : d.Clips d.writeCount
    · have hclip' : d.blockCount < add32 d.offset (d.bulkLen / mscBlockSize) := hclip
      simp only [hclip', if_true, wp_bind, wp_modify, mscSetStallEp]
      refine Iff.mpr (wp_iff_of_ok (logTransaction_ok (by exact hroom) _)) ?_
      have hstate := hend
      simp only [Device.memoryWrite, Device.writeTransaction, Device.clipNote, hclip,
        if_true] at hstate
      simp only [Device.note, Device.logged, wp_bind] at hstate ⊢
      exact hstate
    · have hclip' : ¬ d.blockCount < add32 d.offset (d.bulkLen / mscBlockSize) := hclip
      simp only [hclip', if_false, wp_bind]
      refine Iff.mpr (wp_iff_of_ok (logTransaction_ok (by exact hroom) _)) ?_
      have hstate := hend
      simp only [Device.memoryWrite, Device.writeTransaction, Device.clipNote, hclip,
        if_false] at hstate
      simp only [Device.note, Device.logged, wp_bind] at hstate ⊢
      exact hstate
  obtain ⟨_, d', hok, new, htrace, hmem⟩ := exists_ok_of_wp hwp
  exact ⟨d', new, hok, htrace, hmem⟩

/-! ## Runs that can be computed -/

/-- The state of a handler that returned. -/
def returned : Except Halt (Unit × Device σ) → Option (Device σ)
  | .ok (_, d) => some d
  | .error _ => none

theorem returned_eq_some {r : Except Halt (Unit × Device σ)} (h : returned r = some d) :
    r = .ok ((), d) := by
  cases r with
  | ok r =>
      obtain ⟨_, d'⟩ := r
      rw [Option.some.inj h]
  | error e => exact absurd h (by simp [returned])

/-- The state after an event that can happen. -/
def Device.after (onfm : Onfm σ) (d : Device σ) : Event → Option (Device σ)
  | .outNak => if d.outRequest.isNone then returned (mscBulkOutNak d) else none
  | .outDone p =>
      match d.outRequest with
      | some r =>
          match d.receive r p with
          | some (d', len) => returned (mscBulkOut len d')
          | none => none
      | none => none
  | .inNak => returned (mscBulkInNak d)
  | .inDone =>
      if d.inRequest.isSome then returned (mscBulkIn { d with inRequest := none }) else none
  | .task => returned (usbUserTask onfm d)
  | .free i =>
      if d.handed i then
        some { d with
          poolUsed := Function.update d.poolUsed i false
          handed := Function.update d.handed i false }
      else none

theorem Device.after_step {onfm : Onfm σ} {e : Event} {d' : Device σ}
    (h : d.after onfm e = some d') : Step onfm d e d' := by
  cases e with
  | outNak =>
      obtain ⟨hfree, hrun⟩ := Option.ite_none_right_eq_some.mp h
      exact .outNak (Option.isNone_iff_eq_none.mp hfree) (returned_eq_some hrun)
  | outDone p =>
      unfold Device.after at h
      dsimp only at h
      split at h
      · next r hreq =>
          split at h
          · next d₁ len hrecv => exact .outDone hreq hrecv (returned_eq_some h)
          · exact absurd h (by simp)
      · exact absurd h (by simp)
  | inNak => exact .inNak (returned_eq_some h)
  | inDone =>
      obtain ⟨hprimed, hrun⟩ := Option.ite_none_right_eq_some.mp h
      exact .inDone (Option.isSome_iff_ne_none.mp hprimed) (returned_eq_some hrun)
  | task => exact .task (returned_eq_some h)
  | free i =>
      obtain ⟨hhanded, hstate⟩ := Option.ite_none_right_eq_some.mp h
      rw [← Option.some.inj hstate]
      exact .free hhanded

end RansomTag

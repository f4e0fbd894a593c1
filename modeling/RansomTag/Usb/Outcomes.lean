import RansomTag.Usb.Msc

/-!
# Outcomes of the handlers

What each handler of the mass-storage device can leave, with the test that
leads there.  The proofs about runs go through these and unfold no handler.
-/

namespace RansomTag

open Program

variable {σ : Type}

/-! ## States that the handlers leave -/

namespace Device

variable (d : Device σ)

/-- `CSW.bStatus = status; MSC_SetCSW();` -/
def finished (status : CswStatus) : Device σ :=
  { d with
    csw := { d.csw with bStatus := status }
    inRequest := some (.csw { d.csw with bStatus := status })
    trace := .prime (.csw { d.csw with bStatus := status }) :: d.trace
    bulkStage := .csw }

/-- `MSC_GetCBW` takes the wrapper as valid. -/
def accepted : Device σ :=
  { d.note (.command d.cbw) with
    csw := { d.csw with dTag := d.cbw.dTag, dDataResidue := d.cbw.dDataLength } }

/-- `MSC_RWSetup` decodes the address and the length. -/
def addressed : Device σ := { d with offset := d.cbw.lba, length := d.cbw.blocks }

def logged (t : Transaction) : Device σ :=
  { d.note (.push t) with utList := d.utList.log utListSize t }

/-- The sectors of the next read before it is clipped. -/
def inCount : Nat := min (sectorPerMpp - d.offset % sectorPerMpp) d.length

/-- `(Offset + n) > MSC_BlockCount` -/
def Clips (n : Nat) : Prop := d.blockCount < add32 d.offset n

instance (n : Nat) : Decidable (d.Clips n) := inferInstanceAs (Decidable (_ < _))

/-- The sectors of the next read. -/
def readCount : Nat :=
  if d.Clips d.inCount then sub32 d.blockCount d.offset else d.inCount

/-- The transaction that `MSC_MemoryRead` logs. -/
def readTransaction : Transaction :=
  ⟨.read, d.offset, d.readCount, some .readBulk, d.cbw.tagByte⟩

/-- What a clip leaves in the trace. -/
def clipNote (n : Nat) : List Note :=
  if d.Clips n then [.subtract d.blockCount d.offset] else []

/-- `MSC_MemoryRead` -/
def memoryRead : Device σ :=
  { d with
    bulkStage := if d.Clips d.inCount then .dataInLastStall else d.bulkStage
    utList := d.utList.log utListSize d.readTransaction
    readBulkLen := 0
    offset := add32 d.offset d.readCount
    length := sub32 d.length d.readCount
    csw := { d.csw with
      dDataResidue :=
        sub32 d.csw.dDataResidue (d.readCount * mscBlockSize % 4294967296) }
    trace := .subtract d.length d.readCount :: .push d.readTransaction ::
      (d.clipNote d.inCount ++ d.trace) }

/-- The transaction that `MSC_MemoryWrite` logs. -/
def writeTransaction : Transaction :=
  ⟨.write, d.offset / sectorPerMpp * sectorPerMpp, sectorPerMpp, d.bulkBuf.map .page,
    d.cbw.tagByte⟩

/-- The sectors that an OUT transfer brought. -/
def writeCount : Nat := d.bulkLen / mscBlockSize

/-- `MSC_MemoryWrite` up to its last test. -/
def memoryWrite : Device σ :=
  let len := if d.Clips d.writeCount then
    sub32 d.blockCount d.offset * mscBlockSize % 4294967296 else d.bulkLen
  { d with
    bulkStage := if d.Clips d.writeCount then .csw else d.bulkStage
    bulkLen := len
    utList := d.utList.log utListSize d.writeTransaction
    offset := add32 d.offset d.writeCount
    length := sub32 d.length d.writeCount
    csw := { d.csw with dDataResidue := sub32 d.csw.dDataResidue len }
    trace := .subtract d.length d.writeCount :: .push d.writeTransaction ::
      ((if d.Clips d.writeCount then [.stall] else []) ++
        (d.clipNote d.writeCount ++ d.trace)) }

/-- The transaction that reads a page to merge with into page buffer `i`. -/
def mergeTransaction (i : Fin 4) : Transaction :=
  ⟨.merge, d.offset / sectorPerMpp * sectorPerMpp, sectorPerMpp, some (.page i),
    (d.utList.slots d.utList.push).tag⟩

/-- A page buffer is taken for the next transfer. -/
def took (i : Fin 4) : Device σ :=
  { d with bulkBuf := some i, poolUsed := Function.update d.poolUsed i true }

/-- `DataIn_Transfer` -/
def answered (len : Nat) : Device σ :=
  { d with
    inRequest := some (.command (min len d.cbw.dDataLength))
    trace := .prime (.command (min len d.cbw.dDataLength)) :: d.trace
    bulkLen := min len d.cbw.dDataLength
    bulkStage := .dataInLast
    csw := { d.csw with dDataResidue := 0, bStatus := .passed } }

/-- The entry that the task runs. -/
def current : Transaction := d.utList.slots d.utList.pop

def dropped : Device σ := { d with utList := d.utList.drop utListSize }

end Device

/-- The ring has a free slot besides the one that always stays free. -/
def Device.Room (d : Device σ) : Prop :=
  ∀ t, (d.utList.log utListSize t).push ≠ (d.utList.log utListSize t).pop

/-! ## Handlers -/

section

variable {d d' : Device σ} {E : Halt → Prop}

theorem wp_logTransaction {t : Transaction} {Q : Unit → Device σ → Prop}
    (hQ : d.Room → Q () (d.logged t)) : wp (logTransaction t) Q (fun _ => True) d := by
  unfold logTransaction
  simp only [wp_bind, wp_modify, wp_get]
  split
  · next hroom => exact hQ fun _ => hroom
  · trivial

theorem wp_mscFinish {status : CswStatus} {Q : Unit → Device σ → Prop} :
    wp (mscFinish status) Q E d ↔ Q () (d.finished status) := Iff.rfl

theorem wp_mscMemoryRead {Q : Unit → Device σ → Prop}
    (hQ : d.Room → Q () d.memoryRead) : wp mscMemoryRead Q (fun _ => True) d := by
  unfold mscMemoryRead
  rw [wp_bind, wp_get]
  by_cases hclip : d.Clips d.inCount
  · have hclip' : d.blockCount <
        add32 d.offset (min (sectorPerMpp - d.offset % sectorPerMpp) d.length) := hclip
    simp only [hclip', if_true, wp_bind, wp_modify]
    refine wp_logTransaction fun hroom => ?_
    have hstate := hQ hroom
    simp only [Device.memoryRead, Device.readTransaction, Device.readCount, Device.clipNote,
      hclip, if_true] at hstate
    simp only [Device.note, Device.logged] at hstate ⊢
    exact hstate
  · have hclip' : ¬ d.blockCount <
        add32 d.offset (min (sectorPerMpp - d.offset % sectorPerMpp) d.length) := hclip
    simp only [hclip', if_false, wp_bind]
    refine wp_logTransaction fun hroom => ?_
    have hstate := hQ hroom
    simp only [Device.memoryRead, Device.readTransaction, Device.readCount, Device.clipNote,
      hclip, if_false] at hstate
    exact hstate

/-- What a transfer of data leaves: it is ignored, it is one of several, or it
ends the command. -/
inductive WriteOutcome (d : Device σ) : Device σ → Prop where
  | ragged : d.bulkLen % mscBlockSize ≠ 0 → WriteOutcome d d
  | more : d.bulkLen % mscBlockSize = 0 → d.Room → d.memoryWrite.length ≠ 0 →
      d.memoryWrite.bulkStage ≠ .csw → WriteOutcome d d.memoryWrite
  | last : d.bulkLen % mscBlockSize = 0 → d.Room →
      d.memoryWrite.length = 0 ∨ d.memoryWrite.bulkStage = .csw →
      WriteOutcome d (d.memoryWrite.finished .passed)

theorem mscMemoryWrite_outcome :
    wp mscMemoryWrite (fun _ d' => WriteOutcome d d') (fun _ => True) d := by
  unfold mscMemoryWrite
  rw [wp_bind, wp_get]
  by_cases hragged : d.bulkLen % mscBlockSize = 0
  · simp only [hragged, if_true]
    have hend : d.Room → wp (do
        let d ← get
        if d.length = 0 ∨ d.bulkStage = .csw then mscFinish .passed)
        (fun _ d' => WriteOutcome d d') (fun _ => True) d.memoryWrite := by
      intro hroom
      rw [wp_bind, wp_get]
      by_cases hlast : d.memoryWrite.length = 0 ∨ d.memoryWrite.bulkStage = .csw
      · rw [if_pos hlast, wp_mscFinish]
        exact .last hragged hroom hlast
      · rw [if_neg hlast, wp_pure]
        exact .more hragged hroom (fun h => hlast (.inl h)) (fun h => hlast (.inr h))
    by_cases hclip : d.Clips d.writeCount
    · have hclip' : d.blockCount < add32 d.offset (d.bulkLen / mscBlockSize) := hclip
      simp only [hclip', if_true, wp_bind, wp_modify, mscSetStallEp]
      refine wp_logTransaction fun hroom => ?_
      have hstate := hend hroom
      simp only [Device.memoryWrite, Device.writeTransaction, Device.clipNote, hclip,
        if_true] at hstate
      simp only [Device.note, Device.logged, wp_bind] at hstate ⊢
      exact hstate
    · have hclip' : ¬ d.blockCount < add32 d.offset (d.bulkLen / mscBlockSize) := hclip
      simp only [hclip', if_false, wp_bind]
      refine wp_logTransaction fun hroom => ?_
      have hstate := hend hroom
      simp only [Device.memoryWrite, Device.writeTransaction, Device.clipNote, hclip,
        if_false] at hstate
      simp only [Device.note, Device.logged, wp_bind] at hstate ⊢
      exact hstate
  · simp only [hragged, if_false]
    exact .ragged hragged

/-! ## Commands -/

/-- The wrapper starts a read. -/
def Cbw.StartsRead (c : Cbw) : Prop :=
  c.Meaningful ∧ c.isRead ∧ c.LengthAgrees ∧ c.toHost

/-- The wrapper starts a write, or a verification with data. -/
def Cbw.StartsWrite (c : Cbw) : Prop :=
  c.Meaningful ∧ (c.isWrite ∨ c.opcode = scsiVerify10 ∧ c.cb 1 &&& 0x02 ≠ 0) ∧
    c.LengthAgrees ∧ ¬ c.toHost

/-- How the device gets from a wrapper to its status without a transfer: it may
decode the address, and stall an endpoint. -/
inductive Refusal (d : Device σ) : Device σ → Prop where
  | plain : Refusal d d
  | addressed : Refusal d d.addressed
  | stall {d' : Device σ} : Refusal d d' → Refusal d (d'.note .stall)

/-- What a command block wrapper leads to. -/
inductive CommandOutcome (d : Device σ) : Device σ → Prop where
  | invalid : ¬ d.cbw.Valid d.bulkLen →
      CommandOutcome d { d.note .stall with bulkStage := .error }
  | refused {d' : Device σ} {status : CswStatus} : d.cbw.Valid d.bulkLen →
      ¬ d.cbw.StartsRead → ¬ d.cbw.StartsWrite → Refusal d.accepted d' →
      CommandOutcome d (d'.finished status)
  | answered {len : Nat} : d.cbw.Valid d.bulkLen →
      ¬ d.cbw.StartsRead → ¬ d.cbw.StartsWrite →
      CommandOutcome d (d.accepted.answered len)
  | read : d.cbw.Valid d.bulkLen → d.cbw.StartsRead → d.Room →
      CommandOutcome d { d.accepted.addressed with bulkStage := .dataIn }.memoryRead
  | write : d.cbw.Valid d.bulkLen → d.cbw.StartsWrite →
      CommandOutcome d { d.accepted.addressed with bulkStage := .dataOut }

/-- The operation codes of reads and writes are not those of the short commands. -/
theorem Cbw.not_starts_of_short {c : Cbw} {code : Byte} (h : c.opcode = code)
    (hshort : code ∈ [scsiTestUnitReady, scsiRequestSense, scsiInquiry, scsiModeSense6,
      scsiModeSense10, scsiReadFormatCapacities, scsiReadCapacity]) :
    ¬ c.StartsRead ∧ ¬ c.StartsWrite := by
  have hdistinct : code ≠ scsiRead10 ∧ code ≠ scsiRead12 ∧ code ≠ scsiWrite10 ∧
      code ≠ scsiWrite12 ∧ code ≠ scsiVerify10 := by
    simp only [List.mem_cons, List.not_mem_nil, or_false] at hshort
    rcases hshort with rfl | rfl | rfl | rfl | rfl | rfl | rfl <;> decide
  obtain ⟨hr10, hr12, hw10, hw12, hv10⟩ := hdistinct
  constructor
  · rintro ⟨_, hread, _⟩
    rcases hread with hop | hop
    · exact hr10 (h.symm.trans hop)
    · exact hr12 (h.symm.trans hop)
  · rintro ⟨_, hwrite, _⟩
    rcases hwrite with (hop | hop) | ⟨hop, _⟩
    · exact hw10 (h.symm.trans hop)
    · exact hw12 (h.symm.trans hop)
    · exact hv10 (h.symm.trans hop)

/-- A read is no write. -/
theorem Cbw.isRead.not_isWrite {c : Cbw} (h : c.isRead) :
    ¬ c.isWrite ∧ c.opcode ≠ scsiVerify10 := by
  rcases h with h | h
  · refine ⟨?_, ?_⟩
    · rintro (hw | hw) <;> rw [h] at hw <;> revert hw <;> decide
    · rw [h]
      decide
  · refine ⟨?_, ?_⟩
    · rintro (hw | hw) <;> rw [h] at hw <;> revert hw <;> decide
    · rw [h]
      decide

theorem Cbw.isWrite.ne_verify {c : Cbw} (h : c.isWrite) : c.opcode ≠ scsiVerify10 := by
  rcases h with h | h <;> rw [h] <;> decide

theorem Cbw.StartsRead.not_startsWrite {c : Cbw} (h : c.StartsRead) : ¬ c.StartsWrite := by
  rintro ⟨_, hwrite, _⟩
  obtain ⟨hnot, hverify⟩ := h.2.1.not_isWrite
  rcases hwrite with hwrite | ⟨hop, _⟩
  · exact hnot hwrite
  · exact hverify hop

theorem mscDataIn_outcome {len : Nat} (hvalid : d.cbw.Valid d.bulkLen)
    (hread : ¬ d.cbw.StartsRead) (hwrite : ¬ d.cbw.StartsWrite) :
    wp (mscDataIn len) (fun _ d' => CommandOutcome d d') (fun _ => True) d.accepted := by
  unfold mscDataIn
  rw [wp_bind, wp_get]
  by_cases hzero : d.accepted.cbw.dDataLength = 0
  · rw [if_pos hzero]
    exact .refused hvalid hread hwrite .plain
  · rw [if_neg hzero]
    by_cases hin : ¬ d.accepted.cbw.toHost
    · rw [if_pos hin]
      exact .refused hvalid hread hwrite (.stall .plain)
    · rw [if_neg hin]
      exact .answered hvalid hread hwrite

/-- `MSC_RWSetup` goes on, or the command ends with a failure. -/
theorem wp_mscRwSetup {Q : Bool → Device σ → Prop}
    (hok : d.cbw.LengthAgrees → Q true d.addressed)
    (hno : ∀ d', ¬ d.cbw.LengthAgrees → Refusal d d' → Q false (d'.finished .failed)) :
    wp mscRwSetup Q E d := by
  unfold mscRwSetup
  rw [wp_bind, wp_modify, wp_bind, wp_get]
  by_cases hzero : d.cbw.dDataLength = 0
  · have hnot : ¬ d.cbw.LengthAgrees := fun h => h.1 hzero
    simp only [hzero, if_true]
    exact hno _ hnot .addressed
  · simp only [hzero, if_false]
    by_cases hlen : d.cbw.dDataLength ≠ d.cbw.blocks * mscBlockSize % 4294967296
    · have hnot : ¬ d.cbw.LengthAgrees := fun h => hlen h.2
      rw [if_pos hlen]
      exact hno _ hnot (.stall .addressed)
    · rw [if_neg hlen]
      exact hok ⟨hzero, not_not.mp hlen⟩

theorem Refusal.cbw {d' : Device σ} (h : Refusal d d') : d'.cbw = d.cbw := by
  induction h with
  | plain => rfl
  | addressed => rfl
  | stall _ ih => exact ih

theorem mscStartRead_outcome (hvalid : d.cbw.Valid d.bulkLen) (hmean : d.cbw.Meaningful)
    (hop : d.cbw.isRead) :
    wp mscStartRead (fun _ d' => CommandOutcome d d') (fun _ => True) d.accepted := by
  have hwrite : ¬ d.cbw.StartsWrite := by
    rintro ⟨_, hwrite, _⟩
    obtain ⟨hnot, hverify⟩ := hop.not_isWrite
    rcases hwrite with hwrite | ⟨hcode, _⟩
    · exact hnot hwrite
    · exact hverify hcode
  unfold mscStartRead
  rw [wp_bind]
  apply wp_mscRwSetup
  · intro hlen
    have hlen : d.cbw.LengthAgrees := hlen
    simp only [if_true]
    rw [wp_bind, wp_get]
    by_cases hin : d.cbw.toHost
    · have hin' : d.accepted.addressed.cbw.toHost := hin
      rw [if_pos hin', wp_bind, wp_modify]
      exact wp_mscMemoryRead fun hroom => .read hvalid ⟨hmean, hop, hlen, hin⟩ hroom
    · have hin' : ¬ d.accepted.addressed.cbw.toHost := hin
      have hread : ¬ d.cbw.StartsRead := fun h => hin h.2.2.2
      rw [if_neg hin']
      exact .refused hvalid hread hwrite (.stall .addressed)
  · intro d' hnot hrefusal
    have hnot : ¬ d.cbw.LengthAgrees := hnot
    have hread : ¬ d.cbw.StartsRead := fun h => hnot h.2.2.1
    exact .refused hvalid hread hwrite hrefusal

theorem mscStartWrite_outcome (hvalid : d.cbw.Valid d.bulkLen) (hmean : d.cbw.Meaningful)
    (hop : d.cbw.isWrite ∨ d.cbw.opcode = scsiVerify10 ∧ d.cbw.cb 1 &&& 0x02 ≠ 0) :
    wp mscStartWrite (fun _ d' => CommandOutcome d d') (fun _ => True) d.accepted := by
  have hread : ¬ d.cbw.StartsRead := by
    rintro ⟨_, hread, _⟩
    obtain ⟨hnot, hverify⟩ := hread.not_isWrite
    rcases hop with hwrite | ⟨hcode, _⟩
    · exact hnot hwrite
    · exact hverify hcode
  unfold mscStartWrite
  rw [wp_bind]
  apply wp_mscRwSetup
  · intro hlen
    have hlen : d.cbw.LengthAgrees := hlen
    simp only [if_true]
    rw [wp_bind, wp_get]
    by_cases hin : d.cbw.toHost
    · have hin' : ¬ ¬ d.accepted.addressed.cbw.toHost := not_not.mpr hin
      have hwrite : ¬ d.cbw.StartsWrite := fun h => h.2.2.2 hin
      rw [if_neg hin']
      exact .refused hvalid hread hwrite (.stall .addressed)
    · have hin' : ¬ d.accepted.addressed.cbw.toHost := hin
      rw [if_pos hin', wp_modify]
      exact .write hvalid ⟨hmean, hop, hlen, hin⟩
  · intro d' hnot hrefusal
    have hnot : ¬ d.cbw.LengthAgrees := hnot
    have hwrite : ¬ d.cbw.StartsWrite := fun h => hnot h.2.2.1
    exact .refused hvalid hread hwrite hrefusal

theorem mscGetCbw_outcome :
    wp mscGetCbw (fun _ d' => CommandOutcome d d') (fun _ => True) d := by
  unfold mscGetCbw
  rw [wp_bind, wp_get]
  by_cases hvalid : d.cbw.Valid d.bulkLen
  · rw [if_pos hvalid, wp_bind, wp_modify]
    -- the state from here on is `d.accepted`
    by_cases hmean : d.cbw.Meaningful
    · have hshort : ∀ {code : Byte} {len : Nat}, d.cbw.opcode = code →
          code ∈ [scsiTestUnitReady, scsiRequestSense, scsiInquiry, scsiModeSense6,
            scsiModeSense10, scsiReadFormatCapacities, scsiReadCapacity] →
          wp (mscDataIn len) (fun _ d' => CommandOutcome d d') (fun _ => True) d.accepted := by
        intro code len hop hmem
        obtain ⟨hread, hwrite⟩ := Cbw.not_starts_of_short hop hmem
        exact mscDataIn_outcome hvalid hread hwrite
      rw [if_neg (not_not.mpr hmean)]
      change wp _ _ _ d.accepted
      by_cases h1 : d.cbw.opcode = scsiTestUnitReady
      · obtain ⟨hread, hwrite⟩ := Cbw.not_starts_of_short h1 (by simp)
        rw [if_pos h1]
        unfold mscTestUnitReady
        rw [wp_bind, wp_get]
        by_cases hlen : d.accepted.cbw.dDataLength ≠ 0
        · rw [if_pos hlen]
          exact .refused hvalid hread hwrite (.stall .plain)
        · rw [if_neg hlen]
          exact .refused hvalid hread hwrite .plain
      rw [if_neg h1]
      by_cases h2 : d.cbw.opcode = scsiRequestSense
      · rw [if_pos h2]
        exact hshort h2 (by simp)
      rw [if_neg h2]
      by_cases h3 : d.cbw.opcode = scsiInquiry
      · rw [if_pos h3]
        exact hshort h3 (by simp)
      rw [if_neg h3]
      by_cases h4 : d.cbw.opcode = scsiModeSense6
      · rw [if_pos h4]
        exact hshort h4 (by simp)
      rw [if_neg h4]
      by_cases h5 : d.cbw.opcode = scsiModeSense10
      · rw [if_pos h5]
        exact hshort h5 (by simp)
      rw [if_neg h5]
      by_cases h6 : d.cbw.opcode = scsiReadFormatCapacities
      · rw [if_pos h6]
        exact hshort h6 (by simp)
      rw [if_neg h6]
      by_cases h7 : d.cbw.opcode = scsiReadCapacity
      · rw [if_pos h7]
        exact hshort h7 (by simp)
      rw [if_neg h7]
      by_cases h8 : d.cbw.isRead
      · rw [if_pos h8]
        exact mscStartRead_outcome hvalid hmean h8
      rw [if_neg h8]
      by_cases h9 : d.cbw.isWrite
      · rw [if_pos h9]
        exact mscStartWrite_outcome hvalid hmean (.inl h9)
      rw [if_neg h9]
      by_cases h10 : d.cbw.opcode = scsiVerify10
      · rw [if_pos h10]
        by_cases h11 : d.cbw.cb 1 &&& 0x02 = 0
        · rw [if_pos h11]
          refine .refused hvalid (fun h => h8 h.2.1) ?_ .plain
          rintro ⟨_, hwrite | ⟨_, hbyte⟩, _⟩
          · exact h9 hwrite
          · exact hbyte h11
        · rw [if_neg h11]
          exact mscStartWrite_outcome hvalid hmean (.inr ⟨h10, h11⟩)
      · rw [if_neg h10]
        refine .refused hvalid (fun h => h8 h.2.1) ?_ .plain
        rintro ⟨_, hwrite | ⟨hop, _⟩, _⟩
        · exact h9 hwrite
        · exact h10 hop
    · rw [if_pos hmean]
      exact .refused hvalid (fun h => hmean h.1) (fun h => hmean h.1) .plain
  · rw [if_neg hvalid]
    exact .invalid hvalid

/-! ## Endpoint events -/

/-- What a NAK of the IN endpoint leaves. -/
inductive InNakOutcome (d : Device σ) : Device σ → Prop where
  | idle : d.readBulkLen = 0 → InNakOutcome d d
  | last : d.readBulkLen ≠ 0 → d.length = 0 →
      InNakOutcome d { d.writeEp (.data d.readBulkBuf d.readBulkLen) with
        bulkStage := .dataInLast
        csw := { d.csw with bStatus := .passed } }
  | inside : d.readBulkLen ≠ 0 → d.length ≠ 0 → d.bulkStage = .dataIn →
      InNakOutcome d (d.writeEp (.data d.readBulkBuf d.readBulkLen))
  | outside : d.readBulkLen ≠ 0 → d.length ≠ 0 → d.bulkStage ≠ .dataIn →
      InNakOutcome d { d.writeEp (.data d.readBulkBuf d.readBulkLen) with
        csw := { d.csw with bStatus := .passed } }

theorem mscBulkInNak_outcome :
    wp mscBulkInNak (fun _ d' => InNakOutcome d d') E d := by
  unfold mscBulkInNak
  rw [wp_bind, wp_get]
  by_cases hready : d.readBulkLen ≠ 0
  · rw [if_pos hready, wp_bind, wp_modify]
    by_cases hlast : d.length = 0
    · rw [if_pos hlast, wp_bind, wp_modify, wp_bind, wp_get]
      exact .last hready hlast
    · rw [if_neg hlast, wp_bind, wp_get]
      by_cases hstage : d.bulkStage = .dataIn
      · have hstage' : ¬ (d.writeEp (.data d.readBulkBuf d.readBulkLen)).bulkStage ≠ .dataIn :=
          not_not.mpr hstage
        rw [if_neg hstage']
        exact .inside hready hlast hstage
      · have hstage' : (d.writeEp (.data d.readBulkBuf d.readBulkLen)).bulkStage ≠ .dataIn :=
          hstage
        rw [if_pos hstage']
        exact .outside hready hlast hstage
  · rw [if_neg hready]
    exact .idle (not_not.mp hready)

/-- `MSC_SetCSW` -/
def Device.statusSent (d : Device σ) : Device σ :=
  { d.writeEp (.csw d.csw) with bulkStage := .csw }

/-- What the completion of an IN transfer leaves. -/
inductive InDoneOutcome (d : Device σ) : Device σ → Prop where
  | next : d.bulkStage = .dataIn → d.cbw.isRead → d.Room → InDoneOutcome d d.memoryRead
  | last : d.bulkStage = .dataInLast → InDoneOutcome d d.statusSent
  | stall : d.bulkStage = .dataInLastStall → InDoneOutcome d (d.note .stall).statusSent
  | status : d.bulkStage = .csw → InDoneOutcome d { d with bulkStage := .cbw }
  | idle : d.bulkStage ≠ .dataInLast → d.bulkStage ≠ .csw →
      (d.bulkStage = .dataIn → ¬ d.cbw.isRead) → InDoneOutcome d d

theorem mscBulkIn_outcome :
    wp mscBulkIn (fun _ d' => InDoneOutcome d d') (fun _ => True) d := by
  unfold mscBulkIn
  rw [wp_bind, wp_get]
  cases hstage : d.bulkStage with
  | dataIn =>
      dsimp only
      by_cases hop : d.cbw.isRead
      · rw [if_pos hop]
        exact wp_mscMemoryRead fun hroom => .next hstage hop hroom
      · rw [if_neg hop]
        exact .idle (by simp [hstage]) (by simp [hstage]) fun _ => hop
  | dataInLast => exact .last hstage
  | dataInLastStall => exact .stall hstage
  | csw => exact .status hstage
  | cbw => exact .idle (by simp [hstage]) (by simp [hstage]) (by simp [hstage])
  | dataOut => exact .idle (by simp [hstage]) (by simp [hstage]) (by simp [hstage])
  | error => exact .idle (by simp [hstage]) (by simp [hstage]) (by simp [hstage])

/-- What a NAK of the OUT endpoint leaves. -/
inductive OutNakOutcome (d : Device σ) : Device σ → Prop where
  | waiting : d.bulkStage = .dataOut → d.mergeStage = .start → OutNakOutcome d d
  | merged {i : Fin 4} : d.bulkStage = .dataOut → d.mergeStage = .finish →
      d.bulkBuf = some i →
      OutNakOutcome d { d with
        outRequest := some (.page i (d.offset % sectorPerMpp) (d.mergeCount * mscBlockSize))
        mergeStage := .none
        mergeCount := 0 }
  | starved : d.bulkStage = .dataOut → d.mergeStage = .none → d.bufAllocate = none →
      OutNakOutcome d { d with bulkBuf := none }
  | merge {i : Fin 4} : d.bulkStage = .dataOut → d.mergeStage = .none →
      d.bufAllocate = some i → d.outCount ≠ sectorPerMpp → d.Room →
      OutNakOutcome d { (d.took i).logged (d.mergeTransaction i) with
        mergeStage := .start
        mergeCount := d.outCount }
  | whole {i : Fin 4} : d.bulkStage = .dataOut → d.mergeStage = .none →
      d.bufAllocate = some i → d.outCount = sectorPerMpp →
      OutNakOutcome d { d.took i with outRequest := some (.page i 0 mppBytes) }
  | command : d.bulkStage = .cbw → OutNakOutcome d { d with outRequest := some .cbw }
  | idle : d.bulkStage ≠ .dataOut → d.bulkStage ≠ .cbw → OutNakOutcome d d

theorem mscBulkOutNak_outcome :
    wp mscBulkOutNak (fun _ d' => OutNakOutcome d d') (fun _ => True) d := by
  unfold mscBulkOutNak
  rw [wp_bind, wp_get]
  by_cases hstage : d.bulkStage = .dataOut
  · rw [if_pos hstage]
    cases hmerge : d.mergeStage with
    | start => exact .waiting hstage hmerge
    | finish =>
        dsimp only
        cases hbuf : d.bulkBuf with
        | some i => exact .merged hstage hmerge hbuf
        | none => trivial
    | none =>
        dsimp only
        rw [wp_bind, wp_modify, wp_bind, wp_get]
        cases halloc : d.bufAllocate with
        | none =>
            have htake : d.take = { d with bulkBuf := none } := by
              unfold Device.take
              rw [halloc]
            rw [htake]
            exact .starved hstage hmerge halloc
        | some i =>
            have htake : d.take = d.took i := by
              unfold Device.take
              rw [halloc]
              rfl
            rw [htake]
            by_cases hcount : d.outCount = sectorPerMpp
            · have hcount' : ¬ (d.took i).outCount ≠ sectorPerMpp := not_not.mpr hcount
              change wp (if (d.took i).outCount ≠ sectorPerMpp then _ else _) _ _ (d.took i)
              rw [if_neg hcount']
              exact .whole hstage hmerge halloc hcount
            · have hcount' : (d.took i).outCount ≠ sectorPerMpp := hcount
              change wp (if (d.took i).outCount ≠ sectorPerMpp then _ else _) _ _ (d.took i)
              rw [if_pos hcount', wp_bind]
              exact wp_logTransaction fun hroom => .merge hstage hmerge halloc hcount hroom
  · rw [if_neg hstage]
    by_cases hcbw : d.bulkStage = .cbw
    · rw [if_pos hcbw]
      exact .command hcbw
    · rw [if_neg hcbw]
      exact .idle hstage hcbw

/-- What an OUT transfer of `received` bytes leaves. -/
inductive OutDoneOutcome (d : Device σ) (received : Nat) : Device σ → Prop where
  | command {d' : Device σ} : d.bulkStage = .cbw →
      CommandOutcome { d with bulkLen := received } d' → OutDoneOutcome d received d'
  | write {d' : Device σ} : d.bulkStage = .dataOut → d.cbw.isWrite →
      WriteOutcome { d with bulkLen := received } d' → OutDoneOutcome d received d'
  | verify : d.bulkStage = .dataOut → d.cbw.opcode = scsiVerify10 →
      OutDoneOutcome d received ({ d with
        bulkLen := received
        offset := add32 d.offset d.length
        length := 0
        csw := { d.csw with dDataResidue := 0 } }.finished .passed)
  | ignored : d.bulkStage = .csw ∨
      d.bulkStage = .dataOut ∧ ¬ d.cbw.isWrite ∧ d.cbw.opcode ≠ scsiVerify10 →
      OutDoneOutcome d received { d with bulkLen := received }
  | misplaced : d.bulkStage ≠ .cbw → d.bulkStage ≠ .dataOut → d.bulkStage ≠ .csw →
      OutDoneOutcome d received
        (({ d with bulkLen := received }.note .stall).finished .phaseError)

theorem mscBulkOut_outcome {received : Nat} :
    wp (mscBulkOut received) (fun _ d' => OutDoneOutcome d received d') (fun _ => True) d := by
  unfold mscBulkOut
  rw [wp_bind, wp_modify, wp_bind, wp_get]
  generalize ht : ({ d with bulkLen := received } : Device σ) = t
  have hsame : d.bulkStage = t.bulkStage := by rw [← ht]
  have hcbw : d.cbw = t.cbw := by rw [← ht]
  cases hstage : t.bulkStage with
  | cbw =>
      refine wp_mono_post mscGetCbw_outcome fun _ d' h => .command (hsame.trans hstage) ?_
      rw [ht]
      exact h
  | dataOut =>
      dsimp only
      by_cases hwrite : t.cbw.isWrite
      · rw [if_pos hwrite]
        refine wp_mono_post mscMemoryWrite_outcome fun _ d' h =>
          .write (hsame.trans hstage) (hcbw ▸ hwrite) ?_
        rw [ht]
        exact h
      · rw [if_neg hwrite]
        by_cases hverify : t.cbw.opcode = scsiVerify10
        · rw [if_pos hverify, ← ht]
          exact .verify (hsame.trans hstage) (hcbw ▸ hverify)
        · rw [if_neg hverify, wp_pure, ← ht]
          exact .ignored (.inr ⟨hsame.trans hstage, hcbw ▸ hwrite, hcbw ▸ hverify⟩)
  | csw =>
      rw [← ht]
      exact .ignored (.inl (hsame.trans hstage))
  | dataIn =>
      rw [← ht]
      exact .misplaced (by simp [hsame, hstage]) (by simp [hsame, hstage])
        (by simp [hsame, hstage])
  | dataInLast =>
      rw [← ht]
      exact .misplaced (by simp [hsame, hstage]) (by simp [hsame, hstage])
        (by simp [hsame, hstage])
  | dataInLastStall =>
      rw [← ht]
      exact .misplaced (by simp [hsame, hstage]) (by simp [hsame, hstage])
        (by simp [hsame, hstage])
  | error =>
      rw [← ht]
      exact .misplaced (by simp [hsame, hstage]) (by simp [hsame, hstage])
        (by simp [hsame, hstage])

/-! ## The task -/

namespace Device

/-- The flags of `ONFM_Write` for the entry that the task runs. -/
def writeFlags (d : Device σ) : Bool × Bool :=
  (checkTag d.current.tag == 1, checkTag d.current.tag == 2)

/-- The flags of `ONFM_Read` for the entry that the task runs. -/
def readFlags (d : Device σ) : Bool × Bool :=
  (checkTag d.current.tag == 3, checkTag d.current.tag == 2)

/-- `ONFM_Read` put `data` into the buffer of the entry that the task runs. -/
def filled (d : Device σ) (p : BufferPtr) (flag mft : Bool) (data : Buffer) (onfm : σ) :
    Device σ :=
  { (d.setContent data p).note (.returned d.current flag mft data) with onfm := onfm }

end Device

/-- What a round of the task leaves. -/
inductive TaskOutcome (onfm : Onfm σ) (d : Device σ) : Device σ → Prop where
  | idle : d.utList.pop = d.utList.push → TaskOutcome onfm d d
  | write {p : BufferPtr} {below : σ} : d.utList.pop ≠ d.utList.push →
      d.current.type = .write → d.current.buffer = some p →
      onfm.write d.current.offset d.current.length (d.content p) d.writeFlags.1
        d.writeFlags.2 d.onfm = some below →
      TaskOutcome onfm d
        { (d.handOver p).note (.wrote d.current (d.content p)) with onfm := below }.dropped
  | read {p : BufferPtr} {data : Buffer} {below : σ} : d.utList.pop ≠ d.utList.push →
      d.current.type = .read → d.readBulkLen = 0 → d.current.buffer = some p →
      onfm.read d.current.offset d.current.length (d.content p) d.readFlags.1
        d.readFlags.2 d.onfm = some (data, below) →
      TaskOutcome onfm d { d.filled p d.readFlags.1 d.readFlags.2 data below with
        readBulkLen := d.current.length * mscBlockSize % 4294967296 }.dropped
  | skip : d.utList.pop ≠ d.utList.push →
      (d.current.type = .read → d.readBulkLen ≠ 0) →
      (d.current.type = .merge → d.mergeStage ≠ .start) → d.current.type ≠ .write →
      TaskOutcome onfm d d.dropped
  | merge {p : BufferPtr} {data : Buffer} {below : σ} : d.utList.pop ≠ d.utList.push →
      d.current.type = .merge → d.mergeStage = .start → d.current.buffer = some p →
      onfm.read d.current.offset d.current.length (d.content p) false false d.onfm =
        some (data, below) →
      TaskOutcome onfm d { d.filled p false false data below with mergeStage := .finish }.dropped

theorem wp_callOnfm {p : Option BufferPtr} {f : BufferPtr → Device σ → Option (Device σ)}
    {Q : Unit → Device σ → Prop} (hQ : ∀ q d', p = some q → f q d = some d' → Q () d') :
    wp (callOnfm p f) Q (fun _ => True) d := by
  unfold callOnfm
  cases p with
  | none => trivial
  | some q =>
      dsimp only
      rw [wp_bind, wp_get]
      cases hf : f q d with
      | none => trivial
      | some d' => exact hQ q d' rfl hf

theorem usbUserTask_outcome {onfm : Onfm σ} :
    wp (usbUserTask onfm) (fun _ d' => TaskOutcome onfm d d') (fun _ => True) d := by
  unfold usbUserTask
  rw [wp_bind, wp_get]
  by_cases hempty : d.utList.pop ≠ d.utList.push
  · rw [if_pos hempty]
    dsimp only
    cases htype : (d.utList.slots d.utList.pop).type with
    | write =>
        dsimp only
        rw [wp_bind]
        apply wp_callOnfm
        intro p d' hp hf
        rw [wp_modify]
        obtain ⟨below, hbelow, rfl⟩ := Option.map_eq_some_iff.mp hf
        exact .write hempty htype hp hbelow
    | read =>
        dsimp only
        by_cases hready : d.readBulkLen = 0
        · rw [if_pos hready, wp_bind]
          apply wp_callOnfm
          intro p d' hp hf
          obtain ⟨⟨data, below⟩, hbelow, rfl⟩ := Option.map_eq_some_iff.mp hf
          exact .read hempty htype hready hp hbelow
        · rw [if_neg hready]
          exact .skip hempty (fun _ => hready) (by simp [Device.current, htype])
            (by simp [Device.current, htype])
    | merge =>
        dsimp only
        by_cases hstart : d.mergeStage = .start
        · rw [if_pos hstart, wp_bind]
          apply wp_callOnfm
          intro p d' hp hf
          obtain ⟨⟨data, below⟩, hbelow, rfl⟩ := Option.map_eq_some_iff.mp hf
          exact .merge hempty htype hstart hp hbelow
        · rw [if_neg hstart]
          exact .skip hempty (by simp [Device.current, htype]) (fun _ => hstart)
            (by simp [Device.current, htype])
  · rw [if_neg hempty]
    exact .idle (not_not.mp hempty)

/-! ## Steps -/

/-- What an event leaves. -/
inductive StepOutcome (onfm : Onfm σ) (d : Device σ) : Event → Device σ → Prop where
  | outNak {d' : Device σ} : d.outRequest = none → OutNakOutcome d d' →
      StepOutcome onfm d .outNak d'
  | command {c : Cbw} {len : Nat} {d' : Device σ} : d.outRequest = some .cbw → len ≤ 31 →
      OutDoneOutcome { d with cbw := c, outRequest := none } len d' →
      StepOutcome onfm d (.outDone (.cbw c len)) d'
  | data {i : Fin 4} {first size len : Nat} {bytes : Nat → Nat} {d' : Device σ} :
      d.outRequest = some (.page i first size) → len ≤ size →
      OutDoneOutcome { d with
        pool := Function.update d.pool i ((d.pool i).splice (first * mscBlockSize) len bytes)
        outRequest := none } len d' →
      StepOutcome onfm d (.outDone (.data bytes len)) d'
  | inNak {d' : Device σ} : InNakOutcome d d' → StepOutcome onfm d .inNak d'
  | inDone {d' : Device σ} : d.inRequest ≠ none →
      InDoneOutcome { d with inRequest := none } d' → StepOutcome onfm d .inDone d'
  | task {d' : Device σ} : TaskOutcome onfm d d' → StepOutcome onfm d .task d'
  | free {i : Fin 4} : d.handed i = true → StepOutcome onfm d (.free i) { d with
      poolUsed := Function.update d.poolUsed i false
      handed := Function.update d.handed i false }

theorem Step.outcome {onfm : Onfm σ} {e : Event} (h : Step onfm d e d') :
    StepOutcome onfm d e d' := by
  cases h with
  | outNak hfree hrun =>
      have hout := of_wp_ok mscBulkOutNak_outcome hrun
      exact .outNak hfree hout
  | @outDone d₁ _ r p len hreq hrecv hrun =>
      have hout := of_wp_ok mscBulkOut_outcome hrun
      cases r with
      | cbw =>
          cases p with
          | cbw c len =>
              simp only [Device.receive, Option.ite_none_right_eq_some, Option.some.injEq,
                Prod.mk.injEq] at hrecv
              obtain ⟨hlen, rfl, rfl⟩ := hrecv
              exact .command hreq hlen hout
          | data bytes len => simp [Device.receive] at hrecv
      | page i first size =>
          cases p with
          | cbw c len => simp [Device.receive] at hrecv
          | data bytes len =>
              simp only [Device.receive, Option.ite_none_right_eq_some, Option.some.injEq,
                Prod.mk.injEq] at hrecv
              obtain ⟨hlen, rfl, rfl⟩ := hrecv
              exact .data hreq hlen hout
  | inNak hrun =>
      have hout := of_wp_ok (mscBulkInNak_outcome (E := fun _ => True)) hrun
      exact .inNak hout
  | inDone hreq hrun =>
      have hout := of_wp_ok mscBulkIn_outcome hrun
      exact .inDone hreq hout
  | task hrun =>
      have hout := of_wp_ok usbUserTask_outcome hrun
      exact .task hout
  | free hhanded => exact .free hhanded

/-! ## Runs -/

theorem Run.append {onfm : Onfm σ} {d'' : Device σ} {es es' : List Event}
    (h : Run onfm d es d') (h' : Run onfm d' es' d'') : Run onfm d (es' ++ es) d'' := by
  induction h' with
  | nil => exact h
  | step _ hstep ih => exact .step ih hstep

theorem Run.one {onfm : Onfm σ} {e : Event} (h : Step onfm d e d') : Run onfm d [e] d' :=
  .step .nil h

/-- What every step keeps, a run keeps; `C` is what the run's events promise. -/
theorem Run.keeps {onfm : Onfm σ} {es : List Event} {P : Device σ → Prop} {C : Event → Prop}
    (hrun : Run onfm d es d') (hes : ∀ e ∈ es, C e)
    (hstep : ∀ {a b : Device σ} {e : Event}, P a → C e → StepOutcome onfm a e b → P b)
    (h : P d) : P d' := by
  induction hrun with
  | nil => exact h
  | step _ hlast ih =>
      have hbefore := ih (fun e he => hes e (List.mem_cons_of_mem _ he))
      exact hstep hbefore (hes _ List.mem_cons_self) hlast.outcome

/-- `d'` comes from `d` by adding notes, of which every logged transaction
satisfies `P`. -/
def Device.Adds (P : Transaction → Prop) (d d' : Device σ) : Prop :=
  ∃ new, d'.trace = new ++ d.trace ∧ ∀ t, Note.push t ∈ new → P t

theorem Device.Adds.refl {P : Transaction → Prop} (h : d'.trace = d.trace) : d.Adds P d' :=
  ⟨[], h, by simp⟩

theorem Device.Adds.trans {P : Transaction → Prop} {d'' : Device σ} (h : d.Adds P d')
    (h' : d'.Adds P d'') : d.Adds P d'' := by
  obtain ⟨new, htrace, hnew⟩ := h
  obtain ⟨new', htrace', hnew'⟩ := h'
  refine ⟨new' ++ new, by rw [htrace', htrace, List.append_assoc], fun t ht => ?_⟩
  rcases List.mem_append.mp ht with ht | ht
  · exact hnew' t ht
  · exact hnew t ht

theorem Device.Adds.mono {P P' : Transaction → Prop} (h : d.Adds P d') (hP : ∀ t, P t → P' t) :
    d.Adds P' d' := by
  obtain ⟨new, htrace, hnew⟩ := h
  exact ⟨new, htrace, fun t ht => hP t (hnew t ht)⟩

theorem Device.adds_memoryRead {P : Transaction → Prop} (h : P d.readTransaction) :
    d.Adds P d.memoryRead := by
  refine ⟨.subtract d.length d.readCount :: .push d.readTransaction :: d.clipNote d.inCount,
    rfl, fun t ht => ?_⟩
  have hclip : Note.push t ∉ d.clipNote d.inCount := by
    unfold Device.clipNote
    split <;> simp
  simp only [List.mem_cons, reduceCtorEq, Note.push.injEq, false_or, hclip, or_false] at ht
  rw [ht]
  exact h

theorem Device.adds_memoryWrite {P : Transaction → Prop} (h : P d.writeTransaction) :
    d.Adds P d.memoryWrite := by
  refine ⟨.subtract d.length d.writeCount :: .push d.writeTransaction ::
    ((if d.Clips d.writeCount then [.stall] else []) ++ d.clipNote d.writeCount), ?_,
    fun t ht => ?_⟩
  · simp only [Device.memoryWrite, List.cons_append, List.append_assoc]
  have hclip : Note.push t ∉ d.clipNote d.writeCount := by
    unfold Device.clipNote
    split <;> simp
  have hstall : Note.push t ∉ (if d.Clips d.writeCount then [Note.stall] else []) := by
    split <;> simp
  simp only [List.mem_cons, List.mem_append, reduceCtorEq, Note.push.injEq, false_or, hclip,
    hstall, or_false] at ht
  rw [ht]
  exact h

theorem Device.adds_finished {P : Transaction → Prop} {status : CswStatus} :
    d.Adds P (d.finished status) :=
  ⟨[.prime (.csw { d.csw with bStatus := status })], rfl, by simp⟩

theorem Device.adds_note {P : Transaction → Prop} {n : Note} (hn : ∀ t, n ≠ .push t) :
    d.Adds P (d.note n) :=
  ⟨[n], rfl, fun t ht => absurd (List.mem_singleton.mp ht).symm (hn t)⟩

theorem Refusal.adds {P : Transaction → Prop} (h : Refusal d d') : d.Adds P d' := by
  induction h with
  | plain => exact .refl rfl
  | addressed => exact .refl rfl
  | stall _ ih => exact ih.trans (Device.adds_note (by simp))

theorem Device.memoryRead_cbw : d.memoryRead.cbw = d.cbw := rfl

theorem CommandOutcome.cbw (h : CommandOutcome d d') : d'.cbw = d.cbw := by
  cases h with
  | invalid => rfl
  | refused _ _ _ hrefusal => exact hrefusal.cbw
  | answered => rfl
  | read => exact Device.memoryRead_cbw
  | write => rfl

/-- A wrapper logs a read at most. -/
theorem CommandOutcome.adds {P : Transaction → Prop} (h : CommandOutcome d d')
    (hread : d.cbw.StartsRead →
      P ({ d.accepted.addressed with bulkStage := .dataIn } : Device σ).readTransaction) :
    d.Adds P d' := by
  have haccept : d.Adds P d.accepted := ⟨[.command d.cbw], rfl, by simp⟩
  cases h with
  | invalid => exact Device.adds_note (n := .stall) (by simp)
  | refused _ _ _ hrefusal => exact (haccept.trans hrefusal.adds).trans Device.adds_finished
  | answered => exact haccept.trans ⟨[.prime _], rfl, by simp⟩
  | read _ hstarts _ =>
      have hset : d.Adds P { d.accepted.addressed with bulkStage := .dataIn } := haccept
      exact hset.trans (Device.adds_memoryRead (hread hstarts))
  | write => exact haccept

/-! ## The trace only grows -/

theorem Device.Adds.suffix {P : Transaction → Prop} (h : d.Adds P d') : d.trace <:+ d'.trace := by
  obtain ⟨new, htrace, _⟩ := h
  exact ⟨new, htrace.symm⟩

theorem OutDoneOutcome.suffix {len : Nat} (h : OutDoneOutcome d len d') :
    d.trace <:+ d'.trace := by
  cases h with
  | command _ hcommand => exact (hcommand.adds (P := fun _ => True) fun _ => trivial).suffix
  | write _ _ hwrite =>
      have hlogged : Device.Adds (fun _ => True) { d with bulkLen := len }
          ({ d with bulkLen := len } : Device σ).memoryWrite := Device.adds_memoryWrite trivial
      cases hwrite with
      | ragged => exact List.suffix_rfl
      | more => exact hlogged.suffix
      | last => exact (hlogged.trans Device.adds_finished).suffix
  | verify => exact List.suffix_cons _ _
  | ignored => exact List.suffix_rfl
  | misplaced => exact (List.suffix_cons _ _).trans (List.suffix_cons _ _)

/-- No event takes a note back. -/
theorem StepOutcome.suffix {onfm : Onfm σ} {e : Event} (h : StepOutcome onfm d e d') :
    d.trace <:+ d'.trace := by
  cases h with
  | outNak _ hout =>
      cases hout with
      | merge => exact List.suffix_cons _ _
      | waiting | merged | starved | whole | command | idle => exact List.suffix_rfl
  | command _ _ hout => exact hout.suffix
  | data _ _ hout => exact hout.suffix
  | inNak hout =>
      cases hout with
      | idle => exact List.suffix_rfl
      | last | inside | outside => exact List.suffix_cons _ _
  | inDone _ hout =>
      cases hout with
      | next => exact (Device.adds_memoryRead (P := fun _ => True) trivial).suffix
      | last => exact List.suffix_cons _ _
      | stall => exact (List.suffix_cons _ _).trans (List.suffix_cons _ _)
      | status | idle => exact List.suffix_rfl
  | task hout =>
      cases hout with
      | @write p => cases p <;> exact List.suffix_cons _ _
      | @read p => cases p <;> exact List.suffix_cons _ _
      | @merge p => cases p <;> exact List.suffix_cons _ _
      | idle | skip => exact List.suffix_rfl
  | free => exact List.suffix_rfl

end

end RansomTag

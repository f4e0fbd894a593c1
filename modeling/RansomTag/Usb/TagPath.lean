import RansomTag.Hypervisor.Windows
import RansomTag.Usb.Progress

/-!
# The tag of a write, from the guest to the storage

The hypervisor puts the tag into byte 6 of the command block, the firmware
queues that byte with each write transaction of the command, and the task
decodes it.
-/

namespace RansomTag

open Program

/-! ## The queued tag -/

/-- The transaction is a write with this tag, or no write. -/
def WriteTagged (tag : Byte) (t : Transaction) : Prop := t.type = .write → t.tag = tag

/-- The event is not the arrival of a command block wrapper. -/
def Event.NoCommand (e : Event) : Prop := ∀ c len, e ≠ .outDone (.cbw c len)

/-- The device executes the wrapper as a write. -/
def Cbw.ExecutesWrite (c : Cbw) : Prop :=
  c.dSignature = mscCbwSignature ∧ c.StartsWrite ∧ c.isWrite

/-- `t` is a write transaction that a device queues for the wrapper `c`: after
any run from the start it takes `c`, and logs `t` before the next wrapper. -/
def Queued (c : Cbw) (t : Transaction) : Prop :=
  ∃ (σ : Type) (onfm : Onfm σ) (below : σ) (blockCount : Nat) (pool : Fin 4 → Buffer)
    (d d₁ d₂ : Device σ) (before after : List Event) (new : List Note),
    Run onfm (.init below blockCount pool) before d ∧
    Step onfm d (.outDone (.cbw c 31)) d₁ ∧
    Run onfm d₁ after d₂ ∧ (∀ e ∈ after, e.NoCommand) ∧
    d₂.trace = new ++ d.trace ∧ .push t ∈ new ∧ t.type = .write

section

variable {σ : Type} {onfm : Onfm σ} {d d' : Device σ} {e : Event} {c : Cbw} {t : Transaction}

theorem OutNakOutcome.tagged (h : OutNakOutcome d d') (tag : Byte) :
    d'.cbw = d.cbw ∧ d.Adds (WriteTagged tag) d' := by
  cases h with
  | waiting => exact ⟨rfl, .refl rfl⟩
  | merged => exact ⟨rfl, .refl rfl⟩
  | starved => exact ⟨rfl, .refl rfl⟩
  | @merge i =>
      refine ⟨rfl, [.push (d.mergeTransaction i)], rfl, fun t ht hwrite => ?_⟩
      rw [List.mem_singleton, Note.push.injEq] at ht
      rw [ht] at hwrite
      exact absurd hwrite (by simp [Device.mergeTransaction])
  | whole => exact ⟨rfl, .refl rfl⟩
  | command => exact ⟨rfl, .refl rfl⟩
  | idle => exact ⟨rfl, .refl rfl⟩

/-- A read is logged with the tag of the wrapper, but is no write. -/
theorem Device.readTransaction_tagged (tag : Byte) : WriteTagged tag d.readTransaction := by
  intro hwrite
  exact absurd hwrite (by simp [Device.readTransaction])

theorem OutDoneOutcome.tagged {len : Nat} (h : OutDoneOutcome d len d') :
    d'.cbw = d.cbw ∧ d.Adds (WriteTagged d.cbw.tagByte) d' := by
  have hset : d.Adds (WriteTagged d.cbw.tagByte) { d with bulkLen := len } := .refl rfl
  cases h with
  | command _ hcommand =>
      refine ⟨hcommand.cbw, hset.trans (hcommand.adds fun _ => ?_)⟩
      exact Device.readTransaction_tagged _
  | write _ _ hwrite =>
      have hlogged : ({ d with bulkLen := len } : Device σ).Adds (WriteTagged d.cbw.tagByte)
          ({ d with bulkLen := len } : Device σ).memoryWrite :=
        Device.adds_memoryWrite fun _ => rfl
      cases hwrite with
      | ragged => exact ⟨rfl, hset⟩
      | more => exact ⟨rfl, hset.trans hlogged⟩
      | last => exact ⟨rfl, (hset.trans hlogged).trans Device.adds_finished⟩
  | verify => exact ⟨rfl, ⟨[.prime _], rfl, by simp⟩⟩
  | ignored => exact ⟨rfl, .refl rfl⟩
  | misplaced => exact ⟨rfl, ⟨[.prime _, .stall], rfl, by simp⟩⟩

theorem InNakOutcome.tagged (h : InNakOutcome d d') (tag : Byte) :
    d'.cbw = d.cbw ∧ d.Adds (WriteTagged tag) d' := by
  cases h with
  | idle => exact ⟨rfl, .refl rfl⟩
  | last => exact ⟨rfl, [.prime _], rfl, by simp⟩
  | inside => exact ⟨rfl, [.prime _], rfl, by simp⟩
  | outside => exact ⟨rfl, [.prime _], rfl, by simp⟩

theorem InDoneOutcome.tagged (h : InDoneOutcome d d') (tag : Byte) :
    d'.cbw = d.cbw ∧ d.Adds (WriteTagged tag) d' := by
  cases h with
  | next => exact ⟨rfl, Device.adds_memoryRead (Device.readTransaction_tagged tag)⟩
  | last => exact ⟨rfl, [.prime _], rfl, by simp⟩
  | stall => exact ⟨rfl, [.prime _, .stall], rfl, by simp⟩
  | status => exact ⟨rfl, .refl rfl⟩
  | idle => exact ⟨rfl, .refl rfl⟩

theorem TaskOutcome.tagged (h : TaskOutcome onfm d d') (tag : Byte) :
    d'.cbw = d.cbw ∧ d.Adds (WriteTagged tag) d' := by
  cases h with
  | idle => exact ⟨rfl, .refl rfl⟩
  | @write p =>
      cases p with
      | page i => exact ⟨rfl, [.wrote _ _], rfl, by simp⟩
      | readBulk => exact ⟨rfl, [.wrote _ _], rfl, by simp⟩
  | @read p =>
      cases p with
      | page i => exact ⟨rfl, [.returned _ _ _ _], rfl, by simp⟩
      | readBulk => exact ⟨rfl, [.returned _ _ _ _], rfl, by simp⟩
  | skip => exact ⟨rfl, .refl rfl⟩
  | @merge p =>
      cases p with
      | page i => exact ⟨rfl, [.returned _ _ _ _], rfl, by simp⟩
      | readBulk => exact ⟨rfl, [.returned _ _ _ _], rfl, by simp⟩

theorem StepOutcome.command_tagged {len : Nat} (h : StepOutcome onfm d (.outDone (.cbw c len)) d') :
    d'.cbw = c ∧ d.Adds (WriteTagged c.tagByte) d' := by
  cases h with
  | command _ _ hout =>
      obtain ⟨hcbw, hadds⟩ := hout.tagged
      exact ⟨hcbw, hadds⟩

/-- Only a command block wrapper changes what tag is queued. -/
theorem StepOutcome.tagged (h : StepOutcome onfm d e d') (he : e.NoCommand) :
    d'.cbw = d.cbw ∧ d.Adds (WriteTagged d.cbw.tagByte) d' := by
  cases h with
  | outNak _ hout => exact hout.tagged _
  | command => exact absurd rfl (he _ _)
  | data _ _ hout =>
      obtain ⟨hcbw, hadds⟩ := hout.tagged
      exact ⟨hcbw, hadds⟩
  | inNak hout => exact hout.tagged _
  | inDone _ hout => exact hout.tagged _
  | task hout => exact hout.tagged _
  | free => exact ⟨rfl, .refl rfl⟩

/-- The queued tag is byte 6 of the command block. -/
theorem Queued.tag (h : Queued c t) : t.tag = c.tagByte := by
  obtain ⟨σ, onfm, below, blockCount, pool, d, d₁, d₂, before, after, new, _, hcommand, hrun, hes,
    htrace, hpush, hwrite⟩ := h
  obtain ⟨hcbw, hadds⟩ := hcommand.outcome.command_tagged
  have hkept : d₂.cbw = c ∧ d.Adds (WriteTagged c.tagByte) d₂ := by
    refine hrun.keeps (P := fun x => x.cbw = c ∧ d.Adds (WriteTagged c.tagByte) x) hes ?_
      ⟨hcbw, hadds⟩
    rintro a b e ⟨ha, hadds⟩ he hout
    obtain ⟨hb, hmore⟩ := hout.tagged he
    rw [ha] at hmore
    exact ⟨hb.trans ha, hadds.trans hmore⟩
  obtain ⟨new', htrace', hnew'⟩ := hkept.2
  have hsame : new = new' := List.append_cancel_right (htrace.symm.trans htrace')
  rw [hsame] at hpush
  exact hnew' t hpush hwrite

/-! ### Every executed write queues a transaction -/

/-- Whole sectors that arrive in the data phase queue a write. -/
theorem exists_push_of_data (onfm : Onfm σ) {i : Fin 4} {first size : Nat}
    (hreq : d.outRequest = some (.page i first size)) (hstage : d.bulkStage = .dataOut)
    (hop : d.cbw.isWrite) (hroom : d.Room) :
    ∃ d' new t, Step onfm d (.outDone (.data (fun _ => 0) 0)) d' ∧
      d'.trace = new ++ d.trace ∧ .push t ∈ new ∧ t.type = .write := by
  generalize hr : ({ d with
    pool := Function.update d.pool i
      ((d.pool i).splice (first * mscBlockSize) 0 fun _ => 0)
    outRequest := none } : Device σ) = r
  have hrecv : d.receive (.page i first size) (.data (fun _ => 0) 0) = some (r, 0) := by
    rw [← hr]
    rfl
  have hstage' : r.bulkStage = .dataOut := by
    rw [← hr]
    exact hstage
  have hop' : r.cbw.isWrite := by
    rw [← hr]
    exact hop
  have hroom' : ({ r with bulkLen := 0 } : Device σ).Room := by
    rw [← hr]
    exact hroom
  have htrace' : r.trace = d.trace := by rw [← hr]
  obtain ⟨d', new, hok, htrace, hmem⟩ :=
    mscMemoryWrite_logs (d := { r with bulkLen := 0 }) rfl hroom'
  refine ⟨d', new, _, .outDone hreq hrecv ?_, htrace.trans (congrArg _ htrace'), hmem, rfl⟩
  rw [mscBulkOut_write hstage' hop']
  exact hok

theorem Cbw.ExecutesWrite.queued (h : c.ExecutesWrite) : ∃ t, Queued c t := by
  obtain ⟨hsig, hstarts, hop⟩ := h
  generalize hstart : ({ Device.init () 8000 fun _ => .zeros with
    outRequest := some .cbw } : Device Unit) = d
  have hready : Run Onfm.idle (.init () 8000 fun _ => .zeros) [.outNak] d := by
    rw [← hstart]
    exact .one (.outNak rfl rfl)
  generalize hreceived : ({ d with
    cbw := c
    outRequest := none
    bulkLen := 31 } : Device Unit) = r
  generalize htaken : ({ r.accepted.addressed with bulkStage := .dataOut } : Device Unit) = d₁
  have hcommand : Step Onfm.idle d (.outDone (.cbw c 31)) d₁ := by
    have hvalid : r.cbw.Valid r.bulkLen := by
      rw [← hreceived]
      exact ⟨rfl, hsig⟩
    have hstarts' : r.cbw.StartsWrite := by
      rw [← hreceived]
      exact hstarts
    have hop' : r.cbw.isWrite := by
      rw [← hreceived]
      exact hop
    refine step_command (by rw [← hstart]) (by rw [← hstart]; rfl) ?_
    rw [hreceived, mscGetCbw_write hvalid hstarts' hop', htaken]
  have htrace : d₁.trace = [.command c] ++ d.trace := by rw [← htaken, ← hreceived]; rfl
  have hstage : d₁.bulkStage = .dataOut := by rw [← htaken]
  have hwrite : d₁.cbw.isWrite := by
    rw [← htaken, ← hreceived]
    exact hop
  have hmerge : d₁.mergeStage = .none := by rw [← htaken, ← hreceived, ← hstart]; rfl
  have halloc : d₁.bufAllocate = some 2 := by rw [← htaken, ← hreceived, ← hstart]; rfl
  have hlist : d₁.utList.pop = 0 ∧ d₁.utList.push = 0 := by
    rw [← htaken, ← hreceived, ← hstart]
    exact ⟨rfl, rfl⟩
  have hfree : d₁.outRequest = none := by rw [← htaken, ← hreceived]; rfl
  have hbelow : d₁.onfm = () := rfl
  have hroom : d₁.Room := by
    intro t
    simp only [RingBuffer.log, hlist]
    decide
  by_cases hcount : d₁.outCount = sectorPerMpp
  · -- an aligned page is received at once
    have hnak : Step Onfm.idle d₁ .outNak
        { d₁.took 2 with outRequest := some (.page 2 0 mppBytes) } :=
      .outNak hfree (mscBulkOutNak_whole hstage hmerge halloc hcount)
    obtain ⟨d', new, t, hdata, hnew, hpush, htype⟩ := exists_push_of_data Onfm.idle
      (d := { d₁.took 2 with outRequest := some (.page 2 0 mppBytes) }) rfl hstage hwrite hroom
    refine ⟨t, Unit, Onfm.idle, (), 8000, fun _ => .zeros, d, d₁, d', _, _, new ++ [.command c],
      hready, hcommand, .step (.one hnak) hdata, ?_, ?_, List.mem_append_left _ hpush, htype⟩
    · simp [Event.NoCommand]
    · rw [hnew, List.append_assoc, ← htrace]
      rfl
  · -- a part of a page waits for the rest to be read
    generalize hmerging : ({ (d₁.took 2).logged (d₁.mergeTransaction 2) with
      mergeStage := .start
      mergeCount := d₁.outCount } : Device Unit) = d₂
    have hnak : Step Onfm.idle d₁ .outNak d₂ := by
      rw [← hmerging]
      exact .outNak hfree (mscBulkOutNak_merge hstage hmerge halloc hcount hroom)
    have hcurrent : d₂.current = d₁.mergeTransaction 2 := by
      rw [← hmerging]
      change (d₁.utList.log utListSize _).slots (d₁.utList.log utListSize _).pop = _
      simp [RingBuffer.log, hlist]
    generalize hmergedState : ({ d₂.filled (.page 2) false false (d₂.content (.page 2)) () with
      mergeStage := .finish } : Device Unit).dropped = d₃
    have htask : Step Onfm.idle d₂ .task d₃ := by
      rw [← hmergedState]
      refine .task (usbUserTask_merge ?_ ?_ ?_ ?_ rfl)
      · rw [← hmerging]
        change (d₁.utList.log utListSize _).pop ≠ (d₁.utList.log utListSize _).push
        simp [RingBuffer.log, hlist]
      · rw [hcurrent]
        rfl
      · rw [← hmerging]
      · rw [hcurrent]
        rfl
    have hstage₃ : d₃.bulkStage = .dataOut := by
      rw [← hmergedState, ← hmerging]
      simp only [Device.dropped, Device.filled, Device.logged, Device.note, Device.took]
      exact hstage
    have hnak' : Step Onfm.idle d₃ .outNak { d₃ with
        outRequest := some (.page 2 (d₃.offset % sectorPerMpp) (d₃.mergeCount * mscBlockSize))
        mergeStage := .none
        mergeCount := 0 } := by
      refine .outNak ?_ (mscBulkOutNak_merged hstage₃ ?_ ?_)
      · rw [← hmergedState, ← hmerging]
        simp only [Device.dropped, Device.filled, Device.logged, Device.note, Device.took]
        exact hfree
      · rw [← hmergedState]
        rfl
      · rw [← hmergedState, ← hmerging]
        rfl
    have hroom₃ : d₃.Room := by
      intro t
      rw [← hmergedState, ← hmerging]
      simp [Device.dropped, Device.filled, Device.setContent, Device.note, Device.logged,
        Device.took, RingBuffer.log, RingBuffer.drop, hlist]
    have hwrite₃ : d₃.cbw.isWrite := by
      rw [← hmergedState, ← hmerging]
      simp only [Device.dropped, Device.filled, Device.logged, Device.note, Device.took]
      exact hwrite
    obtain ⟨d', new, t, hdata, hnew, hpush, htype⟩ := exists_push_of_data Onfm.idle
      (d := { d₃ with
        outRequest := some (.page 2 (d₃.offset % sectorPerMpp) (d₃.mergeCount * mscBlockSize))
        mergeStage := .none
        mergeCount := 0 }) rfl hstage₃ hwrite₃ hroom₃
    have htrace₃ : d₃.trace = [.returned d₂.current false false (d₂.content (.page 2)),
        .push (d₁.mergeTransaction 2), .command c] ++ d.trace := by
      have hsplit : d₃.trace = [.returned d₂.current false false (d₂.content (.page 2)),
          .push (d₁.mergeTransaction 2)] ++ d₁.trace := by
        rw [← hmergedState, ← hmerging]
        rfl
      rw [hsplit, htrace]
      rfl
    refine ⟨t, Unit, Onfm.idle, (), 8000, fun _ => .zeros, d, d₁, d', _, _,
      new ++ [.returned d₂.current false false (d₂.content (.page 2)), .push (d₁.mergeTransaction 2),
        .command c],
      hready, hcommand, .step (.step (.step (.one hnak) htask) hnak') hdata, ?_, ?_,
      List.mem_append_left _ hpush, htype⟩
    · simp [Event.NoCommand]
    · rw [hnew, List.append_assoc, ← htrace₃]

end

/-! ## The tag that the hypervisor adds -/

/-- The class of a write, as `CheckTag` is to report it: an MFT write or a
backup. -/
def winClass (guest : WinGuest) (c : Cbw) : Int :=
  if winIsMftRequest c guest.current then 2 else 1

/-- Where the class of a write survives: under a valid thread a `WRITE(10)` is
tagged, and the guest spoils the tag of an MFT write by setting the three bits
of the other tag; a write that gets no tag needs a byte 6 of its class. -/
def SurvivesTagging (guest : WinGuest) (c : Cbw) : Prop :=
  if isWinKernelAddr guest.current.eThread ∧ c.opcode = scsiWrite10 then
    winIsMftRequest c guest.current → c.tagByte &&& ransomTag ≠ ransomTag
  else if winIsMftRequest c guest.current then
    c.tagByte &&& ransomTag ≠ ransomTag ∧ c.tagByte &&& ransomTagMft = ransomTagMft
  else c.tagByte &&& ransomTag = ransomTag

theorem checkTag_eq_one (b : Byte) : checkTag b = 1 ↔ b &&& ransomTag = ransomTag := by
  revert b
  decide

theorem checkTag_eq_two (b : Byte) :
    checkTag b = 2 ↔ b &&& ransomTag ≠ ransomTag ∧ b &&& ransomTagMft = ransomTagMft := by
  revert b
  decide

theorem checkTag_or_ransomTag (b : Byte) : checkTag (b ||| ransomTag) = 1 := by
  revert b
  decide

theorem checkTag_or_ransomTagMft (b : Byte) :
    checkTag (b ||| ransomTagMft) = 2 ↔ b &&& ransomTag ≠ ransomTag := by
  revert b
  decide

section

variable {guest : WinGuest} {count : Nat} {c : Cbw}

theorem winAddTag_tagByte {tag : Byte} (h : tag = ransomTag ∨ tag = ransomTagMft) :
    (winAddTag c tag).tagByte = c.tagByte ||| tag := by
  have hknown : tag = ransomTag ∨ tag = ransomTagMft ∨ tag = recoverTag := by
    rcases h with h | h
    · exact .inl h
    · exact .inr (.inl h)
  unfold winAddTag
  rw [if_pos hknown]
  simp [Cbw.tagByte]

/-- The tag byte of a write decodes to its class exactly when the class survives. -/
theorem checkTag_winAnalyse (guest : WinGuest) (count : Nat) (hop : c.isWrite) :
    checkTag (winAnalyse guest count c).1.tagByte = winClass guest c ↔
      SurvivesTagging guest c := by
  have hread : c.opcode ≠ scsiRead10 := by
    rcases hop with hop | hop <;> rw [hop] <;> decide
  by_cases htagged : isWinKernelAddr guest.current.eThread ∧ c.opcode = scsiWrite10
  · have htag : (winAnalyse guest count c).1 = winDetermineTag c guest.current := by
      unfold winAnalyse
      rw [if_pos htagged.1, if_neg hread, if_pos htagged.2]
    rw [htag]
    unfold SurvivesTagging winClass winDetermineTag
    rw [if_pos htagged]
    by_cases hmft : winIsMftRequest c guest.current
    · rw [if_pos hmft, if_pos hmft, winAddTag_tagByte (.inr rfl), checkTag_or_ransomTagMft]
      exact ⟨fun h _ => h, fun h => h hmft⟩
    · rw [if_neg hmft, if_neg hmft, winAddTag_tagByte (.inl rfl)]
      exact ⟨fun _ h => absurd h hmft, fun _ => checkTag_or_ransomTag _⟩
  · have htag : (winAnalyse guest count c).1 = c := by
      unfold winAnalyse
      by_cases hthread : isWinKernelAddr guest.current.eThread
      · have hten : ¬ c.opcode = scsiWrite10 := fun h => htagged ⟨hthread, h⟩
        rw [if_pos hthread, if_neg hread, if_neg hten]
      · rw [if_neg hthread]
    rw [htag]
    unfold SurvivesTagging winClass
    rw [if_neg htagged]
    split
    · exact checkTag_eq_two _
    · exact checkTag_eq_one _

/-- A write that passes the hypervisor is queued with its class, and with the
address and length of the guest, exactly when the class survives tagging. -/
theorem queued_class_iff (hexec : (winAnalyse guest count c).1.ExecutesWrite) :
    ((∀ t, Queued (winAnalyse guest count c).1 t → checkTag t.tag = winClass guest c) ∧
      (winAnalyse guest count c).1.lba = c.lba ∧
      (winAnalyse guest count c).1.blocks = c.blocks) ↔ SurvivesTagging guest c := by
  obtain ⟨hcode, hlba, hblocks⟩ := winAnalyse_decodes guest count c
  have hop : c.isWrite := by
    have hop := hexec.2.2
    unfold Cbw.isWrite at hop ⊢
    rwa [hcode] at hop
  rw [← checkTag_winAnalyse guest count hop]
  constructor
  · rintro ⟨hall, _⟩
    obtain ⟨t, ht⟩ := hexec.queued
    rw [← ht.tag]
    exact hall t ht
  · intro hclass
    refine ⟨fun t ht => ?_, hlba, hblocks⟩
    rw [ht.tag]
    exact hclass

/-- A guest of Windows whose current request is for no file of interest. -/
def plainGuest : WinGuest :=
  ⟨⟨0xFFFF800000000000, [], false⟩, ⟨0xFFFF800000000000, [], false⟩⟩

/-- A write of the first eight sectors whose command block has `tag` in byte 6. -/
def writeCbw (code tag : Byte) : Cbw where
  dSignature := mscCbwSignature
  dTag := 1
  dDataLength := 4096
  bmFlags := 0
  bLUN := 0
  bCBLength := 12
  cb := fun i =>
    if i = 0 then code else if i = 6 then tag
    else if i = (if code = scsiWrite12 then 9 else 8) then 8 else 0

theorem queued_class_write10 :
    (∀ t, Queued (winAnalyse plainGuest 0 (writeCbw scsiWrite10 0)).1 t →
      checkTag t.tag = winClass plainGuest (writeCbw scsiWrite10 0)) ∧
    (winAnalyse plainGuest 0 (writeCbw scsiWrite10 0)).1.lba = (writeCbw scsiWrite10 0).lba ∧
    (winAnalyse plainGuest 0 (writeCbw scsiWrite10 0)).1.blocks =
      (writeCbw scsiWrite10 0).blocks := by
  have hexec : (winAnalyse plainGuest 0 (writeCbw scsiWrite10 0)).1.ExecutesWrite := by
    unfold Cbw.ExecutesWrite Cbw.StartsWrite
    decide
  have hsurvives : SurvivesTagging plainGuest (writeCbw scsiWrite10 0) := by
    unfold SurvivesTagging
    decide
  exact (queued_class_iff hexec).mpr hsurvives

/-- A `WRITE(12)` passes the hypervisor without a tag and is queued untagged. -/
theorem queued_untagged_write12 :
    (winAnalyse plainGuest 0 (writeCbw scsiWrite12 0)).1.ExecutesWrite ∧
      ∃ t, Queued (winAnalyse plainGuest 0 (writeCbw scsiWrite12 0)).1 t ∧
        checkTag t.tag = 0 ∧ winClass plainGuest (writeCbw scsiWrite12 0) = 1 := by
  have hexec : (winAnalyse plainGuest 0 (writeCbw scsiWrite12 0)).1.ExecutesWrite := by
    unfold Cbw.ExecutesWrite Cbw.StartsWrite
    decide
  obtain ⟨t, ht⟩ := hexec.queued
  refine ⟨hexec, t, ht, ?_, by decide⟩
  rw [ht.tag]
  decide

end

end RansomTag

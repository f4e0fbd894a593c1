import RansomTag.Usb.Capacity

/-!
# The read path

A `Service` is what the device owes the host at any time.  The trace of a run
serves the commands when every note of it is a step of the service: a read is
answered with its pieces in order, each primed once with what the storage
returned for it, and then with its status.
-/

namespace RansomTag

/-! ## The service -/

/-- The sectors of the next piece of a read. -/
def pieceCount (offset length : Nat) : Nat := min (sectorPerMpp - offset % sectorPerMpp) length

/-- The transaction for the next piece of a read. -/
def piece (c : Cbw) (offset length : Nat) : Transaction :=
  ⟨.read, offset, pieceCount offset length, some .readBulk, c.tagByte⟩

inductive Service where
  | idle
  /-- A command that is no read. -/
  | other
  /-- The pieces of `c` before `offset` were primed, `length` sectors are left. -/
  | owed (c : Cbw) (offset length : Nat)
  /-- The piece at `offset` is logged. -/
  | asked (c : Cbw) (offset length : Nat)
  /-- The storage returned `data` for the piece at `offset`. -/
  | ready (c : Cbw) (offset length : Nat) (data : Buffer)

/-- A note that is none of the host's business. -/
def Note.Internal : Note → Prop
  | .push t => t.type ≠ .read
  | .returned t _ _ _ => t.type ≠ .read
  | .wrote _ _ => True
  | .subtract _ _ => True
  | .stall => True
  | _ => False

inductive Service.Next : Service → Note → Service → Prop where
  | read {c : Cbw} : c.StartsRead → Next .idle (.command c) (.owed c c.lba c.blocks)
  | other {c : Cbw} : ¬ c.StartsRead → Next .idle (.command c) .other
  | ask {c : Cbw} {offset length : Nat} : 0 < length →
      Next (.owed c offset length) (.push (piece c offset length)) (.asked c offset length)
  | returned {c : Cbw} {offset length : Nat} {data : Buffer} :
      Next (.asked c offset length)
        (.returned (piece c offset length) (checkTag c.tagByte == 3) (checkTag c.tagByte == 2) data)
        (.ready c offset length data)
  | prime {c : Cbw} {offset length : Nat} {data : Buffer} :
      Next (.ready c offset length data)
        (.prime (.data data (pieceCount offset length * mscBlockSize)))
        (.owed c (offset + pieceCount offset length) (length - pieceCount offset length))
  | readStatus {c : Cbw} {offset : Nat} {w : Csw} : w.dTag = c.dTag → w.bStatus = .passed →
      Next (.owed c offset 0) (.prime (.csw w)) .idle
  | answer {len : Nat} : Next .other (.prime (.command len)) .other
  | otherStatus {w : Csw} : Next .other (.prime (.csw w)) .idle
  | internal {s : Service} {n : Note} : n.Internal → Next s n s

/-- The trace, its latest note first, leaves the service in a state. -/
inductive Serves : List Note → Service → Prop where
  | nil : Serves [] .idle
  | note {trace : List Note} {n : Note} {s s' : Service} :
      Serves trace s → s.Next n s' → Serves (n :: trace) s'

/-- After anything was primed, no data is primed before the storage returned some. -/
theorem Serves.not_prime_prime {trace : List Note} {p : InPrime} {data : Buffer} {len : Nat}
    {s : Service} (h : Serves (.prime (.data data len) :: .prime p :: trace) s) : False := by
  cases h with
  | note hbefore hnext =>
      cases hnext with
      | internal hno => exact hno
      | prime =>
          cases hbefore with
          | note _ hlast =>
              cases hlast with
              | internal hno => exact hno

/-! ## The device and the service -/

section

variable {σ : Type} {onfm : Onfm σ} {d d' : Device σ} {b : Nat} {e : Event} {s : Service}

/-- The logged transactions, the oldest first. -/
def Device.pending (d : Device σ) : List Transaction := d.utList.toList utListSize

def Transaction.isRead (t : Transaction) : Bool := t.type == .read

/-- The logged reads. -/
def Device.reads (d : Device σ) : List Transaction := d.pending.filter Transaction.isRead

/-- A read of which `length` sectors from `offset` on are left. -/
structure ReadsOn (b : Nat) (d : Device σ) (c : Cbw) (offset length : Nat) : Prop where
  cbw : d.cbw = c
  read : c.isRead
  tag : d.csw.dTag = c.dTag
  within : offset + length ≤ b

/-- The stage of the device and the state of the service. -/
inductive Phase (b : Nat) (d : Device σ) : Service → Prop where
  | command : d.bulkStage = .cbw → d.inRequest = none → d.reads = [] → Phase b d .idle
  | status : d.bulkStage = .csw → d.reads = [] → Phase b d .idle
  | failed : d.bulkStage = .error → d.inRequest = none → d.reads = [] → Phase b d .idle
  | receiving : d.bulkStage = .dataOut → d.inRequest = none → d.reads = [] →
      Phase b d .other
  | answering : d.bulkStage = .dataInLast → d.reads = [] → Phase b d .other
  | asked {c : Cbw} {offset length : Nat} : d.bulkStage = .dataIn → d.inRequest = none →
      d.reads = [piece c offset length] → ReadsOn b d c offset length → 0 < length →
      d.readBulkLen = 0 → d.offset = offset + pieceCount offset length →
      d.length = length - pieceCount offset length → Phase b d (.asked c offset length)
  | ready {c : Cbw} {offset length : Nat} {data : Buffer} : d.bulkStage = .dataIn →
      d.inRequest = none → d.reads = [] → ReadsOn b d c offset length → 0 < length →
      d.readBulkLen = pieceCount offset length * mscBlockSize → d.readBulkBuf = data →
      d.offset = offset + pieceCount offset length →
      d.length = length - pieceCount offset length → Phase b d (.ready c offset length data)
  | sent {c : Cbw} {offset length : Nat} : d.bulkStage = .dataIn → d.inRequest ≠ none →
      d.reads = [] → ReadsOn b d c offset length → 0 < length → d.offset = offset →
      d.length = length → Phase b d (.owed c offset length)
  | last {c : Cbw} {offset : Nat} : d.bulkStage = .dataInLast → d.reads = [] →
      d.csw.dTag = c.dTag → d.csw.bStatus = .passed → Phase b d (.owed c offset 0)

/-- The invariant of the read path. -/
structure ReadInv (b : Nat) (d : Device σ) (s : Service) : Prop where
  capacity : d.blockCount = b
  ring : d.utList.Ok utListSize
  serves : Serves d.trace s
  phase : Phase b d s
  pages : ∀ t ∈ d.pending, t.type ≠ .read → t.buffer ≠ some .readBulk
  command : d.outRequest = some .cbw → d.bulkStage = .cbw
  request : ∀ i first size, d.outRequest = some (.page i first size) → d.bulkStage = .dataOut

theorem Serves.internal {trace : List Note} {n : Note} (h : Serves trace s) (hn : n.Internal) :
    Serves (n :: trace) s := .note h (.internal hn)

theorem Serves.internals {trace new : List Note} (h : Serves trace s)
    (hnew : ∀ n ∈ new, n.Internal) : Serves (new ++ trace) s := by
  induction new with
  | nil => exact h
  | cons n new ih =>
      have hbefore := ih fun m hm => hnew m (List.mem_cons_of_mem _ hm)
      exact hbefore.internal (hnew n List.mem_cons_self)

theorem ReadsOn.congr {c : Cbw} {offset length : Nat} (h : ReadsOn b d c offset length)
    (hcbw : d'.cbw = d.cbw) (htag : d'.csw.dTag = d.csw.dTag) : ReadsOn b d' c offset length :=
  ⟨hcbw.trans h.cbw, h.read, htag.trans h.tag, h.within⟩

/-- The phase reads only these fields. -/
theorem Phase.congr (h : Phase b d s) (hstage : d'.bulkStage = d.bulkStage)
    (hin : d'.inRequest = d.inRequest) (hreads : d'.reads = d.reads) (hcbw : d'.cbw = d.cbw)
    (hcsw : d'.csw = d.csw) (hlen : d'.readBulkLen = d.readBulkLen)
    (hbuf : d'.readBulkBuf = d.readBulkBuf) (hoffset : d'.offset = d.offset)
    (hlength : d'.length = d.length) : Phase b d' s := by
  have htag : d'.csw.dTag = d.csw.dTag := congrArg Csw.dTag hcsw
  cases h with
  | command h1 h2 h3 => exact .command (hstage.trans h1) (hin.trans h2) (hreads.trans h3)
  | status h1 h2 => exact .status (hstage.trans h1) (hreads.trans h2)
  | failed h1 h2 h3 => exact .failed (hstage.trans h1) (hin.trans h2) (hreads.trans h3)
  | receiving h1 h2 h3 => exact .receiving (hstage.trans h1) (hin.trans h2) (hreads.trans h3)
  | answering h1 h2 => exact .answering (hstage.trans h1) (hreads.trans h2)
  | asked h1 h2 h3 h4 h5 h6 h7 h8 =>
      exact .asked (hstage.trans h1) (hin.trans h2) (hreads.trans h3) (h4.congr hcbw htag) h5
        (hlen.trans h6) (hoffset.trans h7) (hlength.trans h8)
  | ready h1 h2 h3 h4 h5 h6 h7 h8 h9 =>
      exact .ready (hstage.trans h1) (hin.trans h2) (hreads.trans h3) (h4.congr hcbw htag) h5
        (hlen.trans h6) (hbuf.trans h7) (hoffset.trans h8) (hlength.trans h9)
  | sent h1 h2 h3 h4 h5 h6 h7 =>
      exact .sent (hstage.trans h1) (by rw [hin]; exact h2) (hreads.trans h3)
        (h4.congr hcbw htag) h5 (hoffset.trans h6) (hlength.trans h7)
  | last h1 h2 h3 h4 =>
      exact .last (hstage.trans h1) (hreads.trans h2) (htag.trans h3)
        ((congrArg Csw.bStatus hcsw).trans h4)

/-- The ring has room for one more entry. -/
theorem Device.Room.size_lt (h : d.Room) (hok : d.utList.Ok utListSize) :
    d.utList.size utListSize + 1 < utListSize := by
  have hlt := hok.size_lt
  have hne : ¬ d.utList.size utListSize + 1 = utListSize := by
    intro hfull
    exact h ⟨.read, 0, 0, none, 0⟩ ((hok.log_full _).mpr hfull)
  omega

theorem pending_log {t : Transaction} (hlist : d'.utList = d.utList.log utListSize t)
    (hok : d.utList.Ok utListSize) (hroom : d.Room) : d'.pending = d.pending ++ [t] := by
  unfold Device.pending
  rw [hlist]
  exact hok.toList_log t (hroom.size_lt hok)

theorem pending_drop (hlist : d'.utList = d.utList.drop utListSize)
    (hok : d.utList.Ok utListSize) (hne : d.utList.pop ≠ d.utList.push) :
    d.pending = d.current :: d'.pending := by
  unfold Device.pending
  rw [hlist]
  exact hok.toList_drop hne

theorem reads_log {t : Transaction} (hlist : d'.utList = d.utList.log utListSize t)
    (hok : d.utList.Ok utListSize) (hroom : d.Room) (ht : t.type ≠ .read) :
    d'.reads = d.reads := by
  have hno : t.isRead = false := by simpa [Transaction.isRead] using ht
  unfold Device.reads
  rw [pending_log hlist hok hroom, List.filter_append, List.filter_cons, hno]
  simp

theorem reads_log_read {t : Transaction} (hlist : d'.utList = d.utList.log utListSize t)
    (hok : d.utList.Ok utListSize) (hroom : d.Room) (ht : t.type = .read) :
    d'.reads = d.reads ++ [t] := by
  have hyes : t.isRead = true := by simpa [Transaction.isRead] using ht
  unfold Device.reads
  rw [pending_log hlist hok hroom, List.filter_append, List.filter_cons, hyes]
  simp

theorem reads_drop (hlist : d'.utList = d.utList.drop utListSize)
    (hok : d.utList.Ok utListSize) (hne : d.utList.pop ≠ d.utList.push)
    (ht : d.current.type ≠ .read) : d'.reads = d.reads := by
  have hno : d.current.isRead = false := by simpa [Transaction.isRead] using ht
  unfold Device.reads
  rw [pending_drop hlist hok hne, List.filter_cons, hno]
  simp

theorem reads_drop_read (hlist : d'.utList = d.utList.drop utListSize)
    (hok : d.utList.Ok utListSize) (hne : d.utList.pop ≠ d.utList.push)
    (ht : d.current.type = .read) : d.reads = d.current :: d'.reads := by
  have hyes : d.current.isRead = true := by simpa [Transaction.isRead] using ht
  unfold Device.reads
  rw [pending_drop hlist hok hne, List.filter_cons, hyes]
  simp

/-! ## Pieces -/

theorem pieceCount_bounds {offset length : Nat} (h : 0 < length) :
    0 < pieceCount offset length ∧ pieceCount offset length ≤ length ∧
      pieceCount offset length ≤ 8 := by
  unfold pieceCount
  simp only [sectorPerMpp]
  omega

/-- A read on the device is not clipped. -/
theorem ReadsOn.next {c : Cbw} {offset length : Nat} (h : ReadsOn b d c offset length)
    (hb : b < 4294967296) (hcap : d.blockCount = b) (hlen : 0 < length)
    (hoffset : d.offset = offset) (hlength : d.length = length) :
    ¬ d.Clips d.inCount ∧ d.readCount = pieceCount offset length ∧
      d.readTransaction = piece c offset length := by
  obtain ⟨_, hle, _⟩ := @pieceCount_bounds offset _ hlen
  have hwithin := h.within
  have hin : d.inCount = pieceCount offset length := by
    unfold Device.inCount pieceCount
    rw [hoffset, hlength]
  have hclip : ¬ d.Clips d.inCount := by
    unfold Device.Clips
    rw [hin, hoffset, add32_of_lt (by omega), hcap]
    omega
  have hcount : d.readCount = pieceCount offset length := by
    unfold Device.readCount
    rw [if_neg hclip, hin]
  refine ⟨hclip, hcount, ?_⟩
  unfold Device.readTransaction piece
  rw [hcount, hoffset, h.cbw]

/-- The next piece of a read is logged. -/
theorem ReadsOn.ask {c : Cbw} {offset length : Nat} (h : ReadsOn b d c offset length)
    (hb : b < 4294967296) (hcap : d.blockCount = b) (hok : d.utList.Ok utListSize)
    (hserves : Serves d.trace (.owed c offset length)) (hlen : 0 < length)
    (hoffset : d.offset = offset) (hlength : d.length = length) (hstage : d.bulkStage = .dataIn)
    (hin : d.inRequest = none) (hout : d.outRequest = none) (hreads : d.reads = [])
    (hpages : ∀ t ∈ d.pending, t.type ≠ .read → t.buffer ≠ some .readBulk) (hroom : d.Room) :
    ReadInv b d.memoryRead (.asked c offset length) := by
  obtain ⟨hclip, hcount, htransaction⟩ := h.next hb hcap hlen hoffset hlength
  obtain ⟨_, hle, _⟩ := @pieceCount_bounds offset _ hlen
  have hwithin := h.within
  have hlist : d.memoryRead.utList = d.utList.log utListSize d.readTransaction := rfl
  have htrace : d.memoryRead.trace =
      .subtract d.length d.readCount :: .push (piece c offset length) :: d.trace := by
    simp only [Device.memoryRead, Device.clipNote, if_neg hclip, htransaction, List.nil_append]
  have hstage' : d.memoryRead.bulkStage = .dataIn := by
    simp only [Device.memoryRead, if_neg hclip, hstage]
  have hreads' : d.memoryRead.reads = [piece c offset length] := by
    rw [reads_log_read hlist hok hroom rfl, hreads, htransaction]
    rfl
  have hoffset' : d.memoryRead.offset = offset + pieceCount offset length := by
    simp only [Device.memoryRead, hcount, hoffset]
    exact add32_of_lt (by omega)
  have hlength' : d.memoryRead.length = length - pieceCount offset length := by
    simp only [Device.memoryRead, hcount, hlength]
    exact sub32_of_le hle (by omega)
  refine ⟨hcap, hok.log _, ?_, ?_, ?_, fun hcmd => ?_, fun i first size hreq => ?_⟩
  · rw [htrace]
    exact (Serves.note hserves (.ask hlen)).internal trivial
  · exact .asked hstage' hin hreads' (h.congr rfl rfl) hlen rfl hoffset' hlength'
  · intro t ht hne
    rw [pending_log hlist hok hroom] at ht
    rcases List.mem_append.mp ht with ht | ht
    · exact hpages t ht hne
    · rw [List.mem_singleton.mp ht] at hne
      exact absurd rfl hne
  · exact absurd (hout.symm.trans hcmd) (by simp)
  · exact absurd (hout.symm.trans hreq) (by simp)

/-! ## Events of the OUT endpoint -/

theorem Phase.of_cbw (h : Phase b d s) (hstage : d.bulkStage = .cbw) :
    s = .idle ∧ d.inRequest = none ∧ d.reads = [] := by
  cases h with
  | command _ hin hreads => exact ⟨rfl, hin, hreads⟩
  | status h1 | failed h1 | receiving h1 | answering h1 | asked h1 | ready h1 | sent h1 | last h1 =>
      exact absurd (hstage.symm.trans h1) (by simp)

theorem Phase.of_dataOut (h : Phase b d s) (hstage : d.bulkStage = .dataOut) :
    s = .other ∧ d.inRequest = none ∧ d.reads = [] := by
  cases h with
  | receiving _ hin hreads => exact ⟨rfl, hin, hreads⟩
  | command h1 | status h1 | failed h1 | answering h1 | asked h1 | ready h1 | sent h1 | last h1 =>
      exact absurd (hstage.symm.trans h1) (by simp)

theorem OutNakOutcome.serves (h : OutNakOutcome d d') (hinv : ReadInv b d s)
    (hfree : d.outRequest = none) : ReadInv b d' s := by
  have hphase := hinv.phase
  cases h with
  | waiting => exact hinv
  | @merged i hstage =>
      exact { hinv with
        phase := hphase.congr rfl rfl rfl rfl rfl rfl rfl rfl rfl
        command := fun hcmd => absurd hcmd (by simp)
        request := fun _ _ _ _ => hstage }
  | starved => exact { hinv with phase := hphase.congr rfl rfl rfl rfl rfl rfl rfl rfl rfl }
  | @merge i hstage hmerge halloc hcount hroom =>
      have hreads : Device.reads { (d.took i).logged (d.mergeTransaction i) with
          mergeStage := .start
          mergeCount := d.outCount } = d.reads :=
        reads_log (t := d.mergeTransaction i) rfl hinv.ring hroom (by simp [Device.mergeTransaction])
      exact { hinv with
        ring := hinv.ring.log _
        serves := hinv.serves.internal (by simp [Note.Internal, Device.mergeTransaction])
        phase := hphase.congr rfl rfl hreads rfl rfl rfl rfl rfl rfl
        pages := fun t ht hne => by
          rw [pending_log (t := d.mergeTransaction i) rfl hinv.ring hroom] at ht
          rcases List.mem_append.mp ht with ht | ht
          · exact hinv.pages t ht hne
          · rw [List.mem_singleton.mp ht]
            simp [Device.mergeTransaction]
        command := fun hcmd => absurd (hfree.symm.trans hcmd) (by simp)
        request := fun _ _ _ hreq => absurd (hfree.symm.trans hreq) (by simp) }
  | @whole i hstage =>
      exact { hinv with
        phase := hphase.congr rfl rfl rfl rfl rfl rfl rfl rfl rfl
        command := fun hcmd => absurd hcmd (by simp)
        request := fun _ _ _ _ => hstage }
  | command hstage =>
      exact { hinv with
        phase := hphase.congr rfl rfl rfl rfl rfl rfl rfl rfl rfl
        command := fun _ => hstage
        request := fun _ _ _ hreq => absurd hreq (by simp) }
  | idle => exact hinv

/-- The status of a command that is no read. -/
theorem ReadInv.finish {status : CswStatus} (hcap : d.blockCount = b)
    (hok : d.utList.Ok utListSize) (hserves : Serves d.trace .other) (hreads : d.reads = [])
    (hpages : ∀ t ∈ d.pending, t.type ≠ .read → t.buffer ≠ some .readBulk)
    (hout : d.outRequest = none) : ReadInv b (d.finished status) .idle where
  capacity := hcap
  ring := hok
  serves := hserves.note .otherStatus
  phase := .status rfl hreads
  pages := hpages
  command := fun hcmd => absurd (hout.symm.trans hcmd) (by simp)
  request := fun _ _ _ hreq => absurd (hout.symm.trans hreq) (by simp)

theorem Refusal.serves (h : Refusal d d') : d'.blockCount = d.blockCount ∧
    d'.utList = d.utList ∧ d'.outRequest = d.outRequest ∧
      (Serves d.trace s → Serves d'.trace s) := by
  induction h with
  | plain => exact ⟨rfl, rfl, rfl, id⟩
  | addressed => exact ⟨rfl, rfl, rfl, id⟩
  | stall _ ih =>
      obtain ⟨hcap, hlist, hout, hserves⟩ := ih
      exact ⟨hcap, hlist, hout, fun h => (hserves h).internal trivial⟩

/-- A wrapper comes when nothing is owed. -/
theorem CommandOutcome.serves (h : CommandOutcome d d') (hb : b < 4294967296)
    (hinv : ReadInv b d .idle) (hout : d.outRequest = none) (hin : d.inRequest = none)
    (hreads : d.reads = [])
    (hwithin : d.cbw.StartsRead ∨ d.cbw.StartsWrite → d.cbw.lba + d.cbw.blocks ≤ b) :
    ∃ s', ReadInv b d' s' := by
  have hcommand : ∀ {x : Device σ}, x.outRequest = d.outRequest → x.outRequest = some .cbw →
      x.bulkStage = .cbw :=
    fun hx hcmd => absurd (hout.symm.trans (hx.symm.trans hcmd)) (by simp)
  have hrequest : ∀ {x : Device σ}, x.outRequest = d.outRequest → ∀ i first size,
      x.outRequest = some (.page i first size) → x.bulkStage = .dataOut :=
    fun hx i first size hreq => absurd (hout.symm.trans (hx.symm.trans hreq)) (by simp)
  cases h with
  | invalid =>
      exact ⟨.idle, { hinv with
        serves := hinv.serves.internal trivial
        phase := .failed rfl hin hreads
        command := hcommand rfl
        request := hrequest rfl }⟩
  | @refused x status _ hread _ hrefusal =>
      have hother : Serves d.accepted.trace .other := hinv.serves.note (.other hread)
      obtain ⟨hcap, hlist, hreq, hserves⟩ := hrefusal.serves (s := .other)
      have hpending : x.pending = d.pending := congrArg (RingBuffer.toList utListSize) hlist
      refine ⟨.idle, .finish (hcap.trans hinv.capacity) ?_ (hserves hother) ?_ ?_
        (hreq.trans hout)⟩
      · rw [hlist]
        exact hinv.ring
      · exact (congrArg (List.filter Transaction.isRead) hpending).trans hreads
      · intro t ht
        rw [hpending] at ht
        exact hinv.pages t ht
  | answered _ hread =>
      have hother : Serves d.accepted.trace .other := hinv.serves.note (.other hread)
      exact ⟨.other, { hinv with
        serves := hother.note .answer
        phase := .answering rfl hreads
        command := hcommand rfl
        request := hrequest rfl }⟩
  | read _ hstarts hroom =>
      have howed : Serves d.accepted.trace (.owed d.cbw d.cbw.lba d.cbw.blocks) :=
        hinv.serves.note (.read hstarts)
      have hon : ReadsOn b ({ d.accepted.addressed with bulkStage := .dataIn } : Device σ) d.cbw
          d.cbw.lba d.cbw.blocks := ⟨rfl, hstarts.2.1, rfl, hwithin (.inl hstarts)⟩
      exact ⟨_, hon.ask hb hinv.capacity hinv.ring howed hstarts.2.2.1.blocks_pos rfl rfl rfl hin
        hout hreads hinv.pages hroom⟩
  | write _ hstarts =>
      have hread : ¬ d.cbw.StartsRead := fun h => h.not_startsWrite hstarts
      exact ⟨.other, { hinv with
        serves := hinv.serves.note (.other hread)
        phase := .receiving rfl hin hreads
        command := hcommand rfl
        request := hrequest rfl }⟩

/-- A command block wrapper arrives. -/
theorem OutDoneOutcome.serves_command {len : Nat} {c : Cbw}
    (h : OutDoneOutcome { d with cbw := c, outRequest := none } len d') (hb : b < 4294967296)
    (hinv : ReadInv b d s) (hreq : d.outRequest = some .cbw)
    (hwithin : c.StartsRead ∨ c.StartsWrite → c.lba + c.blocks ≤ b) :
    ∃ s', ReadInv b d' s' := by
  have hstage := hinv.command hreq
  obtain ⟨rfl, hin, hreads⟩ := hinv.phase.of_cbw hstage
  cases h with
  | command _ hcommand =>
      refine hcommand.serves hb { hinv with
        phase := .command hstage hin hreads
        command := fun hcmd => absurd hcmd (by simp)
        request := fun _ _ _ hpage => absurd hpage (by simp) } rfl hin hreads hwithin
  | write hout => exact absurd (hstage.symm.trans hout) (by simp)
  | verify hout => exact absurd (hstage.symm.trans hout) (by simp)
  | ignored hout =>
      rcases hout with hout | ⟨hout, _⟩
      · exact absurd (hstage.symm.trans hout) (by simp)
      · exact absurd (hstage.symm.trans hout) (by simp)
  | misplaced hnot => exact absurd hstage hnot

/-- Data of a write is logged, and nothing is read. -/
theorem ReadInv.memoryWrite (hinv : ReadInv b d .other) (hstage : d.bulkStage = .dataOut)
    (hin : d.inRequest = none) (hreads : d.reads = []) (hout : d.outRequest = none)
    (hroom : d.Room) :
    Serves d.memoryWrite.trace .other ∧ d.memoryWrite.reads = [] ∧
      (∀ t ∈ d.memoryWrite.pending, t.type ≠ .read → t.buffer ≠ some .readBulk) ∧
      (d.memoryWrite.bulkStage ≠ .csw → ReadInv b d.memoryWrite .other) := by
  have hlist : d.memoryWrite.utList = d.utList.log utListSize d.writeTransaction := rfl
  have htype : d.writeTransaction.type ≠ .read := by simp [Device.writeTransaction]
  have hserves : Serves d.memoryWrite.trace .other := by
    have hclip : ∀ n ∈ d.clipNote d.writeCount, n.Internal := by
      unfold Device.clipNote
      split <;> simp [Note.Internal]
    have hstall : ∀ n ∈ (if d.Clips d.writeCount then [Note.stall] else []), n.Internal := by
      split <;> simp [Note.Internal]
    have hpush := ((hinv.serves.internals hclip).internals hstall).internal
      (n := .push d.writeTransaction) htype
    exact hpush.internal trivial
  have hreads' : d.memoryWrite.reads = [] := (reads_log hlist hinv.ring hroom htype).trans hreads
  have hpages : ∀ t ∈ d.memoryWrite.pending, t.type ≠ .read → t.buffer ≠ some .readBulk := by
    intro t ht hne
    rw [pending_log hlist hinv.ring hroom] at ht
    rcases List.mem_append.mp ht with ht | ht
    · exact hinv.pages t ht hne
    · rw [List.mem_singleton.mp ht]
      simp [Device.writeTransaction]
  refine ⟨hserves, hreads', hpages, fun hnot => ?_⟩
  have hkept : d.memoryWrite.bulkStage = .dataOut := by
    by_cases hclip : d.Clips d.writeCount
    · simp [Device.memoryWrite, hclip] at hnot
    · simp only [Device.memoryWrite, if_neg hclip, hstage]
  exact {
    capacity := hinv.capacity
    ring := hinv.ring.log _
    serves := hserves
    phase := .receiving hkept hin hreads'
    pages := hpages
    command := fun hcmd => absurd (hout.symm.trans hcmd) (by simp)
    request := fun _ _ _ hreq => absurd (hout.symm.trans hreq) (by simp) }

/-- Data arrives. -/
theorem OutDoneOutcome.serves_data {len : Nat} {i : Fin 4} {first size : Nat}
    {pool : Fin 4 → Buffer}
    (h : OutDoneOutcome { d with pool := pool, outRequest := none } len d')
    (hinv : ReadInv b d s) (hreq : d.outRequest = some (.page i first size)) :
    ∃ s', ReadInv b d' s' := by
  have hstage := hinv.request i first size hreq
  obtain ⟨rfl, hin, hreads⟩ := hinv.phase.of_dataOut hstage
  generalize hr : ({ d with
    pool := pool
    outRequest := none
    bulkLen := len } : Device σ) = r
  have hstage' : r.bulkStage = .dataOut := by
    rw [← hr]
    exact hstage
  have hin' : r.inRequest = none := by
    rw [← hr]
    exact hin
  have hout' : r.outRequest = none := by rw [← hr]
  have hreads' : r.reads = [] := by
    rw [← hr]
    exact hreads
  have hinv' : ReadInv b r .other := by
    rw [← hr]
    exact { hinv with
      phase := .receiving hstage hin hreads
      command := fun hcmd => absurd hcmd (by simp)
      request := fun _ _ _ hpage => absurd hpage (by simp) }
  cases h with
  | command hcbw => exact absurd (hstage.symm.trans hcbw) (by simp)
  | write _ _ hwrite =>
      have hwrite' : WriteOutcome r d' := by
        rw [← hr]
        exact hwrite
      cases hwrite' with
      | ragged => exact ⟨.other, hinv'⟩
      | more _ hroom _ hnot =>
          obtain ⟨_, _, _, hnext⟩ := hinv'.memoryWrite hstage' hin' hreads' hout' hroom
          exact ⟨.other, hnext hnot⟩
      | last _ hroom _ =>
          obtain ⟨hserves, hnone, hpages, _⟩ := hinv'.memoryWrite hstage' hin' hreads' hout' hroom
          exact ⟨.idle, .finish hinv'.capacity (hinv'.ring.log _) hserves hnone hpages hout'⟩
  | verify => exact ⟨.idle, .finish hinv.capacity hinv.ring hinv.serves hreads hinv.pages rfl⟩
  | ignored =>
      rw [← hr] at hinv'
      exact ⟨.other, hinv'⟩
  | misplaced _ hnot => exact absurd hstage hnot

/-! ## Events of the IN endpoint -/

/-- A NAK of the IN endpoint finds the read buffer empty, or a read waits for the
buffer and the endpoint is not primed. -/
def Device.NakInTime (d : Device σ) : Prop :=
  d.readBulkLen = 0 ∨ d.bulkStage = .dataIn ∧ d.inRequest = none

/-- A read whose piece is there, and only such a read, meets a NAK. -/
theorem Phase.of_nak (h : Phase b d s) (hstage : d.bulkStage = .dataIn)
    (hin : d.inRequest = none) (hready : d.readBulkLen ≠ 0) :
    ∃ c offset length, s = .ready c offset length d.readBulkBuf ∧ d.reads = [] ∧
      ReadsOn b d c offset length ∧ 0 < length ∧
      d.readBulkLen = pieceCount offset length * mscBlockSize ∧
      d.offset = offset + pieceCount offset length ∧
      d.length = length - pieceCount offset length := by
  cases h with
  | ready _ _ h3 h4 h5 h6 h7 h8 h9 => exact ⟨_, _, _, by rw [h7], h3, h4, h5, h6, h8, h9⟩
  | asked _ _ _ _ _ h6 => exact absurd h6 hready
  | sent _ h2 => exact absurd hin h2
  | command h1 | status h1 | failed h1 | receiving h1 | answering h1 | last h1 =>
      exact absurd (hstage.symm.trans h1) (by simp)

theorem InNakOutcome.serves (h : InNakOutcome d d') (hinv : ReadInv b d s)
    (hnak : d.NakInTime) : ∃ s', ReadInv b d' s' := by
  have hwaits : d.readBulkLen ≠ 0 → d.bulkStage = .dataIn ∧ d.inRequest = none := by
    intro hready
    rcases hnak with hzero | hwait
    · exact absurd hzero hready
    · exact hwait
  cases h with
  | idle => exact ⟨s, hinv⟩
  | last hready hlast =>
      obtain ⟨hstage, hin⟩ := hwaits hready
      obtain ⟨c, offset, length, rfl, hreads, hon, hlen, hcount, hoffset, hlength⟩ :=
        hinv.phase.of_nak hstage hin hready
      have hprimed := hinv.serves.note .prime
      have hzero : length - pieceCount offset length = 0 := hlength.symm.trans hlast
      rw [← hcount, hzero] at hprimed
      exact ⟨_, { hinv with
        serves := hprimed
        phase := .last rfl hreads hon.tag rfl
        command := fun hcmd => absurd (hstage.symm.trans (hinv.command hcmd)) (by simp)
        request := fun i first size hreq =>
          absurd (hstage.symm.trans (hinv.request i first size hreq)) (by simp) }⟩
  | inside hready hmore _ =>
      obtain ⟨hstage, hin⟩ := hwaits hready
      obtain ⟨c, offset, length, rfl, hreads, hon, hlen, hcount, hoffset, hlength⟩ :=
        hinv.phase.of_nak hstage hin hready
      have hprimed := hinv.serves.note .prime
      rw [← hcount] at hprimed
      have hwithin := hon.within
      obtain ⟨_, hle, _⟩ := @pieceCount_bounds offset _ hlen
      have hon' : ReadsOn b d c (offset + pieceCount offset length)
          (length - pieceCount offset length) := ⟨hon.cbw, hon.read, hon.tag, by omega⟩
      exact ⟨_, { hinv with
        serves := hprimed
        phase := .sent hstage (by simp [Device.writeEp]) hreads (hon'.congr rfl rfl) (by omega)
          hoffset hlength }⟩
  | outside hready _ hnot => exact absurd (hwaits hready).1 hnot

theorem InDoneOutcome.serves (h : InDoneOutcome { d with inRequest := none } d')
    (hb : b < 4294967296) (hinv : ReadInv b d s) (hin : d.inRequest ≠ none) :
    ∃ s', ReadInv b d' s' := by
  have hcommand : d.bulkStage ≠ .cbw → d.outRequest ≠ some .cbw :=
    fun hnot hcmd => hnot (hinv.command hcmd)
  have hrequest : d.bulkStage ≠ .dataOut → ∀ i first size,
      d.outRequest ≠ some (.page i first size) :=
    fun hnot i first size hreq => hnot (hinv.request i first size hreq)
  cases hinv.phase with
  | command _ hnone => exact absurd hnone hin
  | failed _ hnone => exact absurd hnone hin
  | receiving _ hnone => exact absurd hnone hin
  | asked _ hnone => exact absurd hnone hin
  | ready _ hnone => exact absurd hnone hin
  | status hstage hreads =>
      cases h with
      | status =>
          exact ⟨.idle, { hinv with
            phase := .command rfl rfl hreads
            command := fun _ => rfl
            request := fun i first size hreq =>
              absurd hreq (hrequest (by simp [hstage]) i first size) }⟩
      | next h1 | last h1 | stall h1 => exact absurd (hstage.symm.trans h1) (by simp)
      | idle _ h1 => exact absurd hstage h1
  | answering hstage hreads =>
      cases h with
      | last =>
          exact ⟨.idle, { hinv with
            serves := hinv.serves.note .otherStatus
            phase := .status rfl hreads
            command := fun hcmd => absurd hcmd (hcommand (by simp [hstage]))
            request := fun i first size hreq =>
              absurd hreq (hrequest (by simp [hstage]) i first size) }⟩
      | next h1 | status h1 | stall h1 => exact absurd (hstage.symm.trans h1) (by simp)
      | idle h1 => exact absurd hstage h1
  | last hstage hreads htag hstatus =>
      cases h with
      | last =>
          exact ⟨.idle, { hinv with
            serves := hinv.serves.note (.readStatus htag hstatus)
            phase := .status rfl hreads
            command := fun hcmd => absurd hcmd (hcommand (by simp [hstage]))
            request := fun i first size hreq =>
              absurd hreq (hrequest (by simp [hstage]) i first size) }⟩
      | next h1 | status h1 | stall h1 => exact absurd (hstage.symm.trans h1) (by simp)
      | idle h1 => exact absurd hstage h1
  | sent hstage _ hreads hon hlen hoffset hlength =>
      have hout : d.outRequest = none := by
        cases hreq : d.outRequest with
        | none => rfl
        | some r =>
            cases r with
            | cbw => exact absurd hreq (hcommand (by simp [hstage]))
            | page i first size => exact absurd hreq (hrequest (by simp [hstage]) i first size)
      cases h with
      | next _ _ hroom =>
          have hon' : ReadsOn b { d with inRequest := none } _ _ _ := hon.congr rfl rfl
          exact ⟨_, hon'.ask hb hinv.capacity hinv.ring hinv.serves hlen hoffset hlength hstage
            rfl hout hreads hinv.pages hroom⟩
      | last h1 | status h1 | stall h1 => exact absurd (hstage.symm.trans h1) (by simp)
      | idle _ _ h1 =>
          have hread := hon.read
          rw [← hon.cbw] at hread
          exact absurd hread (h1 hstage)

/-! ## The task -/

/-- A logged read is the piece that is asked for. -/
theorem Phase.of_read (h : Phase b d s) {t : Transaction} (ht : t ∈ d.reads) :
    ∃ c offset length, s = .asked c offset length ∧ d.reads = [piece c offset length] ∧
      d.bulkStage = .dataIn ∧ d.inRequest = none ∧ ReadsOn b d c offset length ∧ 0 < length ∧
      d.readBulkLen = 0 ∧ d.offset = offset + pieceCount offset length ∧
      d.length = length - pieceCount offset length := by
  have hempty : d.reads ≠ [] := List.ne_nil_of_mem ht
  cases h with
  | asked h1 h2 h3 h4 h5 h6 h7 h8 => exact ⟨_, _, _, rfl, h3, h1, h2, h4, h5, h6, h7, h8⟩
  | command _ _ h1 => exact absurd h1 hempty
  | failed _ _ h1 => exact absurd h1 hempty
  | receiving _ _ h1 => exact absurd h1 hempty
  | status _ h1 => exact absurd h1 hempty
  | answering _ h1 => exact absurd h1 hempty
  | last _ h1 => exact absurd h1 hempty
  | ready _ _ h1 => exact absurd h1 hempty
  | sent _ _ h1 => exact absurd h1 hempty

theorem mem_reads_current (hok : d.utList.Ok utListSize) (hne : d.utList.pop ≠ d.utList.push)
    (htype : d.current.type = .read) : d.current ∈ d.reads := by
  have hdrop : d.reads = d.current :: d.dropped.reads := reads_drop_read rfl hok hne htype
  rw [hdrop]
  exact List.mem_cons_self

/-- An entry that is no read leaves the list. -/
theorem ReadInv.drop {onfm' : σ} {pool handed} {merge : MergeStage} {n : Note}
    (hinv : ReadInv b d s) (hne : d.utList.pop ≠ d.utList.push) (htype : d.current.type ≠ .read)
    (hn : n.Internal) :
    ReadInv b { d.note n with
      utList := d.utList.drop utListSize
      onfm := onfm'
      pool := pool
      handed := handed
      mergeStage := merge } s where
  capacity := hinv.capacity
  ring := hinv.ring.drop
  serves := hinv.serves.internal hn
  phase := by
    refine hinv.phase.congr rfl rfl ?_ rfl rfl rfl rfl rfl rfl
    exact reads_drop rfl hinv.ring hne htype
  pages := by
    intro t ht
    have hmem : t ∈ d.pending := by
      have hdrop : d.pending = d.current :: d.dropped.pending := pending_drop rfl hinv.ring hne
      rw [hdrop]
      exact List.mem_cons_of_mem _ ht
    exact hinv.pages t hmem
  command := hinv.command
  request := hinv.request

theorem TaskOutcome.serves (h : TaskOutcome onfm d d') (hinv : ReadInv b d s) :
    ∃ s', ReadInv b d' s' := by
  cases h with
  | idle => exact ⟨s, hinv⟩
  | @write p below hne htype =>
      have hread : d.current.type ≠ .read := by simp [htype]
      cases p with
      | page i => exact ⟨s, hinv.drop hne hread trivial⟩
      | readBulk => exact ⟨s, hinv.drop hne hread trivial⟩
  | @read p data below hne htype _ hp _ =>
      obtain ⟨c, offset, length, rfl, hreads, hstage, hin, hon, hlen, _, hoffset, hlength⟩ :=
        hinv.phase.of_read (mem_reads_current hinv.ring hne htype)
      have hsplit : d.reads = d.current :: d.dropped.reads :=
        reads_drop_read rfl hinv.ring hne htype
      rw [hreads] at hsplit
      obtain ⟨hcurrent, hrest⟩ := List.cons.inj hsplit
      have hbuffer : p = .readBulk := by
        rw [← hcurrent] at hp
        exact (Option.some.inj hp).symm
      subst hbuffer
      obtain ⟨_, _, hpage⟩ := @pieceCount_bounds offset _ hlen
      have hserves : Serves (.returned d.current d.readFlags.1 d.readFlags.2 data :: d.trace)
          (.ready c offset length data) := by
        unfold Device.readFlags
        rw [← hcurrent]
        exact hinv.serves.note .returned
      have hcount : d.current.length * mscBlockSize % 4294967296 =
          pieceCount offset length * mscBlockSize := by
        rw [← hcurrent]
        exact Nat.mod_eq_of_lt (by simp only [piece, mscBlockSize]; omega)
      refine ⟨.ready c offset length data, hinv.capacity, hinv.ring.drop, hserves, ?_, ?_,
        hinv.command, hinv.request⟩
      · exact .ready hstage hin hrest.symm (hon.congr rfl rfl) hlen hcount rfl hoffset hlength
      · intro t ht
        have hmem : t ∈ d.pending := by
          have hdrop : d.pending = d.current :: d.dropped.pending :=
            pending_drop rfl hinv.ring hne
          rw [hdrop]
          exact List.mem_cons_of_mem _ ht
        exact hinv.pages t hmem
  | skip hne hready _ _ =>
      by_cases hread : d.current.type = .read
      · -- the buffer is empty while a piece is asked for
        obtain ⟨_, _, _, _, _, _, _, _, _, hempty, _⟩ :=
          hinv.phase.of_read (mem_reads_current hinv.ring hne hread)
        exact absurd hempty (hready hread)
      · have hmem : d.pending = d.current :: d.dropped.pending :=
          pending_drop rfl hinv.ring hne
        exact ⟨s, { hinv with
          ring := hinv.ring.drop
          phase := hinv.phase.congr rfl rfl (reads_drop rfl hinv.ring hne hread) rfl rfl rfl rfl
            rfl rfl
          pages := fun t ht => hinv.pages t (by
            rw [hmem]
            exact List.mem_cons_of_mem _ ht) }⟩
  | @merge p data below hne htype _ hp _ =>
      have hread : d.current.type ≠ .read := by simp [htype]
      have hmem : d.current ∈ d.pending := by
        have hdrop : d.pending = d.current :: d.dropped.pending := pending_drop rfl hinv.ring hne
        rw [hdrop]
        exact List.mem_cons_self
      cases p with
      | page i => exact ⟨s, hinv.drop hne hread hread⟩
      | readBulk => exact absurd hp (hinv.pages _ hmem hread)

/-! ## Runs -/

/-- A read or a write that arrives ends on the device. -/
def Event.Within (b : Nat) (e : Event) : Prop :=
  ∀ c len, e = .outDone (.cbw c len) → c.StartsRead ∨ c.StartsWrite → c.lba + c.blocks ≤ b

/-- A run of which every NAK of the IN endpoint is in time. -/
inductive RunInTime (onfm : Onfm σ) : Device σ → List Event → Device σ → Prop where
  | nil {d : Device σ} : RunInTime onfm d [] d
  | step {d d' d'' : Device σ} {e : Event} {es : List Event} :
      RunInTime onfm d es d' → (e = .inNak → d'.NakInTime) → Step onfm d' e d'' →
      RunInTime onfm d (e :: es) d''

theorem StepOutcome.serves (h : StepOutcome onfm d e d') (hb : b < 4294967296)
    (hwithin : e.Within b) (hnak : e = .inNak → d.NakInTime) (hinv : ReadInv b d s) :
    ∃ s', ReadInv b d' s' := by
  cases h with
  | outNak hfree hout => exact ⟨s, hout.serves hinv hfree⟩
  | command hreq _ hout => exact hout.serves_command hb hinv hreq (hwithin _ _ rfl)
  | data hreq _ hout => exact hout.serves_data hinv hreq
  | inNak hout => exact hout.serves hinv (hnak rfl)
  | inDone hin hout => exact hout.serves hb hinv hin
  | task hout => exact hout.serves hinv
  | free => exact ⟨s, { hinv with phase := hinv.phase.congr rfl rfl rfl rfl rfl rfl rfl rfl rfl }⟩

theorem pending_init {below : σ} {pool : Fin 4 → Buffer} :
    (Device.init below b pool).pending = [] := by
  have hok : (Device.init below b pool).utList.Ok utListSize := ⟨Nat.succ_pos 7, Nat.succ_pos 7⟩
  exact hok.toList_eq_nil.mpr rfl

theorem readInv_init {below : σ} {pool : Fin 4 → Buffer} :
    ReadInv b (.init below b pool) .idle where
  capacity := rfl
  ring := ⟨Nat.succ_pos 7, Nat.succ_pos 7⟩
  serves := .nil
  phase := .command rfl rfl (congrArg (List.filter Transaction.isRead) pending_init)
  pages := by
    rw [pending_init]
    simp
  command := fun hcmd => absurd hcmd (by simp [Device.init])
  request := fun _ _ _ hreq => absurd hreq (by simp [Device.init])

theorem RunInTime.serves {start : Device σ} {es : List Event} (hrun : RunInTime onfm start es d)
    (hb : b < 4294967296) (hes : ∀ e ∈ es, e.Within b) (hstart : ReadInv b start .idle) :
    ∃ s, ReadInv b d s := by
  induction hrun with
  | nil => exact ⟨.idle, hstart⟩
  | step _ hnak hlast ih =>
      obtain ⟨s, hinv⟩ := ih fun e he => hes e (List.mem_cons_of_mem _ he)
      exact hlast.outcome.serves hb (hes _ List.mem_cons_self) hnak hinv

/-! ## NAKs that are not in time -/

theorem Service.Next.unique {s₁ s₂ : Service} {n : Note} (h₁ : s.Next n s₁) (h₂ : s.Next n s₂) :
    s₁ = s₂ := by
  cases h₁ with
  | read hread =>
      cases h₂ with
      | read => rfl
      | other hno => exact absurd hread hno
      | internal hno => exact absurd hno id
  | other hno =>
      cases h₂ with
      | read hread => exact absurd hread hno
      | other => rfl
      | internal hno => exact absurd hno id
  | ask =>
      cases h₂ with
      | ask => rfl
      | internal hno => exact absurd rfl hno
  | returned =>
      cases h₂ with
      | returned => rfl
      | internal hno => exact absurd rfl hno
  | prime =>
      cases h₂ with
      | prime => rfl
      | internal hno => exact absurd hno id
  | readStatus =>
      cases h₂ with
      | readStatus => rfl
      | internal hno => exact absurd hno id
  | answer =>
      cases h₂ with
      | answer => rfl
      | internal hno => exact absurd hno id
  | otherStatus =>
      cases h₂ with
      | otherStatus => rfl
      | internal hno => exact absurd hno id
  | internal hno =>
      cases h₂ with
      | internal => rfl
      | read | other | prime | readStatus | answer | otherStatus => exact absurd hno id
      | ask | returned => exact absurd rfl hno

/-- Only what the storage returned is primed as data. -/
theorem Service.Next.of_data {s' : Service} {data : Buffer} {len : Nat}
    (h : s.Next (.prime (.data data len)) s') :
    ∃ c offset length, s = .ready c offset length data := by
  generalize hn : Note.prime (.data data len) = n at h
  cases h with
  | prime =>
      obtain ⟨rfl, _⟩ := InPrime.data.inj (Note.prime.inj hn)
      exact ⟨_, _, _, rfl⟩
  | readStatus => exact absurd (Note.prime.inj hn) (by simp)
  | answer => exact absurd (Note.prime.inj hn) (by simp)
  | otherStatus => exact absurd (Note.prime.inj hn) (by simp)
  | internal hno =>
      rw [← hn] at hno
      exact absurd hno id
  | read | other | ask | returned => exact absurd hn (by simp)

theorem Serves.unique {trace : List Note} {s₁ s₂ : Service} (h₁ : Serves trace s₁)
    (h₂ : Serves trace s₂) : s₁ = s₂ := by
  induction h₁ generalizing s₂ with
  | nil =>
      cases h₂ with
      | nil => rfl
  | note _ hnext ih =>
      cases h₂ with
      | note hbefore hnext₂ =>
          rw [← ih hbefore] at hnext₂
          exact hnext.unique hnext₂

/-- What was served before. -/
theorem Serves.of_suffix {trace trace' : List Note} (h : Serves trace' s)
    (hsuffix : trace <:+ trace') : ∃ s', Serves trace s' := by
  obtain ⟨new, rfl⟩ := hsuffix
  induction new generalizing s with
  | nil => exact ⟨s, h⟩
  | cons n new ih =>
      cases h with
      | note hbefore _ => exact ih hbefore

/-- A NAK that is not in time primes data that no command asked for. -/
theorem InNakOutcome.not_serves (h : InNakOutcome d d') (hinv : ReadInv b d s)
    (hnak : ¬ d.NakInTime) {s' : Service} : ¬ Serves d'.trace s' := by
  have hready : d.readBulkLen ≠ 0 := fun hzero => hnak (.inl hzero)
  have htrace : d'.trace = .prime (.data d.readBulkBuf d.readBulkLen) :: d.trace := by
    cases h with
    | idle hzero => exact absurd hzero hready
    | last => rfl
    | inside => rfl
    | outside => rfl
  intro hserves
  rw [htrace] at hserves
  cases hserves with
  | note hbefore hnext =>
      obtain ⟨c, offset, length, hs⟩ := hnext.of_data
      have hphase := hinv.phase
      rw [hinv.serves.unique hbefore, hs] at hphase
      cases hphase with
      | ready hstage hin => exact hnak (.inr ⟨hstage, hin⟩)

/-- A run that serves the commands took every NAK in time. -/
theorem Run.inTime {start : Device σ} {es : List Event} (hrun : Run onfm start es d)
    (hb : b < 4294967296) (hes : ∀ e ∈ es, e.Within b) (hstart : ReadInv b start .idle)
    (hserves : Serves d.trace s) : RunInTime onfm start es d := by
  induction hrun generalizing s with
  | nil => exact .nil
  | step _ hlast ih =>
      have hes' := fun e he => hes e (List.mem_cons_of_mem _ he)
      have hout := hlast.outcome
      obtain ⟨_, hserved⟩ := hserves.of_suffix hout.suffix
      have hbefore := ih hes' hserved
      refine .step hbefore (fun hnak => ?_) hlast
      by_contra hlate
      obtain ⟨_, hinv⟩ := hbefore.serves hb hes' hstart
      rw [hnak] at hout
      cases hout with
      | inNak hout => exact hout.not_serves hinv hlate hserves

/-- In every run whose reads and writes end on the device, the trace serves the
commands exactly when every NAK of the IN endpoint comes in time. -/
theorem reads_served_iff {below : σ} {pool : Fin 4 → Buffer} {es : List Event}
    (hb : b < 4294967296) (hes : ∀ e ∈ es, e.Within b)
    (hrun : Run onfm (.init below b pool) es d) :
    (∃ s, Serves d.trace s ∧ Phase b d s) ↔ RunInTime onfm (.init below b pool) es d := by
  constructor
  · rintro ⟨s, hserves, _⟩
    exact hrun.inTime hb hes readInv_init hserves
  · intro hintime
    obtain ⟨s, hinv⟩ := hintime.serves hb hes readInv_init
    exact ⟨s, hinv.serves, hinv.phase⟩

end

/-! ## Two runs -/

section

instance {σ : Type} (d : Device σ) : Decidable d.NakInTime :=
  inferInstanceAs (Decidable (_ ∨ _ ∧ _))

/-- The device after a list of events, the latest first, when every NAK of the IN
endpoint is in time. -/
def Device.runInTime {σ : Type} (onfm : Onfm σ) (d : Device σ) : List Event → Option (Device σ)
  | [] => some d
  | e :: es =>
      match d.runInTime onfm es with
      | some d' =>
          match e with
          | .inNak => if d'.NakInTime then d'.after onfm .inNak else none
          | e => d'.after onfm e
      | none => none

theorem Device.runInTime_run {σ : Type} {onfm : Onfm σ} {d d' : Device σ} {es : List Event}
    (h : d.runInTime onfm es = some d') : RunInTime onfm d es d' := by
  induction es generalizing d' with
  | nil =>
      rw [← Option.some.inj h]
      exact .nil
  | cons e es ih =>
      unfold Device.runInTime at h
      split at h
      · next d₁ hbefore =>
          split at h
          · obtain ⟨hnak, hstep⟩ := Option.ite_none_right_eq_some.mp h
            exact .step (ih hbefore) (fun _ => hnak) (Device.after_step hstep)
          · next hne => exact .step (ih hbefore) (fun heq => absurd heq hne) (Device.after_step h)
      · exact absurd h (by simp)

theorem RunInTime.run {σ : Type} {onfm : Onfm σ} {d d' : Device σ} {es : List Event}
    (h : RunInTime onfm d es d') : Run onfm d es d' := by
  induction h with
  | nil => exact .nil
  | step _ _ hlast ih => exact .step ih hlast

/-- A wrapper that asks whether the device is ready. -/
def readyCbw : Cbw where
  dSignature := mscCbwSignature
  dTag := 2
  dDataLength := 0
  bmFlags := 0
  bLUN := 0
  bCBLength := 6
  cb := fun _ => 0

/-- A read of the first sector is answered, and the device is asked whether it is
ready. -/
def readThenReady : List Event :=
  [.outDone (.cbw readyCbw 31), .outNak, .inDone, .inDone, .inNak, .task,
    .outDone (.cbw (readCbw 0) 31), .outNak]

theorem readThenReady_within : ∀ e ∈ readThenReady, e.Within 8000 := by
  have hread : (readCbw 0).lba + (readCbw 0).blocks ≤ 8000 := by decide
  have hready : readyCbw.lba + readyCbw.blocks ≤ 8000 := by decide
  intro e he c len heq _
  rw [heq] at he
  simp only [readThenReady, List.mem_cons, Event.outDone.injEq, Packet.cbw.injEq, reduceCtorEq,
    List.not_mem_nil, false_or, or_false] at he
  rcases he with ⟨rfl, _⟩ | ⟨rfl, _⟩
  · exact hready
  · exact hread

/-- Both commands are served. -/
theorem reads_served_readThenReady :
    ∃ (d : Device Unit) (s : Service), Serves d.trace s ∧ Phase 8000 d s ∧
      d.bulkStage = .csw := by
  have hstage : ((Device.init () 8000 fun _ => .zeros).runInTime Onfm.idle readThenReady).map
      Device.bulkStage = some .csw := by
    decide +kernel
  obtain ⟨d, hrun, hcsw⟩ := Option.map_eq_some_iff.mp hstage
  have hintime := Device.runInTime_run hrun
  obtain ⟨s, hserves, hphase⟩ :=
    (reads_served_iff (by decide) readThenReady_within hintime.run).mpr hintime
  exact ⟨d, s, hserves, hphase, hcsw⟩

/-- Data was primed right after something else was. -/
def endsStale : List Note → Bool
  | .prime (.data _ _) :: .prime _ :: _ => true
  | _ => false

theorem not_serves_of_endsStale {trace : List Note} (h : endsStale trace) :
    ¬ ∃ s, Serves trace s := by
  rintro ⟨s, hserves⟩
  unfold endsStale at h
  split at h
  · exact hserves.not_prime_prime
  · exact absurd h (by simp)

/-- A NAK that was recorded before the status of the second command was primed
primes the data of the read again. -/
theorem stale_read_primed :
    ∃ (es : List Event) (d : Device Unit), (∀ e ∈ es, e.Within 8000) ∧
      Run Onfm.idle (.init () 8000 fun _ => .zeros) es d ∧ ¬ ∃ s, Serves d.trace s := by
  have hstale : (((Device.init () 8000 fun _ => .zeros).runInTime Onfm.idle readThenReady).bind
      fun d => d.after Onfm.idle .inNak).map (fun d => endsStale d.trace) = some true := by
    decide +kernel
  obtain ⟨d', hrun, hends⟩ := Option.map_eq_some_iff.mp hstale
  obtain ⟨d, hbefore, hnak⟩ := Option.bind_eq_some_iff.mp hrun
  refine ⟨.inNak :: readThenReady, d', ?_,
    .step (Device.runInTime_run hbefore).run (Device.after_step hnak),
    not_serves_of_endsStale hends⟩
  intro e he
  rcases List.mem_cons.mp he with rfl | he
  · exact fun c len heq => absurd heq (by simp)
  · exact readThenReady_within e he

end

end RansomTag

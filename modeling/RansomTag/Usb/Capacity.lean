import RansomTag.Usb.Progress

/-!
# The capacity bound

Every logged transaction addresses only sectors of the device, as long as the
host asks for no read that starts behind the last sector and no write that ends
behind it.
-/

namespace RansomTag

/-- The sectors of a transaction are below `b`. -/
def Transaction.Below (b : Nat) (t : Transaction) : Prop :=
  ∀ x, t.offset ≤ x → x < t.offset + t.length → x < b

/-- Nothing that a run noted goes past the capacity `b`, and no clip wrapped. -/
structure Bounded (b : Nat) (trace : List Note) : Prop where
  push : ∀ t, .push t ∈ trace → t.Below b
  subtract : ∀ x y, .subtract x y ∈ trace → y ≤ x

/-- What a host may ask for: a read that starts at the end of the device at the
latest, a write that ends there, and a verification whose page is merged only
if it is on the device. -/
def Cbw.InCapacity (b : Nat) (c : Cbw) : Prop :=
  (c.StartsRead → c.lba ≤ b) ∧
  (c.StartsWrite → if c.isWrite then c.lba + c.blocks ≤ b
    else c.lba < b ∨ c.lba % sectorPerMpp = 0 ∧ sectorPerMpp ≤ c.blocks)

/-- A wrapper that is not valid asks for nothing. -/
def Event.InCapacity (b : Nat) (e : Event) : Prop :=
  ∀ c len, e = .outDone (.cbw c len) → c.Valid len → c.InCapacity b

/-- The capacity is a number of whole pages, and a page past it still has an
address. -/
structure WholePages (b : Nat) : Prop where
  aligned : b % sectorPerMpp = 0
  fits : b + sectorPerMpp < 4294967296

/-! ## The invariant -/

/-- The bound, and why the next transaction keeps it. -/
structure CapacityInv {σ : Type} (b : Nat) (d : Device σ) : Prop where
  capacity : d.blockCount = b
  bounded : Bounded b d.trace
  reading : d.bulkStage = .dataIn → d.offset ≤ b
  writing : d.bulkStage = .dataOut → d.cbw.isWrite → d.offset + d.length ≤ b
  verifying : d.bulkStage = .dataOut → ¬ d.cbw.isWrite →
    d.offset < b ∨ d.offset % sectorPerMpp = 0 ∧ sectorPerMpp ≤ d.length
  pending : d.bulkStage = .dataOut → 0 < d.length
  merging : d.mergeStage ≠ .none → d.bulkStage = .dataOut ∧ d.mergeCount = d.outCount
  command : d.outRequest = some .cbw → d.bulkStage ≠ .dataOut ∧ d.bulkStage ≠ .dataIn
  request : ∀ i first size, d.outRequest = some (.page i first size) →
    d.bulkStage = .dataOut ∧ d.mergeStage = .none ∧ size ≤ d.outCount * mscBlockSize

section

variable {σ : Type} {onfm : Onfm σ} {d d' : Device σ} {b : Nat} {e : Event}

theorem Bounded.note {trace : List Note} {n : Note} (h : Bounded b trace)
    (hpush : ∀ t, n = .push t → t.Below b) (hsub : ∀ x y, n = .subtract x y → y ≤ x) :
    Bounded b (n :: trace) := by
  refine ⟨fun t ht => ?_, fun x y hxy => ?_⟩
  · rcases List.mem_cons.mp ht with heq | hmem
    · exact hpush t heq.symm
    · exact h.push t hmem
  · rcases List.mem_cons.mp hxy with heq | hmem
    · exact hsub x y heq.symm
    · exact h.subtract x y hmem

theorem Bounded.push_note {trace : List Note} {t : Transaction} (h : Bounded b trace)
    (ht : t.Below b) : Bounded b (.push t :: trace) :=
  h.note (fun u hu => Note.push.inj hu ▸ ht) (by simp)

/-- A note of neither kind. -/
theorem Bounded.other {trace : List Note} {n : Note} (h : Bounded b trace)
    (hpush : ∀ t, n ≠ .push t) (hsub : ∀ x y, n ≠ .subtract x y) : Bounded b (n :: trace) :=
  h.note (fun t ht => absurd ht (hpush t)) fun x y hxy => absurd hxy (hsub x y)

/-- A page that starts on the device is on the device. -/
theorem WholePages.page_below (hb : WholePages b) {offset : Nat} (h : offset < b) {type : UtType}
    {buffer : Option BufferPtr} {tag : Byte} :
    Transaction.Below b
      ⟨type, offset / sectorPerMpp * sectorPerMpp, sectorPerMpp, buffer, tag⟩ := by
  intro x hlow hhigh
  have haligned := hb.aligned
  simp only [sectorPerMpp] at *
  omega

/-! ## Reads -/

theorem Device.inCount_le : d.inCount ≤ d.length ∧ d.inCount ≤ sectorPerMpp := by
  unfold Device.inCount
  simp only [sectorPerMpp]
  omega

/-- The clip of a read that starts on the device. -/
theorem Device.readCount_spec (hb : WholePages b) (hcap : d.blockCount = b)
    (hoffset : d.offset ≤ b) :
    d.readCount ≤ d.length ∧ d.offset + d.readCount ≤ b ∧
      add32 d.offset d.readCount = d.offset + d.readCount := by
  have hfits := hb.fits
  obtain ⟨hlen, hpage⟩ := d.inCount_le
  simp only [sectorPerMpp] at hfits hpage
  have hadd : add32 d.offset d.inCount = d.offset + d.inCount := add32_of_lt (by omega)
  unfold Device.readCount
  by_cases hclip : d.Clips d.inCount
  · have hclip' : b < d.offset + d.inCount := by
      rw [← hcap, ← hadd]
      exact hclip
    rw [if_pos hclip, hcap, sub32_of_le hoffset (by omega)]
    exact ⟨by omega, by omega, add32_of_lt (by omega)⟩
  · have hclip' : ¬ b < d.offset + d.inCount := by
      rw [← hcap, ← hadd]
      exact hclip
    rw [if_neg hclip]
    exact ⟨hlen, by omega, add32_of_lt (by omega)⟩

theorem Device.memoryRead_bounded (hb : WholePages b) (hcap : d.blockCount = b)
    (hoffset : d.offset ≤ b) (h : Bounded b d.trace) : Bounded b d.memoryRead.trace := by
  obtain ⟨hlen, hend, _⟩ := Device.readCount_spec hb hcap hoffset
  have hclip : ∀ n ∈ d.clipNote d.inCount, n = .subtract d.blockCount d.offset := by
    unfold Device.clipNote
    split <;> simp
  refine ⟨fun t ht => ?_, fun x y hxy => ?_⟩
  · simp only [Device.memoryRead, List.mem_cons, List.mem_append, reduceCtorEq, false_or,
      Note.push.injEq] at ht
    rcases ht with rfl | hnote | hmem
    · intro x _ hhigh
      have hhigh : x < d.offset + d.readCount := hhigh
      omega
    · exact absurd (hclip _ hnote) (by simp)
    · exact h.push t hmem
  · simp only [Device.memoryRead, List.mem_cons, List.mem_append, reduceCtorEq, false_or,
      Note.subtract.injEq] at hxy
    rcases hxy with ⟨rfl, rfl⟩ | hnote | hmem
    · exact hlen
    · have heq := Note.subtract.inj (hclip _ hnote)
      omega
    · exact h.subtract x y hmem

/-- A read that starts on the device leaves the next one there. -/
theorem CapacityInv.memoryRead (hb : WholePages b) (hcap : d.blockCount = b)
    (hbounded : Bounded b d.trace) (hoffset : d.offset ≤ b) (hstage : d.bulkStage = .dataIn)
    (hmerge : d.mergeStage = .none) (hfree : d.outRequest = none) :
    CapacityInv b d.memoryRead := by
  obtain ⟨_, hend, hadd⟩ := Device.readCount_spec hb hcap hoffset
  have hnot : d.memoryRead.bulkStage ≠ .dataOut := by
    unfold Device.memoryRead
    rw [hstage]
    dsimp only
    split <;> simp
  refine ⟨hcap, Device.memoryRead_bounded hb hcap hoffset hbounded, fun _ => ?_,
    fun h => absurd h hnot, fun h => absurd h hnot, fun h => absurd h hnot,
    fun h => absurd hmerge h, fun h => ?_, fun i first size h => ?_⟩
  · change add32 d.offset d.readCount ≤ b
    rw [hadd]
    exact hend
  · exact absurd (hfree.symm.trans h) (by simp)
  · exact absurd (hfree.symm.trans h) (by simp)

/-! ## Writes -/

theorem CapacityInv.offset_lt (h : CapacityInv b d) (hstage : d.bulkStage = .dataOut)
    (hcount : d.outCount ≠ sectorPerMpp) : d.offset < b := by
  have hpending := h.pending hstage
  by_cases hop : d.cbw.isWrite
  · have := h.writing hstage hop
    omega
  · rcases h.verifying hstage hop with hlt | ⟨haligned, hlen⟩
    · exact hlt
    · refine absurd ?_ hcount
      unfold Device.outCount
      simp only [sectorPerMpp] at *
      omega

theorem OutNakOutcome.capacity (h : OutNakOutcome d d') (hb : WholePages b)
    (hinv : CapacityInv b d) (hfree : d.outRequest = none) : CapacityInv b d' := by
  cases h with
  | waiting => exact hinv
  | @merged i hstage hmerge hbuf =>
      obtain ⟨_, hcount⟩ := hinv.merging (by rw [hmerge]; simp)
      exact { hinv with
        merging := fun hne => absurd rfl hne
        command := fun hcmd => absurd hcmd (by simp)
        request := fun j first size hreq => by
          obtain ⟨rfl, rfl, rfl⟩ := OutRequest.page.inj (Option.some.inj hreq)
          refine ⟨hstage, rfl, ?_⟩
          rw [hcount]
          exact le_rfl }
  | starved => exact { hinv with }
  | @merge i hstage hmerge halloc hcount hroom =>
      exact { hinv with
        bounded := hinv.bounded.push_note (hb.page_below (hinv.offset_lt hstage hcount))
        merging := fun _ => ⟨hstage, rfl⟩
        request := fun j first size hreq => absurd (hfree.symm.trans hreq) (by simp) }
  | @whole i hstage hmerge halloc hcount =>
      exact { hinv with
        command := fun hcmd => absurd hcmd (by simp)
        request := fun j first size hreq => by
          obtain ⟨rfl, rfl, rfl⟩ := OutRequest.page.inj (Option.some.inj hreq)
          refine ⟨hstage, hmerge, ?_⟩
          change mppBytes ≤ d.outCount * mscBlockSize
          rw [hcount]
          decide }
  | command hstage =>
      exact { hinv with
        command := fun _ => by
          change d.bulkStage ≠ .dataOut ∧ d.bulkStage ≠ .dataIn
          rw [hstage]
          simp
        request := fun j first size hreq => absurd hreq (by simp) }
  | idle => exact hinv

/-- Data that fits the request is written on the device, and is not clipped. -/
theorem CapacityInv.memoryWrite (h : CapacityInv b d) (hb : WholePages b)
    (hstage : d.bulkStage = .dataOut) (hop : d.cbw.isWrite)
    (hlen : d.bulkLen ≤ d.outCount * mscBlockSize) :
    Bounded b d.memoryWrite.trace ∧ d.memoryWrite.offset + d.memoryWrite.length ≤ b ∧
      d.memoryWrite.bulkStage = .dataOut := by
  have hfits := hb.fits
  have hend := h.writing hstage hop
  have hpending := h.pending hstage
  have hcount : d.outCount ≤ d.length ∧ d.outCount ≤ 8 := by
    unfold Device.outCount
    simp only [sectorPerMpp]
    omega
  have hn : d.writeCount ≤ d.length ∧ d.writeCount ≤ 8 := by
    unfold Device.writeCount
    simp only [mscBlockSize] at hlen ⊢
    omega
  simp only [sectorPerMpp] at hfits
  have hadd : add32 d.offset d.writeCount = d.offset + d.writeCount := add32_of_lt (by omega)
  have hsub : sub32 d.length d.writeCount = d.length - d.writeCount :=
    sub32_of_le hn.1 (by omega)
  have hclip : ¬ d.Clips d.writeCount := by
    unfold Device.Clips
    rw [hadd, h.capacity]
    omega
  have hbelow : d.writeTransaction.Below b := hb.page_below (by omega)
  refine ⟨?_, ?_, ?_⟩
  · have htrace : d.memoryWrite.trace =
        .subtract d.length d.writeCount :: .push d.writeTransaction :: d.trace := by
      simp only [Device.memoryWrite, Device.clipNote, if_neg hclip, List.nil_append]
    rw [htrace]
    refine (h.bounded.push_note hbelow).note (by simp) fun x y hxy => ?_
    obtain ⟨rfl, rfl⟩ := Note.subtract.inj hxy
    exact hn.1
  · change add32 d.offset d.writeCount + sub32 d.length d.writeCount ≤ b
    rw [hadd, hsub]
    omega
  · simp only [Device.memoryWrite, if_neg hclip]
    exact hstage

/-- What a command status leaves: no transfer is under way. -/
theorem CapacityInv.of_idle (hcap : d.blockCount = b) (hbounded : Bounded b d.trace)
    (hstage : d.bulkStage ≠ .dataOut ∧ d.bulkStage ≠ .dataIn) (hmerge : d.mergeStage = .none)
    (hfree : ∀ i first size, d.outRequest ≠ some (.page i first size)) : CapacityInv b d where
  capacity := hcap
  bounded := hbounded
  reading := fun h => absurd h hstage.2
  writing := fun h => absurd h hstage.1
  verifying := fun h => absurd h hstage.1
  pending := fun h => absurd h hstage.1
  merging := fun h => absurd hmerge h
  command := fun _ => hstage
  request := fun i first size h => absurd h (hfree i first size)

theorem Bounded.finished {status : CswStatus} (h : Bounded b d.trace) :
    Bounded b (d.finished status).trace :=
  h.other (by simp) (by simp)

theorem Refusal.capacity (h : Refusal d d') (hbounded : Bounded b d.trace) :
    d'.blockCount = d.blockCount ∧ Bounded b d'.trace ∧ d'.mergeStage = d.mergeStage ∧
      d'.outRequest = d.outRequest := by
  induction h with
  | plain => exact ⟨rfl, hbounded, rfl, rfl⟩
  | addressed => exact ⟨rfl, hbounded, rfl, rfl⟩
  | stall _ ih =>
      obtain ⟨hcap, hkept, hmerge, hfree⟩ := ih
      exact ⟨hcap, hkept.other (by simp) (by simp), hmerge, hfree⟩

theorem CommandOutcome.capacity (h : CommandOutcome d d') (hb : WholePages b)
    (hcap : d.blockCount = b) (hbounded : Bounded b d.trace) (hmerge : d.mergeStage = .none)
    (hfree : d.outRequest = none) (hin : d.cbw.Valid d.bulkLen → d.cbw.InCapacity b) :
    CapacityInv b d' := by
  have haccepted : Bounded b d.accepted.trace := hbounded.other (by simp) (by simp)
  have hnone : ∀ {x : Device σ}, x.outRequest = none →
      ∀ i first size, x.outRequest ≠ some (.page i first size) :=
    fun hx i first size hreq => absurd (hx.symm.trans hreq) (by simp)
  cases h with
  | invalid =>
      exact .of_idle hcap (hbounded.other (by simp) (by simp)) (by simp) hmerge (hnone hfree)
  | @refused x status _ _ _ hrefusal =>
      obtain ⟨hcap', hkept, hmerge', hfree'⟩ := hrefusal.capacity haccepted
      have hclear : (x.finished status).outRequest = none := hfree'.trans hfree
      exact .of_idle (hcap'.trans hcap) hkept.finished (by simp [Device.finished])
        (hmerge'.trans hmerge) (hnone hclear)
  | answered =>
      exact .of_idle hcap (haccepted.other (by simp) (by simp)) (by simp [Device.answered])
        hmerge (hnone hfree)
  | read hvalid hstarts _ =>
      exact .memoryRead hb hcap haccepted ((hin hvalid).1 hstarts) rfl hmerge hfree
  | write hvalid hstarts =>
      have hwithin := (hin hvalid).2 hstarts
      refine ⟨hcap, haccepted, by simp, fun _ hop => ?_, fun _ hop => ?_,
        fun _ => hstarts.2.2.1.blocks_pos, fun hne => absurd hmerge hne,
        fun hreq => absurd (hfree.symm.trans hreq) (by simp),
        fun i first size hreq => absurd (hfree.symm.trans hreq) (by simp)⟩
      · have hop : d.cbw.isWrite := hop
        rw [if_pos hop] at hwithin
        exact hwithin
      · have hop : ¬ d.cbw.isWrite := hop
        rw [if_neg hop] at hwithin
        exact hwithin

/-! ## Steps -/

/-- A command block wrapper arrives. -/
theorem OutDoneOutcome.capacity_command {len : Nat} {c : Cbw}
    (h : OutDoneOutcome { d with cbw := c, outRequest := none } len d') (hb : WholePages b)
    (hinv : CapacityInv b d) (hreq : d.outRequest = some .cbw)
    (hin : c.Valid len → c.InCapacity b) : CapacityInv b d' := by
  have hstage := hinv.command hreq
  have hmerge : d.mergeStage = .none := by
    by_contra hne
    exact hstage.1 (hinv.merging hne).1
  cases h with
  | command hcbw hcommand =>
      exact hcommand.capacity hb hinv.capacity hinv.bounded hmerge rfl hin
  | write hout => exact absurd hout hstage.1
  | verify hout => exact absurd hout hstage.1
  | ignored => exact .of_idle hinv.capacity hinv.bounded hstage hmerge (by simp)
  | misplaced =>
      have hkept : Bounded b (.stall :: d.trace) := hinv.bounded.other (by simp) (by simp)
      exact .of_idle hinv.capacity (hkept.other (by simp) (by simp)) (by simp [Device.finished])
        hmerge (by simp [Device.finished, Device.note])

/-- Data arrives. -/
theorem OutDoneOutcome.capacity_data {len : Nat} {i : Fin 4} {first size : Nat}
    {pool : Fin 4 → Buffer}
    (h : OutDoneOutcome { d with pool := pool, outRequest := none } len d') (hb : WholePages b)
    (hinv : CapacityInv b d) (hreq : d.outRequest = some (.page i first size))
    (hlen : len ≤ size) : CapacityInv b d' := by
  obtain ⟨hstage, hmerge, hsize⟩ := hinv.request i first size hreq
  generalize hr : ({ d with
    pool := pool
    outRequest := none
    bulkLen := len } : Device σ) = r
  have hinv' : CapacityInv b r := by
    rw [← hr]
    exact { hinv with
      command := fun hcmd => absurd hcmd (by simp)
      request := fun i first size hpage => absurd hpage (by simp) }
  have hfree : r.outRequest = none := by rw [← hr]
  have hstage' : r.bulkStage = .dataOut := by
    rw [← hr]
    exact hstage
  have hmerge' : r.mergeStage = .none := by
    rw [← hr]
    exact hmerge
  have hlen' : r.bulkLen ≤ r.outCount * mscBlockSize := by
    rw [← hr]
    exact hlen.trans hsize
  cases h with
  | command hcbw => exact absurd (hstage.symm.trans hcbw) (by simp)
  | write _ hop hout =>
      have hop' : r.cbw.isWrite := by
        rw [← hr]
        exact hop
      obtain ⟨hbounded, hend, hkept⟩ :=
        hinv'.memoryWrite hb hstage' hop' hlen'
      have hout' : WriteOutcome r d' := by
        rw [← hr]
        exact hout
      cases hout' with
      | ragged => exact hinv'
      | more _ _ hleft _ =>
          exact {
            capacity := hinv'.capacity
            bounded := hbounded
            reading := fun hin => absurd (hkept.symm.trans hin) (by simp)
            writing := fun _ _ => hend
            verifying := fun _ hnot => absurd hop' hnot
            pending := fun _ => Nat.pos_of_ne_zero hleft
            merging := fun hne => absurd hmerge' hne
            command := fun hcmd => absurd (hfree.symm.trans hcmd) (by simp)
            request := fun i first size hpage => absurd (hfree.symm.trans hpage) (by simp) }
      | last =>
          exact .of_idle hinv'.capacity hbounded.finished (by simp [Device.finished]) hmerge'
            fun i first size hpage => absurd (hfree.symm.trans hpage) (by simp)
  | verify =>
      exact .of_idle hinv.capacity (hinv.bounded.other (by simp) (by simp))
        (by simp [Device.finished]) hmerge (by simp [Device.finished])
  | ignored =>
      rw [← hr] at hinv'
      exact hinv'
  | misplaced _ hnot => exact absurd hstage hnot

theorem InNakOutcome.capacity (h : InNakOutcome d d') (hinv : CapacityInv b d) :
    CapacityInv b d' := by
  cases h with
  | idle => exact hinv
  | last _ hlength =>
      -- the data phase of a write is not over, so that it is not ended here
      have hstage : d.bulkStage ≠ .dataOut := fun h => by
        have := hinv.pending h
        omega
      have hmerge : d.mergeStage = .none := by
        by_contra hne
        exact hstage (hinv.merging hne).1
      refine .of_idle hinv.capacity (hinv.bounded.other (by simp) (by simp)) (by simp) hmerge
        fun i first size hreq => ?_
      exact absurd (hinv.request i first size hreq).1 hstage
  | inside => exact { hinv with bounded := hinv.bounded.other (by simp) (by simp) }
  | outside => exact { hinv with bounded := hinv.bounded.other (by simp) (by simp) }

theorem InDoneOutcome.capacity (h : InDoneOutcome d d') (hb : WholePages b)
    (hinv : CapacityInv b d) : CapacityInv b d' := by
  have hidle : ∀ {x : Device σ}, d.bulkStage ≠ .dataOut → x.blockCount = d.blockCount →
      Bounded b x.trace → x.bulkStage ≠ .dataOut ∧ x.bulkStage ≠ .dataIn →
      x.mergeStage = d.mergeStage → x.outRequest = d.outRequest → CapacityInv b x := by
    intro x hstage hcap hbounded hnew hmerge hreq
    have hnone : d.mergeStage = .none := by
      by_contra hne
      exact hstage (hinv.merging hne).1
    refine .of_idle (hcap.trans hinv.capacity) hbounded hnew (hmerge.trans hnone)
      fun i first size hpage => ?_
    exact hstage (hinv.request i first size (hreq.symm.trans hpage)).1
  cases h with
  | next hstage _ _ =>
      have hmerge : d.mergeStage = .none := by
        by_contra hne
        exact absurd (hstage.symm.trans (hinv.merging hne).1) (by simp)
      have hfree : d.outRequest = none := by
        cases hreq : d.outRequest with
        | none => rfl
        | some r =>
            cases r with
            | cbw => exact absurd hstage (hinv.command hreq).2
            | page i first size =>
                exact absurd (hstage.symm.trans (hinv.request i first size hreq).1) (by simp)
      exact .memoryRead hb hinv.capacity hinv.bounded (hinv.reading hstage) hstage hmerge hfree
  | last hstage =>
      exact hidle (by simp [hstage]) rfl (hinv.bounded.other (by simp) (by simp))
        (by simp [Device.statusSent]) rfl rfl
  | stall hstage =>
      have hkept : Bounded b (.stall :: d.trace) := hinv.bounded.other (by simp) (by simp)
      exact hidle (by simp [hstage]) rfl (hkept.other (by simp) (by simp))
        (by simp [Device.statusSent]) rfl rfl
  | status hstage => exact hidle (by simp [hstage]) rfl hinv.bounded (by simp) rfl rfl
  | idle => exact hinv

theorem TaskOutcome.capacity (h : TaskOutcome onfm d d') (hinv : CapacityInv b d) :
    CapacityInv b d' := by
  cases h with
  | idle => exact hinv
  | @write p =>
      cases p with
      | page i => exact { hinv with bounded := hinv.bounded.other (by simp) (by simp) }
      | readBulk => exact { hinv with bounded := hinv.bounded.other (by simp) (by simp) }
  | @read p =>
      cases p with
      | page i => exact { hinv with bounded := hinv.bounded.other (by simp) (by simp) }
      | readBulk => exact { hinv with bounded := hinv.bounded.other (by simp) (by simp) }
  | skip => exact { hinv with }
  | @merge p data below _ _ hstart _ _ =>
      have hkeep := hinv.merging (by rw [hstart]; simp)
      have hpage : ∀ i first size, d.outRequest ≠ some (.page i first size) := by
        intro i first size hreq
        exact absurd ((hinv.request i first size hreq).2.1.symm.trans hstart) (by simp)
      cases p with
      | page i =>
          exact { hinv with
            bounded := hinv.bounded.other (by simp) (by simp)
            merging := fun _ => hkeep
            request := fun i first size hreq => absurd hreq (hpage i first size) }
      | readBulk =>
          exact { hinv with
            bounded := hinv.bounded.other (by simp) (by simp)
            merging := fun _ => hkeep
            request := fun i first size hreq => absurd hreq (hpage i first size) }

/-- Every event keeps the bound while the host asks for what is on the device. -/
theorem StepOutcome.capacity (h : StepOutcome onfm d e d') (hb : WholePages b)
    (hinv : CapacityInv b d) (he : e.InCapacity b) : CapacityInv b d' := by
  cases h with
  | outNak hfree hout => exact hout.capacity hb hinv hfree
  | command hreq _ hout => exact hout.capacity_command hb hinv hreq (he _ _ rfl)
  | data hreq hlen hout => exact hout.capacity_data hb hinv hreq hlen
  | inNak hout => exact hout.capacity hinv
  | inDone _ hout => exact hout.capacity hb { hinv with }
  | task hout => exact hout.capacity hinv
  | free => exact { hinv with }

theorem capacityInv_init {below : σ} {pool : Fin 4 → Buffer} :
    CapacityInv b (.init below b pool) :=
  .of_idle rfl ⟨by simp [Device.init], by simp [Device.init]⟩ (by simp [Device.init]) rfl
    (by simp [Device.init])

theorem capacityInv_run {below : σ} {pool : Fin 4 → Buffer} {es : List Event}
    (hb : WholePages b) (hrun : Run onfm (.init below b pool) es d)
    (hes : ∀ e ∈ es, e.InCapacity b) : CapacityInv b d :=
  hrun.keeps (P := CapacityInv b) hes (fun hinv he hout => hout.capacity hb hinv he)
    capacityInv_init

end

/-! ## The device -/

section

variable [Platform]

theorem ftlCapacity_bounds : 0 < ftlCapacity ∧ ftlCapacity ≤ 126000 := by
  have hge := Platform.ubiCapacity_ge
  have hle := Platform.ubiCapacity_le
  simp only [ftlCapacity, pagePerPhyBlock, overProvisionRate, journalBlockCount, pmtBlockCount]
  omega

theorem onfmCapacity_wholePages : WholePages onfmCapacity := by
  have hbounds := ftlCapacity_bounds
  refine ⟨?_, ?_⟩
  · exact Nat.mul_mod_left _ _
  · simp only [onfmCapacity, sectorPerMpp]
    omega

/-- The page of the translation layer that holds a sector. -/
def pageOfSector (x : Nat) : Nat := x / sectorPerMpp

theorem pageOfSector_lt {x : Nat} (h : x < onfmCapacity) : pageOfSector x < ftlCapacity := by
  simp only [onfmCapacity, pageOfSector, sectorPerMpp] at *
  omega

/-- In every run whose commands start and end on the device, every logged
transaction is on the device, no subtraction wraps, and no page of the
translation layer at its capacity or past it is touched. -/
theorem transactions_in_capacity {σ : Type} {onfm : Onfm σ} {below : σ}
    {pool : Fin 4 → Buffer} {es : List Event} {d : Device σ}
    (hrun : Run onfm (.init below onfmCapacity pool) es d)
    (hes : ∀ e ∈ es, e.InCapacity onfmCapacity) :
    Bounded onfmCapacity d.trace ∧
      ∀ t, .push t ∈ d.trace → ∀ x, t.offset ≤ x → x < t.offset + t.length →
        pageOfSector x < ftlCapacity := by
  have hbounded := (capacityInv_run onfmCapacity_wholePages hrun hes).bounded
  exact ⟨hbounded, fun t ht x hlow hhigh =>
    pageOfSector_lt (hbounded.push t ht x hlow hhigh)⟩

end

/-! ### A read behind the last sector -/

attribute [local instance] k9wag08

/-- A read of one sector at address `lba`, which has four bytes. -/
def readCbw (lba : Nat) : Cbw where
  dSignature := mscCbwSignature
  dTag := 1
  dDataLength := 512
  bmFlags := 0x80
  bLUN := 0
  bCBLength := 10
  cb := fun i =>
    if i = 0 then scsiRead10
    else if i = 2 then BitVec.ofNat 8 (lba / 16777216)
    else if i = 3 then BitVec.ofNat 8 (lba / 65536)
    else if i = 4 then BitVec.ofNat 8 (lba / 256)
    else if i = 5 then BitVec.ofNat 8 lba
    else if i = 8 then 1 else 0

/-- The device with a wrapper for a read received. -/
theorem exists_read_run (lba : Nat) (hstarts : (readCbw lba).StartsRead) :
    ∃ d : Device Unit, Run Onfm.idle (.init () onfmCapacity fun _ => .zeros)
        [.outDone (.cbw (readCbw lba) 31), .outNak] d ∧
      .push ({ (Device.init () onfmCapacity fun _ => .zeros : Device Unit) with
        cbw := readCbw lba
        offset := (readCbw lba).lba
        length := (readCbw lba).blocks } : Device Unit).readTransaction ∈ d.trace := by
  generalize hstart : ({ Device.init () onfmCapacity fun _ => .zeros with
    outRequest := some .cbw } : Device Unit) = d
  generalize hreceived : ({ d with
    cbw := readCbw lba
    outRequest := none
    bulkLen := 31 } : Device Unit) = r
  have hready : Run Onfm.idle (.init () onfmCapacity fun _ => .zeros) [.outNak] d := by
    rw [← hstart]
    exact .one (.outNak rfl rfl)
  have hvalid : r.cbw.Valid r.bulkLen := by
    rw [← hreceived]
    exact ⟨rfl, rfl⟩
  have hstarts' : r.cbw.StartsRead := by
    rw [← hreceived]
    exact hstarts
  have hroom : r.Room := by
    rw [← hreceived, ← hstart]
    intro t
    simp [Device.init, RingBuffer.log]
  have hcommand : Step Onfm.idle d (.outDone (.cbw (readCbw lba) 31))
      ({ r.accepted.addressed with bulkStage := .dataIn } : Device Unit).memoryRead := by
    refine step_command (by rw [← hstart]) (by rw [← hstart]; rfl) ?_
    rw [hreceived]
    exact mscGetCbw_read hvalid hstarts' hroom
  refine ⟨_, .step hready hcommand, ?_⟩
  · rw [← hreceived, ← hstart]
    exact List.mem_cons_of_mem _ List.mem_cons_self

/-- A read of the second sector behind the device is logged with its address, and
the clip wraps. -/
theorem read_past_capacity :
    ∃ (es : List Event) (d : Device Unit) (t : Transaction),
      Run Onfm.idle (.init () onfmCapacity fun _ => .zeros) es d ∧ .push t ∈ d.trace ∧
        t.offset = onfmCapacity + 1 ∧ t.length = 4294967295 ∧ ¬ t.Below onfmCapacity := by
  have hstarts : (readCbw (onfmCapacity + 1)).StartsRead := by
    unfold Cbw.StartsRead
    decide +kernel
  obtain ⟨d, hrun, hpush⟩ := exists_read_run _ hstarts
  refine ⟨_, d, _, hrun, hpush, by decide +kernel, by decide +kernel, fun hbelow => ?_⟩
  have hlt := hbelow (onfmCapacity + 1) (by decide +kernel) (by decide +kernel)
  omega

/-- A read of the last sector keeps the bound. -/
theorem read_last_sector_in_capacity :
    ∃ d : Device Unit, Bounded onfmCapacity d.trace ∧
      ∃ t, .push t ∈ d.trace ∧ t.offset + 1 = onfmCapacity := by
  have hstarts : (readCbw (onfmCapacity - 1)).StartsRead := by
    unfold Cbw.StartsRead
    decide +kernel
  obtain ⟨d, hrun, hpush⟩ := exists_read_run _ hstarts
  have hes : ∀ e ∈ [Event.outDone (.cbw (readCbw (onfmCapacity - 1)) 31), .outNak],
      e.InCapacity onfmCapacity := by
    have hin : (readCbw (onfmCapacity - 1)).InCapacity onfmCapacity :=
      ⟨fun _ => by decide +kernel, fun hwrite => absurd hwrite hstarts.not_startsWrite⟩
    intro e he c len heq _
    rw [heq] at he
    simp only [List.mem_cons, Event.outDone.injEq, Packet.cbw.injEq, reduceCtorEq,
      List.not_mem_nil, or_false] at he
    rw [he.1]
    exact hin
  exact ⟨d, (transactions_in_capacity hrun hes).1, _, hpush, by decide +kernel⟩

end RansomTag

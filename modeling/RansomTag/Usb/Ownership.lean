import RansomTag.Usb.PageBuffers

/-!
# Owners of the page buffers

A page buffer goes from the pool to the OUT transfer, the queue, the die and
back to the pool.  It is lost where the data of a transfer become no write and
where a write does not get its page to the die.
-/

namespace RansomTag

open Program Leases

variable {σ : Type}

/-! ## Calls of UBI -/

namespace PoolDevice

/-- The die gives its page back. -/
def released (p : PoolDevice σ) : PoolDevice σ :=
  match p.dieHold with
  | some i => { p with
      device := p.device.freed i
      dieHold := none }
  | none => p

/-- The page of the die is in use. -/
def HoldLive (p : PoolDevice σ) : Prop :=
  ∀ i, p.dieHold = some i → p.device.poolUsed i = true

/-- What calls of `UBI_Write` without a page leave. -/
inductive DieFlushed (p : PoolDevice σ) : PoolDevice σ → Prop where
  | kept : DieFlushed p p
  | released : DieFlushed p p.released

variable {p p' p'' : PoolDevice σ} {Q : Unit → PoolDevice σ → Prop} {E : Halt → Prop}

theorem released_of_none (h : p.dieHold = none) : p.released = p := by
  unfold released
  rw [h]

theorem released_dieHold : p.released.dieHold = none := by
  unfold released
  cases h : p.dieHold with
  | none => exact h
  | some i => rfl

theorem DieFlushed.trans (h : DieFlushed p p') (h' : DieFlushed p' p'') : DieFlushed p p'' := by
  cases h with
  | kept => exact h'
  | released =>
      cases h' with
      | kept => exact .released
      | released =>
          rw [released_of_none released_dieHold]
          exact .released

theorem DieFlushed.holdLive (h : DieFlushed p p') (hlive : p.HoldLive) : p'.HoldLive := by
  cases h with
  | kept => exact hlive
  | released =>
      intro i hi
      rw [released_dieHold] at hi
      exact absurd hi (by simp)

theorem wp_releaseDie (hlive : p.HoldLive) (hQ : Q () p.released) :
    wp releaseDie Q E p := by
  unfold releaseDie
  rw [wp_bind, wp_get]
  cases hhold : p.dieHold with
  | none =>
      rw [released_of_none hhold] at hQ
      exact hQ
  | some i =>
      have hused := hlive i hhold
      have hstate : p.released = { p with
          device := p.device.freed i
          dieHold := none } := by
        unfold released
        rw [hhold]
      rw [hstate] at hQ
      dsimp only
      unfold bufFree
      rw [wp_bind, wp_bind, wp_get, if_pos hused, wp_modify]
      exact hQ

theorem wp_ubiWritePage_none {answer : MediaAnswer} (hlive : p.HoldLive)
    (hQ : ∀ p', DieFlushed p p' → Q () p') : wp (ubiWritePage none answer) Q E p := by
  unfold ubiWritePage
  by_cases hready : answer.ready = true
  · rw [if_pos hready, wp_bind]
    apply wp_releaseDie hlive
    by_cases hprog : answer.programmed = true
    · rw [if_pos hprog]
      exact hQ _ .released
    · rw [if_neg hprog]
      exact hQ _ .released
  · rw [if_neg hready]
    exact hQ _ .kept

theorem wp_flushes {answers : List MediaAnswer} (hlive : p.HoldLive)
    (hQ : ∀ p', DieFlushed p p' → Q () p') : wp (answers.forM (ubiWritePage none)) Q E p := by
  induction answers generalizing p with
  | nil => exact hQ _ .kept
  | cons answer rest ih =>
      change wp (ubiWritePage none answer >>= fun _ => rest.forM (ubiWritePage none)) Q E p
      rw [wp_bind]
      apply wp_ubiWritePage_none hlive
      intro p' hfirst
      exact ih (hfirst.holdLive hlive) fun p'' hrest => hQ _ (hfirst.trans hrest)

end PoolDevice

open PoolDevice (released DieFlushed released_of_none released_dieHold wp_flushes wp_releaseDie
  wp_ubiWritePage_none)

/-- `DATA_Write` got the page of its caller to the die. -/
def UbiCalls.Hands (calls : UbiCalls) : Prop :=
  ∃ answer, calls.data = some answer ∧ answer.ready = true ∧ answer.programmed = true

/-- What the calls of `UBI_Write` on the page `buffer` leave. -/
inductive Called (buffer : Option (Fin 4)) (calls : UbiCalls) (p : PoolDevice σ) :
    PoolDevice σ → Prop where
  | flushed {p' : PoolDevice σ} : buffer = none ∨ ¬ calls.Hands → DieFlushed p p' →
      Called buffer calls p p'
  | held {p' : PoolDevice σ} {i : Fin 4} : buffer = some i → calls.Hands →
      DieFlushed { p.released with dieHold := some i } p' → Called buffer calls p p'

section

variable {p p' : PoolDevice σ} {buffer : Option (Fin 4)} {calls : UbiCalls} {i : Fin 4}
  {Q : Unit → PoolDevice σ → Prop} {E : Halt → Prop}

theorem PoolDevice.DieFlushed.released_eq (h : DieFlushed p p') : p'.released = p.released := by
  cases h with
  | kept => rfl
  | released => exact released_of_none released_dieHold

theorem released_used (hused : p.device.poolUsed i = true) (hne : p.dieHold ≠ some i) :
    p.released.device.poolUsed i = true := by
  unfold PoolDevice.released
  cases hhold : p.dieHold with
  | none => exact hused
  | some j =>
      have hji : i ≠ j := fun h => hne (h ▸ hhold)
      change Function.update p.device.poolUsed j false i = true
      rw [Function.update_of_ne hji]
      exact hused

theorem wp_runUbiCalls (hlive : p.HoldLive)
    (hpage : ∀ i, buffer = some i → calls.data ≠ none →
      p.device.poolUsed i = true ∧ p.dieHold ≠ some i)
    (hQ : ∀ p', Called buffer calls p p' → Q () p') :
    wp (runUbiCalls buffer calls) Q E p := by
  unfold runUbiCalls
  rw [wp_bind]
  apply wp_flushes hlive
  intro p₁ hbefore
  have hlive₁ := hbefore.holdLive hlive
  -- the page is not handed on: the rest only flushes
  have hrest : (buffer = none ∨ ¬ calls.Hands) → ∀ p₂, DieFlushed p₁ p₂ →
      wp (calls.after.forM (ubiWritePage none)) Q E p₂ := by
    intro hnot p₂ hdata
    exact wp_flushes (hdata.holdLive hlive₁) fun p' hafter =>
      hQ _ (.flushed hnot ((hbefore.trans hdata).trans hafter))
  cases hdata : calls.data with
  | none =>
      have hnot : ¬ calls.Hands := by
        rintro ⟨answer, hsome, _⟩
        rw [hdata] at hsome
        exact absurd hsome (by simp)
      exact hrest (.inr hnot) p₁ .kept
  | some answer =>
      dsimp only
      rw [wp_bind]
      cases hbuffer : buffer with
      | none =>
          apply wp_ubiWritePage_none hlive₁
          intro p₂ hflush
          exact hrest (.inl hbuffer) p₂ hflush
      | some i =>
          obtain ⟨hused, hne⟩ := hpage i hbuffer (by simp [hdata])
          unfold ubiWritePage
          by_cases hready : answer.ready = true
          · rw [if_pos hready, wp_bind]
            apply wp_releaseDie hlive₁
            by_cases hprog : answer.programmed = true
            · rw [if_pos hprog, wp_modify, hbefore.released_eq]
              have hhands : calls.Hands := ⟨answer, hdata, hready, hprog⟩
              apply wp_flushes
              · intro j hj
                obtain rfl := Option.some.inj hj
                exact released_used hused hne
              · intro p' hafter
                exact hQ _ (.held hbuffer hhands hafter)
            · have hnot : ¬ calls.Hands := by
                rintro ⟨other, hsome, _, hother⟩
                obtain rfl := Option.some.inj (hdata.symm.trans hsome)
                exact hprog hother
              rw [if_neg hprog]
              exact hrest (.inr hnot) _ .released
          · have hnot : ¬ calls.Hands := by
              rintro ⟨other, hsome, hother, _⟩
              obtain rfl := Option.some.inj (hdata.symm.trans hsome)
              exact hready hother
            rw [if_neg hready]
            exact hrest (.inr hnot) _ .kept

/-! ## Accounts -/

/-- The page of the die stands at the end of the owners. -/
theorem owners_held (h : p.dieHold = some i) :
    p.owners.Perm (i :: p.released.owners) := by
  have hreleased : p.released = { p with
      device := p.device.freed i
      dieHold := none } := by
    unfold PoolDevice.released
    rw [h]
  rw [hreleased]
  unfold PoolDevice.owners
  rw [h]
  simp only [Option.toList_some, Option.toList_none, List.append_nil]
  exact List.perm_append_singleton i _

/-- A flush keeps the accounts, also when more owners are about. -/
theorem PoolDevice.DieFlushed.accounted (extra : List (Fin 4)) (h : DieFlushed p p')
    (hacc : Accounted p.device.poolUsed (extra ++ p.owners)) :
    Accounted p'.device.poolUsed (extra ++ p'.owners) := by
  cases h with
  | kept => exact hacc
  | released =>
      cases hhold : p.dieHold with
      | none =>
          rw [released_of_none hhold]
          exact hacc
      | some i =>
          have hperm : (extra ++ p.owners).Perm (i :: (extra ++ p.released.owners)) :=
            ((owners_held hhold).append_left extra).trans List.perm_middle
          have hfree := (hacc.perm hperm).release
          have hused : p.released.device.poolUsed = Function.update p.device.poolUsed i false := by
            unfold PoolDevice.released
            rw [hhold]
            rfl
          rw [hused]
          exact hfree

/-- A page goes to the die. -/
theorem owners_hold (h : p.dieHold = none) :
    (i :: p.owners).Perm ({ p with dieHold := some i } : PoolDevice σ).owners := by
  unfold PoolDevice.owners
  rw [h]
  simp only [Option.toList_some, Option.toList_none, List.append_nil]
  exact (List.perm_append_singleton i _).symm

/-- The accounts after the calls on a page that the queue no longer has. -/
theorem Called.accounted_iff (h : Called (some i) calls p p')
    (hacc : Accounted p.device.poolUsed (i :: p.owners)) :
    Accounted p'.device.poolUsed p'.owners ↔ calls.Hands := by
  cases h with
  | flushed hnot hflush =>
      have hrest : Accounted p'.device.poolUsed (i :: p'.owners) :=
        hflush.accounted [i] hacc
      have hno : ¬ calls.Hands := hnot.resolve_left (by simp)
      constructor
      · intro hall
        exact absurd hall hrest.not_forgotten
      · intro hhands
        exact absurd hhands hno
  | held hi hhands hflush =>
      obtain rfl := Option.some.inj hi
      have hreleased : Accounted p.released.device.poolUsed (i :: p.released.owners) :=
        DieFlushed.released.accounted [i] hacc
      have hheld := hreleased.perm (owners_hold released_dieHold)
      have hdone : Accounted p'.device.poolUsed p'.owners :=
        hflush.accounted [] hheld
      exact iff_of_true hdone hhands

theorem Called.accounted (h : Called buffer calls p p') (hno : buffer = none ∨ ¬ calls.Hands)
    (hacc : Accounted p.device.poolUsed p.owners) : Accounted p'.device.poolUsed p'.owners := by
  cases h with
  | flushed _ hflush => exact hflush.accounted [] hacc
  | held hi hhands =>
      rcases hno with hnone | hnot
      · exact absurd (hnone.symm.trans hi) (by simp)
      · exact absurd hhands hnot

end

/-! ## The link between the request and the page -/

/-- What every handler keeps about the page of the OUT transfer and about the
queued writes. -/
structure PageLink (d : Device σ) : Prop where
  ring : d.utList.Ok utListSize
  request : ∀ i first size, d.outRequest = some (.page i first size) →
    d.bulkBuf = some i ∧ d.mergeStage = .none
  command : d.outRequest = some .cbw → d.bulkStage ≠ .dataOut
  whole : ∀ t ∈ d.pending, t.type = .write →
    WholePage t.offset t.length ∧ ∃ i, t.buffer = some (.page i)

/-- A handler that leaves the page buffers where they are: at most it logs an
entry that is no write. -/
structure Device.Passes (d d' : Device σ) : Prop where
  used : d'.poolUsed = d.poolUsed
  handed : d'.handed = d.handed
  bulkBuf : d'.bulkBuf = d.bulkBuf
  merge : d'.mergeStage = d.mergeStage
  request : d'.outRequest = d.outRequest
  queue : d'.utList = d.utList ∨
    ∃ t, t.type ≠ .write ∧ d.Room ∧ d'.utList = d.utList.log utListSize t

section

variable {d d' : Device σ} {t : Transaction} {i : Fin 4}

theorem Transaction.writePage_none (h : t.type ≠ .write) : t.writePage = none := by
  unfold Transaction.writePage
  split
  · next htype _ => exact absurd htype h
  · rfl

theorem Device.pending_congr (h : d'.utList = d.utList) : d'.pending = d.pending :=
  congrArg (RingBuffer.toList utListSize) h

theorem Device.Passes.pending_mem (h : d.Passes d') (hok : d.utList.Ok utListSize)
    (hmem : t ∈ d'.pending) : t ∈ d.pending ∨ t.type ≠ .write := by
  rcases h.queue with heq | ⟨u, hu, hroom, hlist⟩
  · rw [Device.pending_congr heq] at hmem
    exact .inl hmem
  · rw [pending_log hlist hok hroom] at hmem
    rcases List.mem_append.mp hmem with hold | hnew
    · exact .inl hold
    · rw [List.mem_singleton.mp hnew]
      exact .inr hu

theorem Device.Passes.queuedPages (h : d.Passes d') (hok : d.utList.Ok utListSize) :
    d'.queuedPages = d.queuedPages := by
  unfold Device.queuedPages
  rcases h.queue with heq | ⟨u, hu, hroom, hlist⟩
  · rw [Device.pending_congr heq]
  · rw [pending_log hlist hok hroom, List.filterMap_append]
    simp [Transaction.writePage_none hu]

theorem Device.Passes.bulkPage (h : d.Passes d') : d'.bulkPage = d.bulkPage := by
  unfold Device.bulkPage
  rw [h.request, h.merge, h.bulkBuf]

theorem PageLink.passes (hlink : PageLink d) (h : d.Passes d')
    (hstage : d.outRequest = some .cbw → d'.bulkStage ≠ .dataOut) : PageLink d' := by
  refine ⟨?_, fun i first size hreq => ?_, fun hreq => ?_, fun t hmem htype => ?_⟩
  · rcases h.queue with heq | ⟨u, _, _, hlist⟩
    · rw [heq]
      exact hlink.ring
    · rw [hlist]
      exact hlink.ring.log u
  · rw [h.request] at hreq
    rw [h.bulkBuf, h.merge]
    exact hlink.request i first size hreq
  · rw [h.request] at hreq
    exact hstage hreq
  · rcases h.pending_mem hlink.ring hmem with hold | hno
    · exact hlink.whole t hold htype
    · exact absurd htype hno

theorem PoolDevice.DieFlushed.link {p p' : PoolDevice σ} (h : DieFlushed p p')
    (hlink : PageLink p.device) : PageLink p'.device := by
  cases h with
  | kept => exact hlink
  | released =>
      unfold PoolDevice.released
      cases p.dieHold with
      | none => exact hlink
      | some i => exact ⟨hlink.ring, hlink.request, hlink.command, hlink.whole⟩

theorem Called.link {p p' : PoolDevice σ} {buffer : Option (Fin 4)} {calls : UbiCalls}
    (h : Called buffer calls p p') (hlink : PageLink p.device) : PageLink p'.device := by
  cases h with
  | flushed _ hflush => exact hflush.link hlink
  | held _ _ hflush =>
      have hreleased := PoolDevice.DieFlushed.released.link hlink
      exact hflush.link hreleased

theorem Device.passes_memoryRead (hroom : d.Room) : d.Passes d.memoryRead :=
  ⟨rfl, rfl, rfl, rfl, rfl,
    .inr ⟨d.readTransaction, by simp [Device.readTransaction], hroom, rfl⟩⟩

theorem Refusal.passes (h : Refusal d d') : d.Passes d' := by
  induction h with
  | plain => exact ⟨rfl, rfl, rfl, rfl, rfl, .inl rfl⟩
  | addressed => exact ⟨rfl, rfl, rfl, rfl, rfl, .inl rfl⟩
  | stall _ ih => exact ⟨ih.used, ih.handed, ih.bulkBuf, ih.merge, ih.request, ih.queue⟩

theorem CommandOutcome.passes (h : CommandOutcome d d') : d.Passes d' := by
  cases h with
  | invalid => exact ⟨rfl, rfl, rfl, rfl, rfl, .inl rfl⟩
  | refused _ _ _ hrefusal =>
      have hpass := hrefusal.passes
      exact ⟨hpass.used, hpass.handed, hpass.bulkBuf, hpass.merge, hpass.request, hpass.queue⟩
  | answered => exact ⟨rfl, rfl, rfl, rfl, rfl, .inl rfl⟩
  | read _ _ hroom =>
      have hset : Device.Room { d.accepted.addressed with bulkStage := .dataIn } := hroom
      have hpass := Device.passes_memoryRead hset
      exact ⟨hpass.used, hpass.handed, hpass.bulkBuf, hpass.merge, hpass.request, hpass.queue⟩
  | write => exact ⟨rfl, rfl, rfl, rfl, rfl, .inl rfl⟩

theorem InNakOutcome.passes (h : InNakOutcome d d') : d.Passes d' := by
  cases h <;> exact ⟨rfl, rfl, rfl, rfl, rfl, .inl rfl⟩

theorem InDoneOutcome.passes (h : InDoneOutcome d d') : d.Passes d' := by
  cases h with
  | next _ _ hroom => exact Device.passes_memoryRead hroom
  | last | stall | status | idle => exact ⟨rfl, rfl, rfl, rfl, rfl, .inl rfl⟩

theorem InNakOutcome.stage (h : InNakOutcome d d') (hstage : d.bulkStage ≠ .dataOut) :
    d'.bulkStage ≠ .dataOut := by
  cases h with
  | last => exact fun h => absurd h (by simp)
  | idle | inside | outside => exact hstage

theorem InDoneOutcome.stage (h : InDoneOutcome d d') (hstage : d.bulkStage ≠ .dataOut) :
    d'.bulkStage ≠ .dataOut := by
  cases h with
  | next =>
      unfold Device.memoryRead
      dsimp only
      split
      · simp
      · exact hstage
  | last | stall | status => exact fun h => absurd h (by simp [Device.statusSent])
  | idle => exact hstage

/-- The write that a transfer logs is a whole page with the page of the
transfer. -/
theorem Device.writeTransaction_page (h : d.bulkBuf = some i) :
    d.writeTransaction.writePage = some i := by
  unfold Device.writeTransaction Transaction.writePage
  rw [h]
  rfl

theorem Device.writeTransaction_whole :
    WholePage d.writeTransaction.offset d.writeTransaction.length := by
  refine ⟨?_, rfl⟩
  unfold Device.writeTransaction
  exact Nat.mul_mod_left _ _

/-- A packet of data that becomes a write leaves the page in the queue. -/
theorem WriteOutcome.page (h : WriteOutcome d d') (hok : d.utList.Ok utListSize)
    (hbuf : d.bulkBuf = some i) (hlen : d.bulkLen % mscBlockSize = 0) :
    d'.queuedPages = d.queuedPages ++ [i] := by
  have hlogged : d.Room → ∀ {u : Device σ}, u.utList = d.memoryWrite.utList →
      u.queuedPages = d.queuedPages ++ [i] := by
    intro hroom u hu
    unfold Device.queuedPages
    rw [pending_log (hu.trans rfl) hok hroom, List.filterMap_append]
    congr 1
    simp [Device.writeTransaction_page hbuf]
  cases h with
  | ragged hragged => exact absurd hlen hragged
  | more _ hroom => exact hlogged hroom rfl
  | last _ hroom => exact hlogged hroom rfl

/-- What an outcome leaves besides the queue. -/
theorem WriteOutcome.rest (h : WriteOutcome d d') :
    d'.poolUsed = d.poolUsed ∧ d'.handed = d.handed ∧ d'.outRequest = d.outRequest ∧
      d'.mergeStage = d.mergeStage := by
  cases h <;> exact ⟨rfl, rfl, rfl, rfl⟩

theorem WriteOutcome.link (h : WriteOutcome d d') (hlink : PageLink d)
    (hfree : d.outRequest = none) (hbuf : d.bulkBuf = some i) : PageLink d' := by
  have hlogged : d.Room → ∀ {u : Device σ}, u.utList = d.memoryWrite.utList →
      u.outRequest = none → PageLink u := by
    intro hroom u hu hnone
    refine ⟨?_, fun j first size hreq => ?_, fun hreq => ?_, fun t hmem htype => ?_⟩
    · rw [hu]
      exact hlink.ring.log _
    · exact absurd (hnone.symm.trans hreq) (by simp)
    · exact absurd (hnone.symm.trans hreq) (by simp)
    · rw [pending_log (hu.trans rfl) hlink.ring hroom] at hmem
      rcases List.mem_append.mp hmem with hold | hnew
      · exact hlink.whole t hold htype
      · rw [List.mem_singleton.mp hnew]
        refine ⟨Device.writeTransaction_whole, i, ?_⟩
        unfold Device.writeTransaction
        rw [hbuf]
        rfl
  cases h with
  | ragged => exact hlink
  | more _ hroom => exact hlogged hroom rfl hfree
  | last _ hroom => exact hlogged hroom rfl hfree

/-- The data of the transfer become a write. -/
def Device.WritesData (d : Device σ) (received : Nat) : Prop :=
  d.bulkStage = .dataOut ∧ d.cbw.isWrite ∧ received % mscBlockSize = 0

theorem OutDoneOutcome.passes {received : Nat} (h : OutDoneOutcome d received d')
    (hno : ¬ d.WritesData received) : d.Passes d' := by
  cases h with
  | command _ hcommand =>
      have hpass := hcommand.passes
      exact ⟨hpass.used, hpass.handed, hpass.bulkBuf, hpass.merge, hpass.request, hpass.queue⟩
  | write hstage hop hwrite =>
      cases hwrite with
      | ragged => exact ⟨rfl, rfl, rfl, rfl, rfl, .inl rfl⟩
      | more hlen => exact absurd ⟨hstage, hop, hlen⟩ hno
      | last hlen => exact absurd ⟨hstage, hop, hlen⟩ hno
  | verify | ignored | misplaced => exact ⟨rfl, rfl, rfl, rfl, rfl, .inl rfl⟩

theorem OutDoneOutcome.write_of {received : Nat} (h : OutDoneOutcome d received d')
    (hwrites : d.WritesData received) : WriteOutcome { d with bulkLen := received } d' := by
  obtain ⟨hstage, hop, _⟩ := hwrites
  cases h with
  | command hcbw => exact absurd (hcbw.symm.trans hstage) (by simp)
  | write _ _ hwrite => exact hwrite
  | verify _ hverify => exact absurd hverify hop.ne_verify
  | ignored hother =>
      rcases hother with hcsw | ⟨_, hno, _⟩
      · exact absurd (hcsw.symm.trans hstage) (by simp)
      · exact absurd hop hno
  | misplaced _ hno => exact absurd hstage hno

theorem OutDoneOutcome.link {received : Nat} (h : OutDoneOutcome d received d')
    (hlink : PageLink d) (hfree : d.outRequest = none)
    (hbuf : d.bulkStage = .dataOut → ∃ i, d.bulkBuf = some i) : PageLink d' := by
  by_cases hwrites : d.WritesData received
  · obtain ⟨i, hi⟩ := hbuf hwrites.1
    have hset : PageLink { d with bulkLen := received } :=
      ⟨hlink.ring, hlink.request, hlink.command, hlink.whole⟩
    exact (h.write_of hwrites).link hset hfree hi
  · exact hlink.passes (h.passes hwrites) fun hreq => absurd (hfree.symm.trans hreq) (by simp)

/-- The transfer is over: the request is gone. -/
theorem PageLink.answered (hlink : PageLink d) (pool : Fin 4 → Buffer) (c : Cbw) :
    PageLink { d with
      pool := pool
      cbw := c
      outRequest := none } :=
  ⟨hlink.ring, fun _ _ _ h => absurd h (by simp), fun h => absurd h (by simp), hlink.whole⟩

theorem OutNakOutcome.link (h : OutNakOutcome d d') (hlink : PageLink d)
    (hfree : d.outRequest = none) : PageLink d' := by
  have hcommand : d.outRequest ≠ some .cbw := by rw [hfree]; simp
  have hpage : ∀ {i first size}, d.outRequest ≠ some (.page i first size) := by
    intro i first size
    rw [hfree]
    simp
  cases h with
  | waiting | idle => exact hlink
  | starved =>
      exact ⟨hlink.ring, fun _ _ _ hreq => absurd hreq hpage, fun hreq => absurd hreq hcommand,
        hlink.whole⟩
  | merged _ _ hbuf =>
      refine ⟨hlink.ring, fun j first size hreq => ?_, fun hreq => absurd hreq (by simp),
        hlink.whole⟩
      obtain ⟨rfl, _, _⟩ := OutRequest.page.inj (Option.some.inj hreq)
      exact ⟨hbuf, rfl⟩
  | @merge i _ _ _ _ hroom =>
      refine ⟨hlink.ring.log _, fun _ _ _ hreq => absurd hreq hpage,
        fun hreq => absurd hreq hcommand, fun t hmem htype => ?_⟩
      rw [pending_log (d := d) rfl hlink.ring hroom] at hmem
      rcases List.mem_append.mp hmem with hold | hnew
      · exact hlink.whole t hold htype
      · rw [List.mem_singleton.mp hnew] at htype
        exact absurd htype (by simp [Device.mergeTransaction])
  | whole _ hmerge =>
      refine ⟨hlink.ring, fun j first size hreq => ?_, fun hreq => absurd hreq (by simp),
        hlink.whole⟩
      obtain ⟨rfl, _, _⟩ := OutRequest.page.inj (Option.some.inj hreq)
      exact ⟨rfl, hmerge⟩
  | command hstage =>
      exact ⟨hlink.ring, fun _ _ _ hreq => absurd hreq (by simp),
        fun _ => by simp [hstage], hlink.whole⟩

/-- The task drops an entry. -/
theorem PageLink.dropped {u : Device σ} (hlink : PageLink d)
    (hne : d.utList.pop ≠ d.utList.push) (hlist : u.utList = d.utList.drop utListSize)
    (hreq : u.outRequest = d.outRequest) (hbuf : u.bulkBuf = d.bulkBuf)
    (hmerge : d.mergeStage = .none → u.mergeStage = .none) (hstage : u.bulkStage = d.bulkStage) :
    PageLink u := by
  refine ⟨?_, fun i first size h => ?_, fun h => ?_, fun t hmem htype => ?_⟩
  · rw [hlist]
    exact hlink.ring.drop
  · rw [hreq] at h
    obtain ⟨hi, hnone⟩ := hlink.request i first size h
    exact ⟨hbuf.trans hi, hmerge hnone⟩
  · rw [hreq] at h
    rw [hstage]
    exact hlink.command h
  · have hold : t ∈ d.pending := by
      rw [pending_drop hlist hlink.ring hne]
      exact List.mem_cons_of_mem _ hmem
    exact hlink.whole t hold htype

theorem TaskOutcome.poolUsed {onfm : Onfm σ} (h : TaskOutcome onfm d d') :
    d'.poolUsed = d.poolUsed := by
  cases h with
  | idle | skip => rfl
  | @write q => cases q <;> rfl
  | @read q => cases q <;> rfl
  | @merge q => cases q <;> rfl

theorem TaskOutcome.link {onfm : Onfm σ} (h : TaskOutcome onfm d d') (hlink : PageLink d) :
    PageLink d' := by
  cases h with
  | idle => exact hlink
  | @write q _ hne =>
      cases q <;> exact hlink.dropped hne rfl rfl rfl (fun h => h) rfl
  | @read q _ _ hne =>
      cases q <;> exact hlink.dropped hne rfl rfl rfl (fun h => h) rfl
  | skip hne => exact hlink.dropped hne rfl rfl rfl (fun h => h) rfl
  | @merge q _ _ hne _ hstart =>
      have hno : d.mergeStage ≠ .none := by rw [hstart]; simp
      cases q <;> exact hlink.dropped hne rfl rfl rfl (fun h => absurd h hno) rfl

end

/-! ## The accounts of one event -/

/-- The page that an event has in hand goes on to its next owner: the data of a
transfer become a write, and a write gets its page to the die. -/
def PoolDevice.PassesOn (s : PoolStorage σ) (p : PoolDevice σ) : Event → Prop
  | .outDone (.data _ len) => p.device.WritesData len
  | .task => p.device.utList.pop ≠ p.device.utList.push → p.device.current.type = .write →
      (s.writeCalls p.device.current p.device.onfm).Hands
  | _ => True

section

variable {s : PoolStorage σ} {p p' : PoolDevice σ} {d d' : Device σ} {e : Event} {i : Fin 4}

/-- The accounts read only these fields of the device. -/
theorem accounted_congr (hused : d'.poolUsed = p.device.poolUsed)
    (hbulk : d'.bulkPage = p.device.bulkPage)
    (hqueued : d'.queuedPages = p.device.queuedPages)
    (hacc : Accounted p.device.poolUsed p.owners) :
    Accounted d'.poolUsed ({ p with device := d' } : PoolDevice σ).owners := by
  unfold PoolDevice.owners at hacc ⊢
  dsimp only
  rw [hused, hbulk, hqueued]
  exact hacc

theorem Device.bulkPage_of_no_request
    (hreq : ∀ i first size, d.outRequest ≠ some (.page i first size)) :
    d.bulkPage = if d.mergeStage = .none then none else d.bulkBuf := by
  unfold Device.bulkPage
  split
  · next i first size heq => exact absurd heq (hreq i first size)
  · rfl

theorem Device.bulkPage_none (hreq : ∀ i first size, d.outRequest ≠ some (.page i first size))
    (hmerge : d.mergeStage = .none) : d.bulkPage = none := by
  rw [Device.bulkPage_of_no_request hreq, if_pos hmerge]

theorem Device.bulkPage_merging (hreq : ∀ i first size, d.outRequest ≠ some (.page i first size))
    (hmerge : d.mergeStage ≠ .none) : d.bulkPage = d.bulkBuf := by
  rw [Device.bulkPage_of_no_request hreq, if_neg hmerge]

/-- A page is taken for the next transfer. -/
theorem accounted_take (hused : d'.poolUsed = Function.update p.device.poolUsed i true)
    (halloc : p.device.bufAllocate = some i) (hbulk : p.device.bulkPage = none)
    (hbulk' : d'.bulkPage = some i) (hqueued : d'.queuedPages = p.device.queuedPages)
    (hacc : Accounted p.device.poolUsed p.owners) :
    Accounted d'.poolUsed ({ p with device := d' } : PoolDevice σ).owners := by
  have hfree : p.device.poolUsed i = false := by
    have hfound := List.find?_some halloc
    simpa using hfound
  have htake := hacc.take hfree
  unfold PoolDevice.owners at htake ⊢
  dsimp only
  rw [hused, hbulk', hqueued]
  rw [hbulk] at htake
  exact htake

theorem OutNakOutcome.accounted (h : OutNakOutcome p.device d') (hlink : PageLink p.device)
    (hfree : p.device.outRequest = none) (hacc : Accounted p.device.poolUsed p.owners) :
    Accounted d'.poolUsed ({ p with device := d' } : PoolDevice σ).owners := by
  have hpage : ∀ i first size, p.device.outRequest ≠ some (.page i first size) := by
    intro i first size
    rw [hfree]
    simp
  cases h with
  | waiting | idle => exact hacc
  | starved _ hmerge =>
      have hnone := Device.bulkPage_none hpage hmerge
      refine accounted_congr rfl ?_ rfl hacc
      rw [hnone]
      exact Device.bulkPage_none hpage hmerge
  | @merged i _ hmerge hbuf =>
      have hno : p.device.mergeStage ≠ .none := by rw [hmerge]; simp
      refine accounted_congr rfl ?_ rfl hacc
      rw [Device.bulkPage_merging hpage hno, hbuf]
      rfl
  | @merge i _ hmerge halloc _ hroom =>
      have hmerging : (MergeStage.start : MergeStage) ≠ .none := by simp
      apply accounted_take rfl halloc (Device.bulkPage_none hpage hmerge)
      · exact Device.bulkPage_merging hpage hmerging
      · unfold Device.queuedPages
        rw [pending_log (d := p.device) rfl hlink.ring hroom, List.filterMap_append]
        simp [Transaction.writePage, Device.mergeTransaction]
      · exact hacc
  | whole _ hmerge halloc =>
      exact accounted_take rfl halloc (Device.bulkPage_none hpage hmerge) rfl rfl hacc
  | command =>
      refine accounted_congr rfl ?_ rfl hacc
      rw [Device.bulkPage_of_no_request hpage]
      rfl

/-- Data that come become a write, or their page is lost. -/
theorem OutDoneOutcome.accounted_iff {received : Nat} {pool : Fin 4 → Buffer}
    (h : OutDoneOutcome { p.device with
      pool := pool
      outRequest := none } received d') (hlink : PageLink p.device) {first size : Nat}
    (hreq : p.device.outRequest = some (.page i first size))
    (hacc : Accounted p.device.poolUsed p.owners) :
    Accounted d'.poolUsed ({ p with device := d' } : PoolDevice σ).owners ↔
      p.device.WritesData received := by
  obtain ⟨hbuf, hmerge⟩ := hlink.request i first size hreq
  have hpending : p.device.bulkPage = some i := by
    unfold Device.bulkPage
    rw [hreq]
  have hwas : Accounted p.device.poolUsed (i :: (p.device.queuedPages ++ p.writeBuffer.toList ++
      p.mergeBuffer.toList ++ p.dieHold.toList)) := by
    unfold PoolDevice.owners at hacc
    rw [hpending] at hacc
    exact hacc
  by_cases hwrites : p.device.WritesData received
  · refine iff_of_true ?_ hwrites
    have hwrite := h.write_of hwrites
    obtain ⟨hused, _, hnone, hmerge'⟩ := hwrite.rest
    have hqueued : d'.queuedPages = p.device.queuedPages ++ [i] :=
      hwrite.page hlink.ring hbuf hwrites.2.2
    have hbulk : d'.bulkPage = none := by
      apply Device.bulkPage_none
      · intro j first size
        rw [hnone]
        simp
      · exact hmerge'.trans hmerge
    unfold PoolDevice.owners
    dsimp only
    rw [hused, hbulk, hqueued]
    apply hwas.perm
    simp only [Option.toList_none, List.nil_append, List.append_assoc, List.singleton_append]
    exact List.perm_middle.symm
  · refine iff_of_false ?_ hwrites
    have hpass := h.passes hwrites
    have hbulk : d'.bulkPage = none := by
      rw [hpass.bulkPage]
      exact Device.bulkPage_none (by simp) hmerge
    have hqueued : d'.queuedPages = p.device.queuedPages := hpass.queuedPages hlink.ring
    unfold PoolDevice.owners
    dsimp only
    rw [hpass.used, hbulk, hqueued]
    exact hwas.not_forgotten

/-! ### The task -/

theorem HoldLive.of_accounted (hacc : Accounted p.device.poolUsed p.owners) : p.HoldLive := by
  intro i hi
  apply hacc.live
  unfold PoolDevice.owners
  rw [hi]
  simp

theorem Transaction.writePage_eq {t : Transaction} (htype : t.type = .write)
    (hbuf : t.buffer = some (.page i)) : t.writePage = some i := by
  unfold Transaction.writePage
  rw [htype, hbuf]

/-- The page of the next write is the first of the queued ones. -/
theorem accounted_current (hlink : PageLink p.device)
    (hne : p.device.utList.pop ≠ p.device.utList.push)
    (hpage : p.device.current.writePage = some i)
    (hacc : Accounted p.device.poolUsed p.owners) :
    Accounted p.device.poolUsed (i :: (p.device.bulkPage.toList ++
      p.device.dropped.queuedPages ++ p.writeBuffer.toList ++ p.mergeBuffer.toList ++
      p.dieHold.toList)) := by
  have hqueued : p.device.queuedPages = i :: p.device.dropped.queuedPages := by
    unfold Device.queuedPages
    rw [pending_drop (rfl : p.device.dropped.utList = p.device.utList.drop utListSize)
      hlink.ring hne, List.filterMap_cons, hpage]
  unfold PoolDevice.owners at hacc
  rw [hqueued] at hacc
  apply hacc.perm
  simp only [List.append_assoc, List.cons_append]
  exact List.perm_middle

/-- `DATA_Write` is called for writes only. -/
theorem Device.ubiCalls_data (h : (d.ubiCalls s).data ≠ none) :
    d.utList.pop ≠ d.utList.push ∧ d.current.type = .write := by
  unfold Device.ubiCalls at h
  by_cases hempty : d.utList.pop = d.utList.push
  · rw [if_pos hempty] at h
    exact absurd rfl h
  · refine ⟨hempty, ?_⟩
    rw [if_neg hempty] at h
    cases htype : d.current.type with
    | write => rfl
    | read =>
        rw [htype] at h
        dsimp only at h
        split at h <;> exact absurd rfl h
    | merge =>
        rw [htype] at h
        dsimp only at h
        split at h <;> exact absurd rfl h

/-- `UBI_Write` gets a page that is in use, and not the one that the die holds. -/
theorem current_live (hlink : PageLink p.device) (hacc : Accounted p.device.poolUsed p.owners)
    (i : Fin 4) (hpage : p.device.current.writePage = some i)
    (hdata : (p.device.ubiCalls s).data ≠ none) :
    p.device.poolUsed i = true ∧ p.dieHold ≠ some i := by
  obtain ⟨hne, _⟩ := Device.ubiCalls_data hdata
  have hfirst := accounted_current hlink hne hpage hacc
  refine ⟨hfirst.live i List.mem_cons_self, fun hhold => ?_⟩
  have hmem : i ∈ p.device.bulkPage.toList ++ p.device.dropped.queuedPages ++
      p.writeBuffer.toList ++ p.mergeBuffer.toList ++ p.dieHold.toList := by
    rw [hhold]
    simp
  exact hfirst.ne hmem rfl

theorem PageLink.orderly (hlink : PageLink p.device)
    (hacc : Accounted p.device.poolUsed p.owners) : p.Orderly s where
  owned := hacc
  starved := by
    intro hnone i
    have hslots : ∀ j : Fin 4, j ∈ [0, 2, 1, 3] := by decide
    have hused : ∀ j, p.device.poolUsed j = true := by
      intro j
      have hall := List.find?_eq_none.mp hnone j (hslots j)
      simpa using hall
    have hcount := hacc.unique i (hused i)
    exact List.count_pos_iff.mp (by omega)
  freed := by
    apply wp_runUbiCalls (HoldLive.of_accounted hacc) (current_live hlink hacc)
    intro p' _
    trivial

/-- A round of the task: the device goes on, and UBI is called. -/
theorem usbPoolTask_outcome (hlink : PageLink p.device)
    (hacc : Accounted p.device.poolUsed p.owners) :
    wp (usbPoolTask s) (fun _ p' => ∃ d, usbUserTask s.toOnfm p.device = .ok ((), d) ∧
      TaskOutcome s.toOnfm p.device d ∧
      Called p.device.current.writePage (p.device.ubiCalls s) { p with device := d } p')
      (fun _ => True) p := by
  unfold usbPoolTask
  rw [wp_bind, wp_get, wp_bind]
  apply wp_of_ok_imp
  intro _ q hq
  unfold onDevice at hq
  split at hq
  · next d hrun =>
      obtain ⟨_, rfl⟩ := Prod.mk.inj (Except.ok.inj hq)
      have hout := of_wp_ok usbUserTask_outcome hrun
      have hused : d.poolUsed = p.device.poolUsed := hout.poolUsed
      apply wp_runUbiCalls
      · intro i hi
        rw [hused]
        exact HoldLive.of_accounted hacc i hi
      · intro i hpage hdata
        rw [hused]
        exact current_live hlink hacc i hpage hdata
      · intro p' hcalled
        exact ⟨d, hrun, hout, hcalled⟩
  · exact absurd hq (by simp)

/-- An entry that is no write is dropped: the pages stay where they are. -/
theorem accounted_dropped {u : Device σ} (hlink : PageLink p.device)
    (hne : p.device.utList.pop ≠ p.device.utList.push)
    (htype : p.device.current.type ≠ .write)
    (hlist : u.utList = p.device.utList.drop utListSize)
    (hused : u.poolUsed = p.device.poolUsed) (hbulk : u.bulkPage = p.device.bulkPage)
    (hacc : Accounted p.device.poolUsed p.owners) :
    Accounted u.poolUsed ({ p with device := u } : PoolDevice σ).owners := by
  refine accounted_congr hused hbulk ?_ hacc
  unfold Device.queuedPages
  rw [pending_drop hlist hlink.ring hne, List.filterMap_cons, Transaction.writePage_none htype]

/-- A round of the task that runs no write keeps the accounts. -/
theorem TaskOutcome.accounted {onfm : Onfm σ} (h : TaskOutcome onfm p.device d)
    (hlink : PageLink p.device)
    (hno : p.device.utList.pop ≠ p.device.utList.push → p.device.current.type ≠ .write)
    (hacc : Accounted p.device.poolUsed p.owners) :
    Accounted d.poolUsed ({ p with device := d } : PoolDevice σ).owners := by
  cases h with
  | idle => exact hacc
  | write hne htype => exact absurd htype (hno hne)
  | @read q _ _ hne htype =>
      cases q <;> exact accounted_dropped hlink hne (hno hne) rfl rfl rfl hacc
  | skip hne => exact accounted_dropped hlink hne (hno hne) rfl rfl rfl hacc
  | @merge q data below hne htype hstart =>
      have hmerging : p.device.mergeStage ≠ .none := by rw [hstart]; simp
      have hpage : ∀ i first size, p.device.outRequest ≠ some (.page i first size) :=
        fun i first size hreq => hmerging (hlink.request i first size hreq).2
      have hbulk : ∀ u : Device σ, u.outRequest = p.device.outRequest →
          u.mergeStage = .finish → u.bulkBuf = p.device.bulkBuf →
          u.bulkPage = p.device.bulkPage := by
        intro u hreq hfinish hbuf
        rw [Device.bulkPage_merging hpage hmerging, Device.bulkPage_merging, hbuf]
        · rw [hreq]
          exact hpage
        · rw [hfinish]
          simp
      cases q with
      | page j =>
          exact accounted_dropped hlink hne (hno hne) rfl rfl (hbulk _ rfl rfl rfl) hacc
      | readBulk =>
          exact accounted_dropped hlink hne (hno hne) rfl rfl (hbulk _ rfl rfl rfl) hacc

/-- A write takes its page out of the queue. -/
theorem TaskOutcome.accounted_write {onfm : Onfm σ} (h : TaskOutcome onfm p.device d)
    (hlink : PageLink p.device) (hne : p.device.utList.pop ≠ p.device.utList.push)
    (htype : p.device.current.type = .write) (hpage : p.device.current.writePage = some i)
    (hacc : Accounted p.device.poolUsed p.owners) :
    Accounted d.poolUsed (i :: ({ p with device := d } : PoolDevice σ).owners) := by
  have hfirst := accounted_current hlink hne hpage hacc
  cases h with
  | idle heq => exact absurd heq hne
  | @write q => cases q <;> exact hfirst
  | read _ hread => exact absurd (htype.symm.trans hread) (by simp)
  | skip _ _ _ hno => exact absurd htype hno
  | merge _ hmerge => exact absurd (htype.symm.trans hmerge) (by simp)

theorem Called.congr {buffer buffer' : Option (Fin 4)} {calls : UbiCalls}
    (h : Called buffer calls p p') (heq : buffer = buffer') : Called buffer' calls p p' :=
  heq ▸ h

/-- One event keeps the link, and it keeps the accounts exactly when the page in
hand goes on. -/
theorem PoolStep.accounted_iff (h : PoolStep s p e p') (hlink : PageLink p.device)
    (hacc : Accounted p.device.poolUsed p.owners) :
    PageLink p'.device ∧
      (Accounted p'.device.poolUsed p'.owners ↔ p.PassesOn s e) := by
  cases h with
  | @usb e d htask hfree hstep =>
      have hout := hstep.outcome
      cases hout with
      | outNak hnone hnak =>
          exact ⟨hnak.link hlink hnone, iff_of_true (hnak.accounted hlink hnone hacc) trivial⟩
      | @command c len d hreq _ hdone =>
          have hstage := hlink.command hreq
          have hset : PageLink { p.device with
              cbw := c
              outRequest := none } := hlink.answered p.device.pool c
          have hno : ¬ Device.WritesData { p.device with
              cbw := c
              outRequest := none } len := fun hwrites => hstage hwrites.1
          have hpass := hdone.passes hno
          refine ⟨hdone.link hset rfl fun hout => absurd hout hstage, iff_of_true ?_ trivial⟩
          have hbulk := hpass.bulkPage
          have hqueued := hpass.queuedPages hset.ring
          refine accounted_congr hpass.used (hbulk.trans ?_) hqueued hacc
          unfold Device.bulkPage
          rw [hreq]
      | data hreq _ hdone =>
          obtain ⟨hbuf, _⟩ := hlink.request _ _ _ hreq
          exact ⟨hdone.link (hlink.answered _ p.device.cbw) rfl fun _ => ⟨_, hbuf⟩,
            hdone.accounted_iff hlink hreq hacc⟩
      | inNak hin =>
          have hpass := hin.passes
          exact ⟨hlink.passes hpass fun hreq => hin.stage (hlink.command hreq),
            iff_of_true (accounted_congr hpass.used hpass.bulkPage
              (hpass.queuedPages hlink.ring) hacc) trivial⟩
      | inDone _ hin =>
          have hset : p.device.Passes { p.device with inRequest := none } :=
            ⟨rfl, rfl, rfl, rfl, rfl, .inl rfl⟩
          have hlink' := hlink.passes hset fun hreq => hlink.command hreq
          have hpass := hin.passes
          exact ⟨hlink'.passes hpass fun hreq => hin.stage (hlink'.command hreq),
            iff_of_true (accounted_congr hpass.used hpass.bulkPage
              (hpass.queuedPages hlink'.ring) hacc) trivial⟩
      | task => exact absurd rfl htask
      | free => exact absurd rfl (hfree _)
  | task hrun =>
      obtain ⟨d, _, hout, hcalled⟩ := of_wp_ok (usbPoolTask_outcome hlink hacc) hrun
      refine ⟨hcalled.link (hout.link hlink), ?_⟩
      by_cases hwrite : p.device.utList.pop ≠ p.device.utList.push ∧
          p.device.current.type = .write
      · obtain ⟨hne, htype⟩ := hwrite
        have hmem : p.device.current ∈ p.device.pending := by
          rw [pending_drop (rfl : p.device.dropped.utList = p.device.utList.drop utListSize)
            hlink.ring hne]
          exact List.mem_cons_self
        obtain ⟨_, i, hbuf⟩ := hlink.whole _ hmem htype
        have hpage := Transaction.writePage_eq htype hbuf
        have hcalls : p.device.ubiCalls s = s.writeCalls p.device.current p.device.onfm := by
          unfold Device.ubiCalls
          rw [if_neg hne, htype]
        rw [hcalls] at hcalled
        refine ((hcalled.congr hpage).accounted_iff
          (hout.accounted_write hlink hne htype hpage hacc)).trans ?_
        exact ⟨fun hhands _ _ => hhands, fun hall => hall hne htype⟩
      · have hno : p.device.utList.pop ≠ p.device.utList.push →
            p.device.current.type ≠ .write := fun hne htype => hwrite ⟨hne, htype⟩
        have hacc' := hout.accounted hlink hno hacc
        refine iff_of_true ?_ fun hne htype => absurd htype (hno hne)
        apply hcalled.accounted ?_ hacc'
        by_cases hempty : p.device.utList.pop = p.device.utList.push
        · refine .inr ?_
          unfold Device.ubiCalls
          rw [if_pos hempty]
          rintro ⟨answer, hsome, _⟩
          exact absurd hsome (by simp)
        · exact .inl (Transaction.writePage_none (hno hempty))

end

/-! ## Runs -/

section

variable {s : PoolStorage σ} {onfm : σ} {blockCount : Nat} {pool : Fin 4 → Buffer}
  {p p' : PoolDevice σ} {steps : List (PoolDevice σ × Event)} {es : List Event} {e : Event}

theorem PoolDevice.init_accounted :
    PageLink (PoolDevice.init onfm blockCount pool).device ∧
      Accounted (PoolDevice.init onfm blockCount pool).device.poolUsed
        (PoolDevice.init onfm blockCount pool).owners := by
  refine ⟨⟨⟨Nat.succ_pos 7, Nat.succ_pos 7⟩, ?_, ?_, ?_⟩, ?_⟩
  · exact fun _ _ _ h => absurd h (by simp [PoolDevice.init, Device.init])
  · exact fun h => absurd h (by simp [PoolDevice.init, Device.init])
  · exact fun t hmem => absurd hmem (by
      simp [PoolDevice.init, Device.init, Device.pending, RingBuffer.toList, RingBuffer.size])
  · rw [accounted_iff]
    intro i
    have howners : (PoolDevice.init onfm blockCount pool).owners = [0] := by
      simp [PoolDevice.owners, PoolDevice.init, Device.init, Device.bulkPage,
        Device.queuedPages, Device.pending, RingBuffer.toList, RingBuffer.size]
    rw [howners]
    by_cases hzero : i = 0
    · subst hzero
      rfl
    · have hused : ¬ (PoolDevice.init onfm blockCount pool).device.poolUsed i = true := by
        simpa [PoolDevice.init, Device.init] using hzero
      rw [if_neg hused, List.count_eq_zero]
      simpa using hzero

theorem PoolRun.accounted (h : PoolRun s (.init onfm blockCount pool) steps p)
    (hpass : ∀ x ∈ steps, x.1.PassesOn s x.2) :
    PageLink p.device ∧ Accounted p.device.poolUsed p.owners := by
  induction h with
  | nil => exact PoolDevice.init_accounted
  | step hrun hstep ih =>
      obtain ⟨hlink, hacc⟩ := ih fun x hx => hpass x (List.mem_cons_of_mem _ hx)
      obtain ⟨hlink', hiff⟩ := hstep.accounted_iff hlink hacc
      exact ⟨hlink', hiff.mpr (hpass _ List.mem_cons_self)⟩

/-- The page buffers are in order in every state of a run exactly when no event
drops the page that it has in hand. -/
theorem page_buffers_orderly_iff (h : PoolRun s (.init onfm blockCount pool) steps p) :
    ((∀ x ∈ steps, x.1.Orderly s) ∧ p.Orderly s) ↔ ∀ x ∈ steps, x.1.PassesOn s x.2 := by
  induction h with
  | nil =>
      obtain ⟨hlink, hacc⟩ := @PoolDevice.init_accounted _ onfm blockCount pool
      have hnone : ∀ {P : PoolDevice σ × Event → Prop}, ∀ x ∈ [], P x :=
        fun x hx => absurd hx List.not_mem_nil
      exact iff_of_true ⟨hnone, hlink.orderly hacc⟩ hnone
  | @step q p e steps hrun hstep ih =>
      constructor
      · rintro ⟨hall, hlast⟩
        have hbefore := ih.mp ⟨fun x hx => hall x (List.mem_cons_of_mem _ hx),
          hall (q, e) List.mem_cons_self⟩
        obtain ⟨hlink, hacc⟩ := hrun.accounted hbefore
        intro x hx
        rcases List.mem_cons.mp hx with rfl | hold
        · exact (hstep.accounted_iff hlink hacc).2.mp hlast.owned
        · exact hbefore x hold
      · intro hpass
        have hbefore : ∀ x ∈ steps, x.1.PassesOn s x.2 :=
          fun x hx => hpass x (List.mem_cons_of_mem _ hx)
        obtain ⟨hall, hq⟩ := ih.mpr hbefore
        obtain ⟨hlink, hacc⟩ := (hrun.step hstep).accounted hpass
        refine ⟨fun x hx => ?_, hlink.orderly hacc⟩
        rcases List.mem_cons.mp hx with rfl | hold
        · exact hq
        · exact hall x hold

/-! ## The frees of the device -/

/-- The page that the die holds was handed to the storage. -/
def PoolDevice.HoldHanded (p : PoolDevice σ) : Prop :=
  ∀ i, p.dieHold = some i → p.device.handed i = true

theorem OutDoneOutcome.handed {d d' : Device σ} {received : Nat}
    (h : OutDoneOutcome d received d') : d'.handed = d.handed := by
  by_cases hwrites : d.WritesData received
  · exact (h.write_of hwrites).rest.2.1
  · exact (h.passes hwrites).handed

theorem StepOutcome.handed {below : Onfm σ} {d d' : Device σ}
    (h : StepOutcome below d e d') (htask : e ≠ .task) (hfree : ∀ i, e ≠ .free i) :
    d'.handed = d.handed := by
  cases h with
  | outNak _ hout => cases hout <;> rfl
  | command _ _ hout => exact hout.handed
  | data _ _ hout => exact hout.handed
  | inNak hout => exact hout.passes.handed
  | inDone _ hout => exact hout.passes.handed
  | task => exact absurd rfl htask
  | free => exact absurd rfl (hfree _)

theorem TaskOutcome.handed {below : Onfm σ} {d d' : Device σ} {i : Fin 4}
    (h : TaskOutcome below d d') (hi : d.handed i = true) : d'.handed i = true := by
  cases h with
  | idle | skip => exact hi
  | @write q =>
      cases q with
      | readBulk => exact hi
      | page j =>
          change Function.update d.handed j true i = true
          by_cases hij : i = j
          · rw [hij, Function.update_self]
          · rw [Function.update_of_ne hij]
            exact hi
  | @read q => cases q <;> exact hi
  | @merge q => cases q <;> exact hi

/-- A write hands its page over. -/
theorem TaskOutcome.handed_write {below : Onfm σ} {d d' : Device σ} {i : Fin 4}
    (h : TaskOutcome below d d') (hne : d.utList.pop ≠ d.utList.push)
    (htype : d.current.type = .write) (hpage : d.current.writePage = some i) :
    d'.handed i = true := by
  cases h with
  | idle heq => exact absurd heq hne
  | @write q _ _ _ hbuf =>
      have hq : q = .page i := by
        unfold Transaction.writePage at hpage
        rw [htype, hbuf] at hpage
        cases q with
        | readBulk => exact absurd hpage (by simp)
        | page j => exact congrArg BufferPtr.page (Option.some.inj hpage)
      subst hq
      exact Function.update_self i true d.handed
  | read _ hread => exact absurd (htype.symm.trans hread) (by simp)
  | skip _ _ _ hno => exact absurd htype hno
  | merge _ hmerge => exact absurd (htype.symm.trans hmerge) (by simp)

theorem PoolDevice.DieFlushed.run (below : Onfm σ) (h : DieFlushed p p') (hheld : p.HoldHanded) :
    (∃ es, Run below p.device es p'.device) ∧ p'.HoldHanded := by
  cases h with
  | kept => exact ⟨⟨[], .nil⟩, hheld⟩
  | released =>
      unfold PoolDevice.released
      cases hhold : p.dieHold with
      | none => exact ⟨⟨[], .nil⟩, hheld⟩
      | some i =>
          exact ⟨⟨[.free i], .one (.free (hheld i hhold))⟩, fun j hj => absurd hj (by simp)⟩

theorem Called.run (below : Onfm σ) {buffer : Option (Fin 4)} {calls : UbiCalls}
    (h : Called buffer calls p p') (hheld : p.HoldHanded)
    (hpage : ∀ i, buffer = some i → calls.Hands →
      p.device.handed i = true ∧ p.dieHold ≠ some i) :
    (∃ es, Run below p.device es p'.device) ∧ p'.HoldHanded := by
  cases h with
  | flushed _ hflush => exact hflush.run below hheld
  | @held i hi hhands hflush =>
      obtain ⟨hhanded, hne⟩ := hpage i hi hhands
      obtain ⟨⟨es, hrun⟩, _⟩ := PoolDevice.DieFlushed.released.run below hheld
      have hkept : p.released.device.handed i = true := by
        unfold PoolDevice.released
        cases hhold : p.dieHold with
        | none => exact hhanded
        | some j =>
            have hij : i ≠ j := fun h => hne (h ▸ hhold)
            change Function.update p.device.handed j false i = true
            rw [Function.update_of_ne hij]
            exact hhanded
      have hheld' : ({ p.released with dieHold := some i } : PoolDevice σ).HoldHanded := by
        intro j hj
        obtain rfl := Option.some.inj hj
        exact hkept
      obtain ⟨⟨es', hrun'⟩, hdone⟩ := hflush.run below hheld'
      exact ⟨⟨es' ++ es, hrun.append hrun'⟩, hdone⟩

theorem PoolStep.run (h : PoolStep s p e p') (hlink : PageLink p.device)
    (hacc : Accounted p.device.poolUsed p.owners) (hheld : p.HoldHanded) :
    (∃ es, Run s.toOnfm p.device es p'.device) ∧ p'.HoldHanded := by
  cases h with
  | usb htask hfree hstep =>
      refine ⟨⟨[e], .one hstep⟩, fun i hi => ?_⟩
      have hsame := hstep.outcome.handed htask hfree
      exact (congrFun hsame i).trans (hheld i hi)
  | task hrun =>
      obtain ⟨d, hstep, hout, hcalled⟩ := of_wp_ok (usbPoolTask_outcome hlink hacc) hrun
      have hheld' : ({ p with device := d } : PoolDevice σ).HoldHanded :=
        fun i hi => hout.handed (hheld i hi)
      obtain ⟨⟨es, hes⟩, hdone⟩ := hcalled.run s.toOnfm hheld' fun i hpage hhands => by
        have hdata : (p.device.ubiCalls s).data ≠ none := by
          obtain ⟨answer, hsome, _⟩ := hhands
          rw [hsome]
          simp
        obtain ⟨hne, htype⟩ := Device.ubiCalls_data hdata
        exact ⟨hout.handed_write hne htype hpage, (current_live hlink hacc i hpage hdata).2⟩
      exact ⟨⟨es ++ [.task], (Run.one (.task hstep)).append hes⟩, hdone⟩

/-- A run that passes its pages on is a run of the device, whose frees are those
of the die. -/
theorem PoolRun.device_run (h : PoolRun s (.init onfm blockCount pool) steps p)
    (hpass : ∀ x ∈ steps, x.1.PassesOn s x.2) :
    ∃ es, Run s.toOnfm (.init onfm blockCount pool) es p.device := by
  have hall : (∃ es, Run s.toOnfm (.init onfm blockCount pool) es p.device) ∧
      p.HoldHanded := by
    induction h with
    | nil => exact ⟨⟨[], .nil⟩, fun i hi => absurd hi (by simp [PoolDevice.init])⟩
    | step hrun hstep ih =>
        have hbefore := fun x hx => hpass x (List.mem_cons_of_mem _ hx)
        obtain ⟨⟨es, hes⟩, hheld⟩ := ih hbefore
        obtain ⟨hlink, hacc⟩ := hrun.accounted hbefore
        obtain ⟨⟨es', hes'⟩, hheld'⟩ := hstep.run hlink hacc hheld
        exact ⟨⟨es' ++ es, hes.append hes'⟩, hheld'⟩
  exact hall.1

/-! ## Runs that can be computed -/

instance (calls : UbiCalls) : Decidable calls.Hands :=
  match hdata : calls.data with
  | some answer =>
      decidable_of_iff (answer.ready = true ∧ answer.programmed = true) (by
        constructor
        · exact fun h => ⟨answer, hdata, h⟩
        · rintro ⟨other, hsome, h⟩
          obtain rfl := Option.some.inj (hdata.symm.trans hsome)
          exact h)
  | none => .isFalse fun ⟨_, hsome, _⟩ => absurd (hdata.symm.trans hsome) (by simp)

instance (d : Device σ) (received : Nat) : Decidable (d.WritesData received) :=
  inferInstanceAs (Decidable (_ ∧ _ ∧ _))

instance (s : PoolStorage σ) (p : PoolDevice σ) (e : Event) : Decidable (p.PassesOn s e) :=
  match e with
  | .outDone (.data _ len) => inferInstanceAs (Decidable (p.device.WritesData len))
  | .task => inferInstanceAs (Decidable (_ → _ → UbiCalls.Hands _))
  | .outDone (.cbw _ _) | .outNak | .inNak | .inDone | .free _ => .isTrue trivial

/-- The state after an event that can happen. -/
def PoolDevice.after (s : PoolStorage σ) (p : PoolDevice σ) : Event → Option (PoolDevice σ)
  | .task =>
      match usbPoolTask s p with
      | .ok (_, p') => some p'
      | .error _ => none
  | .free _ => none
  | e => (p.device.after s.toOnfm e).map fun d => { p with device := d }

/-- The state after events that can happen and pass their pages on. -/
def PoolDevice.follow (s : PoolStorage σ) (p : PoolDevice σ) : List Event → Option (PoolDevice σ)
  | [] => some p
  | e :: es => if p.PassesOn s e then (p.after s e).bind fun p' => p'.follow s es else none

theorem PoolDevice.after_step (h : p.after s e = some p') : PoolStep s p e p' := by
  have husb : e ≠ .task → (∀ i, e ≠ .free i) →
      (p.device.after s.toOnfm e).map (fun d => { p with device := d }) = some p' →
      PoolStep s p e p' := by
    intro htask hfree hmap
    obtain ⟨d, hd, rfl⟩ := Option.map_eq_some_iff.mp hmap
    exact .usb htask hfree (Device.after_step hd)
  cases e with
  | task =>
      unfold PoolDevice.after at h
      dsimp only at h
      split at h
      · next u q hq =>
          rw [← Option.some.inj h]
          exact .task hq
      · exact absurd h (by simp)
  | free i => exact absurd h (by simp [PoolDevice.after])
  | outNak => exact husb (by simp) (by simp) h
  | outDone packet => exact husb (by simp) (by simp) h
  | inNak => exact husb (by simp) (by simp) h
  | inDone => exact husb (by simp) (by simp) h

theorem PoolDevice.follow_run {p₀ : PoolDevice σ} (hrun : PoolRun s p₀ steps p)
    (hpass : ∀ x ∈ steps, x.1.PassesOn s x.2) (h : p.follow s es = some p') :
    ∃ steps', PoolRun s p₀ steps' p' ∧ ∀ x ∈ steps', x.1.PassesOn s x.2 := by
  induction es generalizing p steps with
  | nil =>
      obtain rfl := Option.some.inj h
      exact ⟨steps, hrun, hpass⟩
  | cons e es ih =>
      unfold PoolDevice.follow at h
      obtain ⟨hgoes, hrest⟩ := Option.ite_none_right_eq_some.mp h
      obtain ⟨q, hq, hfollow⟩ := Option.bind_eq_some_iff.mp hrest
      refine ih (hrun.step (PoolDevice.after_step hq)) (fun x hx => ?_) hfollow
      rcases List.mem_cons.mp hx with rfl | hold
      · exact hgoes
      · exact hpass x hold

end

/-- A storage whose writes reach the die at once. -/
def PoolStorage.idle : PoolStorage Unit where
  toOnfm := .idle
  readCalls := fun _ _ => []
  writeCalls := fun _ _ => ⟨[], some ⟨true, true⟩, []⟩

/-- A device of sixteen sectors before its first command. -/
def PoolDevice.fresh : PoolDevice Unit := .init () 16 fun _ => .zeros

/-- A command on the first eight sectors with their data. -/
def pageCbw (code flags : Byte) : Cbw where
  dSignature := mscCbwSignature
  dTag := 1
  dDataLength := 4096
  bmFlags := 0
  bLUN := 0
  bCBLength := 10
  cb := fun i => if i = 0 then code else if i = 1 then flags else if i = 8 then 8 else 0

/-- The command is received, and a page buffer is primed for its data. -/
def commandEvents (c : Cbw) : List Event := [.outNak, .outDone (.cbw c 31), .outNak]

/-- A page of data comes. -/
def dataEvent : Event := .outDone (.data (fun _ => 0) 4096)

/-- A write of one page ends with its page at the die. -/
theorem page_buffers_orderly_write : ∃ steps p, PoolRun .idle PoolDevice.fresh steps p ∧
    p.dieHold = some 2 ∧ (∀ x ∈ steps, x.1.Orderly .idle) ∧ p.Orderly .idle := by
  have hhold : (PoolDevice.fresh.follow .idle
      (commandEvents (pageCbw scsiWrite10 0) ++ [dataEvent, .task])).map PoolDevice.dieHold =
        some (some 2) := by
    decide +kernel
  obtain ⟨p, hfollow, hp⟩ := Option.map_eq_some_iff.mp hhold
  obtain ⟨steps, hrun, hpass⟩ :=
    PoolDevice.follow_run .nil (fun x hx => absurd hx List.not_mem_nil) hfollow
  exact ⟨steps, p, hrun, hp, (page_buffers_orderly_iff hrun).mpr hpass⟩

/-- The page that a verification with data took stays in use for nobody. -/
theorem verify_loses_page : ∃ steps p, PoolRun .idle PoolDevice.fresh steps p ∧
    p.device.poolUsed 2 = true ∧ 2 ∉ p.owners ∧ ¬ p.Orderly .idle := by
  have hlost : ((PoolDevice.fresh.follow .idle (commandEvents (pageCbw scsiVerify10 2))).bind
      fun p => p.after .idle dataEvent).map (fun p => (p.device.poolUsed 2, p.owners)) =
        some (true, [0]) := by
    decide +kernel
  obtain ⟨p, hafter, hp⟩ := Option.map_eq_some_iff.mp hlost
  obtain ⟨q, hfollow, hlast⟩ := Option.bind_eq_some_iff.mp hafter
  obtain ⟨hused, howners⟩ := Prod.mk.inj hp
  obtain ⟨steps, hrun, _⟩ :=
    PoolDevice.follow_run .nil (fun x hx => absurd hx List.not_mem_nil) hfollow
  have hnot : 2 ∉ p.owners := by
    rw [howners]
    decide
  refine ⟨_, p, hrun.step (PoolDevice.after_step hlast), hused, hnot, fun horderly => ?_⟩
  have hcount := horderly.owned.unique 2 hused
  rw [List.count_eq_zero.mpr hnot] at hcount
  exact absurd hcount (by decide)

end RansomTag

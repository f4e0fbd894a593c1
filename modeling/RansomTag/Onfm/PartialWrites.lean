import RansomTag.Onfm.PageLayers

/-!
# Partial writes that fail

A request that is no whole page gathers its sectors in statics of two files.
The page is merged even when it could not be read, and a page that could not be
written leaves `starting_sector` behind with nothing gathered for it.
-/

namespace RansomTag

open Program

/-! ## What a failure should leave -/

/-- A request to the sector interface. -/
inductive SectorRequest where
  | read (addr count : Nat) (out : Buffer) (flag mft : Bool)
  | write (w : WriteRequest)

/-- Between two requests nothing is gathered. -/
structure Gather.Idle {τ : Type} (o : Gather τ) : Prop where
  starting : o.startingSector = invalidLsaddr
  start : o.bufStartAddr = invalidLsaddr
  last : o.bufEndAddr = invalidLsaddr
  written : ∀ i, o.sectorWritten i = false
  calls : o.calls = []

/-- The state with what `o` had gathered. -/
def Gather.forget {τ : Type} (o' o : Gather τ) : Gather τ :=
  { o' with
    startingSector := o.startingSector
    sectorWritten := o.sectorWritten
    bufStartAddr := o.bufStartAddr
    bufEndAddr := o.bufEndAddr }

/-- The calls of the layer in a run that returned or stopped. -/
def callsOf {τ : Type} : Except (List PageCall) (Status × Gather τ) → List PageCall
  | .ok (_, o) => o.calls
  | .error calls => calls

namespace PageLayer

variable {τ : Type} (L : PageLayer τ)

/-- What can be seen of a request: what it returns, the layer and the calls of
the layer that it leaves, or the calls before it stops. -/
def observe (o : Gather τ) : SectorRequest →
    Except (List PageCall) (Status × Option Buffer × τ × List PageCall)
  | .read addr count out flag mft =>
      (L.onfmRead addr count out flag mft o).map fun r =>
        (r.1.1, some r.1.2, r.2.layer, r.2.calls)
  | .write w =>
      (L.onfmWrite w.addr w.count w.data w.flag w.mft o).map fun r =>
        (r.1, none, r.2.layer, r.2.calls)

/-- A merge read or a page write of the request fails. -/
def Fails (w : WriteRequest) (o : Gather τ) : Prop :=
  ∃ c ∈ callsOf (L.onfmWrite w.addr w.count w.data w.flag w.mft o), c.status = .failure

/-- The pages that were not written read as before, and the next request goes
as if nothing had been gathered. -/
structure Undone (o o' : Gather τ) : Prop where
  unwritten : ∀ page, .write page .success ∉ o'.calls →
    (L.read page false false o'.layer).map Prod.fst =
      (L.read page false false o.layer).map Prod.fst
  forgotten : ∀ r, L.observe o' r = L.observe (o'.forget o) r

/-- The request returns an error and is undone. -/
def FailureHandled (w : WriteRequest) (o : Gather τ) : Prop :=
  ∃ o', L.onfmWrite w.addr w.count w.data w.flag w.mft o = .ok (.failure, o') ∧ L.Undone o o'

end PageLayer

/-! ## What a failure leaves -/

/-- A page was to be written, and nothing is gathered for it. -/
structure Gather.Stale {τ : Type} (o : Gather τ) : Prop where
  starting : o.startingSector ≠ invalidLsaddr
  start : o.bufStartAddr = invalidLsaddr

section

variable {τ α : Type} {L : PageLayer τ} {o : Gather τ} {Q : α → Gather τ → Prop}
  {addr count n i : Nat} {data : Buffer} {flag mft : Bool}

theorem wp_callLayer {m : Program τ Stop α} {call : α → PageCall}
    (hQ : ∀ a l, Q a { o with
      layer := l
      calls := call a :: o.calls }) : wp (callLayer m call) Q (fun _ => True) o := by
  unfold wp callLayer
  cases m o.layer with
  | error e => trivial
  | ok r => exact hQ r.1 r.2

theorem wp_require {c : Prop} [Decidable c] {Q : Unit → Gather τ → Prop} (hQ : c → Q () o) :
    wp (require c) Q (fun _ => True) o := by
  unfold wp require
  by_cases hc : c
  · rw [if_pos hc]
    exact hQ hc
  · rw [if_neg hc]
    trivial

/-- `BUF_GetPage` leaves nothing gathered and the start of the page as it is. -/
theorem bufGetPage_empties :
    wp (L.bufGetPage flag mft) (fun _ o' => o'.bufStartAddr = invalidLsaddr ∧
      o'.startingSector = o.startingSector) (fun _ => True) o := by
  unfold PageLayer.bufGetPage
  rw [wp_bind, wp_get]
  dsimp only []
  rw [wp_bind]
  apply wp_require
  intro _
  split
  · rw [wp_bind]
    change wp _ _ _ ({ o with layer := (L.allocate o.layer).2 } : Gather τ)
    rw [wp_bind]
    apply wp_callLayer
    rintro ⟨ret, data⟩ l
    dsimp only []
    split
    · rw [wp_bind]
      unfold PageLayer.mergeWritten
      split
      · exact ⟨rfl, rfl⟩
      · rw [wp_bind]
        apply wp_require
        exact False.elim
    · exact ⟨rfl, rfl⟩
  · exact ⟨rfl, rfl⟩

theorem onfmFlushPage_empties :
    wp (L.onfmFlushPage flag mft) (fun _ o' => o'.bufStartAddr = invalidLsaddr ∧
      o'.startingSector = o.startingSector) (fun _ => True) o := by
  unfold PageLayer.onfmFlushPage
  rw [wp_bind]
  refine wp_mono_post bufGetPage_empties ?_
  intro r o₁ hempty
  exact wp_callLayer fun _ _ => hempty

/-- A sector that fails was to write a page. -/
theorem onfmWriteSector_failure {sector : Option (Nat → Nat)} :
    wp (L.onfmWriteSector addr sector flag mft) (fun ret o' => ret = .success ∨ o'.Stale)
      (fun _ => True) o := by
  have hput : ∀ {sector : Nat → Nat} (o₁ : Gather τ), wp (do
      PageLayer.bufPutSector addr sector
      pure Status.success) (fun ret o' => ret = .success ∨ o'.Stale) (fun _ => True) o₁ := by
    intro sector o₁
    rw [wp_bind]
    exact wp_of_ok_imp fun _ _ _ => .inl rfl
  unfold PageLayer.onfmWriteSector
  rw [wp_bind, wp_get]
  cases sector with
  | some sector =>
      dsimp only
      by_cases hidle : o.startingSector = invalidLsaddr
      · rw [if_pos hidle, wp_bind, wp_modify]
        exact hput _
      rw [if_neg hidle]
      by_cases hsame : o.startingSector ≤ addr ∧
          addr < (o.startingSector + sectorPerMpp) % 4294967296
      · rw [if_pos hsame]
        exact hput _
      · rw [if_neg hsame, wp_bind]
        apply wp_require
        intro _
        rw [wp_bind]
        refine wp_mono_post onfmFlushPage_empties ?_
        rintro ret o₁ ⟨hstart, hstarting⟩
        by_cases hret : ret = .success
        · rw [if_pos hret, wp_bind, wp_modify, wp_bind]
          exact wp_of_ok_imp fun _ _ _ => .inl hret
        · rw [if_neg hret, wp_pure]
          exact .inr ⟨fun h => hidle (hstarting.symm.trans h), hstart⟩
  | none =>
      dsimp only
      by_cases hidle : o.startingSector = invalidLsaddr
      · rw [if_pos hidle, wp_pure]
        exact .inl rfl
      · rw [if_neg hidle, wp_bind]
        refine wp_mono_post onfmFlushPage_empties ?_
        rintro ret o₁ ⟨hstart, hstarting⟩
        by_cases hret : ret = .success
        · rw [if_pos hret, wp_bind]
          apply wp_require
          intro _
          exact .inl hret
        · rw [if_neg hret, wp_pure]
          exact .inr ⟨fun h => hidle (hstarting.symm.trans h), hstart⟩

theorem onfmWriteSectors_failure :
    wp (L.onfmWriteSectors addr data flag mft n i) (fun ret o' => ret = .success ∨ o'.Stale)
      (fun _ => True) o := by
  induction n generalizing i o with
  | zero => exact .inl rfl
  | succ n ih =>
      unfold PageLayer.onfmWriteSectors
      rw [wp_bind]
      refine wp_mono_post onfmWriteSector_failure ?_
      intro ret o₁ hret
      by_cases hok : ret = .success
      · rw [if_pos hok]
        exact ih
      · rw [if_neg hok]
        exact hret

/-- A partial write that returns an error leaves the start of the page behind. -/
theorem onfmWrite_failure (hpath : ¬ WholePage addr count) :
    wp (L.onfmWrite addr count data flag mft) (fun ret o' => ret = .success ∨ o'.Stale)
      (fun _ => True) o := by
  unfold PageLayer.onfmWrite
  rw [wp_bind, wp_modify, if_neg hpath, wp_bind]
  refine wp_mono_post onfmWriteSectors_failure ?_
  intro ret o₁ hret
  by_cases hok : ret = .success
  · rw [if_pos hok]
    exact onfmWriteSector_failure
  · rw [if_neg hok]
    exact hret

/-! ## The next request -/

/-- A flush of an empty buffer stops. -/
theorem Gather.Stale.flush_stops (h : o.Stale) :
    L.onfmFlushPage flag mft o = .error o.calls := by
  have hrequire : require (o.bufStartAddr ≠ invalidLsaddr) o = .error o.calls := by
    unfold require
    rw [if_neg (not_not.mpr h.start)]
  have hpage : L.bufGetPage flag mft o = .error o.calls := by
    unfold PageLayer.bufGetPage
    rw [bind_of_ok rfl]
    exact bind_of_error hrequire
  exact bind_of_error hpage

/-- A sector of another page stops before any call of the layer. -/
theorem Gather.Stale.sector_stops (h : o.Stale) {sector : Nat → Nat}
    (hout : ¬ (o.startingSector ≤ addr ∧ addr < (o.startingSector + sectorPerMpp) % 4294967296)) :
    L.onfmWriteSector addr (some sector) flag mft o = .error o.calls := by
  unfold PageLayer.onfmWriteSector
  rw [bind_of_ok rfl]
  dsimp only
  rw [if_neg h.starting, if_neg hout]
  by_cases hnext : addr = (o.startingSector + sectorPerMpp) % 4294967296
  · have hrequire : require (addr = (o.startingSector + sectorPerMpp) % 4294967296) o =
        .ok ((), o) := by
      unfold require
      rw [if_pos hnext]
    rw [bind_of_ok hrequire]
    exact bind_of_error h.flush_stops
  · have hrequire : require (addr = (o.startingSector + sectorPerMpp) % 4294967296) o =
        .error o.calls := by
      unfold require
      rw [if_neg hnext]
    exact bind_of_error hrequire

/-- A partial write that is empty or starts in another page stops before any
call of the layer. -/
theorem Gather.Stale.write_stops (h : o.Stale) (hpath : ¬ WholePage addr count)
    (hout : count = 0 ∨
      ¬ (o.startingSector ≤ addr ∧ addr < (o.startingSector + sectorPerMpp) % 4294967296)) :
    L.onfmWrite addr count data flag mft o = .error o.calls := by
  have hstale : ({ o with readBufferStartSector := invalidLsaddr } : Gather τ).Stale :=
    ⟨h.starting, h.start⟩
  unfold PageLayer.onfmWrite
  rw [bind_of_ok rfl, if_neg hpath]
  cases count with
  | zero =>
      rw [bind_of_ok rfl, if_pos rfl]
      unfold PageLayer.onfmWriteSector
      rw [bind_of_ok rfl]
      dsimp only
      rw [if_neg h.starting]
      exact bind_of_error hstale.flush_stops
  | succ n =>
      have hsector : L.onfmWriteSector (addr + 0) (some fun k => data.byte (0 * sectorSize + k))
          flag mft { o with readBufferStartSector := invalidLsaddr } = .error o.calls :=
        hstale.sector_stops (hout.resolve_left (by omega))
      apply bind_of_error
      unfold PageLayer.onfmWriteSectors
      exact bind_of_error hsector

/-- A write of no sectors does nothing where nothing is gathered. -/
theorem empty_write_returns (h : o.startingSector = invalidLsaddr)
    (hpath : ¬ WholePage addr 0) :
    L.onfmWrite addr 0 data flag mft o =
      .ok (.success, { o with readBufferStartSector := invalidLsaddr }) := by
  unfold PageLayer.onfmWrite
  rw [bind_of_ok rfl, if_neg hpath, bind_of_ok rfl, if_pos rfl]
  unfold PageLayer.onfmWriteSector
  rw [bind_of_ok rfl]
  dsimp only
  rw [if_pos h]
  rfl

end

/-! ## No failure is handled -/

section

variable {τ : Type} {L : PageLayer τ} {o : Gather τ} {w : WriteRequest}

/-- A partial write that meets a failure does not handle it. -/
theorem not_failureHandled (hidle : o.Idle) (hpath : ¬ WholePage w.addr w.count) :
    ¬ L.FailureHandled w o := by
  rintro ⟨o', hrun, hundone⟩
  have hleft := of_wp_ok (onfmWrite_failure hpath) hrun
  have hstale : o'.Stale := hleft.resolve_left (by simp)
  have hempty : ¬ WholePage 0 0 := by decide
  have hstops : L.observe o' (.write ⟨0, 0, .zeros, false, false⟩) = .error o'.calls := by
    unfold PageLayer.observe
    dsimp only
    rw [hstale.write_stops hempty (.inl rfl)]
    rfl
  have hreturns : L.observe (o'.forget o) (.write ⟨0, 0, .zeros, false, false⟩) =
      .ok (.success, none, o'.layer, o'.calls) := by
    have hstart : (o'.forget o).startingSector = invalidLsaddr := hidle.starting
    unfold PageLayer.observe
    dsimp only
    rw [empty_write_returns hstart hempty]
    rfl
  have hsame := hundone.forgotten (.write ⟨0, 0, .zeros, false, false⟩)
  rw [hstops, hreturns] at hsame
  exact absurd hsame (by simp)

/-- A partial write handles its failures exactly when it has none. -/
theorem partial_write_failures_handled_iff (hidle : o.Idle)
    (hpath : ¬ WholePage w.addr w.count) :
    (L.Fails w o → L.FailureHandled w o) ↔ ¬ L.Fails w o := by
  constructor
  · intro hhandled hfails
    exact not_failureHandled hidle hpath (hhandled hfails)
  · intro hno hfails
    exact absurd hfails hno

end

/-! ## Two layers that fail -/

/-- A layer whose reads and writes have a fixed status. -/
def fixedLayer (read write : Status) : PageLayer Unit where
  read := fun _ _ _ => pure (read, none)
  write := fun _ _ _ _ => pure write
  allocate := fun l => (some .zeros, l)
  free := id

/-- The state after `ONFM_Mount`. -/
def Gather.mounted : Gather Unit where
  layer := ()
  calls := []
  readBuffer := .zeros
  readBufferStartSector := invalidLsaddr
  startingSector := invalidLsaddr
  sectorWritten := fun _ => false
  writeBuffer := some .zeros
  bufStartAddr := invalidLsaddr
  bufEndAddr := invalidLsaddr

theorem Gather.mounted_idle : Gather.mounted.Idle := ⟨rfl, rfl, rfl, fun _ => rfl, rfl⟩

/-- A write of the first sector. -/
def firstSector : WriteRequest := ⟨0, 1, .zeros, false, false⟩

/-- A failed write of the page is not handled. -/
theorem failed_page_write_not_handled :
    (fixedLayer .success .failure).Fails firstSector .mounted ∧
      ¬ ((fixedLayer .success .failure).Fails firstSector .mounted →
        (fixedLayer .success .failure).FailureHandled firstSector .mounted) := by
  have hfails : (fixedLayer .success .failure).Fails firstSector .mounted :=
    ⟨.write 0 .failure, by decide +kernel, rfl⟩
  have hpath : ¬ WholePage firstSector.addr firstSector.count := by decide
  exact ⟨hfails, fun h =>
    (partial_write_failures_handled_iff Gather.mounted_idle hpath).mp h hfails⟩

/-- A merge read that fails is not reported: the page is written without the
sectors of the request. -/
theorem merge_failure_reported_as_success :
    (fixedLayer .failure .success).Fails firstSector .mounted ∧
      ¬ ((fixedLayer .failure .success).Fails firstSector .mounted →
        (fixedLayer .failure .success).FailureHandled firstSector .mounted) := by
  have hfails : (fixedLayer .failure .success).Fails firstSector .mounted :=
    ⟨.read 0 .failure, by decide +kernel, rfl⟩
  refine ⟨hfails, fun h => ?_⟩
  obtain ⟨o', hrun, _⟩ := h hfails
  have hret : ((fixedLayer .failure .success).onfmWrite firstSector.addr firstSector.count
      firstSector.data firstSector.flag firstSector.mft .mounted).map Prod.fst =
        .ok .success := by
    rfl
  rw [hrun] at hret
  exact absurd hret (by simp [Except.map])

end RansomTag

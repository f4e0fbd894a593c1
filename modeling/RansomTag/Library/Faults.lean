import Mathlib.Data.List.Basic

/-!
# Runs of steps that can fault

A list of inputs is folded through a step with a fault.  The rules reduce what
holds after the run, or of its fault, to one step.
-/

namespace Faults

variable {σ α ε : Type} {step : σ → α → Except ε σ} {xs : List α} {s s' : σ} {f : ε}

@[simp] theorem bind_ok {β : Type} (x : α) (g : α → Except ε β) :
    (Except.ok x : Except ε α).bind g = g x := rfl

theorem bind_ok_right (x : Except ε α) : x.bind .ok = x := by
  cases x <;> rfl

theorem foldlM_cons_eq (x : α) :
    (x :: xs).foldlM step s = (step s x).bind fun s' => xs.foldlM step s' := rfl

theorem bind_eq_ok_iff {β : Type} {x : Except ε α} {k : α → Except ε β} {b : β} :
    x.bind k = .ok b ↔ ∃ a, x = .ok a ∧ k a = .ok b := by
  cases x with
  | error e =>
      constructor
      · intro h
        cases h
      · rintro ⟨a, ha, -⟩
        cases ha
  | ok a =>
      constructor
      · intro h
        exact ⟨a, rfl, h⟩
      · rintro ⟨a', ha, hb⟩
        cases ha
        exact hb

theorem isOk_bind {β : Type} {x : Except ε α} {k : α → Except ε β} :
    (∃ b, x.bind k = .ok b) ↔ ∃ a, x = .ok a ∧ ∃ b, k a = .ok b := by
  simp only [bind_eq_ok_iff]
  rw [exists_comm]
  exact exists_congr fun a => exists_and_left

theorem isOk_bind_pure {β : Type} {x : Except ε α} {k : α → β} :
    (∃ b, x.bind (fun a => .ok (k a)) = .ok b) ↔ ∃ a, x = .ok a := by
  rw [isOk_bind]
  exact exists_congr fun a => ⟨And.left, fun h => ⟨h, k a, rfl⟩⟩

/-- The fault of a run is one of a step, from a state that the steps keep. -/
theorem foldlM_fault (Inv : σ → Prop) {Allowed : ε → Prop}
    (hstep : ∀ x ∈ xs, ∀ s s', Inv s → step s x = .ok s' → Inv s')
    (hfault : ∀ x ∈ xs, ∀ s f, Inv s → step s x = .error f → Allowed f) (hinit : Inv s)
    (h : xs.foldlM step s = .error f) : Allowed f := by
  induction xs generalizing s with
  | nil => cases h
  | cons x xs ih =>
      rcases List.forall_mem_cons.mp hstep with ⟨hhead, htail⟩
      rcases List.forall_mem_cons.mp hfault with ⟨hheadFault, htailFault⟩
      rw [foldlM_cons_eq] at h
      cases hfirst : step s x with
      | error f' =>
          rw [hfirst] at h
          cases h
          exact hheadFault s f hinit hfirst
      | ok s₁ =>
          rw [hfirst] at h
          exact ih htail htailFault (hhead s s₁ hinit hfirst) h

/-- A run with a fault goes through up to the step that has it. -/
theorem foldlM_error_at (h : xs.foldlM step s = .error f) :
    ∃ n s' x, (xs.take n).foldlM step s = .ok s' ∧ xs[n]? = some x ∧ step s' x = .error f := by
  induction xs generalizing s with
  | nil => cases h
  | cons x xs ih =>
      rw [foldlM_cons_eq] at h
      cases hfirst : step s x with
      | error f' =>
          rw [hfirst] at h
          cases h
          exact ⟨0, s, x, rfl, rfl, hfirst⟩
      | ok s₁ =>
          rw [hfirst] at h
          rcases ih h with ⟨n, s', y, hrun, hy, hfault⟩
          refine ⟨n + 1, s', y, ?_, hy, hfault⟩
          rw [List.take_succ_cons, foldlM_cons_eq, hfirst]
          exact hrun

/-- A run goes through where each step does, from the states that the steps keep. -/
theorem foldlM_take_ok {Inv : σ → Prop} (hinit : Inv s)
    (hstep : ∀ n s' x, (xs.take n).foldlM step s = .ok s' → Inv s' → xs[n]? = some x →
      ∃ s'', step s' x = .ok s'' ∧ Inv s'') (n : Nat) :
    ∃ s', (xs.take n).foldlM step s = .ok s' ∧ Inv s' := by
  induction n with
  | zero => exact ⟨s, rfl, hinit⟩
  | succ n ih =>
      rcases ih with ⟨s', hrun, hinv⟩
      cases hx : xs[n]? with
      | none =>
          have hlength := List.getElem?_eq_none_iff.mp hx
          rw [List.take_of_length_le hlength] at hrun
          rw [List.take_of_length_le (by omega)]
          exact ⟨s', hrun, hinv⟩
      | some x =>
          rcases hstep n s' x hrun hinv hx with ⟨s'', hnext, hinv'⟩
          refine ⟨s'', ?_, hinv'⟩
          rw [List.take_add_one, hx, List.foldlM_append, hrun]
          change (step s' x).bind _ = _
          rw [hnext]
          rfl

end Faults

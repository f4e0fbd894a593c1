import Mathlib.Logic.Function.Iterate

/-!
# Loops with an exit

A loop tests its state for an exit and otherwise goes on to the next state.  It
ends when one of the states that it goes through is at the exit.
-/

namespace Loops

variable {σ ρ : Type} (exit : σ → Option ρ) (next : σ → σ)

/-- The loop, over at most `fuel` states. -/
def run : Nat → σ → Option ρ
  | 0, _ => none
  | fuel + 1, s =>
      match exit s with
      | some r => some r
      | none => run fuel (next s)

def Ends (s : σ) (r : ρ) : Prop := ∃ fuel, run exit next fuel s = some r

/-- The state after `k` steps is the first at the exit, with this result. -/
def ExitsAt (s : σ) (k : Nat) (r : ρ) : Prop :=
  (∀ j < k, exit (next^[j] s) = none) ∧ exit (next^[k] s) = some r

variable {exit next} {s : σ} {r : ρ}

theorem run_of_exit {fuel : Nat} (h : exit s = some r) :
    run exit next (fuel + 1) s = some r := by
  simp only [run, h]

theorem run_of_next {fuel : Nat} (h : exit s = none) :
    run exit next (fuel + 1) s = run exit next fuel (next s) := by
  simp only [run, h]

theorem exitsAt_zero (h : exit s = some r) : ExitsAt exit next s 0 r :=
  ⟨fun _ hj => absurd hj (Nat.not_lt_zero _), h⟩

theorem ExitsAt.succ {k : Nat} (hstart : exit s = none) (h : ExitsAt exit next (next s) k r) :
    ExitsAt exit next s (k + 1) r := by
  refine ⟨?_, h.2⟩
  intro j hj
  cases j with
  | zero => exact hstart
  | succ j => exact h.1 j (by omega)

theorem exitsAt_of_run {fuel : Nat} (h : run exit next fuel s = some r) :
    ∃ k, ExitsAt exit next s k r := by
  induction fuel generalizing s with
  | zero => cases h
  | succ fuel ih =>
      cases hexit : exit s with
      | some r' =>
          rw [run_of_exit hexit] at h
          cases h
          exact ⟨0, exitsAt_zero hexit⟩
      | none =>
          rw [run_of_next hexit] at h
          rcases ih h with ⟨k, hk⟩
          exact ⟨k + 1, hk.succ hexit⟩

theorem run_of_exitsAt {k : Nat} (h : ExitsAt exit next s k r) :
    run exit next (k + 1) s = some r := by
  induction k generalizing s with
  | zero => exact run_of_exit h.2
  | succ k ih =>
      have hstart : exit s = none := h.1 0 (by omega)
      rw [run_of_next hstart]
      exact ih ⟨fun j hj => h.1 (j + 1) (by omega), h.2⟩

/-- The loop ends with what the first state at the exit yields. -/
theorem ends_iff : Ends exit next s r ↔ ∃ k, ExitsAt exit next s k r := by
  constructor
  · rintro ⟨fuel, h⟩
    exact exitsAt_of_run h
  · rintro ⟨k, h⟩
    exact ⟨k + 1, run_of_exitsAt h⟩

theorem ends_of_exit (h : exit s = some r) : Ends exit next s r := ⟨1, run_of_exit h⟩

theorem ends_next_iff (h : exit s = none) : Ends exit next s r ↔ Ends exit next (next s) r := by
  constructor
  · rintro ⟨fuel, hrun⟩
    cases fuel with
    | zero => cases hrun
    | succ fuel =>
        rw [run_of_next h] at hrun
        exact ⟨fuel, hrun⟩
  · rintro ⟨fuel, hrun⟩
    exact ⟨fuel + 1, by rw [run_of_next h, hrun]⟩

/-- A loop has one result. -/
theorem Ends.unique {r' : ρ} (h : Ends exit next s r) (h' : Ends exit next s r') : r = r' := by
  rcases h with ⟨fuel, hrun⟩
  induction fuel generalizing s with
  | zero => cases hrun
  | succ fuel ih =>
      cases hexit : exit s with
      | some r₀ =>
          rcases h' with ⟨fuel', hrun'⟩
          cases fuel' with
          | zero => cases hrun'
          | succ fuel' =>
              rw [run_of_exit hexit] at hrun hrun'
              exact Option.some.inj (hrun.symm.trans hrun')
      | none =>
          rw [run_of_next hexit] at hrun
          exact ih ((ends_next_iff hexit).mp h') hrun

/-- States that are never at the exit and lead to such states run forever. -/
theorem not_ends_of_invariant {Inv : σ → Prop} (hexit : ∀ s, Inv s → exit s = none)
    (hnext : ∀ s, Inv s → Inv (next s)) (hs : Inv s) : ¬Ends exit next s r := by
  rintro ⟨fuel, h⟩
  induction fuel generalizing s with
  | zero => cases h
  | succ fuel ih =>
      rw [run_of_next (hexit s hs)] at h
      exact ih (hnext s hs) h

end Loops

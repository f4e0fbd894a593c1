import RansomTag.Library.Loops
import Mathlib.Data.Set.Finite.Basic

/-!
# Chains of a partial map

The elements that come one after another from a start, up to one without a
successor.
-/

namespace Chains

variable {α : Type} (succ : α → Option α)

/-- The element `n` steps from the start. -/
def after (a : α) : Nat → Option α
  | 0 => some a
  | n + 1 => (after a n).bind succ

def Stops (a : α) : Prop := ∃ n, after succ a n = none

/-- No element comes twice. -/
def Acyclic (a : α) : Prop :=
  ∀ m n b, after succ a m = some b → after succ a n = some b → m = n

/-- An element comes that is its own successor. -/
def Stalls (a : α) : Prop := ∃ n b, after succ a n = some b ∧ succ b = some b

variable {succ} {a b : α}

theorem after_add (m n : Nat) :
    after succ a (m + n) = (after succ a m).bind fun b => after succ b n := by
  induction n with
  | zero => exact (Option.bind_fun_some (after succ a m)).symm
  | succ n ih =>
      have hassoc : m + (n + 1) = m + n + 1 := rfl
      rw [hassoc, after, ih, Option.bind_assoc]
      rfl

theorem after_succ_of_succ (h : succ a = some b) (n : Nat) :
    after succ a (n + 1) = after succ b n := by
  rw [Nat.add_comm, after_add, after, after, Option.bind_some, h, Option.bind_some]

theorem after_none_of_le {m n : Nat} (h : after succ a m = none) (hmn : m ≤ n) :
    after succ a n = none := by
  have hsum : n = m + (n - m) := by omega
  rw [hsum, after_add, h, Option.bind_none]

theorem stops_of_none (h : succ a = none) : Stops succ a := ⟨1, h⟩

theorem stops_iff_of_succ (h : succ a = some b) : Stops succ a ↔ Stops succ b := by
  constructor
  · rintro ⟨n, hn⟩
    cases n with
    | zero => cases hn
    | succ n => exact ⟨n, (after_succ_of_succ h n).symm.trans hn⟩
  · rintro ⟨n, hn⟩
    exact ⟨n + 1, (after_succ_of_succ h n).trans hn⟩

/-! ## Repetition -/

theorem after_mul_of_return {k : Nat} (h : after succ b k = some b) (q : Nat) :
    after succ b (k * q) = some b := by
  induction q with
  | zero => rfl
  | succ q ih => rw [Nat.mul_succ, after_add, ih, Option.bind_some, h]

/-- An element that comes twice comes again and again. -/
theorem not_stops_of_repeat {m n : Nat} (hmn : m < n) (hm : after succ a m = some b)
    (hn : after succ a n = some b) : ¬Stops succ a := by
  rintro ⟨j, hj⟩
  have hsum : n = m + (n - m) := by omega
  have hreturn : after succ b (n - m) = some b := by
    rw [hsum, after_add, hm, Option.bind_some] at hn
    exact hn
  have hlate : after succ a (m + (n - m) * j) = some b := by
    rw [after_add, hm, Option.bind_some, after_mul_of_return hreturn]
  have hle : j ≤ (n - m) * j := Nat.le_mul_of_pos_left j (by omega)
  rw [after_none_of_le hj (by omega)] at hlate
  cases hlate

/-- Where finitely many elements have a successor, a chain stops if and only if it
has no element twice. -/
theorem stops_iff_acyclic (hfinite : {b | succ b ≠ none}.Finite) :
    Stops succ a ↔ Acyclic succ a := by
  constructor
  · intro hstops m n b hm hn
    rcases Nat.lt_trichotomy m n with hlt | heq | hgt
    · exact absurd hstops (not_stops_of_repeat hlt hm hn)
    · exact heq
    · exact absurd hstops (not_stops_of_repeat hgt hn hm)
  · intro hacyclic
    by_contra hendless
    have hsome : ∀ n, ∃ b, after succ a n = some b :=
      fun n => Option.ne_none_iff_exists'.mp fun hnone => hendless ⟨n, hnone⟩
    choose element helement using hsome
    have hmaps : Set.MapsTo element Set.univ {b | succ b ≠ none} := by
      intro n _ hnone
      have hnext : after succ a (n + 1) = succ (element n) := by
        rw [after, helement n, Option.bind_some]
      rw [hnone, helement (n + 1)] at hnext
      cases hnext
    rcases Set.infinite_univ.exists_ne_map_eq_of_mapsTo hmaps hfinite with
      ⟨m, -, n, -, hne, heq⟩
    refine hne (hacyclic m n (element m) (helement m) ?_)
    rw [heq]
    exact helement n

/-- Where the elements grow and stay below a bound, a chain stops if and only if it
does not stall. -/
theorem stops_iff_not_stalls {succ : Nat → Option Nat} {bound a : Nat}
    (hgrows : ∀ p q, succ p = some q → p ≤ q ∧ p < bound) :
    Stops succ a ↔ ¬Stalls succ a := by
  constructor
  · rintro hstops ⟨n, b, hn, hstall⟩
    have hagain : after succ a (n + 1) = some b := by
      rw [after, hn, Option.bind_some, hstall]
    exact not_stops_of_repeat (Nat.lt_succ_self n) hn hagain hstops
  · induction hleft : bound - a using Nat.strong_induction_on generalizing a with
    | _ left ih =>
        intro hstalls
        cases hsucc : succ a with
        | none => exact stops_of_none hsucc
        | some b =>
            have hstep := hgrows a b hsucc
            have hne : a ≠ b := by
              rintro rfl
              exact hstalls ⟨0, a, rfl, hsucc⟩
            have hrest : ¬Stalls succ b := by
              rintro ⟨n, c, hn, hstall⟩
              exact hstalls ⟨n + 1, c, (after_succ_of_succ hsucc n).trans hn, hstall⟩
            exact (stops_iff_of_succ hsucc).mpr (ih (bound - b) (by omega) rfl hrest)

/-! ## Loops along a chain -/

/-- A loop whose states stand at the elements of a chain, and exit where it has no
successor, ends if and only if the chain stops. -/
theorem loop_ends_iff {σ ρ : Type} {exit : σ → Option ρ} {next : σ → σ} {position : σ → α}
    (hexit : ∀ s, succ (position s) = none → ∃ r, exit s = some r)
    (hnext : ∀ s b, succ (position s) = some b → exit s = none ∧ position (next s) = b)
    (s : σ) : (∃ r, Loops.Ends exit next s r) ↔ Stops succ (position s) := by
  constructor
  · rintro ⟨r, fuel, hrun⟩
    induction fuel generalizing s with
    | zero => cases hrun
    | succ fuel ih =>
        cases hsucc : succ (position s) with
        | none => exact stops_of_none hsucc
        | some b =>
            rcases hnext s b hsucc with ⟨hgoes, hposition⟩
            rw [Loops.run_of_next hgoes] at hrun
            rw [stops_iff_of_succ hsucc, ← hposition]
            exact ih (next s) hrun
  · rintro ⟨n, hn⟩
    induction n generalizing s with
    | zero => cases hn
    | succ n ih =>
        cases hsucc : succ (position s) with
        | none =>
            rcases hexit s hsucc with ⟨r, hr⟩
            exact ⟨r, Loops.ends_of_exit hr⟩
        | some b =>
            rcases hnext s b hsucc with ⟨hgoes, hposition⟩
            rw [after_succ_of_succ hsucc, ← hposition] at hn
            rcases ih (next s) hn with ⟨r, hr⟩
            exact ⟨r, (Loops.ends_next_iff hgoes).mpr hr⟩

end Chains

import Mathlib.Data.Nat.Basic

/-!
# Bisection

The search keeps a position at which the answer was yes, or where it started, and
one behind it at which it was no.  It asks in the middle until the two are
neighbours, and what it asks may change a state.
-/

namespace Bisection

variable {σ : Type} (probe : Nat → σ → Bool × σ)

/-- `while (mid != head && mid != tail)`, with `mid = (head + tail) / 2`. -/
def bisect (head tail : Nat) (s : σ) : Nat × Nat × σ :=
  if (head + tail) / 2 ≠ head ∧ (head + tail) / 2 ≠ tail then
    if (probe ((head + tail) / 2) s).1 then
      bisect ((head + tail) / 2) tail (probe ((head + tail) / 2) s).2
    else bisect head ((head + tail) / 2) (probe ((head + tail) / 2) s).2
  else (head, tail, s)
termination_by (tail - head) + (head - tail)
decreasing_by all_goals omega

variable {probe} {head tail count : Nat}

theorem bisect_of_eq (s : σ) : bisect probe head head s = (head, head, s) := by
  rw [bisect, if_neg (by omega)]

/-- Where the answer is yes below `count` and no from there on, the search ends around
the last yes, and at its start if there is none. -/
theorem bisect_eq (hlt : head < tail) (hhead : head ≤ count - 1) (htail : count - 1 < tail)
    (hprobe : ∀ p s, head < p → p < tail → ((probe p s).1 = true ↔ p < count)) (s : σ) :
    ∃ s', bisect probe head tail s = (count - 1, count - 1 + 1, s') := by
  fun_induction bisect probe head tail s with
  | case1 head tail s hmid hyes ih =>
      have hbelow := (hprobe _ s (by omega) (by omega)).mp hyes
      exact ih (by omega) (by omega) htail
        fun p s hhead hlast => hprobe p s (by omega) hlast
  | case2 head tail s hmid hno ih =>
      have habove := mt (hprobe _ s (by omega) (by omega)).mpr hno
      exact ih (by omega) hhead (by omega)
        fun p s hfirst htail => hprobe p s hfirst (by omega)
  | case3 head tail s hdone =>
      have hhead' : head = count - 1 := by omega
      have htail' : tail = count - 1 + 1 := by omega
      exact ⟨s, by rw [hhead', htail']⟩

end Bisection

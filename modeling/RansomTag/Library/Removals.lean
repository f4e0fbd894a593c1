import Mathlib.Data.List.Nodup

/-!
# Removing one occurrence after the other

`xs.diff ys` removes, for each element of `ys`, its first occurrence in `xs`.
-/

namespace Removals

variable {α : Type} [DecidableEq α] {xs ys : List α} {x : α}

theorem count_diff (x : α) (xs ys : List α) :
    (xs.diff ys).count x = xs.count x - ys.count x := by
  induction ys generalizing xs with
  | nil => rfl
  | cons y ys ih =>
      rw [List.diff_cons, ih, List.count_erase, List.count_cons]
      omega

/-- Of an element that occurs once, nothing is left. -/
theorem erase_eq_filter (h : xs.count x ≤ 1) : xs.erase x = xs.filter (· ≠ x) := by
  induction xs with
  | nil => rfl
  | cons y xs ih =>
      by_cases hy : y = x
      · subst hy
        have hrest : y ∉ xs := by
          rw [List.count_cons_self] at h
          exact List.count_eq_zero.mp (by omega)
        have hkeep : xs.filter (· ≠ y) = xs :=
          List.filter_eq_self.mpr fun z hz => decide_eq_true fun hzy => hrest (hzy ▸ hz)
        rw [List.erase_cons_head, List.filter_cons_of_neg (by simp), hkeep]
      · rw [List.count_cons_of_ne hy] at h
        rw [List.erase_cons_tail (by simpa using hy), List.filter_cons_of_pos (by simpa using hy),
          ih h]

theorem diff_eq_filter (h : ∀ y ∈ ys, xs.count y ≤ 1) : xs.diff ys = xs.filter (· ∉ ys) := by
  induction ys generalizing xs with
  | nil =>
      refine (List.filter_eq_self.mpr fun x _ => ?_).symm
      exact decide_eq_true List.not_mem_nil
  | cons y ys ih =>
      rcases List.forall_mem_cons.mp h with ⟨hy, hys⟩
      have hcount : ∀ z ∈ ys, (xs.erase y).count z ≤ 1 := by
        intro z hz
        exact Nat.le_trans (List.erase_sublist.count_le z) (hys z hz)
      rw [List.diff_cons, ih hcount, erase_eq_filter hy, List.filter_filter]
      refine List.filter_congr fun x _ => ?_
      simp only [List.mem_cons, not_or, ne_eq, Bool.decide_and, Bool.and_comm]

/-- Removing without repetitions removes all occurrences exactly where there is only
one of each. -/
theorem diff_eq_filter_iff (hys : ys.Nodup) :
    xs.diff ys = xs.filter (· ∉ ys) ↔ ∀ x ∈ xs, x ∈ ys → xs.count x = 1 := by
  constructor
  · intro hsame x hx hmem
    have hcount := congrArg (List.count x) hsame
    have hnone : (xs.filter (· ∉ ys)).count x = 0 :=
      List.count_eq_zero.mpr fun hin => of_decide_eq_true (List.mem_filter.mp hin).2 hmem
    rw [count_diff, List.count_eq_one_of_mem hys hmem, hnone] at hcount
    have hpos : 0 < xs.count x := List.count_pos_iff.mpr hx
    omega
  · intro honce
    refine diff_eq_filter fun y hy => ?_
    by_cases hmem : y ∈ xs
    · exact Nat.le_of_eq (honce y hmem hy)
    · rw [List.count_eq_zero.mpr hmem]
      exact Nat.zero_le _

end Removals

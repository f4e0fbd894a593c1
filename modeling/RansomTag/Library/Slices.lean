import Mathlib.Data.List.Basic

/-!
# Slices with signed bounds

`xs[i:j]`, where a negative bound counts from the end and a bound outside the list
is moved to its end.
-/

namespace Slices

variable {α : Type}

/-- The position that a bound stands for. -/
def bound (length : Nat) (i : Int) : Nat :=
  if i < 0 then (length + i).toNat else min length i.toNat

def slice (xs : List α) (i j : Int) : List α :=
  (xs.take (bound xs.length j)).drop (bound xs.length i)

/-- `xs[i]` -/
def item (xs : List α) (i : Int) : Option α :=
  if i < 0 then (if 0 ≤ xs.length + i then xs[(xs.length + i).toNat]? else none)
  else xs[i.toNat]?

variable {xs : List α}

theorem item_natCast (n : Nat) : item xs n = xs[n]? := by
  unfold item
  rw [if_neg (by omega), Int.toNat_natCast]

theorem bound_natCast (length n : Nat) : bound length n = min length n := by
  unfold bound
  rw [if_neg (by omega), Int.toNat_natCast]

theorem bound_neg {length k : Nat} (hk : 0 < k) : bound length (-k) = length - k := by
  unfold bound
  rw [if_pos (by omega)]
  omega

theorem take_min_length (n : Nat) : xs.take (min xs.length n) = xs.take n := by
  rw [List.take_eq_take_iff]
  omega

/-- Bounds that are not negative. -/
theorem slice_natCast (i j : Nat) : slice xs i j = (xs.take j).drop i := by
  unfold slice
  rw [bound_natCast, bound_natCast, take_min_length]
  rcases Nat.le_total xs.length i with hlong | hshort
  · have hnone : (xs.take j).length ≤ xs.length := List.length_take_le' j xs
    rw [Nat.min_eq_left hlong, List.drop_eq_nil_of_le hnone,
      List.drop_eq_nil_of_le (Nat.le_trans hnone hlong)]
  · rw [Nat.min_eq_right hshort]

theorem slice_zero_natCast (n : Nat) : slice xs 0 n = xs.take n := by
  have h : slice xs (0 : Nat) n = (xs.take n).drop 0 := slice_natCast 0 n
  rw [List.drop_zero] at h
  exact h

/-- A negative end drops a tail. -/
theorem slice_zero_neg {k : Nat} (hk : 0 < k) : slice xs 0 (-k) = xs.take (xs.length - k) := by
  have hzero : bound xs.length 0 = 0 :=
    (bound_natCast xs.length 0).trans (Nat.min_zero xs.length)
  unfold slice
  rw [bound_neg hk, hzero, List.drop_zero]

/-! ## Parts between bounds that are not negative -/

/-- `xs[i:j] = ys` -/
def splice (xs : List α) (i j : Nat) (ys : List α) : List α := xs.take i ++ (ys ++ xs.drop j)

variable {ys : List α} {i j : Nat}

theorem getElem?_extract (k : Nat) :
    (xs.extract i j)[k]? = if k < j - i then xs[i + k]? else none := by
  rw [List.extract_eq_take_drop, List.getElem?_take, List.getElem?_drop]

theorem length_extract (h : j ≤ xs.length) : (xs.extract i j).length = j - i := by
  rw [List.extract_eq_take_drop, List.length_take, List.length_drop]
  omega

theorem extract_congr (h : ∀ k, i ≤ k → k < j → xs[k]? = ys[k]?) :
    xs.extract i j = ys.extract i j := by
  refine List.ext_getElem? fun k => ?_
  rw [getElem?_extract, getElem?_extract]
  split_ifs with hk
  · exact h (i + k) (by omega) (by omega)
  · rfl

/-- Replacing a part by one of the same length changes the elements there. -/
theorem getElem?_splice (hij : i ≤ j) (hj : j ≤ xs.length) (hys : ys.length = j - i) (k : Nat) :
    (splice xs i j ys)[k]? = if i ≤ k ∧ k < j then ys[k - i]? else xs[k]? := by
  have htake : (xs.take i).length = i := by
    rw [List.length_take]
    omega
  unfold splice
  rw [List.getElem?_append, htake]
  split_ifs with hbefore hinside hinside
  · omega
  · rw [List.getElem?_take_of_lt hbefore]
  · rw [List.getElem?_append_left (by omega)]
  · rw [List.getElem?_append_right (by omega), List.getElem?_drop]
    congr 1
    omega

theorem length_splice (hij : i ≤ j) (hj : j ≤ xs.length) (hys : ys.length = j - i) :
    (splice xs i j ys).length = xs.length := by
  unfold splice
  rw [List.length_append, List.length_append, List.length_take, List.length_drop]
  omega

end Slices

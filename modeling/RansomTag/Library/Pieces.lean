import Mathlib.Data.List.Basic
import Mathlib.Data.List.Range

/-!
# Pieces of one length

A list that is laid out in pieces of the same length, and ranges of numbers that
are cut into pieces.
-/

namespace Pieces

variable {α β : Type} {n : Nat}

/-- Where the pieces have one length, position `i * n + j` is in the `i`-th. -/
theorem getElem?_flatMap {f : α → List β} (hlength : ∀ a, (f a).length = n) (xs : List α)
    (i : Nat) {j : Nat} (hj : j < n) :
    (xs.flatMap f)[i * n + j]? = xs[i]?.bind fun a => (f a)[j]? := by
  induction xs generalizing i with
  | nil => rfl
  | cons x xs ih =>
      rw [List.flatMap_cons]
      cases i with
      | zero =>
          rw [Nat.zero_mul, Nat.zero_add]
          exact List.getElem?_append_left (by rw [hlength]; exact hj)
      | succ i =>
          have hindex : (i + 1) * n + j = (f x).length + (i * n + j) := by
            rw [hlength, Nat.succ_mul]
            omega
          rw [hindex, List.getElem?_append_right (Nat.le_add_right _ _),
            Nat.add_sub_cancel_left]
          exact ih i

/-- A range from `first * n` on, cut into pieces. -/
theorem map_range'_mul (g : Nat → β) (first total : Nat) :
    (List.range' (first * n) (total * n)).map g =
      (List.range' first total).flatMap fun k => (List.range' (k * n) n).map g := by
  induction total generalizing first with
  | zero => rw [Nat.zero_mul]; rfl
  | succ total ih =>
      have htotal : (total + 1) * n = n + total * n := by
        rw [Nat.succ_mul]
        omega
      have hnext : first * n + n = (first + 1) * n := (Nat.succ_mul first n).symm
      rw [htotal, ← List.range'_append_1, List.map_append, hnext, ih, List.range'_succ,
        List.flatMap_cons]

/-- A part of a range is a range. -/
theorem drop_take_range' {start count i len : Nat} (h : i + len ≤ count) :
    ((List.range' start count).take (i + len)).drop i = List.range' (start + i) len := by
  rw [List.take_range'_of_length_ge h, List.drop_range', Nat.mul_one, Nat.add_sub_cancel_left]

/-- A part of a list by its bounds. -/
theorem extract_middle (front xs back : List α) {data : List α} {i j : Nat}
    (hdata : data = front ++ (xs ++ back)) (hi : i = front.length) (hj : j = i + xs.length) :
    data.extract i j = xs := by
  have hlength : j - i = xs.length := by omega
  rw [List.extract_eq_take_drop, hlength, hdata, hi, List.drop_left, List.take_left]

/-- A filter keeps the front of a list that passes it as it is. -/
theorem getElem?_filter {p : α → Bool} {xs : List α} {i : Nat} {x : α}
    (hfront : ∀ j < i, ∀ y, xs[j]? = some y → p y = true) (hx : xs[i]? = some x)
    (hp : p x = true) : (xs.filter p)[i]? = some x := by
  induction xs generalizing i with
  | nil => cases hx
  | cons y xs ih =>
      cases i with
      | zero =>
          cases hx
          rw [List.filter_cons_of_pos hp]
          rfl
      | succ i =>
          have hy : p y = true := hfront 0 (Nat.succ_pos i) y rfl
          rw [List.filter_cons_of_pos hy]
          exact ih (fun j hj => hfront (j + 1) (Nat.succ_lt_succ hj)) hx

/-- Entries without a share in the result can be filtered out before. -/
theorem flatMap_filter {p : α → Bool} {f : α → List β} {xs : List α}
    (hnil : ∀ x, p x = false → f x = []) : (xs.filter p).flatMap f = xs.flatMap f := by
  induction xs with
  | nil => rfl
  | cons x xs ih =>
      cases hx : p x with
      | true => rw [List.filter_cons_of_pos hx, List.flatMap_cons, List.flatMap_cons, ih]
      | false =>
          rw [List.filter_cons_of_neg (by simp [hx]), List.flatMap_cons, hnil x hx, ih]
          rfl

end Pieces

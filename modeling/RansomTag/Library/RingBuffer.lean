import Mathlib.Data.List.Range

/-!
# Ring buffers

A queue in an array of `n` slots with two indices, of which one slot always
stays free: it is empty when the indices agree.  The slots that hold no entry
keep what was last stored in them.
-/

structure RingBuffer (α : Type) where
  slots : Nat → α
  pop : Nat
  push : Nat

namespace RingBuffer

variable {α : Type} {r : RingBuffer α} {n : Nat}

/-- The number of entries. -/
def size (n : Nat) (r : RingBuffer α) : Nat := (r.push + n - r.pop) % n

/-- The entries, the oldest first. -/
def toList (n : Nat) (r : RingBuffer α) : List α :=
  (List.range (r.size n)).map fun i => r.slots ((r.pop + i) % n)

/-- Fill the next free slot. -/
def log (n : Nat) (r : RingBuffer α) (x : α) : RingBuffer α where
  slots := Function.update r.slots r.push x
  pop := r.pop
  push := (r.push + 1) % n

/-- Leave the oldest slot. -/
def drop (n : Nat) (r : RingBuffer α) : RingBuffer α :=
  { r with pop := (r.pop + 1) % n }

/-- Both indices are in the array. -/
structure Ok (n : Nat) (r : RingBuffer α) : Prop where
  pop : r.pop < n
  push : r.push < n

theorem Ok.log (h : r.Ok n) (x : α) : (r.log n x).Ok n :=
  ⟨h.pop, Nat.mod_lt _ (by have := h.pop; omega)⟩

theorem Ok.drop (h : r.Ok n) : (r.drop n).Ok n :=
  ⟨Nat.mod_lt _ (by have := h.pop; omega), h.push⟩

theorem Ok.size_eq (h : r.Ok n) :
    r.size n = if r.pop ≤ r.push then r.push - r.pop else r.push + n - r.pop := by
  have hpop := h.pop
  have hpush := h.push
  unfold size
  split
  · have hsub : r.push + n - r.pop = (r.push - r.pop) + n := by omega
    rw [hsub, Nat.add_mod_right, Nat.mod_eq_of_lt (by omega)]
  · exact Nat.mod_eq_of_lt (by omega)

theorem Ok.size_lt (h : r.Ok n) : r.size n < n :=
  Nat.mod_lt _ (by have := h.pop; omega)

theorem length_toList : (r.toList n).length = r.size n := by
  simp [toList]

theorem Ok.size_log (h : r.Ok n) (x : α) (hroom : r.size n + 1 < n) :
    (r.log n x).size n = r.size n + 1 := by
  have hpop := h.pop
  have hpush := h.push
  rw [(h.log x).size_eq]
  rw [h.size_eq] at hroom ⊢
  have hnext : (r.push + 1) % n = if r.push + 1 = n then 0 else r.push + 1 := by
    split
    · next heq => rw [heq, Nat.mod_self]
    · exact Nat.mod_eq_of_lt (by omega)
  simp only [RingBuffer.log, hnext]
  split_ifs at hroom ⊢ <;> omega

theorem Ok.size_drop (h : r.Ok n) (hne : r.pop ≠ r.push) :
    (r.drop n).size n + 1 = r.size n := by
  have hpop := h.pop
  have hpush := h.push
  rw [h.drop.size_eq, h.size_eq]
  have hnext : (r.pop + 1) % n = if r.pop + 1 = n then 0 else r.pop + 1 := by
    split
    · next heq => rw [heq, Nat.mod_self]
    · exact Nat.mod_eq_of_lt (by omega)
  simp only [RingBuffer.drop, hnext]
  split_ifs <;> omega

theorem Ok.toList_eq_nil (h : r.Ok n) : r.toList n = [] ↔ r.pop = r.push := by
  have hpop := h.pop
  have hpush := h.push
  rw [← List.length_eq_zero_iff, length_toList, h.size_eq]
  split <;> omega

/-- The indices meet again exactly when the slot that was free has been filled. -/
theorem Ok.log_full (h : r.Ok n) (x : α) :
    (r.log n x).push = (r.log n x).pop ↔ r.size n + 1 = n := by
  have hpop := h.pop
  have hpush := h.push
  have hnext : (r.push + 1) % n = if r.push + 1 = n then 0 else r.push + 1 := by
    split
    · next heq => rw [heq, Nat.mod_self]
    · exact Nat.mod_eq_of_lt (by omega)
  rw [h.size_eq]
  simp only [RingBuffer.log, hnext]
  split_ifs <;> omega

theorem Ok.toList_log (h : r.Ok n) (x : α) (hroom : r.size n + 1 < n) :
    (r.log n x).toList n = r.toList n ++ [x] := by
  have hpop := h.pop
  have hpush := h.push
  have hlast : (r.pop + r.size n) % n = r.push := by
    rw [h.size_eq]
    split
    · rw [show r.pop + (r.push - r.pop) = r.push by omega, Nat.mod_eq_of_lt hpush]
    · rw [show r.pop + (r.push + n - r.pop) = r.push + n by omega, Nat.add_mod_right,
        Nat.mod_eq_of_lt hpush]
  unfold toList
  rw [h.size_log x hroom, List.range_succ, List.map_append]
  congr 1
  · apply List.map_congr_left
    intro i hi
    have hi' : i < r.size n := List.mem_range.mp hi
    have hne : (r.pop + i) % n ≠ r.push := by
      rw [h.size_eq] at hi'
      intro heq
      by_cases hwrap : r.pop + i < n
      · rw [Nat.mod_eq_of_lt hwrap] at heq
        split at hi' <;> omega
      · rw [Nat.mod_eq_sub_mod (by omega), Nat.mod_eq_of_lt (by split at hi' <;> omega)] at heq
        split at hi' <;> omega
    simp [RingBuffer.log, Function.update_of_ne hne]
  · simp [RingBuffer.log, hlast]

theorem Ok.toList_drop (h : r.Ok n) (hne : r.pop ≠ r.push) :
    r.toList n = r.slots r.pop :: (r.drop n).toList n := by
  have hpop := h.pop
  unfold toList
  rw [← h.size_drop hne, List.range_succ_eq_map, List.map_cons, List.map_map]
  congr 1
  · rw [Nat.add_zero, Nat.mod_eq_of_lt hpop]
  · apply List.map_congr_left
    intro i _
    have hstep : ((r.pop + 1) % n + i) % n = (r.pop + (i + 1)) % n := by
      rw [Nat.mod_add_mod]
      congr 1
      omega
    simp only [Function.comp, RingBuffer.drop, hstep]

end RingBuffer

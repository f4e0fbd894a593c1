import Mathlib.Algebra.BigOperators.Ring.Finset
import Mathlib.Algebra.Order.BigOperators.Group.Finset

/-!
# Occupancy of places by keys

A table sends each of the first `n` keys to a place.  `occupancy` counts the
keys at one place.  Moving one key changes the count of two places by one, and
the counts of any set of places add up to at most `n`.
-/

/-- How many of the keys below `n` the table `f` sends to `b`. -/
def occupancy {β : Type} [DecidableEq β] (f : ℕ → β) (n : ℕ) (b : β) : ℕ :=
  ((Finset.range n).filter fun k => f k = b).card

namespace Occupancy

variable {β : Type} [DecidableEq β] {f g : ℕ → β} {n : ℕ} {b : β}

theorem congr (h : ∀ k, k < n → f k = g k) : occupancy f n b = occupancy g n b := by
  unfold occupancy
  congr 1
  apply Finset.filter_congr
  intro k hk
  rw [h k (Finset.mem_range.mp hk)]

theorem eq_zero_iff : occupancy f n b = 0 ↔ ∀ k, k < n → f k ≠ b := by
  unfold occupancy
  rw [Finset.card_eq_zero, Finset.filter_eq_empty_iff]
  simp only [Finset.mem_range]

theorem pos_of_mem {k : ℕ} (hk : k < n) (hb : f k = b) : 0 < occupancy f n b := by
  rw [Nat.pos_iff_ne_zero]
  intro h
  exact eq_zero_iff.mp h k hk hb

theorem le : occupancy f n b ≤ n := by
  calc
    occupancy f n b ≤ (Finset.range n).card := Finset.card_filter_le _ _
    _ = n := Finset.card_range n

theorem succ : occupancy f (n + 1) b = occupancy f n b + if f n = b then 1 else 0 := by
  unfold occupancy
  rw [Finset.range_add_one, Finset.filter_insert]
  by_cases hb : f n = b
  · rw [if_pos hb, if_pos hb, Finset.card_insert_of_notMem]
    simp
  · rw [if_neg hb, if_neg hb, Nat.add_zero]

/-- One key moves from `f k` to `g k`: the count of every place balances. -/
theorem move {k : ℕ} (hk : k < n) (h : ∀ j, j < n → j ≠ k → g j = f j) :
    occupancy g n b + (if f k = b then 1 else 0) =
      occupancy f n b + (if g k = b then 1 else 0) := by
  have hsplit (e : ℕ → β) :
      occupancy e n b =
        (((Finset.range n).erase k).filter fun j => e j = b).card +
          (if e k = b then 1 else 0) := by
    unfold occupancy
    rw [← Finset.insert_erase (Finset.mem_range.mpr hk), Finset.filter_insert,
      Finset.insert_erase (Finset.mem_range.mpr hk)]
    by_cases hb : e k = b
    · rw [if_pos hb, if_pos hb, Finset.card_insert_of_notMem]
      simp
    · rw [if_neg hb, if_neg hb, Nat.add_zero]
  have hrest :
      ((Finset.range n).erase k).filter (fun j => g j = b) =
        ((Finset.range n).erase k).filter (fun j => f j = b) := by
    apply Finset.filter_congr
    intro j hj
    rw [h j (Finset.mem_range.mp (Finset.mem_of_mem_erase hj)) (Finset.ne_of_mem_erase hj)]
  rw [hsplit f, hsplit g, hrest]
  omega

/-- The keys at distinct places are distinct keys. -/
theorem sum_le (places : Finset β) : ∑ b ∈ places, occupancy f n b ≤ n := by
  have hdisjoint : (places : Set β).PairwiseDisjoint
      fun b => (Finset.range n).filter fun k => f k = b := by
    intro b _ b' _ hne
    refine Finset.disjoint_left.mpr ?_
    intro k hk hk'
    exact hne ((Finset.mem_filter.mp hk).2.symm.trans (Finset.mem_filter.mp hk').2)
  calc
    ∑ b ∈ places, occupancy f n b
        = (places.biUnion fun b => (Finset.range n).filter fun k => f k = b).card :=
          (Finset.card_biUnion hdisjoint).symm
    _ ≤ (Finset.range n).card := by
          apply Finset.card_le_card
          intro k hk
          obtain ⟨b, _, hk⟩ := Finset.mem_biUnion.mp hk
          exact (Finset.mem_filter.mp hk).1
    _ = n := Finset.card_range n

/-- When every place of a set is filled up to `size` by dead cells and keys,
some place has many dead cells. -/
theorem exists_dead_ge (places : Finset β) (dead : β → ℕ) (size bound : ℕ)
    (hfull : ∀ b ∈ places, dead b + occupancy f n b = size)
    (hroom : n + places.card * bound < places.card * size + places.card) :
    ∃ b ∈ places, bound ≤ dead b := by
  by_contra hno
  push Not at hno
  have hsum : ∑ b ∈ places, dead b + ∑ b ∈ places, occupancy f n b =
      places.card * size := by
    rw [← Finset.sum_add_distrib]
    exact Finset.sum_const_nat hfull
  have hdead : ∑ b ∈ places, dead b + places.card ≤ places.card * bound := by
    calc
      ∑ b ∈ places, dead b + places.card = ∑ b ∈ places, (dead b + 1) := by
        rw [Finset.sum_add_distrib, Finset.card_eq_sum_ones]
      _ ≤ ∑ _b ∈ places, bound := Finset.sum_le_sum fun b hb => hno b hb
      _ = places.card * bound := Finset.sum_const_nat fun _ _ => rfl
  have hocc := sum_le (f := f) (n := n) places
  omega

end Occupancy

import Mathlib.Data.List.Perm.Basic
import Mathlib.Data.List.Perm.Subperm
import Mathlib.Logic.Function.Basic

/-!
# Leases

A pool marks the slots that are in use.  The owners are a list with one entry
for each slot that somebody has, so that the order of the owners is free and a
slot that moves from one owner to another leaves a permutation.
-/

namespace Leases

variable {ι : Type} [DecidableEq ι]

/-- Every slot that is marked has one owner, and an owned slot is marked. -/
structure Accounted (used : ι → Bool) (owners : List ι) : Prop where
  unique : ∀ i, used i = true → owners.count i = 1
  live : ∀ i, i ∈ owners → used i = true

variable {used : ι → Bool} {owners rest : List ι} {i j : ι}

theorem accounted_iff :
    Accounted used owners ↔ ∀ i, owners.count i = if used i = true then 1 else 0 := by
  constructor
  · intro h i
    by_cases hused : used i = true
    · rw [if_pos hused, h.unique i hused]
    · rw [if_neg hused, List.count_eq_zero]
      exact fun hmem => hused (h.live i hmem)
  · intro h
    refine ⟨fun i hused => ?_, fun i hmem => ?_⟩
    · rw [h i, if_pos hused]
    · by_contra hused
      have hcount := h i
      rw [if_neg hused, List.count_eq_zero] at hcount
      exact hcount hmem

/-- A slot moves from one owner to another. -/
theorem Accounted.perm (h : Accounted used owners) (hperm : owners.Perm rest) :
    Accounted used rest := by
  rw [accounted_iff] at h ⊢
  intro i
  rw [← hperm.count_eq, h i]

theorem Accounted.take (h : Accounted used owners) (hfree : used i = false) :
    Accounted (Function.update used i true) (i :: owners) := by
  rw [accounted_iff] at h ⊢
  intro j
  by_cases hji : j = i
  · subst hji
    simp [h j, hfree]
  · rw [List.count_cons_of_ne (Ne.symm hji), Function.update_of_ne hji, h j]

theorem Accounted.release (h : Accounted used (i :: owners)) :
    Accounted (Function.update used i false) owners := by
  rw [accounted_iff] at h ⊢
  intro j
  have hcount := h j
  by_cases hji : j = i
  · subst hji
    rw [List.count_cons_self] at hcount
    rw [Function.update_self, if_neg (by simp)]
    split at hcount <;> omega
  · rw [List.count_cons_of_ne (Ne.symm hji)] at hcount
    rw [Function.update_of_ne hji, hcount]

/-- A slot whose owner forgets it stays marked for good. -/
theorem Accounted.not_forgotten (h : Accounted used (i :: owners)) :
    ¬ Accounted used owners := by
  intro hrest
  have hlive := h.live i List.mem_cons_self
  have hmore := h.unique i hlive
  have hless := hrest.unique i hlive
  rw [List.count_cons_self] at hmore
  omega

/-- Two owners do not have the same slot. -/
theorem Accounted.ne (h : Accounted used (i :: owners)) (hmem : j ∈ owners) : j ≠ i := by
  rintro rfl
  have hcount := h.unique j (h.live j List.mem_cons_self)
  rw [List.count_cons_self] at hcount
  have hpos := List.count_pos_iff.mpr hmem
  omega

end Leases

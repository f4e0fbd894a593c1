import RansomTag.Library.Ram

/-!
# Search for the dirtiest block

The loop over a range of blocks that `pmt_reclaim_blocks` and `DATA_Reclaim`
share.  One pass looks for a block whose dirty count is the target, and gathers
the greatest smaller count as the target of the next pass.
-/

namespace RansomTag

/-- One pass over `blocks`, less those to skip: the block found, or the next
target count. -/
def victimPass (dirty : Ram Nat) (skip : Nat → Bool) (target : Nat) :
    List Nat → Nat → Option Nat × Nat
  | [], next => (none, next)
  | i :: blocks, next =>
      if skip i then victimPass dirty skip target blocks next
      else if dirty i = target then (some i, next)
      else victimPass dirty skip target blocks
        (if dirty i < target ∧ dirty i > next then dirty i else next)

namespace VictimPass

variable {dirty : Ram Nat} {skip : Nat → Bool} {target : Nat}

theorem found {blocks : List Nat} {next i n : Nat}
    (h : victimPass dirty skip target blocks next = (some i, n)) :
    i ∈ blocks ∧ skip i = false ∧ dirty i = target := by
  induction blocks generalizing next with
  | nil => simp [victimPass] at h
  | cons j blocks ih =>
      unfold victimPass at h
      split at h
      · exact ⟨List.mem_cons_of_mem _ (ih h).1, (ih h).2⟩
      · split at h
        · obtain ⟨rfl, rfl⟩ : j = i ∧ next = n := by simpa using h
          exact ⟨List.mem_cons_self, by simp_all, by assumption⟩
        · exact ⟨List.mem_cons_of_mem _ (ih h).1, (ih h).2⟩

/-- A pass without a block: no count is the target, and the next target is the
greatest of the smaller counts and the starting value. -/
theorem not_found {blocks : List Nat} {next n : Nat}
    (h : victimPass dirty skip target blocks next = (none, n)) :
    (∀ b ∈ blocks, skip b = false → dirty b ≠ target) ∧
    next ≤ n ∧
    (∀ b ∈ blocks, skip b = false → dirty b < target → dirty b ≤ n) ∧
    (n = next ∨ ∃ b ∈ blocks, skip b = false ∧ dirty b = n ∧ n < target) := by
  induction blocks generalizing next with
  | nil =>
      obtain rfl : next = n := by simpa [victimPass] using h
      simp
  | cons j blocks ih =>
      unfold victimPass at h
      split at h
      case isTrue hskip =>
        obtain ⟨hne, hle, hlt, hlast⟩ := ih h
        simp only [List.forall_mem_cons]
        refine ⟨⟨by simp [hskip], hne⟩, hle, ⟨by simp [hskip], hlt⟩, ?_⟩
        rcases hlast with hlast | ⟨b, hb, hlast⟩
        · exact .inl hlast
        · exact .inr ⟨b, List.mem_cons_of_mem _ hb, hlast⟩
      case isFalse hskip =>
        split at h
        case isTrue => simp at h
        case isFalse hj =>
          obtain ⟨hne, hle, hlt, hlast⟩ := ih h
          simp only [List.forall_mem_cons]
          refine ⟨⟨fun _ => hj, hne⟩, ?_, ⟨fun _ hjt => ?_, hlt⟩, ?_⟩
          · split at hle <;> omega
          · split at hle <;> omega
          · rcases hlast with hlast | ⟨b, hb, hlast⟩
            · split at hlast
              case isTrue hcond =>
                refine .inr ⟨j, List.mem_cons_self, by simpa using hskip, hlast.symm, ?_⟩
                omega
              case isFalse => exact .inl hlast
            · exact .inr ⟨b, List.mem_cons_of_mem _ hb, hlast⟩

end VictimPass

end RansomTag

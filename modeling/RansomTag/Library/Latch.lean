import Mathlib.Data.List.Induction

/-!
# Latches

A flag that some events set and others clear, over a history of events.
-/

namespace Latch

variable {ε : Type} (sets clears : ε → Prop) [DecidablePred sets] [DecidablePred clears]

def step (flag : Bool) (e : ε) : Bool :=
  if sets e then true else if clears e then false else flag

/-- The flag after a history, clear before it. -/
def after (history : List ε) : Bool := history.foldl (step sets clears) false

/-- The last event that sets or clears is one that sets. -/
def LastSets (history : List ε) : Prop :=
  ∃ e, (history.filter fun e => sets e ∨ clears e).getLast? = some e ∧ sets e

instance (history : List ε) : Decidable (LastSets sets clears history) :=
  decidable_of_iff
    (((history.filter fun e => sets e ∨ clears e).getLast?.any fun e => sets e) = true)
    (by
      unfold LastSets
      cases (history.filter fun e => sets e ∨ clears e).getLast? with
      | none => simp
      | some e => simp)

variable {sets clears}

@[simp] theorem not_lastSets_nil : ¬LastSets sets clears [] := by
  rintro ⟨e, he, -⟩
  cases he

theorem lastSets_concat (history : List ε) (e : ε) :
    LastSets sets clears (history ++ [e]) ↔
      sets e ∨ ¬clears e ∧ LastSets sets clears history := by
  unfold LastSets
  rw [List.filter_append]
  by_cases hsets : sets e
  · simp [hsets]
  · by_cases hclears : clears e
    · simp [hsets, hclears]
    · simp [hsets, hclears]

theorem after_concat (history : List ε) (e : ε) :
    after sets clears (history ++ [e]) = step sets clears (after sets clears history) e := by
  unfold after
  rw [List.foldl_append]
  rfl

theorem after_iff (history : List ε) :
    after sets clears history = true ↔ LastSets sets clears history := by
  induction history using List.reverseRecOn with
  | nil => simp [after]
  | append_singleton history e ih =>
      rw [after_concat, lastSets_concat, ← ih]
      unfold step
      by_cases hsets : sets e
      · simp [hsets]
      · by_cases hclears : clears e <;> simp [hsets, hclears]

end Latch

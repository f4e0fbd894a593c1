import Mathlib.Logic.Equiv.Basic

/-!
# Exclusive use

Each thing is used by at most one owner.  Two owners may exchange a thing each, and
what the others use stays exclusive.
-/

variable {ω β : Type} {uses uses' : ω → β → Prop}

/-- No two owners use the same thing. -/
def Exclusive (uses : ω → β → Prop) : Prop :=
  ∀ ⦃o o' : ω⦄ ⦃b : β⦄, uses o b → uses o' b → o = o'

namespace Exclusive

theorem ne {o o' : ω} {b b' : β} (h : Exclusive uses) (ho : o ≠ o') (hb : uses o b)
    (hb' : uses o' b') : b ≠ b' := by
  rintro rfl
  exact ho (h hb hb')

/-- `o₁` gives `x` to `o₂` and takes `y` from it. -/
theorem exchange [DecidableEq β] (h : Exclusive uses) {o₁ o₂ : ω} {x y : β} (ho : o₁ ≠ o₂)
    (hx : uses o₁ x) (hy : uses o₂ y)
    (hother : ∀ o b, o ≠ o₁ → o ≠ o₂ → uses' o b → uses o b)
    (hfirst : ∀ b, uses' o₁ b → b = y ∨ b ≠ x ∧ uses o₁ b)
    (hsecond : ∀ b, uses' o₂ b → b = x ∨ b ≠ y ∧ uses o₂ b) : Exclusive uses' := by
  -- the things keep their owners once `x` and `y` are renamed
  have hrename : ∀ o b, uses' o b → uses o (Equiv.swap x y b) := by
    intro o b hb
    by_cases ho₁ : o = o₁
    · subst ho₁
      rcases hfirst b hb with rfl | ⟨hbx, hb'⟩
      · rwa [Equiv.swap_apply_right]
      · rwa [Equiv.swap_apply_of_ne_of_ne hbx (h.ne ho hb' hy)]
    · by_cases ho₂ : o = o₂
      · subst ho₂
        rcases hsecond b hb with rfl | ⟨hby, hb'⟩
        · rwa [Equiv.swap_apply_left]
        · rwa [Equiv.swap_apply_of_ne_of_ne (h.ne ho₁ hb' hx) hby]
      · have hb' := hother o b ho₁ ho₂ hb
        rwa [Equiv.swap_apply_of_ne_of_ne (h.ne ho₁ hb' hx) (h.ne ho₂ hb' hy)]
  intro o o' b hb hb'
  exact h (hrename o b hb) (hrename o' b hb')

end Exclusive

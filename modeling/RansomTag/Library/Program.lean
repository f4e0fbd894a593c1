import Mathlib.Tactic.Common

/-!
# Programs with state and stops, and their preconditions

A `Program σ ε α` transforms a state and either returns a value or stops for
good with a reason in `ε` (an assertion that spins, a loop that never ends).
`wp` is its weakest precondition: `Q` must hold of a returned value and state
and `E` of the reason of a stop, so that total correctness is `E := fun _ =>
False` and partial correctness `E := fun _ => True`.
-/

abbrev Program (σ ε α : Type) := StateT σ (Except ε) α

namespace Program

variable {σ ε α β : Type}

def wp (m : Program σ ε α) (Q : α → σ → Prop) (E : ε → Prop) (s : σ) : Prop :=
  match m s with
  | .ok (a, s') => Q a s'
  | .error e => E e

/-- Stop for good. -/
def stop (e : ε) : Program σ ε α := fun _ => .error e

theorem wp_iff_of_ok {m : Program σ ε α} {Q : α → σ → Prop} {E : ε → Prop} {s s' : σ}
    {a : α} (h : m s = .ok (a, s')) : wp m Q E s ↔ Q a s' := by
  simp [wp, h]

/-- A total precondition gives a returned value. -/
theorem exists_ok_of_wp {m : Program σ ε α} {Q : α → σ → Prop} {s : σ}
    (h : wp m Q (fun _ => False) s) : ∃ a s', m s = .ok (a, s') ∧ Q a s' := by
  unfold wp at h
  cases hm : m s with
  | error e => simp [hm] at h
  | ok r =>
      obtain ⟨a, s'⟩ := r
      exact ⟨a, s', rfl, by simpa [hm] using h⟩

theorem of_wp_ok {m : Program σ ε α} {Q : α → σ → Prop} {E : ε → Prop} {s s' : σ}
    {a : α} (h : wp m Q E s) (hm : m s = .ok (a, s')) : Q a s' := by
  simpa [wp, hm] using h

theorem wp_mono {m : Program σ ε α} {Q Q' : α → σ → Prop} {E E' : ε → Prop} {s : σ}
    (h : wp m Q E s) (hQ : ∀ a s', Q a s' → Q' a s') (hE : ∀ e, E e → E' e) :
    wp m Q' E' s := by
  unfold wp at h ⊢
  cases hm : m s with
  | error e => simp only [hm] at h ⊢; exact hE e h
  | ok r => simp only [hm] at h ⊢; exact hQ _ _ h

theorem wp_mono_post {m : Program σ ε α} {Q Q' : α → σ → Prop} {E : ε → Prop} {s : σ}
    (h : wp m Q E s) (hQ : ∀ a s', Q a s' → Q' a s') : wp m Q' E s :=
  wp_mono h hQ fun _ he => he

theorem wp_congr {m : Program σ ε α} {Q Q' : α → σ → Prop} {E : ε → Prop} {s : σ}
    (hQ : ∀ a s', Q a s' ↔ Q' a s') : wp m Q E s ↔ wp m Q' E s :=
  ⟨fun h => wp_mono_post h fun a s' => (hQ a s').mp,
    fun h => wp_mono_post h fun a s' => (hQ a s').mpr⟩

/-- A returned value is all that a partial precondition looks at. -/
theorem wp_of_ok_imp {m : Program σ ε α} {Q : α → σ → Prop} {s : σ}
    (h : ∀ a s', m s = .ok (a, s') → Q a s') : wp m Q (fun _ => True) s := by
  unfold wp
  cases hm : m s with
  | error e => trivial
  | ok r => exact h r.1 r.2 hm

@[simp] theorem wp_pure (a : α) (Q : α → σ → Prop) (E : ε → Prop) (s : σ) :
    wp (pure a : Program σ ε α) Q E s ↔ Q a s := Iff.rfl

@[simp] theorem wp_bind (m : Program σ ε α) (f : α → Program σ ε β)
    (Q : β → σ → Prop) (E : ε → Prop) (s : σ) :
    wp (m >>= f) Q E s ↔ wp m (fun a s' => wp (f a) Q E s') E s := by
  unfold wp
  change (match StateT.bind m f s with | .ok (a, s') => Q a s' | .error e => E e) ↔ _
  simp only [StateT.bind, bind, Except.bind]
  cases m s with
  | error e => rfl
  | ok r => rfl

@[simp] theorem wp_map (m : Program σ ε α) (f : α → β)
    (Q : β → σ → Prop) (E : ε → Prop) (s : σ) :
    wp (f <$> m) Q E s ↔ wp m (fun a s' => Q (f a) s') E s := by
  unfold wp
  change (match StateT.map f m s with | .ok (b, s') => Q b s' | .error e => E e) ↔ _
  simp only [StateT.map, bind, Except.bind]
  cases m s with
  | error e => rfl
  | ok r => rfl

@[simp] theorem wp_get (Q : σ → σ → Prop) (E : ε → Prop) (s : σ) :
    wp (get : Program σ ε σ) Q E s ↔ Q s s := Iff.rfl

@[simp] theorem wp_set (s' : σ) (Q : PUnit → σ → Prop) (E : ε → Prop) (s : σ) :
    wp (set s' : Program σ ε PUnit) Q E s ↔ Q ⟨⟩ s' := Iff.rfl

@[simp] theorem wp_modify (f : σ → σ) (Q : PUnit → σ → Prop) (E : ε → Prop) (s : σ) :
    wp (modify f : Program σ ε PUnit) Q E s ↔ Q ⟨⟩ (f s) := Iff.rfl

@[simp] theorem wp_stop (e : ε) (Q : α → σ → Prop) (E : ε → Prop) (s : σ) :
    wp (stop e : Program σ ε α) Q E s ↔ E e := Iff.rfl

theorem bind_of_ok {m : Program σ ε α} {f : α → Program σ ε β} {s s' : σ} {a : α}
    (h : m s = .ok (a, s')) : (m >>= f) s = f a s' := by
  change StateT.bind m f s = _
  simp only [StateT.bind, bind, Except.bind, h]

theorem bind_of_error {m : Program σ ε α} {f : α → Program σ ε β} {s : σ} {e : ε}
    (h : m s = .error e) : (m >>= f) s = .error e := by
  change StateT.bind m f s = _
  simp only [StateT.bind, bind, Except.bind, h]

theorem wp_ite (c : Prop) {_ : Decidable c} (m₁ m₂ : Program σ ε α)
    (Q : α → σ → Prop) (E : ε → Prop) (s : σ) :
    wp (if c then m₁ else m₂) Q E s ↔ if c then wp m₁ Q E s else wp m₂ Q E s := by
  split <;> rfl

end Program

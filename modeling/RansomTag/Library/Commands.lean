import RansomTag.Library.Program

/-!
# Commands and the model they implement

A family of commands on a state, with the change that each one is meant to make
to a model of the state.  A relation between states and models that every
allowed command keeps holds along every run.
-/

namespace Program

structure Commands (σ ε α κ μ : Type) where
  exec : κ → Program σ ε α
  /-- The states in which a command may be given. -/
  Allowed : κ → σ → Prop
  model : κ → μ → μ

namespace Commands

variable {σ ε α κ μ : Type}

/-- The states that commands lead to, each with its model. -/
inductive Run (C : Commands σ ε α κ μ) (Start : σ → μ → Prop) : σ → μ → Prop where
  | start {s : σ} {m : μ} (h : Start s m) : Run C Start s m
  | step {s s' : σ} {m : μ} {c : κ} {a : α} (h : Run C Start s m) (hallowed : C.Allowed c s)
      (hrun : C.exec c s = .ok (a, s')) : Run C Start s' (C.model c m)

/-- One command keeps `R`, if it returns. -/
def Keeps (C : Commands σ ε α κ μ) (R : σ → μ → Prop) : Prop :=
  ∀ c s m, R s m → C.Allowed c s →
    wp (C.exec c) (fun _ s' => R s' (C.model c m)) (fun _ => True) s

theorem Run.keeps {C : Commands σ ε α κ μ} {Start R : σ → μ → Prop} {s : σ} {m : μ}
    (h : C.Run Start s m) (hstart : ∀ s m, Start s m → R s m) (hkeeps : C.Keeps R) : R s m := by
  induction h with
  | start h => exact hstart _ _ h
  | step _ hallowed hrun ih => exact (wp_iff_of_ok hrun).mp (hkeeps _ _ _ ih hallowed)

end Commands

end Program

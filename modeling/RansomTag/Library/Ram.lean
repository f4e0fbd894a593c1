import Mathlib.Tactic.Common
import Mathlib.Tactic.Ring

/-!
# Random-access memory over the natural numbers

A `Ram α` is a total map from addresses to values: a base function together
with the finitely many cells written since.  The written cells are kept in a
binary trie, so that both a read and a write cost the logarithm of the address
when a run of a program is evaluated.
-/

/-- Written cells, keyed by the binary path of the address. -/
inductive Trie (α : Type) where
  | nil
  | node (value : Option α) (left right : Trie α)

namespace Trie

variable {α : Type}

def find? : Trie α → Nat → Option α
  | nil, _ => none
  | node value left right, i =>
      if i = 0 then value
      else if i % 2 = 1 then left.find? (i / 2)
      else right.find? (i / 2 - 1)

def insertFuel : Nat → Trie α → Nat → α → Trie α
  | 0, t, _, _ => t
  | fuel + 1, nil, i, x =>
      if i = 0 then node (some x) nil nil
      else if i % 2 = 1 then node none (insertFuel fuel nil (i / 2) x) nil
      else node none nil (insertFuel fuel nil (i / 2 - 1) x)
  | fuel + 1, node value left right, i, x =>
      if i = 0 then node (some x) left right
      else if i % 2 = 1 then node value (insertFuel fuel left (i / 2) x) right
      else node value left (insertFuel fuel right (i / 2 - 1) x)

def insert (t : Trie α) (i : Nat) (x : α) : Trie α :=
  insertFuel (i + 1) t i x

theorem find?_insertFuel (fuel : Nat) (t : Trie α) (i j : Nat) (x : α)
    (hfuel : i < fuel) :
    (insertFuel fuel t i x).find? j = if j = i then some x else t.find? j := by
  induction fuel generalizing t i j with
  | zero => omega
  | succ fuel ih =>
      -- the three branches of the path: this node, the odd and the even child
      have hodd := fun (s : Trie α) (h : i % 2 = 1) =>
        ih s (i / 2) (j / 2) (by omega)
      have heven := fun (s : Trie α) (h : ¬ i = 0) (_ : ¬ i % 2 = 1) =>
        ih s (i / 2 - 1) (j / 2 - 1) (by omega)
      cases t with
      | nil =>
          by_cases hi : i = 0
          · subst hi
            by_cases hj : j = 0 <;> simp [insertFuel, find?, hj]
          · by_cases hp : i % 2 = 1
            · simp only [insertFuel, hi, hp, if_false, if_true, find?]
              rw [hodd nil hp]
              simp only [find?]
              grind
            · simp only [insertFuel, hi, hp, if_false, find?]
              rw [heven nil hi hp]
              simp only [find?]
              grind
      | node value left right =>
          by_cases hi : i = 0
          · subst hi
            by_cases hj : j = 0 <;> simp [insertFuel, find?, hj]
          · by_cases hp : i % 2 = 1
            · simp only [insertFuel, hi, hp, if_false, if_true, find?]
              rw [hodd left hp]
              grind
            · simp only [insertFuel, hi, hp, if_false, find?]
              rw [heven right hi hp]
              grind

theorem find?_insert (t : Trie α) (i j : Nat) (x : α) :
    (t.insert i x).find? j = if j = i then some x else t.find? j :=
  find?_insertFuel (i + 1) t i j x (Nat.lt_succ_self i)

end Trie

/-- A total memory: `base` where nothing has been written. -/
structure Ram (α : Type) where
  base : Nat → α
  written : Trie α

namespace Ram

variable {α : Type}

def read (m : Ram α) (i : Nat) : α :=
  (m.written.find? i).getD (m.base i)

instance : CoeFun (Ram α) (fun _ => Nat → α) := ⟨read⟩

def ofFn (f : Nat → α) : Ram α := ⟨f, .nil⟩

def const (x : α) : Ram α := ofFn fun _ => x

def set (m : Ram α) (i : Nat) (x : α) : Ram α :=
  { m with written := m.written.insert i x }

instance [Inhabited α] : Inhabited (Ram α) := ⟨const default⟩

@[simp] theorem ofFn_apply (f : Nat → α) (i : Nat) : ofFn f i = f i := rfl

@[simp] theorem const_apply (x : α) (i : Nat) : const x i = x := rfl

theorem set_apply (m : Ram α) (i j : Nat) (x : α) :
    m.set i x j = if j = i then x else m j := by
  unfold set read
  rw [Trie.find?_insert]
  split <;> simp

@[simp] theorem set_same (m : Ram α) (i : Nat) (x : α) : m.set i x i = x := by
  simp [set_apply]

theorem set_other (m : Ram α) {i j : Nat} (x : α) (h : j ≠ i) :
    m.set i x j = m j := by
  simp [set_apply, h]

end Ram

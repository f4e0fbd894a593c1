import Mathlib.Data.List.Chain
import Mathlib.Data.List.Range

/-!
# Lists of ranges

A range is its first number and its length.  A list of numbers falls into runs of
consecutive ones, and no list of ranges that holds it is shorter than their number.
-/

namespace Ranges

/-- The numbers of the ranges, in their order. -/
def expand (rs : List (Nat × Nat)) : List Nat :=
  rs.flatMap fun r => List.range' r.1 r.2

def Positive (rs : List (Nat × Nat)) : Prop :=
  ∀ r ∈ rs, 0 < r.2

/-- No range starts where the one before it ends. -/
def Separated (rs : List (Nat × Nat)) : Prop :=
  rs.IsChain fun r s => s.1 ≠ r.1 + r.2

/-- How many runs a list has: an entry that its successor does not continue ends one. -/
def runCount : List Nat → Nat
  | [] => 0
  | entry :: arr => (if arr.head? = some (entry + 1) then 0 else 1) + runCount arr

variable {r : Nat × Nat} {rs : List (Nat × Nat)} {arr : List Nat}

theorem expand_cons : expand (r :: rs) = List.range' r.1 r.2 ++ expand rs :=
  List.flatMap_cons

theorem Positive.head (h : Positive (r :: rs)) : 0 < r.2 :=
  h r List.mem_cons_self

theorem Positive.tail (h : Positive (r :: rs)) : Positive rs :=
  fun s hs => h s (List.mem_cons_of_mem r hs)

theorem head?_range'_append {first total : Nat} (htotal : 0 < total) :
    (List.range' first total ++ arr).head? = some first := by
  cases total with
  | zero => cases htotal
  | succ n => rw [List.range'_succ, List.cons_append, List.head?_cons]

/-- The list of the ranges starts where the first range does. -/
theorem head?_expand (h : Positive rs) : (expand rs).head? = rs.head?.map Prod.fst := by
  cases rs with
  | nil => rfl
  | cons r rs => rw [expand_cons, head?_range'_append h.head, List.head?_cons, Option.map_some]

theorem separated_cons : Separated (r :: rs) ↔
    rs.head?.map Prod.fst ≠ some (r.1 + r.2) ∧ Separated rs := by
  cases rs with
  | nil =>
      have hempty : (([] : List (Nat × Nat)).head?.map Prod.fst) ≠ some (r.1 + r.2) :=
        Option.some_ne_none _ ∘ Eq.symm
      exact ⟨fun _ => ⟨hempty, List.isChain_nil⟩, fun _ => List.isChain_singleton r⟩
  | cons s rs =>
      unfold Separated
      simp only [List.isChain_cons_cons, List.head?_cons, Option.map_some, ne_eq, Option.some_inj]

/-- A range is one run, unless the list behind it continues it. -/
theorem runCount_range'_append {first total : Nat} (htotal : 0 < total) :
    runCount (List.range' first total ++ arr) =
      (if arr.head? = some (first + total) then 0 else 1) + runCount arr := by
  induction total generalizing first with
  | zero => cases htotal
  | succ n ih =>
      rw [List.range'_succ, List.cons_append, runCount]
      cases n with
      | zero => rfl
      | succ n =>
          have hnext : first + 1 + (n + 1) = first + (n + 1 + 1) := by omega
          rw [head?_range'_append (Nat.succ_pos n), if_pos rfl, ih (Nat.succ_pos n), hnext,
            Nat.zero_add]

theorem runCount_expand_cons (h : Positive (r :: rs)) :
    runCount (expand (r :: rs)) =
      (if rs.head?.map Prod.fst = some (r.1 + r.2) then 0 else 1) + runCount (expand rs) := by
  rw [expand_cons, runCount_range'_append h.head, head?_expand h.tail]

/-- Ranges that are not empty are at least as many as the runs of their list. -/
theorem runCount_expand_le (h : Positive rs) : runCount (expand rs) ≤ rs.length := by
  induction rs with
  | nil => exact le_rfl
  | cons r rs ih =>
      have hrest := ih h.tail
      rw [runCount_expand_cons h, List.length_cons]
      split_ifs <;> omega

/-- They are exactly as many where none continues the one before it. -/
theorem runCount_expand_eq_iff (h : Positive rs) :
    runCount (expand rs) = rs.length ↔ Separated rs := by
  induction rs with
  | nil => exact ⟨fun _ => List.isChain_nil, fun _ => rfl⟩
  | cons r rs ih =>
      have hrest := ih h.tail
      have hle := runCount_expand_le h.tail
      rw [runCount_expand_cons h, List.length_cons, separated_cons, ← hrest]
      split_ifs with hjoin
      · exact ⟨fun heq => by omega, fun hsep => absurd hjoin hsep.1⟩
      · exact ⟨fun heq => ⟨hjoin, by omega⟩, fun hsep => by omega⟩

/-- No list of ranges with the same numbers is shorter than a separated one. -/
theorem Separated.length_le (hsep : Separated rs) (hpos : Positive rs)
    {rs' : List (Nat × Nat)} (hpos' : Positive rs') (hexpand : expand rs' = expand rs) :
    rs.length ≤ rs'.length :=
  calc rs.length = runCount (expand rs) := ((runCount_expand_eq_iff hpos).mpr hsep).symm
    _ = runCount (expand rs') := by rw [hexpand]
    _ ≤ rs'.length := runCount_expand_le hpos'

end Ranges

import RansomTag.Library.Ranges
import RansomTag.Recovery.Ext4Chunks

/-!
# The ranges of a list of block numbers

`join_ranges` gathers the neighbours of a list of block numbers, and returns the
runs of the list: the shortest list of ranges that holds its entries in their order.
-/

namespace RansomTag

open Ranges

variable {arr : List Nat} {rs : List (Nat × Nat)} {r : Nat × Nat}

theorem expand_joinRanges (arr : List Nat) : expand (joinRanges arr) = arr :=
  flatMap_joinRanges arr

theorem joinFrom_pos {lastFrom lastTo : Nat} :
    ∀ r ∈ joinFrom lastFrom lastTo arr, 0 < r.2 := by
  induction arr generalizing lastFrom lastTo with
  | nil =>
      intro r hr
      rw [joinFrom, List.mem_singleton] at hr
      rw [hr]
      exact Nat.succ_pos _
  | cons entry arr ih =>
      rw [joinFrom]
      split_ifs with hnext
      · exact ih
      · exact List.forall_mem_cons.mpr ⟨Nat.succ_pos _, ih⟩

theorem joinRanges_pos : ∀ r ∈ joinRanges arr, 0 < r.2 := by
  cases arr with
  | nil => exact fun r hr => absurd hr List.not_mem_nil
  | cons entry arr => exact joinFrom_pos

/-- The pending range is committed with the start it was opened with. -/
theorem head?_joinFrom {lastFrom lastTo : Nat} :
    (joinFrom lastFrom lastTo arr).head?.map Prod.fst = some lastFrom := by
  induction arr generalizing lastTo with
  | nil => rfl
  | cons entry arr ih =>
      rw [joinFrom]
      split_ifs with hnext
      · exact ih
      · rfl

/-- A range is committed at an entry that does not continue it. -/
theorem joinFrom_separated {lastFrom lastTo : Nat} (h : lastFrom ≤ lastTo) :
    Separated (joinFrom lastFrom lastTo arr) := by
  induction arr generalizing lastFrom lastTo with
  | nil => exact List.isChain_singleton _
  | cons entry arr ih =>
      rw [joinFrom]
      split_ifs with hnext
      · exact ih (by omega)
      · rw [separated_cons, head?_joinFrom, ne_eq, Option.some_inj]
        exact ⟨by omega, ih le_rfl⟩

theorem joinRanges_separated (arr : List Nat) : Separated (joinRanges arr) := by
  cases arr with
  | nil => exact List.isChain_nil
  | cons entry arr => exact joinFrom_separated le_rfl

/-- The rest of a range is taken up by the pending one. -/
theorem joinFrom_range'_append {lastFrom lastTo n : Nat} :
    joinFrom lastFrom lastTo (List.range' (lastTo + 1) n ++ arr) =
      joinFrom lastFrom (lastTo + n) arr := by
  induction n generalizing lastTo with
  | zero => rfl
  | succ n ih =>
      have hnext : lastTo + 1 + n = lastTo + (n + 1) := by omega
      rw [List.range'_succ, List.cons_append, joinFrom, if_pos rfl, ih, hnext]

/-- At an entry that does not continue it, the pending range is done. -/
theorem joinFrom_eq_cons {lastFrom lastTo : Nat} (h : arr.head? ≠ some (lastTo + 1)) :
    joinFrom lastFrom lastTo arr = (lastFrom, lastTo - lastFrom + 1) :: joinRanges arr := by
  cases arr with
  | nil => rfl
  | cons entry arr =>
      have hnext : entry ≠ lastTo + 1 := by
        rintro rfl
        exact h rfl
      rw [joinFrom, if_neg hnext, joinRanges]

/-- Ranges that are not empty and that no range continues are what `join_ranges` returns
for their numbers. -/
theorem joinRanges_expand (hpos : Positive rs) (hsep : Separated rs) :
    joinRanges (expand rs) = rs := by
  induction rs with
  | nil => rfl
  | cons r rs ih =>
      rcases r with ⟨first, total⟩
      rw [separated_cons, ← head?_expand hpos.tail] at hsep
      cases total with
      | zero => exact absurd hpos.head (lt_irrefl 0)
      | succ n =>
          have hlast : (expand rs).head? ≠ some (first + n + 1) := hsep.1
          have htotal : first + n - first + 1 = n + 1 := by omega
          rw [expand_cons, List.range'_succ, List.cons_append, joinRanges,
            joinFrom_range'_append, joinFrom_eq_cons hlast, htotal, ih hpos.tail hsep.2]

/-- **Range joining.** The ranges of a list are not empty, hold its entries in their order,
and none starts where the one before it ends; no list of ranges with these entries is
shorter, and joining the entries of the ranges gives the ranges again. -/
theorem joinRanges_spec (arr : List Nat) :
    Positive (joinRanges arr) ∧
      expand (joinRanges arr) = arr ∧
      Separated (joinRanges arr) ∧
      (∀ rs, Positive rs → expand rs = arr → (joinRanges arr).length ≤ rs.length) ∧
      joinRanges (expand (joinRanges arr)) = joinRanges arr := by
  have hpos : Positive (joinRanges arr) := joinRanges_pos
  have hsep := joinRanges_separated arr
  have hexpand := expand_joinRanges arr
  refine ⟨hpos, hexpand, hsep, fun rs hrs heq => ?_, joinRanges_expand hpos hsep⟩
  exact hsep.length_le hpos hrs (heq.trans hexpand.symm)

end RansomTag

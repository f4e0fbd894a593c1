import RansomTag.Ftl.Words
import Mathlib.Data.List.InsertIdx
import Mathlib.Data.Multiset.AddSub
import Mathlib.Data.Multiset.Filter
import Mathlib.Data.Multiset.OrderedMonoid

/-!
# The table of free blocks

`INDEX_FreeBlock_Get` and `INDEX_FreeBlock_Put` of `ubi_index.c` over the two
arrays `free_block_table` and `free_block_ect`, which are always written
together.  How each erase of a block ends is a parameter: any of them may fail.
-/

namespace RansomTag

@[simp, reducible] def invalidEc : Nat := 4294967295

/-- `FREE_BLOCK_COUNT` and `TOTAL_DIE_COUNT`. -/
class FreeBlockGeometry where
  freeBlockCount : Nat
  two_le : 2 ≤ freeBlockCount
  totalDieCount : Nat

export FreeBlockGeometry (freeBlockCount totalDieCount)

/-- The index page of `K9WAG08`. -/
@[reducible] def k9wag08Index : FreeBlockGeometry where
  freeBlockCount := 253
  two_le := by decide
  totalDieCount := 1

/-- An entry of `free_block_table` with its entry of `free_block_ect`. -/
structure FreeBlock where
  block : Nat
  ec : Nat
  deriving DecidableEq, Repr

/-- An empty entry. -/
def FreeBlock.invalid : FreeBlock := ⟨invalidBlock, invalidEc⟩

abbrev FreeTable := Nat → FreeBlock

/-- `INDEX_Format`: the blocks that are left, and empty entries. -/
def indexFormat (blocks : List Nat) : FreeTable := fun i =>
  match blocks[i]? with
  | some block => ⟨block, 0⟩
  | none => .invalid

section

variable [FreeBlockGeometry]

/-! ## `INDEX_FreeBlock_Put` -/

/-- The loop from `i` down: every entry of a larger count moves up by one. -/
def putLoop (ec : Nat) : Nat → FreeTable → Nat × FreeTable
  | 0, t => (0, t)
  | i + 1, t =>
      if (t (i + 1)).ec > ec then putLoop ec i (Function.update t (i + 2) (t (i + 1)))
      else (i + 1, t)

def freeBlockPut (t : FreeTable) (dirty : FreeBlock) : FreeTable :=
  let (i, t) := putLoop dirty.ec (freeBlockCount - 2) t
  if i > 0 then Function.update t (i + 1) dirty
  else if (t 0).ec > dirty.ec then Function.update (Function.update t 1 (t 0)) 0 dirty
  else Function.update t 1 dirty

/-- The same, with the loop starting at `n`. -/
def putFrom (n : Nat) (t : FreeTable) (dirty : FreeBlock) : FreeTable :=
  let (i, t) := putLoop dirty.ec n t
  if i > 0 then Function.update t (i + 1) dirty
  else if (t 0).ec > dirty.ec then Function.update (Function.update t 1 (t 0)) 0 dirty
  else Function.update t 1 dirty

theorem freeBlockPut_eq (t : FreeTable) (dirty : FreeBlock) :
    freeBlockPut t dirty = putFrom (freeBlockCount - 2) t dirty := rfl

/-! ## `INDEX_FreeBlock_Get` -/

/-- The first entry from `i` on, `n` of them, that lies in the die;
`FREE_BLOCK_COUNT` if an empty entry or the end comes first. -/
def freeBlockSearch (t : FreeTable) (die : Nat) : Nat → Nat → Nat
  | 0, _ => freeBlockCount
  | n + 1, i =>
      if (t i).block = invalidBlock then freeBlockCount
      else if (t i).block % totalDieCount = die then i
      else freeBlockSearch t die n (i + 1)

/-- The `n` entries behind `i` move down by one. -/
def moveForward : Nat → Nat → FreeTable → FreeTable
  | 0, _, t => t
  | n + 1, i, t => moveForward n (i + 1) (Function.update t i (t (i + 1)))

def discardEntry (t : FreeTable) (i : Nat) : FreeTable :=
  Function.update (moveForward (freeBlockCount - 1 - i) i t) (freeBlockCount - 1) .invalid

inductive GetStatus where
  | success
  | tooManyBadBlock
  deriving DecidableEq, Repr

/-- What `INDEX_FreeBlock_Get` leaves: `ec` stays unset when it fails, and
`discarded` are the entries whose block went to `ANCHOR_LogBadBlock`. -/
structure GetResult where
  status : GetStatus
  block : Nat
  ec : Option Nat
  discarded : List FreeBlock
  table : FreeTable

/-- The `do` loop; `erase k block` says how the `k`-th `MTD_Erase` from here on ends,
if it is of this block. -/
def freeBlockGetLoop (die : Nat) : Nat → (Nat → Nat → Bool) → FreeTable → Option GetResult
  | 0, _, _ => none
  | fuel + 1, erase, t =>
      let i := freeBlockSearch t die freeBlockCount 0
      -- no block in the same die: the first of all
      let i := if i = freeBlockCount then 0 else i
      if (t i).block = invalidBlock then some ⟨.tooManyBadBlock, invalidBlock, none, [], t⟩
      else if erase 0 (t i).block then
        some ⟨.success, (t i).block, some (((t i).ec + 1) % 4294967296), [], discardEntry t i⟩
      else
        (freeBlockGetLoop die fuel (fun k => erase (k + 1)) (discardEntry t i)).map fun r =>
          { r with discarded := t i :: r.discarded }

def freeBlockGet (t : FreeTable) (die : Nat) (erase : Nat → Nat → Bool) :
    Option GetResult :=
  freeBlockGetLoop (die % totalDieCount) (freeBlockCount + 1) erase t

/-! ## What one call does to the arrays -/

omit [FreeBlockGeometry] in
theorem putLoop_spec (ec i : Nat) (t : FreeTable) :
    (putLoop ec i t).1 ≤ i ∧
      (∀ x, (putLoop ec i t).1 < x → x ≤ i → ec < (t x).ec) ∧
      (0 < (putLoop ec i t).1 → (t (putLoop ec i t).1).ec ≤ ec) ∧
      ∀ y, (putLoop ec i t).2 y =
        if (putLoop ec i t).1 + 1 < y ∧ y ≤ i + 1 then t (y - 1) else t y := by
  induction i generalizing t with
  | zero =>
      refine ⟨le_rfl, fun x hlt hle => ?_, fun h => ?_, fun y => ?_⟩
      · simp only [putLoop] at hlt
        omega
      · exact absurd h (Nat.lt_irrefl 0)
      · have hzero : (putLoop ec 0 t).1 = 0 := rfl
        rw [hzero, if_neg (by omega)]
        rfl
  | succ i ih =>
      rw [putLoop]
      by_cases hgt : (t (i + 1)).ec > ec
      · rw [if_pos hgt]
        obtain ⟨hle, hlarger, hstop, htable⟩ :=
          ih (Function.update t (i + 2) (t (i + 1)))
        generalize putLoop ec i (Function.update t (i + 2) (t (i + 1))) = r at *
        have hsame : ∀ x, x ≤ i + 1 → Function.update t (i + 2) (t (i + 1)) x = t x :=
          fun x hx => Function.update_of_ne (by omega) _ _
        refine ⟨by omega, fun x hlt hx => ?_, fun hpos => ?_, fun y => ?_⟩
        · rcases Nat.lt_or_eq_of_le hx with hx | rfl
          · have := hlarger x hlt (by omega)
            rwa [hsame x (by omega)] at this
          · exact hgt
        · have := hstop hpos
          rwa [hsame r.1 (by omega)] at this
        · rw [htable y]
          by_cases hy : y = i + 2
          · subst hy
            rw [if_neg (by omega), Function.update_self, if_pos (by omega)]
            rfl
          · by_cases hmoved : r.1 + 1 < y ∧ y ≤ i + 1
            · rw [if_pos hmoved, if_pos (by omega), hsame _ (by omega)]
            · rw [if_neg hmoved, if_neg (by omega), Function.update_of_ne hy]
      · rw [if_neg hgt]
        refine ⟨le_rfl, fun x hlt hle => ?_, fun _ => ?_, fun y => ?_⟩
        · simp only at hlt
          omega
        · exact Nat.le_of_not_lt hgt
        · rw [if_neg (by simp only; omega)]

omit [FreeBlockGeometry] in
/-- The entry goes behind the last one up to `n` of a smaller or equal count, and those behind
it move up by one. -/
theorem putFrom_spec (n : Nat) (t : FreeTable) (dirty : FreeBlock) :
    ∃ j ≤ n + 1, (0 < j → (t (j - 1)).ec ≤ dirty.ec) ∧
      (∀ x, j ≤ x → x ≤ n → dirty.ec < (t x).ec) ∧
      ∀ y, putFrom n t dirty y =
        if y < j then t y else if y = j then dirty else if y ≤ n + 1 then t (y - 1) else t y := by
  obtain ⟨hle, hlarger, hstop, htable⟩ := putLoop_spec dirty.ec n t
  unfold putFrom
  generalize putLoop dirty.ec n t = r at *
  obtain ⟨k, t'⟩ := r
  simp only at hle hlarger hstop htable ⊢
  by_cases hk : k > 0
  · rw [if_pos hk]
    refine ⟨k + 1, by omega, fun _ => hstop hk, fun x hx hlt => hlarger x (by omega) (by omega),
      fun y => ?_⟩
    by_cases hyk : y = k + 1
    · rw [hyk, Function.update_self, if_neg (by omega), if_pos rfl]
    · rw [Function.update_of_ne hyk, htable y]
      by_cases hlt : y < k + 1
      · rw [if_neg (by omega), if_pos hlt]
      · rw [if_neg hlt, if_neg hyk]
        by_cases hin : y ≤ n + 1
        · rw [if_pos (by omega), if_pos hin]
        · rw [if_neg (by omega), if_neg hin]
  · obtain rfl : k = 0 := by omega
    have hzero : t' 0 = t 0 := by rw [htable 0, if_neg (by omega)]
    have hbehind : ∀ y, 1 < y → t' y = if y ≤ n + 1 then t (y - 1) else t y := by
      intro y hy
      rw [htable y]
      by_cases hin : y ≤ n + 1
      · rw [if_pos (by omega), if_pos hin]
      · rw [if_neg (by omega), if_neg hin]
    rw [if_neg hk, hzero]
    by_cases hfirst : (t 0).ec > dirty.ec
    · rw [if_pos hfirst]
      refine ⟨0, by omega, fun h => absurd h (Nat.lt_irrefl 0), fun x _ hlt => ?_, fun y => ?_⟩
      · rcases Nat.eq_zero_or_pos x with rfl | hx
        · exact hfirst
        · exact hlarger x hx (by omega)
      · rw [if_neg (Nat.not_lt_zero y)]
        by_cases hy0 : y = 0
        · rw [hy0, Function.update_self, if_pos rfl]
        · rw [Function.update_of_ne hy0, if_neg hy0]
          by_cases hy1 : y = 1
          · rw [hy1, Function.update_self, if_pos (by omega)]
          · rw [Function.update_of_ne hy1, hbehind y (by omega)]
    · rw [if_neg hfirst]
      refine ⟨1, by omega, fun _ => Nat.le_of_not_lt hfirst,
        fun x hx hlt => hlarger x (by omega) (by omega), fun y => ?_⟩
      by_cases hy1 : y = 1
      · rw [hy1, Function.update_self, if_neg (Nat.lt_irrefl 1), if_pos rfl]
      · rw [Function.update_of_ne hy1]
        by_cases hy0 : y < 1
        · obtain rfl : y = 0 := by omega
          rw [if_pos hy0, hzero]
        · rw [if_neg hy0, if_neg hy1, hbehind y (by omega)]

/-- A put inserts the entry behind the last one of a smaller or equal count,
and the last entry of the table falls out. -/
theorem freeBlockPut_spec (t : FreeTable) (dirty : FreeBlock) :
    ∃ j, j < freeBlockCount ∧ (0 < j → (t (j - 1)).ec ≤ dirty.ec) ∧
      (∀ x, j ≤ x → x + 1 < freeBlockCount → dirty.ec < (t x).ec) ∧
      ∀ y < freeBlockCount, freeBlockPut t dirty y =
        if y < j then t y else if y = j then dirty else t (y - 1) := by
  have hcount := FreeBlockGeometry.two_le
  obtain ⟨j, hj, hbefore, hafter, htable⟩ := putFrom_spec (freeBlockCount - 2) t dirty
  refine ⟨j, by omega, hbefore, fun x hx hlt => hafter x hx (by omega), fun y hy => ?_⟩
  rw [freeBlockPut_eq, htable y, if_pos (by omega : y ≤ freeBlockCount - 2 + 1)]

omit [FreeBlockGeometry] in
theorem moveForward_apply (n i : Nat) (t : FreeTable) (y : Nat) :
    moveForward n i t y = if i ≤ y ∧ y < i + n then t (y + 1) else t y := by
  induction n generalizing i t with
  | zero =>
      rw [if_neg (by omega)]
      rfl
  | succ n ih =>
      rw [moveForward, ih]
      by_cases hy : y = i
      · rw [hy, if_neg (by omega), Function.update_self, if_pos (by omega)]
      · rw [Function.update_of_ne hy]
        by_cases hin : i + 1 ≤ y ∧ y < i + 1 + n
        · rw [if_pos hin, if_pos (by omega), Function.update_of_ne (by omega)]
        · rw [if_neg hin, if_neg (by omega)]

theorem discardEntry_apply {i : Nat} (hi : i < freeBlockCount) (t : FreeTable) (y : Nat)
    (hy : y < freeBlockCount) :
    discardEntry t i y =
      if y = freeBlockCount - 1 then .invalid else if y < i then t y else t (y + 1) := by
  unfold discardEntry
  by_cases hlast : y = freeBlockCount - 1
  · rw [hlast, Function.update_self, if_pos rfl]
  · rw [Function.update_of_ne hlast, if_neg hlast, moveForward_apply]
    by_cases hlt : y < i
    · rw [if_neg (by omega), if_pos hlt]
    · rw [if_pos (by omega), if_neg hlt]

/-! ## The list of free blocks -/

/-- The table holds the list `l` of free blocks: they fill its front, sorted by
their counts, and the entry behind them is empty. -/
structure Represents (t : FreeTable) (l : List FreeBlock) : Prop where
  fits : l.length ≤ freeBlockCount
  entry : ∀ i < l.length, l[i]? = some (t i)
  block : ∀ i < l.length, (t i).block ≠ invalidBlock
  ec : ∀ i < l.length, (t i).ec < invalidEc
  sorted : ∀ i j, i ≤ j → j < l.length → (t i).ec ≤ (t j).ec
  rest : ∀ i, l.length ≤ i → i < freeBlockCount → (t i).ec = invalidEc
  stop : l.length < freeBlockCount → (t l.length).block = invalidBlock

/-- What `Represents` says of the entries in use. -/
structure FrontHolds (t : FreeTable) (l : List FreeBlock) : Prop where
  entry : ∀ i < l.length, l[i]? = some (t i)
  block : ∀ i < l.length, (t i).block ≠ invalidBlock
  ec : ∀ i < l.length, (t i).ec < invalidEc
  sorted : ∀ i j, i ≤ j → j < l.length → (t i).ec ≤ (t j).ec

namespace FrontHolds

variable {t t' : FreeTable} {l : List FreeBlock}

omit [FreeBlockGeometry]

/-- A block inserted between the smaller and the larger counts. -/
theorem inserted (h : FrontHolds t l) {dirty : FreeBlock} {j : Nat} (hj : j ≤ l.length)
    (hlow : ∀ i < j, t' i = t i) (hat : t' j = dirty)
    (hhigh : ∀ i, j < i → i ≤ l.length → t' i = t (i - 1))
    (hbefore : 0 < j → (t (j - 1)).ec ≤ dirty.ec)
    (hafter : ∀ i, j ≤ i → i < l.length → dirty.ec ≤ (t i).ec)
    (hblock : dirty.block ≠ invalidBlock) (hec : dirty.ec < invalidEc) :
    FrontHolds t' (l.insertIdx j dirty) := by
  have hlength : (l.insertIdx j dirty).length = l.length + 1 :=
    List.length_insertIdx_of_le_length hj dirty
  have hbelow : ∀ i, i < j → (t i).ec ≤ dirty.ec := by
    intro i hi
    exact (h.sorted i (j - 1) (by omega) (by omega)).trans (hbefore (by omega))
  constructor
  · intro i hi
    rw [hlength] at hi
    rw [List.getElem?_insertIdx]
    by_cases hij : i < j
    · rw [if_pos hij, hlow i hij]
      exact h.entry i (by omega)
    · rw [if_neg hij]
      by_cases heq : i = j
      · rw [if_pos heq, if_pos (by omega), heq, hat]
      · rw [if_neg heq, hhigh i (by omega) (by omega)]
        exact h.entry (i - 1) (by omega)
  · intro i hi
    rw [hlength] at hi
    rcases Nat.lt_trichotomy i j with hij | rfl | hij
    · rw [hlow i hij]
      exact h.block i (by omega)
    · rw [hat]
      exact hblock
    · rw [hhigh i hij (by omega)]
      exact h.block (i - 1) (by omega)
  · intro i hi
    rw [hlength] at hi
    rcases Nat.lt_trichotomy i j with hij | rfl | hij
    · rw [hlow i hij]
      exact h.ec i (by omega)
    · rw [hat]
      exact hec
    · rw [hhigh i hij (by omega)]
      exact h.ec (i - 1) (by omega)
  · intro a b hab hb
    rw [hlength] at hb
    rcases Nat.lt_trichotomy b j with hbj | rfl | hbj
    · rw [hlow a (by omega), hlow b hbj]
      exact h.sorted a b hab (by omega)
    · rw [hat]
      rcases Nat.lt_or_eq_of_le hab with hlt | rfl
      · rw [hlow a hlt]
        exact hbelow a hlt
      · rw [hat]
    · rw [hhigh b hbj (by omega)]
      rcases Nat.lt_trichotomy a j with haj | rfl | haj
      · rw [hlow a haj]
        exact h.sorted a (b - 1) (by omega) (by omega)
      · rw [hat]
        exact hafter (b - 1) (by omega) (by omega)
      · rw [hhigh a haj (by omega)]
        exact h.sorted (a - 1) (b - 1) (by omega) (by omega)

theorem dropLast (h : FrontHolds t l) : FrontHolds t l.dropLast := by
  have hlength : l.dropLast.length = l.length - 1 := List.length_dropLast
  constructor
  · intro i hi
    rw [List.getElem?_dropLast, if_pos (by omega)]
    exact h.entry i (by omega)
  · exact fun i hi => h.block i (by omega)
  · exact fun i hi => h.ec i (by omega)
  · exact fun i j hij hj => h.sorted i j hij (by omega)

end FrontHolds

namespace Represents

variable {t : FreeTable} {l : List FreeBlock}

theorem ec_le (h : Represents t l) {i : Nat} (hi : i < freeBlockCount) :
    (t i).ec ≤ invalidEc := by
  by_cases hlt : i < l.length
  · exact (h.ec i hlt).le
  · exact (h.rest i (Nat.le_of_not_lt hlt) hi).le

theorem front (h : Represents t l) : FrontHolds t l :=
  ⟨h.entry, h.block, h.ec, h.sorted⟩

/-- A put of a block with a count finds its place in the list. -/
theorem put (h : Represents t l) {dirty : FreeBlock} (hroom : l.length < freeBlockCount)
    (hblock : dirty.block ≠ invalidBlock) (hec : dirty.ec < invalidEc) :
    ∃ j ≤ l.length, Represents (freeBlockPut t dirty) (l.insertIdx j dirty) := by
  obtain ⟨j, hj, hbefore, hafter, htable⟩ := freeBlockPut_spec t dirty
  have hjl : j ≤ l.length := by
    by_contra hlt
    have hle := hbefore (by omega)
    rw [h.rest (j - 1) (by omega) (by omega)] at hle
    omega
  have hlength : (l.insertIdx j dirty).length = l.length + 1 :=
    List.length_insertIdx_of_le_length hjl dirty
  have hhigh : ∀ i, j < i → i < freeBlockCount → freeBlockPut t dirty i = t (i - 1) := by
    intro i hi hlt
    rw [htable i hlt, if_neg (by omega), if_neg (by omega)]
  have hfront : FrontHolds (freeBlockPut t dirty) (l.insertIdx j dirty) := by
    refine h.front.inserted hjl (fun i hi => ?_) ?_ (fun i hi hlt => hhigh i hi (by omega))
      hbefore (fun i hi hlt => (hafter i hi (by omega)).le) hblock hec
    · rw [htable i (by omega), if_pos hi]
    · rw [htable j hj, if_neg (Nat.lt_irrefl j), if_pos rfl]
  refine ⟨j, hjl, by omega, hfront.entry, hfront.block, hfront.ec, hfront.sorted, ?_, ?_⟩
  · intro i hi hlt
    rw [hlength] at hi
    rw [hhigh i (by omega) hlt]
    exact h.rest (i - 1) (by omega) (by omega)
  · intro hlt
    rw [hlength] at hlt ⊢
    rw [hhigh (l.length + 1) (by omega) hlt]
    exact h.stop hroom

/-- An insertion that starts before the last block of the list replaces that block. -/
theorem putFrom (h : Represents t l) {dirty : FreeBlock} (htwo : 2 ≤ l.length)
    (hblock : dirty.block ≠ invalidBlock) (hec : dirty.ec < invalidEc) :
    ∃ j ≤ l.length - 1, Represents (putFrom (l.length - 2) t dirty)
      (l.dropLast.insertIdx j dirty) := by
  have hfits := h.fits
  have hdrop : l.dropLast.length = l.length - 1 := List.length_dropLast
  obtain ⟨j, hj, hbefore, hafter, htable⟩ := putFrom_spec (l.length - 2) t dirty
  have hjl : j ≤ l.dropLast.length := by omega
  have hlength : (l.dropLast.insertIdx j dirty).length = l.length := by
    rw [List.length_insertIdx_of_le_length hjl dirty]
    omega
  have hrest : ∀ i, l.length ≤ i → RansomTag.putFrom (l.length - 2) t dirty i = t i := by
    intro i hi
    rw [htable i, if_neg (by omega), if_neg (by omega), if_neg (by omega)]
  have hfront : FrontHolds (RansomTag.putFrom (l.length - 2) t dirty)
      (l.dropLast.insertIdx j dirty) := by
    refine h.front.dropLast.inserted hjl (fun i hi => ?_) ?_ (fun i hi hlt => ?_) hbefore
      (fun i hi hlt => (hafter i hi (by omega)).le) hblock hec
    · rw [htable i, if_pos hi]
    · rw [htable j, if_neg (Nat.lt_irrefl j), if_pos rfl]
    · rw [htable i, if_neg (by omega), if_neg (by omega), if_pos (by omega)]
  refine ⟨j, by omega, by omega, hfront.entry, hfront.block, hfront.ec, hfront.sorted, ?_, ?_⟩
  · intro i hi hlt
    rw [hlength] at hi
    rw [hrest i hi]
    exact h.rest i hi hlt
  · intro hlt
    rw [hlength] at hlt ⊢
    rw [hrest l.length le_rfl]
    exact h.stop hlt

/-- A put without a count lands in the last entry; with an empty entry before
it nothing else changes. -/
theorem put_invalidEc (h : Represents t l) {dirty : FreeBlock} (hec : dirty.ec = invalidEc)
    (hroom : l.length + 2 ≤ freeBlockCount) : Represents (freeBlockPut t dirty) l := by
  obtain ⟨j, hj, hbefore, hafter, htable⟩ := freeBlockPut_spec t dirty
  have hlast : j = freeBlockCount - 1 := by
    by_contra hne
    have hlt := hafter j le_rfl (by omega)
    have hle := h.ec_le hj
    omega
  have hlow : ∀ i, i + 1 < freeBlockCount → freeBlockPut t dirty i = t i := by
    intro i hi
    rw [htable i (by omega), if_pos (by omega)]
  constructor
  · exact h.fits
  · intro i hi
    rw [hlow i (by omega)]
    exact h.entry i hi
  · intro i hi
    rw [hlow i (by omega)]
    exact h.block i hi
  · intro i hi
    rw [hlow i (by omega)]
    exact h.ec i hi
  · intro a b hab hb
    rw [hlow a (by omega), hlow b (by omega)]
    exact h.sorted a b hab hb
  · intro i hi hlt
    by_cases hi' : i + 1 < freeBlockCount
    · rw [hlow i hi']
      exact h.rest i hi hlt
    · obtain rfl : i = j := by omega
      rw [htable i hlt, if_neg (Nat.lt_irrefl i), if_pos rfl, hec]
  · intro _
    rw [hlow l.length (by omega)]
    exact h.stop (by omega)

/-- An entry that is taken out leaves the others in their order. -/
theorem discard (h : Represents t l) {i : Nat} (hi : i < l.length) :
    Represents (discardEntry t i) (l.eraseIdx i) := by
  have hfits := h.fits
  have htable := fun y hy => discardEntry_apply (t := t) (y := y) (i := i) (by omega) hy
  have hlength : (l.eraseIdx i).length = l.length - 1 := List.length_eraseIdx_of_lt hi
  have hlow : ∀ y, y < i → discardEntry t i y = t y := by
    intro y hy
    rw [htable y (by omega), if_neg (by omega), if_pos hy]
  have hhigh : ∀ y, i ≤ y → y + 1 < freeBlockCount → discardEntry t i y = t (y + 1) := by
    intro y hy hlt
    rw [htable y (by omega), if_neg (by omega), if_neg (by omega)]
  constructor
  · omega
  · intro y hy
    rw [hlength] at hy
    rw [List.getElem?_eraseIdx]
    by_cases hyi : y < i
    · rw [if_pos hyi, hlow y hyi]
      exact h.entry y (by omega)
    · rw [if_neg hyi, hhigh y (by omega) (by omega)]
      exact h.entry (y + 1) (by omega)
  · intro y hy
    rw [hlength] at hy
    by_cases hyi : y < i
    · rw [hlow y hyi]
      exact h.block y (by omega)
    · rw [hhigh y (by omega) (by omega)]
      exact h.block (y + 1) (by omega)
  · intro y hy
    rw [hlength] at hy
    by_cases hyi : y < i
    · rw [hlow y hyi]
      exact h.ec y (by omega)
    · rw [hhigh y (by omega) (by omega)]
      exact h.ec (y + 1) (by omega)
  · intro a b hab hb
    rw [hlength] at hb
    by_cases hbi : b < i
    · rw [hlow a (by omega), hlow b hbi]
      exact h.sorted a b hab (by omega)
    · rw [hhigh b (by omega) (by omega)]
      by_cases hai : a < i
      · rw [hlow a hai]
        exact h.sorted a (b + 1) (by omega) (by omega)
      · rw [hhigh a (by omega) (by omega)]
        exact h.sorted (a + 1) (b + 1) (by omega) (by omega)
  · intro y hy hlt
    rw [hlength] at hy
    by_cases hlast : y = freeBlockCount - 1
    · rw [htable y hlt, if_pos hlast]
      rfl
    · rw [hhigh y (by omega) (by omega)]
      exact h.rest (y + 1) (by omega) (by omega)
  · intro hlt
    rw [hlength] at hlt ⊢
    by_cases hfull : l.length = freeBlockCount
    · rw [htable _ (by omega), if_pos (by omega)]
      rfl
    · rw [hhigh _ (by omega) (by omega), Nat.sub_add_cancel (by omega)]
      exact h.stop (by omega)

theorem format {blocks : List Nat} (hfits : blocks.length ≤ freeBlockCount)
    (hblocks : ∀ b ∈ blocks, b ≠ invalidBlock) :
    Represents (indexFormat blocks) (blocks.map fun b => ⟨b, 0⟩) := by
  have hin : ∀ i (hi : i < blocks.length), indexFormat blocks i = ⟨blocks[i], 0⟩ := by
    intro i hi
    rw [indexFormat, List.getElem?_eq_getElem hi]
  have hout : ∀ i, blocks.length ≤ i → indexFormat blocks i = .invalid := by
    intro i hi
    rw [indexFormat, List.getElem?_eq_none hi]
  constructor
  · rw [List.length_map]
    exact hfits
  · intro i hi
    rw [List.length_map] at hi
    rw [List.getElem?_map, List.getElem?_eq_getElem hi, hin i hi]
    rfl
  · intro i hi
    rw [List.length_map] at hi
    rw [hin i hi]
    exact hblocks _ (List.getElem_mem hi)
  · intro i hi
    rw [List.length_map] at hi
    rw [hin i hi]
    exact Nat.zero_lt_succ 4294967294
  · intro a b hab hb
    rw [List.length_map] at hb
    rw [hin a (by omega), hin b hb]
  · intro i hi _
    rw [List.length_map] at hi
    rw [hout i hi]
    rfl
  · intro _
    rw [List.length_map, hout _ le_rfl]
    rfl

theorem mem_iff (h : Represents t l) (e : FreeBlock) :
    e ∈ l ↔ ∃ i < l.length, t i = e := by
  rw [List.mem_iff_getElem?]
  constructor
  · rintro ⟨i, hi⟩
    have hlt : i < l.length := (List.getElem?_eq_some_iff.mp hi).1
    rw [h.entry i hlt] at hi
    exact ⟨i, hlt, Option.some.inj hi⟩
  · rintro ⟨i, hi, rfl⟩
    exact ⟨i, h.entry i hi⟩

end Represents

/-! ## Which block is handed out -/

/-- `e` has the least count among the free blocks of the die, of all dice if
none is free there. -/
structure LeastOfDie (die : Nat) (free : Multiset FreeBlock) (e : FreeBlock) : Prop where
  mem : e ∈ free
  inDie : ∀ e' ∈ free, e'.block % totalDieCount = die →
    e.block % totalDieCount = die ∧ e.ec ≤ e'.ec
  otherwise : (∀ e' ∈ free, e'.block % totalDieCount ≠ die) → ∀ e' ∈ free, e.ec ≤ e'.ec

section

variable {t : FreeTable} {l : List FreeBlock}

theorem freeBlockSearch_spec (h : Represents t l) (die n i : Nat) (hn : i + n = freeBlockCount)
    (hi : i ≤ l.length) :
    (freeBlockSearch t die n i < l.length ∧
        (t (freeBlockSearch t die n i)).block % totalDieCount = die ∧
        ∀ x, i ≤ x → x < freeBlockSearch t die n i → (t x).block % totalDieCount ≠ die) ∨
      (freeBlockSearch t die n i = freeBlockCount ∧
        ∀ x, i ≤ x → x < l.length → (t x).block % totalDieCount ≠ die) := by
  have hfits := h.fits
  induction n generalizing i with
  | zero => exact Or.inr ⟨rfl, fun x hx hlt => by omega⟩
  | succ n ih =>
      rw [freeBlockSearch]
      rcases Nat.lt_or_eq_of_le hi with hlt | rfl
      · rw [if_neg (h.block i hlt)]
        by_cases hdie : (t i).block % totalDieCount = die
        · rw [if_pos hdie]
          exact Or.inl ⟨hlt, hdie, fun x hx hxi => by omega⟩
        · rw [if_neg hdie]
          rcases ih (i + 1) (by omega) (by omega) with ⟨hr, hrdie, hbefore⟩ | ⟨hr, hnone⟩
          · refine Or.inl ⟨hr, hrdie, fun x hx hxr => ?_⟩
            rcases Nat.lt_or_eq_of_le hx with hx | rfl
            · exact hbefore x hx hxr
            · exact hdie
          · refine Or.inr ⟨hr, fun x hx hxl => ?_⟩
            rcases Nat.lt_or_eq_of_le hx with hx | rfl
            · exact hnone x hx hxl
            · exact hdie
      · rw [if_pos (h.stop (by omega))]
        exact Or.inr ⟨rfl, fun x hx hlt => by omega⟩

/-- The entry that an attempt of `INDEX_FreeBlock_Get` takes. -/
def chosenEntry (t : FreeTable) (die : Nat) : Nat :=
  if freeBlockSearch t die freeBlockCount 0 = freeBlockCount then 0
  else freeBlockSearch t die freeBlockCount 0

theorem chosenEntry_spec (h : Represents t l) (die : Nat) (hl : l ≠ []) :
    chosenEntry t die < l.length ∧
      LeastOfDie die (l : Multiset FreeBlock) (t (chosenEntry t die)) := by
  have hpos := List.length_pos_iff.mpr hl
  have hfits := h.fits
  unfold chosenEntry
  rcases freeBlockSearch_spec h die freeBlockCount 0 (Nat.zero_add _) (Nat.zero_le _)
    with ⟨hlt, hdie, hbefore⟩ | ⟨hend, hnone⟩
  · generalize freeBlockSearch t die freeBlockCount 0 = i at *
    rw [if_neg (by omega)]
    refine ⟨hlt, ?_, ?_, ?_⟩
    · exact Multiset.mem_coe.mpr ((h.mem_iff _).mpr ⟨i, hlt, rfl⟩)
    · intro e' he' hdie'
      obtain ⟨x, hx, rfl⟩ := (h.mem_iff _).mp (Multiset.mem_coe.mp he')
      have hix : i ≤ x := by
        by_contra hxi
        exact hbefore x (Nat.zero_le x) (by omega) hdie'
      exact ⟨hdie, h.sorted i x hix hx⟩
    · intro hother
      exact absurd hdie (hother _ (Multiset.mem_coe.mpr ((h.mem_iff _).mpr ⟨i, hlt, rfl⟩)))
  · rw [if_pos hend]
    refine ⟨hpos, ?_, ?_, ?_⟩
    · exact Multiset.mem_coe.mpr ((h.mem_iff _).mpr ⟨0, hpos, rfl⟩)
    · intro e' he' hdie'
      obtain ⟨x, hx, rfl⟩ := (h.mem_iff _).mp (Multiset.mem_coe.mp he')
      exact absurd hdie' (hnone x (Nat.zero_le x) hx)
    · intro _ e' he'
      obtain ⟨x, hx, rfl⟩ := (h.mem_iff _).mp (Multiset.mem_coe.mp he')
      exact h.sorted 0 x (Nat.zero_le x) hx

theorem freeBlockGetLoop_succ (die fuel : Nat) (erase : Nat → Nat → Bool) (t : FreeTable) :
    freeBlockGetLoop die (fuel + 1) erase t =
      if (t (chosenEntry t die)).block = invalidBlock then
        some ⟨.tooManyBadBlock, invalidBlock, none, [], t⟩
      else if erase 0 (t (chosenEntry t die)).block then
        some ⟨.success, (t (chosenEntry t die)).block,
          some (((t (chosenEntry t die)).ec + 1) % 4294967296), [],
          discardEntry t (chosenEntry t die)⟩
      else
        (freeBlockGetLoop die fuel (fun k => erase (k + 1))
          (discardEntry t (chosenEntry t die))).map fun r =>
            { r with discarded := t (chosenEntry t die) :: r.discarded } := rfl

/-- How a call ends when `left` are the blocks that it did not give up. -/
inductive GetEnds (die : Nat) (left : List FreeBlock) (r : GetResult) : Prop where
  | success (e : FreeBlock) (l' : List FreeBlock) (hstatus : r.status = .success)
      (hleast : LeastOfDie die (left : Multiset FreeBlock) e) (hblock : r.block = e.block)
      (hec : r.ec = some ((e.ec + 1) % 4294967296)) (hleft : left.Perm (e :: l'))
      (htable : Represents r.table l')
  | tooManyBadBlock (hstatus : r.status = .tooManyBadBlock) (hleft : left = [])
      (htable : Represents r.table [])

/-- The blocks that a call gave up, of the free blocks `free`: it tried one after the
other, each time one of least count among those left, and the erase of each failed; the
erase of the block that it hands out did not. -/
structure ErasesInOrder (die : Nat) (erase : Nat → Nat → Bool) (free : Multiset FreeBlock)
    (r : GetResult) : Prop where
  tried : ∀ k e, r.discarded[k]? = some e →
    LeastOfDie die (free - (r.discarded.take k : Multiset FreeBlock)) e
  failed : ∀ k e, r.discarded[k]? = some e → erase k e.block = false
  erased : r.status = .success → erase r.discarded.length r.block = true

/-- A block whose erase fails comes before those that the rest of the loop tries. -/
theorem ErasesInOrder.cons {die : Nat} {erase : Nat → Nat → Bool} {free : Multiset FreeBlock}
    {r : GetResult} {e : FreeBlock}
    (h : ErasesInOrder die (fun k => erase (k + 1)) free r)
    (hleast : LeastOfDie die (e ::ₘ free) e) (hfail : erase 0 e.block = false) :
    ErasesInOrder die erase (e ::ₘ free) { r with discarded := e :: r.discarded } := by
  constructor
  · intro k e' hk
    cases k with
    | zero =>
        cases hk
        simpa using hleast
    | succ k =>
        have hrest := h.tried k e' hk
        rw [List.take_succ_cons, ← Multiset.cons_coe, ← Multiset.singleton_add e free,
          ← Multiset.singleton_add e, add_tsub_add_eq_tsub_left]
        exact hrest
  · intro k e' hk
    cases k with
    | zero =>
        cases hk
        exact hfail
    | succ k => exact h.failed k e' hk
  · exact h.erased

/-- Every erase that fails costs one free block, so the loop ends. -/
theorem freeBlockGetLoop_spec (h : Represents t l) (die fuel : Nat) (erase : Nat → Nat → Bool)
    (hfuel : l.length < fuel) :
    ∃ r left, freeBlockGetLoop die fuel erase t = some r ∧ l.Perm (r.discarded ++ left) ∧
      GetEnds die left r ∧ ErasesInOrder die erase (l : Multiset FreeBlock) r := by
  induction fuel generalizing t l erase with
  | zero => omega
  | succ fuel ih =>
      rw [freeBlockGetLoop_succ]
      by_cases hl : l = []
      · subst hl
        have hcount := FreeBlockGeometry.two_le
        have hfirst : chosenEntry t die = 0 := by
          rcases freeBlockSearch_spec h die freeBlockCount 0 (Nat.zero_add _) (Nat.zero_le _)
            with ⟨hlt, -⟩ | ⟨hend, -⟩
          · exact absurd hlt (Nat.not_lt_zero _)
          · rw [chosenEntry, if_pos hend]
        have hempty : (t 0).block = invalidBlock := h.stop (Nat.lt_of_lt_of_le Nat.two_pos hcount)
        rw [hfirst, if_pos hempty]
        refine ⟨_, [], rfl, List.Perm.refl [], .tooManyBadBlock rfl rfl h, ?_, ?_, ?_⟩
        · exact fun k e hk => absurd hk (by simp)
        · exact fun k e hk => absurd hk (by simp)
        · exact fun hstatus => absurd hstatus (by simp)
      · obtain ⟨hlt, hleast⟩ := chosenEntry_spec h die hl
        generalize chosenEntry t die = i at *
        have hentry : l[i] = t i :=
          Option.some.inj ((List.getElem?_eq_getElem hlt).symm.trans (h.entry i hlt))
        have hperm : l.Perm (t i :: l.eraseIdx i) := by
          rw [← hentry]
          exact (List.getElem_cons_eraseIdx_perm hlt).symm
        rw [if_neg (h.block i hlt)]
        cases herase : erase 0 (t i).block with
        | true =>
            rw [if_pos rfl]
            refine ⟨_, l, rfl, List.Perm.refl l,
              .success (t i) (l.eraseIdx i) rfl hleast rfl rfl hperm (h.discard hlt), ?_, ?_, ?_⟩
            · exact fun k e hk => absurd hk (by simp)
            · exact fun k e hk => absurd hk (by simp)
            · exact fun _ => herase
        | false =>
            rw [if_neg Bool.false_ne_true]
            have hlength : (l.eraseIdx i).length = l.length - 1 := List.length_eraseIdx_of_lt hlt
            obtain ⟨r, left, hr, hsplit, hends, horder⟩ :=
              ih (h.discard hlt) (fun k => erase (k + 1)) (by omega)
            have hcons : (l : Multiset FreeBlock) = t i ::ₘ (l.eraseIdx i : Multiset FreeBlock) :=
              Multiset.coe_eq_coe.mpr hperm
            rw [hr]
            refine ⟨_, left, rfl, hperm.trans ?_, ?_, ?_⟩
            · exact List.Perm.cons (t i) hsplit
            · cases hends with
              | success e l' hstatus hleast hblock hec hleft htable =>
                  exact .success e l' hstatus hleast hblock hec hleft htable
              | tooManyBadBlock hstatus hleft htable =>
                  exact .tooManyBadBlock hstatus hleft htable
            · rw [hcons] at hleast ⊢
              exact horder.cons hleast herase

end

/-! ## Runs -/

/-- The entries that carry a count, in the order of the table. -/
def validEntries (t : FreeTable) : List FreeBlock :=
  ((List.range freeBlockCount).map t).filter (·.ec ≠ invalidEc)

theorem Represents.validEntries_eq {t : FreeTable} {l : List FreeBlock} (h : Represents t l) :
    validEntries t = l := by
  have hfits := h.fits
  obtain ⟨n, hn⟩ : ∃ n, freeBlockCount = l.length + n := ⟨freeBlockCount - l.length, by omega⟩
  have hfront : (List.range l.length).map t = l := by
    apply List.ext_getElem?
    intro i
    by_cases hi : i < l.length
    · rw [h.entry i hi, List.getElem?_map, List.getElem?_range hi]
      rfl
    · rw [List.getElem?_eq_none (by simpa using hi), List.getElem?_eq_none (by omega)]
  have hkeep : l.filter (·.ec ≠ invalidEc) = l := by
    rw [List.filter_eq_self]
    intro e he
    obtain ⟨i, hi, rfl⟩ := (h.mem_iff e).mp he
    exact decide_eq_true (h.ec i hi).ne
  have hdrop : (((List.range n).map (l.length + ·)).map t).filter (·.ec ≠ invalidEc) = [] := by
    rw [List.filter_eq_nil_iff]
    intro e he
    simp only [List.mem_map, List.mem_range] at he
    obtain ⟨x, ⟨k, hk, rfl⟩, rfl⟩ := he
    rw [h.rest (l.length + k) (by omega) (by omega)]
    decide
  rw [validEntries, hn, List.range_add, List.map_append, List.filter_append, hdrop, hfront, hkeep,
    List.append_nil]

/-- The table is in order, and its entries are the blocks `free`. -/
structure TableOk (t : FreeTable) (free : Multiset Nat) : Prop where
  contiguous : ∃ n ≤ freeBlockCount, ∀ i < freeBlockCount, (t i).ec ≠ invalidEc ↔ i < n
  sorted : ∀ i j, i ≤ j → j < freeBlockCount → (t i).ec ≤ (t j).ec
  conserved : (validEntries t : Multiset FreeBlock).map (·.block) = free

theorem Represents.ordered {t : FreeTable} {l : List FreeBlock} (h : Represents t l) :
    TableOk t (l.map FreeBlock.block : Multiset Nat) := by
  constructor
  · refine ⟨l.length, h.fits, fun i hi => ⟨fun hec => ?_, fun hlt => (h.ec i hlt).ne⟩⟩
    by_contra hlt
    exact hec (h.rest i (Nat.le_of_not_lt hlt) hi)
  · intro i j hij hj
    by_cases hlt : j < l.length
    · exact h.sorted i j hij hlt
    · rw [h.rest j (Nat.le_of_not_lt hlt) hj]
      exact h.ec_le (Nat.lt_of_le_of_lt hij hj)
  · rw [h.validEntries_eq, Multiset.map_coe]

/-- What a caller of `INDEX_FreeBlock_Get` relies on, where `erase` says how each erase
of the call ends: only blocks whose erase failed are discarded, and a block is handed out
as soon as an erase succeeds. -/
structure GetsLeast (t : FreeTable) (free : Multiset Nat) (die : Nat)
    (erase : Nat → Nat → Bool) (r : GetResult) : Prop where
  erases : ErasesInOrder (die % totalDieCount) erase (validEntries t : Multiset FreeBlock) r
  discarded : (r.discarded : Multiset FreeBlock) ≤ (validEntries t : Multiset FreeBlock)
  least : r.status = .success → ∃ e,
    LeastOfDie (die % totalDieCount)
      ((validEntries t : Multiset FreeBlock) - (r.discarded : Multiset FreeBlock)) e ∧
      r.block = e.block ∧ r.ec = some ((e.ec + 1) % 4294967296)
  handedOut : r.status = .success → r.block ∈ free
  exhausted : r.status = .tooManyBadBlock →
    (validEntries t : Multiset FreeBlock) - (r.discarded : Multiset FreeBlock) = 0

/-- The block that a call hands out. -/
def GetResult.taken (r : GetResult) : Multiset Nat :=
  if r.status = .success then {r.block} else 0

/-- A run from a formatted table, with the blocks that were put and neither
taken nor discarded.  The puts fit: a block with a count finds room, and so
does a block without one, which leaves `margin - 1` entries empty. -/
inductive FreeRun (margin : Nat) : FreeTable → Multiset Nat → Prop where
  | format (blocks : List Nat) (hfits : blocks.length ≤ freeBlockCount)
      (hblocks : ∀ b ∈ blocks, b ≠ invalidBlock) : FreeRun margin (indexFormat blocks) blocks
  | put {t : FreeTable} {free : Multiset Nat} (run : FreeRun margin t free) (dirty : FreeBlock)
      (hblock : dirty.block ≠ invalidBlock) (hec : dirty.ec < invalidEc)
      (hroom : free.card < freeBlockCount) :
      FreeRun margin (freeBlockPut t dirty) (dirty.block ::ₘ free)
  | putBad {t : FreeTable} {free : Multiset Nat} (run : FreeRun margin t free) (block : Nat)
      (hblock : block ≠ invalidBlock) (hroom : free.card + margin ≤ freeBlockCount) :
      FreeRun margin (freeBlockPut t ⟨block, invalidEc⟩) free
  | get {t : FreeTable} {free : Multiset Nat} (run : FreeRun margin t free) (die : Nat)
      (erase : Nat → Nat → Bool) {r : GetResult} (hr : freeBlockGet t die erase = some r) :
      FreeRun margin r.table
        (free - (r.discarded.map (·.block) : Multiset Nat) - r.taken)

/-- While every block without a count finds two empty entries, the table holds
a sorted list of the free blocks. -/
theorem FreeRun.represents {t : FreeTable} {free : Multiset Nat} (run : FreeRun 2 t free) :
    ∃ l, Represents t l ∧ (l.map (·.block) : Multiset Nat) = free := by
  induction run with
  | format blocks hfits hblocks =>
      refine ⟨_, Represents.format hfits hblocks, ?_⟩
      rw [List.map_map]
      exact congrArg _ (List.map_id blocks)
  | put run dirty hblock hec hroom ih =>
      obtain ⟨l, h, hfree⟩ := ih
      have hcard : l.length < freeBlockCount := by
        rw [← hfree, Multiset.coe_card, List.length_map] at hroom
        exact hroom
      obtain ⟨j, hj, hput⟩ := h.put hcard hblock hec
      refine ⟨_, hput, ?_⟩
      rw [← hfree, Multiset.cons_coe, Multiset.coe_eq_coe, ← List.map_cons]
      exact (List.perm_insertIdx dirty l hj).map _
  | putBad run block hblock hroom ih =>
      obtain ⟨l, h, hfree⟩ := ih
      rw [← hfree, Multiset.coe_card, List.length_map] at hroom
      exact ⟨l, h.put_invalidEc rfl hroom, hfree⟩
  | get run die erase hr ih =>
      obtain ⟨l, h, hfree⟩ := ih
      obtain ⟨r, left, hr', hsplit, hends, -⟩ := freeBlockGetLoop_spec h (die % totalDieCount)
        (freeBlockCount + 1) erase (Nat.lt_succ_of_le h.fits)
      obtain rfl : r = _ := Option.some.inj (hr'.symm.trans hr)
      have hleft : (l.map (·.block) : Multiset Nat) - (r.discarded.map (·.block) : Multiset Nat) =
          (left.map (·.block) : Multiset Nat) := by
        rw [Multiset.coe_eq_coe.mpr (hsplit.map _), List.map_append, ← Multiset.coe_add,
          add_tsub_cancel_left]
      rw [← hfree, hleft]
      cases hends with
      | success e l' hstatus hleast hblock hec hperm htable =>
          refine ⟨l', htable, ?_⟩
          rw [GetResult.taken, if_pos hstatus, hblock, Multiset.coe_eq_coe.mpr (hperm.map _),
            List.map_cons, ← Multiset.cons_coe, Multiset.sub_singleton, Multiset.erase_cons_head]
      | tooManyBadBlock hstatus hnone htable =>
          refine ⟨[], htable, ?_⟩
          rw [GetResult.taken, if_neg (by rw [hstatus]; decide), hnone]
          rfl

/-- In every run in which a block without a count finds two empty entries, the
table stays in order and holds the free blocks, and a call of
`INDEX_FreeBlock_Get` returns and takes a block of least count. -/
theorem FreeRun.tableOk {t : FreeTable} {free : Multiset Nat} (run : FreeRun 2 t free) :
    TableOk t free ∧ ∀ die erase, ∃ r, freeBlockGet t die erase = some r ∧
      GetsLeast t free die erase r := by
  obtain ⟨l, h, hfree⟩ := run.represents
  constructor
  · rw [← hfree]
    exact h.ordered
  · intro die erase
    obtain ⟨r, left, hr, hsplit, hends, horder⟩ := freeBlockGetLoop_spec h (die % totalDieCount)
      (freeBlockCount + 1) erase (Nat.lt_succ_of_le h.fits)
    have hleft : (l : Multiset FreeBlock) - (r.discarded : Multiset FreeBlock) =
        (left : Multiset FreeBlock) := by
      rw [Multiset.coe_eq_coe.mpr hsplit, ← Multiset.coe_add, add_tsub_cancel_left]
    have hmem : ∀ e ∈ left, e.block ∈ free := by
      intro e he
      rw [← hfree, Multiset.mem_coe, List.mem_map]
      exact ⟨e, hsplit.mem_iff.mpr (List.mem_append_right _ he), rfl⟩
    refine ⟨r, hr, ?_⟩
    rw [← h.validEntries_eq] at hsplit hleft horder
    constructor
    · exact horder
    · rw [Multiset.coe_le]
      exact (List.sublist_append_left r.discarded left).subperm.trans hsplit.symm.subperm
    · intro hsuccess
      cases hends with
      | success e l' hstatus hleast hblock hec hperm htable =>
          refine ⟨e, ?_, hblock, hec⟩
          rw [hleft]
          exact hleast
      | tooManyBadBlock hstatus hnone htable =>
          rw [hstatus] at hsuccess
          cases hsuccess
    · intro hsuccess
      cases hends with
      | success e l' hstatus hleast hblock hec hperm htable =>
          rw [hblock]
          exact hmem e (Multiset.mem_coe.mp hleast.mem)
      | tooManyBadBlock hstatus hnone htable =>
          rw [hstatus] at hsuccess
          cases hsuccess
    · intro hfail
      cases hends with
      | success e l' hstatus hleast hblock hec hperm htable =>
          rw [hstatus] at hfail
          cases hfail
      | tooManyBadBlock hstatus hnone htable =>
          rw [hleft, hnone]
          rfl

end

section

attribute [local instance] k9wag08Index

/-- The table with 252 of its 253 entries in use. -/
def nearlyFull : FreeTable := indexFormat (List.range' 1000 252)

/-- Block 7 is put to be discarded. -/
def badBlockPut : FreeTable := freeBlockPut nearlyFull ⟨7, invalidEc⟩

theorem nearlyFull_run (margin : Nat) :
    FreeRun margin nearlyFull (List.range' 1000 252 : Multiset Nat) := by
  refine .format _ (by rw [List.length_range']; decide) fun b hb => ?_
  have := (List.mem_range'_1.mp hb).2
  simp only [invalidBlock]
  omega

/-- With one die the first block is taken, and every other one moves up. -/
theorem freeBlockGet_first {t : FreeTable} (h : (t 0).block ≠ invalidBlock) :
    freeBlockGet t 0 (fun _ _ => true) =
      some ⟨.success, (t 0).block, some (((t 0).ec + 1) % 4294967296), [], discardEntry t 0⟩ := by
  have hchosen : chosenEntry t 0 = 0 := by
    have hsearch : freeBlockSearch t 0 freeBlockCount 0 = 0 := by
      change freeBlockSearch t 0 (252 + 1) 0 = 0
      have hdie : (t 0).block % totalDieCount = 0 := Nat.mod_one _
      rw [freeBlockSearch, if_neg h, if_pos hdie]
    rw [chosenEntry, hsearch]
    rfl
  change freeBlockGetLoop 0 (253 + 1) (fun _ _ => true) t = _
  rw [freeBlockGetLoop_succ, hchosen, if_neg h]
  rfl

/-- After `k` calls the entries have moved down by `k`. -/
theorem takeFirst_run {t : FreeTable} {free : Multiset Nat} (run : FreeRun 1 t free) (n : Nat)
    (hn : n < freeBlockCount) (h : ∀ i < n, (t i).block ≠ invalidBlock) :
    ∃ t' free', FreeRun 1 t' free' ∧ free' ≤ free ∧
      ∀ i, i + n < freeBlockCount → t' i = t (i + n) := by
  induction n with
  | zero => exact ⟨t, free, run, le_rfl, fun i _ => rfl⟩
  | succ n ih =>
      obtain ⟨t', free', run', hle, hmoved⟩ := ih (by omega) fun i hi => h i (by omega)
      have hfirst : (t' 0).block ≠ invalidBlock := by
        rw [hmoved 0 (by omega), Nat.zero_add]
        exact h n (by omega)
      refine ⟨_, _, run'.get 0 (fun _ _ => true) (freeBlockGet_first hfirst), ?_, fun i hi => ?_⟩
      · exact (tsub_le_self.trans tsub_le_self).trans hle
      · simp only
        rw [discardEntry_apply (by omega) _ _ (by omega), if_neg (by omega),
          if_neg (Nat.not_lt_zero i), hmoved (i + 1) (by omega)]
        congr 1
        omega

/-- A block that is put to be discarded while one entry is empty is handed out
once the blocks before it are taken. -/
theorem badBlock_handedOut :
    ¬ ∀ t free, FreeRun 1 t free → TableOk t free ∧ ∀ die erase, ∃ r,
      freeBlockGet t die erase = some r ∧ GetsLeast t free die erase r := by
  intro hclaim
  obtain ⟨j, hj, hbefore, hafter, htable⟩ := freeBlockPut_spec nearlyFull ⟨7, invalidEc⟩
  have hlast : j = 252 := by
    obtain ⟨l, hl, -⟩ := (nearlyFull_run 2).represents
    by_contra hne
    have hj' : j < 253 := hj
    have hroom : j + 1 < freeBlockCount := by
      change j + 1 < 253
      omega
    have hlt : invalidEc < (nearlyFull j).ec := hafter j le_rfl hroom
    exact absurd (hl.ec_le hj) (Nat.not_le.mpr hlt)
  have hrun : FreeRun 1 badBlockPut (List.range' 1000 252 : Multiset Nat) :=
    (nearlyFull_run 1).putBad 7 (by decide) (by rw [Multiset.coe_card, List.length_range']; decide)
  have hvalid : ∀ i < 252, (badBlockPut i).block ≠ invalidBlock := by
    intro i hi
    rw [badBlockPut, htable i (by simp only [freeBlockCount]; omega), if_pos (by omega), nearlyFull,
      indexFormat, List.getElem?_eq_getElem (by rw [List.length_range']; exact hi)]
    simp only [List.getElem_range', invalidBlock]
    omega
  obtain ⟨t, free, run, hle, hmoved⟩ := takeFirst_run hrun 252 (by decide) hvalid
  have hfirst : t 0 = ⟨7, invalidEc⟩ := by
    rw [hmoved 0 (by decide), badBlockPut, htable 252 (by decide), if_neg (by omega),
      if_pos hlast.symm]
  obtain ⟨r, hr, hgets⟩ := (hclaim t free run).2 0 fun _ _ => true
  rw [freeBlockGet_first (by rw [hfirst]; decide)] at hr
  obtain rfl := Option.some.inj hr
  have hmem : (t 0).block ∈ (List.range' 1000 252 : Multiset Nat) :=
    Multiset.mem_of_le hle (hgets.handedOut rfl)
  rw [hfirst, Multiset.mem_coe, List.mem_range'_1] at hmem
  exact absurd hmem.1 (by decide)

/-- A bad block is put between a put and a call that has to discard a block. -/
theorem tableOk_after_discard :
    ∃ t free, FreeRun 2 t free ∧ TableOk t free ∧ ∀ die erase, ∃ r,
      freeBlockGet t die erase = some r ∧ GetsLeast t free die erase r := by
  have hformat : FreeRun 2 (indexFormat [20, 21, 22]) ([20, 21, 22] : List Nat) :=
    .format [20, 21, 22] (by decide) (by decide)
  have hrun := (hformat.put ⟨30, 4⟩ (by decide) (by decide) (by decide)).putBad 7 (by decide)
    (by decide)
  exact ⟨_, _, hrun, hrun.tableOk⟩

end

end RansomTag

import Mathlib.Data.List.Basic

/-!
# Slot tables

An array of fixed size that is searched from its start: the search stops at the
first free entry or at the first entry that it is after, and nothing else stops
it.  It leaves the array when it meets neither.
-/

/-- Where a search ends. -/
inductive Scan where
  | hit (i : Nat)
  | free (i : Nat)
  | past
  deriving DecidableEq

def Scan.next : Scan → Scan
  | .hit i => .hit (i + 1)
  | .free i => .free (i + 1)
  | .past => .past

/-- An array of `capacity` entries. -/
structure SlotTable (α : Type) (capacity : Nat) where
  entries : List α
  length_eq : entries.length = capacity
  deriving DecidableEq

namespace SlotTable

variable {α : Type} {capacity : Nat}

/-- The search through a list of entries. -/
def scanList (isFree hits : α → Bool) : List α → Scan
  | [] => .past
  | x :: xs =>
      if isFree x then .free 0
      else if hits x then .hit 0
      else (scanList isFree hits xs).next

def scan (isFree hits : α → Bool) (t : SlotTable α capacity) : Scan :=
  scanList isFree hits t.entries

/-- Store in one slot. -/
def put (t : SlotTable α capacity) (i : Nat) (x : α) : SlotTable α capacity where
  entries := t.entries.set i x
  length_eq := by rw [List.length_set, t.length_eq]

/-- Whether the search ends at an entry that it is after, if it ends. -/
def search (isFree hits : α → Bool) (t : SlotTable α capacity) : Option Bool :=
  match t.scan isFree hits with
  | .hit _ => some true
  | .free _ => some false
  | .past => none

/-- Search, and fill the free slot where the search ends; the flag says that
nothing had to be stored. -/
def add (isFree hits : α → Bool) (x : α) (t : SlotTable α capacity) :
    Option (SlotTable α capacity × Bool) :=
  match t.scan isFree hits with
  | .hit _ => some (t, true)
  | .free i => some (t.put i x, false)
  | .past => none

/-- Change the first entry that takes a change. -/
def replaceFirstList (f : α → Option α) : List α → Option (List α)
  | [] => none
  | x :: xs =>
      match f x with
      | some y => some (y :: xs)
      | none => (replaceFirstList f xs).map (x :: ·)

/-- Every slot holds the same value. -/
def fill (capacity : Nat) (x : α) : SlotTable α capacity :=
  ⟨List.replicate capacity x, List.length_replicate⟩

/-! ## Lists of entries -/

section

variable {isFree hits : α → Bool} {l : List α} {i : Nat}

theorem scanList_past_iff :
    scanList isFree hits l = .past ↔ ∀ y ∈ l, isFree y = false ∧ hits y = false := by
  induction l with
  | nil => simp [scanList]
  | cons y l ih =>
      unfold scanList
      by_cases hfree : isFree y = true
      · simp [hfree]
      · by_cases hhit : hits y = true
        · simp [hfree, hhit]
        · rw [if_neg hfree, if_neg hhit, List.forall_mem_cons, ← ih]
          cases scanList isFree hits l <;> simp [Scan.next, hfree, hhit]

/-- A search that stops at a free entry has met only entries in use before. -/
theorem scanList_free (h : scanList isFree hits l = .free i) :
    (∃ y, l[i]? = some y ∧ isFree y = true) ∧
    ∀ k < i, ∀ y, l[k]? = some y → isFree y = false ∧ hits y = false := by
  induction l generalizing i with
  | nil => cases h
  | cons y l ih =>
      unfold scanList at h
      by_cases hfree : isFree y = true
      · rw [if_pos hfree] at h
        cases h
        exact ⟨⟨y, rfl, hfree⟩, fun k hk => absurd hk (Nat.not_lt_zero k)⟩
      · by_cases hhit : hits y = true
        · rw [if_neg hfree, if_pos hhit] at h
          cases h
        · rw [if_neg hfree, if_neg hhit] at h
          cases hrest : scanList isFree hits l with
          | hit k => rw [hrest] at h; cases h
          | past => rw [hrest] at h; cases h
          | free k =>
              rw [hrest] at h
              cases h
              rcases ih hrest with ⟨hat, hbefore⟩
              refine ⟨hat, fun m hm z hz => ?_⟩
              cases m with
              | zero =>
                  cases hz
                  exact ⟨by simpa using hfree, by simpa using hhit⟩
              | succ m => exact hbefore m (by omega) z hz

/-- The first free entry behind entries that are in use and not searched. -/
theorem scanList_append_free {before after : List α} {x : α}
    (hbefore : ∀ y ∈ before, isFree y = false ∧ hits y = false) (hx : isFree x = true) :
    scanList isFree hits (before ++ x :: after) = .free before.length := by
  induction before with
  | nil =>
      rw [List.nil_append]
      unfold scanList
      rw [if_pos hx]
      rfl
  | cons y before ih =>
      rcases List.forall_mem_cons.mp hbefore with ⟨⟨hfree, hhit⟩, hrest⟩
      rw [List.cons_append]
      unfold scanList
      rw [hfree, hhit, ih hrest]
      rfl

theorem scanList_hit_iff :
    (∃ i, scanList isFree hits l = .hit i) ↔
    ∃ (i : Nat) (y : α), l[i]? = some y ∧ hits y = true ∧
      ∀ k ≤ i, ∀ z, l[k]? = some z → isFree z = false := by
  induction l with
  | nil => simp [scanList]
  | cons y l ih =>
      unfold scanList
      by_cases hfree : isFree y = true
      · rw [if_pos hfree]
        constructor
        · rintro ⟨i, h⟩
          cases h
        · rintro ⟨i, z, -, -, hused⟩
          have huse := hused 0 (Nat.zero_le i) y rfl
          rw [huse] at hfree
          cases hfree
      · have hused : isFree y = false := by simpa using hfree
        by_cases hhit : hits y = true
        · rw [if_neg hfree, if_pos hhit]
          refine ⟨fun _ => ⟨0, y, rfl, hhit, fun k hk z hz => ?_⟩, fun _ => ⟨0, rfl⟩⟩
          cases Nat.le_zero.mp hk
          cases hz
          exact hused
        · rw [if_neg hfree, if_neg hhit]
          have hnext : (∃ i, (scanList isFree hits l).next = .hit i) ↔
              ∃ i, scanList isFree hits l = .hit i := by
            cases scanList isFree hits l <;> simp [Scan.next]
          rw [hnext, ih]
          constructor
          · rintro ⟨i, z, hz, hzhit, hbefore⟩
            refine ⟨i + 1, z, hz, hzhit, fun k hk w hw => ?_⟩
            cases k with
            | zero => cases hw; exact hused
            | succ k => exact hbefore k (by omega) w hw
          · rintro ⟨i, z, hz, hzhit, hbefore⟩
            cases i with
            | zero => cases hz; exact absurd hzhit hhit
            | succ i => exact ⟨i, z, hz, hzhit, fun k hk w hw => hbefore (k + 1) (by omega) w hw⟩

end

/-! ## Tables -/

variable {isFree hits hits' : α → Bool} {t : SlotTable α capacity} {i : Nat} {x : α}

/-- The search ends inside the array. -/
def Ends (isFree hits : α → Bool) (t : SlotTable α capacity) : Prop :=
  ∃ x ∈ t.entries, isFree x = true ∨ hits x = true

/-- The search ends at an entry that it is after. -/
def Found (isFree hits : α → Bool) (t : SlotTable α capacity) : Prop :=
  ∃ i, t.scan isFree hits = .hit i

instance : Decidable (t.Ends isFree hits) :=
  inferInstanceAs (Decidable (∃ x ∈ t.entries, _))

instance : Decidable (t.Found isFree hits) :=
  decidable_of_iff (t.search isFree hits = some true) (by
    unfold search Found
    cases t.scan isFree hits <;> simp)

theorem ends_iff : t.Ends isFree hits ↔ t.scan isFree hits ≠ .past := by
  unfold Ends scan
  rw [Ne, scanList_past_iff]
  push Not
  apply exists_congr
  intro y
  cases isFree y <;> cases hits y <;> simp

theorem Found.ends (h : t.Found isFree hits) : t.Ends isFree hits := by
  rcases h with ⟨i, h⟩
  rw [ends_iff, h]
  exact Scan.noConfusion

theorem scan_free_lt (h : t.scan isFree hits = .free i) : i < capacity := by
  rcases scanList_free h with ⟨⟨y, hy, -⟩, -⟩
  rcases List.getElem?_eq_some_iff.mp hy with ⟨hlt, -⟩
  exact lt_of_lt_of_eq hlt t.length_eq

/-- An entry in a free slot is found, where it is in use and what is searched. -/
theorem found_put (h : t.scan isFree hits = .free i) (hused : isFree x = false)
    (hhit : hits' x = true) : (t.put i x).Found isFree hits' := by
  have hlt := scan_free_lt h
  rcases scanList_free h with ⟨-, hbefore⟩
  apply scanList_hit_iff.mpr
  refine ⟨i, x, ?_, hhit, fun k hk z hz => ?_⟩
  · exact List.getElem?_set_self (by rw [t.length_eq]; exact hlt)
  · by_cases hki : k = i
    · subst hki
      have hx : (t.put k x).entries[k]? = some x :=
        List.getElem?_set_self (by rw [t.length_eq]; exact hlt)
      rw [hx] at hz
      cases hz
      exact hused
    · have hk' : (t.put i x).entries[k]? = t.entries[k]? :=
        List.getElem?_set_ne (Ne.symm hki)
      rw [hk'] at hz
      exact (hbefore k (by omega) z hz).1

/-- What is found stays so when a free slot is filled: it lies before it. -/
theorem Found.put (hfound : t.Found isFree hits') (h : t.scan isFree hits = .free i) :
    (t.put i x).Found isFree hits' := by
  rcases scanList_free h with ⟨⟨y, hy, hfree⟩, -⟩
  rcases scanList_hit_iff.mp hfound with ⟨j, z, hz, hhit, hbefore⟩
  have hji : j < i := by
    by_contra hle
    have hused := hbefore i (by omega) y hy
    rw [hused] at hfree
    cases hfree
  apply scanList_hit_iff.mpr
  refine ⟨j, z, ?_, hhit, fun k hk w hw => ?_⟩
  · rw [← hz]
    exact List.getElem?_set_ne (by omega)
  · apply hbefore k hk w
    rw [← hw]
    exact (List.getElem?_set_ne (by omega)).symm

theorem search_true_iff : t.search isFree hits = some true ↔ t.Found isFree hits := by
  unfold search Found
  cases t.scan isFree hits <;> simp

theorem search_false_iff :
    t.search isFree hits = some false ↔ t.Ends isFree hits ∧ ¬t.Found isFree hits := by
  rw [ends_iff]
  unfold search Found
  cases t.scan isFree hits <;> simp

theorem search_none_iff : t.search isFree hits = none ↔ ¬t.Ends isFree hits := by
  rw [ends_iff]
  unfold search
  cases t.scan isFree hits <;> simp

/-- An addition goes through where the search ends. -/
theorem Ends.add (h : t.Ends isFree hits) (x : α) :
    ∃ t' old, t.add isFree hits x = some (t', old) := by
  have hpast := ends_iff.mp h
  unfold SlotTable.add
  cases hscan : t.scan isFree hits with
  | hit i => exact ⟨_, _, rfl⟩
  | free i => exact ⟨_, _, rfl⟩
  | past => exact absurd hscan hpast

variable {t' : SlotTable α capacity} {old : Bool}

/-- An addition keeps what is found. -/
theorem Found.add (hfound : t.Found isFree hits') (h : t.add isFree hits x = some (t', old)) :
    t'.Found isFree hits' := by
  unfold SlotTable.add at h
  cases hscan : t.scan isFree hits with
  | hit i =>
      rw [hscan] at h
      cases h
      exact hfound
  | free i =>
      rw [hscan] at h
      cases h
      exact hfound.put hscan
  | past =>
      rw [hscan] at h
      cases h

/-- What was added is found, where it is in use and what was searched. -/
theorem found_of_add (h : t.add isFree hits x = some (t', old))
    (hfits : t.Found isFree hits ∨ isFree x = false ∧ hits x = true) :
    t'.Found isFree hits := by
  unfold add at h
  cases hscan : t.scan isFree hits with
  | hit i =>
      rw [hscan] at h
      cases h
      exact ⟨i, hscan⟩
  | free i =>
      rw [hscan] at h
      cases h
      rcases hfits with ⟨j, hj⟩ | ⟨hused, hhit⟩
      · rw [hscan] at hj
        cases hj
      · exact found_put hscan hused hhit
  | past =>
      rw [hscan] at h
      cases h

/-! ## Packed tables -/

/-- Behind a free entry all entries are free. -/
def Packed (isFree : α → Bool) (t : SlotTable α capacity) : Prop :=
  ∀ (i j : Nat) (y z : α), i ≤ j → t.entries[i]? = some y → t.entries[j]? = some z →
    isFree y = true → isFree z = true

theorem packed_fill (x : α) : (fill capacity x).Packed isFree := by
  intro i j y z _ hi hj hfree
  rcases List.mem_replicate.mp (List.mem_of_getElem? hi) with ⟨-, rfl⟩
  rcases List.mem_replicate.mp (List.mem_of_getElem? hj) with ⟨-, rfl⟩
  exact hfree

theorem Packed.put (hpacked : t.Packed isFree) (h : t.scan isFree hits = .free i)
    (hused : isFree x = false) : (t.put i x).Packed isFree := by
  have hlt := scan_free_lt h
  rcases scanList_free h with ⟨-, hbefore⟩
  have hself : (t.put i x).entries[i]? = some x :=
    List.getElem?_set_self (by rw [t.length_eq]; exact hlt)
  have hother : ∀ k, k ≠ i → (t.put i x).entries[k]? = t.entries[k]? := fun k hk =>
    List.getElem?_set_ne (Ne.symm hk)
  intro k j y z hkj hk hj hfree
  by_cases hki : k = i
  · subst hki
    rw [hself] at hk
    cases hk
    rw [hused] at hfree
    cases hfree
  · rw [hother k hki] at hk
    by_cases hji : j = i
    · have hk' := (hbefore k (by omega) y hk).1
      rw [hk'] at hfree
      cases hfree
    · rw [hother j hji] at hj
      exact hpacked k j y z hkj hk hj hfree

theorem Packed.add (hpacked : t.Packed isFree) (h : t.add isFree hits x = some (t', old))
    (hused : isFree x = false) : t'.Packed isFree := by
  unfold SlotTable.add at h
  cases hscan : t.scan isFree hits with
  | hit i =>
      rw [hscan] at h
      cases h
      exact hpacked
  | free i =>
      rw [hscan] at h
      cases h
      exact hpacked.put hscan hused
  | past =>
      rw [hscan] at h
      cases h

/-- In a packed table every entry in use can be found. -/
theorem Packed.found_iff (hpacked : t.Packed isFree) :
    t.Found isFree hits ↔ ∃ y ∈ t.entries, isFree y = false ∧ hits y = true := by
  unfold Found scan
  rw [scanList_hit_iff]
  constructor
  · rintro ⟨i, y, hy, hhit, hbefore⟩
    exact ⟨y, List.mem_of_getElem? hy, hbefore i (Nat.le_refl i) y hy, hhit⟩
  · rintro ⟨y, hmem, hused, hhit⟩
    rcases List.mem_iff_getElem?.mp hmem with ⟨i, hy⟩
    refine ⟨i, y, hy, hhit, fun k hk z hz => ?_⟩
    by_contra hfree
    have hy' := hpacked k i z y hk hz hy (by simpa using hfree)
    rw [hused] at hy'
    cases hy'

/-- An addition adds the one entry, where only that entry is what was searched. -/
theorem Packed.found_add_iff (hpacked : t.Packed isFree)
    (h : t.add isFree hits x = some (t', old)) (hused : isFree x = false) (hhit : hits x = true)
    (hkey : ∀ y, hits y = true → y = x) :
    t'.Found isFree hits' ↔ t.Found isFree hits' ∨ hits' x = true := by
  have hnew : t'.Found isFree hits := found_of_add h (.inr ⟨hused, hhit⟩)
  have hpacked' := hpacked.add h hused
  constructor
  · intro hfound
    rcases hpacked'.found_iff.mp hfound with ⟨y, hmem, hyused, hyhit⟩
    unfold SlotTable.add at h
    cases hscan : t.scan isFree hits with
    | hit i =>
        rw [hscan] at h
        cases h
        exact .inl hfound
    | free i =>
        rw [hscan] at h
        cases h
        rcases List.mem_or_eq_of_mem_set hmem with hmem | rfl
        · exact .inl (hpacked.found_iff.mpr ⟨y, hmem, hyused, hyhit⟩)
        · exact .inr hyhit
    | past =>
        rw [hscan] at h
        cases h
  · rintro (hfound | hx)
    · exact hfound.add h
    · rcases hpacked'.found_iff.mp hnew with ⟨y, hmem, hyused, hyhit⟩
      rw [hkey y hyhit] at hmem hyused
      exact hpacked'.found_iff.mpr ⟨x, hmem, hyused, hx⟩

/-! ## Changes of one entry -/

theorem replaceFirstList_length {f : α → Option α} {l l' : List α}
    (h : replaceFirstList f l = some l') : l'.length = l.length := by
  induction l generalizing l' with
  | nil => cases h
  | cons y l ih =>
      unfold replaceFirstList at h
      cases hf : f y with
      | some z =>
          rw [hf] at h
          cases h
          rfl
      | none =>
          rw [hf] at h
          rcases Option.map_eq_some_iff.mp h with ⟨rest, hrest, rfl⟩
          rw [List.length_cons, List.length_cons, ih hrest]

def replaceFirst (f : α → Option α) (t : SlotTable α capacity) :
    Option (SlotTable α capacity) :=
  match h : replaceFirstList f t.entries with
  | some l => some ⟨l, (replaceFirstList_length h).trans t.length_eq⟩
  | none => none

theorem scan_fill (hfree : isFree x = true) (hcapacity : 0 < capacity) :
    (fill capacity x).scan isFree hits = .free 0 := by
  cases capacity with
  | zero => exact absurd hcapacity (Nat.not_lt_zero 0)
  | succ capacity =>
      change scanList isFree hits (x :: List.replicate capacity x) = .free 0
      unfold scanList
      exact if_pos hfree

end SlotTable

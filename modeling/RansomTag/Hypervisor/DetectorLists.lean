import RansomTag.Hypervisor.Linux

/-!
# The lists of the detector

The directory blocks, the blacklist and the list of processes that write data of
high entropy are arrays that are searched up to their first free entry.  Calls
come in any order; a search that meets neither a free entry nor the key leaves
the array, also where the code behind it would reset a full list.
-/

namespace RansomTag

/-- The fifteen bytes that are copied of a process name. -/
structure ProcessName where
  bytes : List Byte
  length_eq : bytes.length = 15

/-- An entry that starts with the terminator is free. -/
abbrev isFreeName : List Byte → Bool := fun entry => entry.headD 0 == 0

/-- The test of the searches.  A name that fills its entry is longer than what
is searched, whatever is behind it. -/
abbrev isInName (name : ProcessName) : List Byte → Bool :=
  fun entry => memFindStr name.bytes 14 (cString entry)

/-! ## Calls -/

structure DetectorLists where
  dirInodeExtentBlock : SlotTable Nat 500
  winProcesseBlacklist : SlotTable (List Byte) 100
  winHighEntropylist : SlotTable (List Byte) 100

def DetectorLists.initial : DetectorLists where
  dirInodeExtentBlock := SlotTable.fill 500 0
  winProcesseBlacklist := SlotTable.fill 100 (List.replicate 15 0)
  winHighEntropylist := SlotTable.fill 100 (List.replicate 15 0)

/-- What is added to a list or searched in it. -/
inductive DetectorKey where
  | dirBlock (block : Nat)
  | blacklisted (name : ProcessName)
  | highEntropy (name : ProcessName)

inductive ListCall where
  | add (key : DetectorKey)
  | find (key : DetectorKey)

namespace DetectorLists

/-- `win_add_to_process_blacklist` on the array. -/
def addToProcessBlacklist (t : SlotTable (List Byte) 100) (name : ProcessName) :
    Option (SlotTable (List Byte) 100 × Int) :=
  if traverseExcludedProcessList name.bytes then some (t, -1)
  else (t.add isFreeName (isInName name) name.bytes).map fun (t, _) => (t, 1)

/-- `win_add_to_high_entropylist` on the array. -/
def addToHighEntropylist (t : SlotTable (List Byte) 100) (name : ProcessName) :
    Option (SlotTable (List Byte) 100 × Int) :=
  (t.add isFreeName (isInName name) name.bytes).map fun (t, old) => (t, if old then 1 else 2)

/-- The additions. -/
def add (s : DetectorLists) : DetectorKey → Option (DetectorLists × Int)
  | .dirBlock block =>
      (linuxAddToDirInodeExtentBlock s.dirInodeExtentBlock block).toOption.map
        fun (t, ret) => ({ s with dirInodeExtentBlock := t }, ret)
  | .blacklisted name =>
      (addToProcessBlacklist s.winProcesseBlacklist name).map
        fun (t, ret) => ({ s with winProcesseBlacklist := t }, ret)
  | .highEntropy name =>
      (addToHighEntropylist s.winHighEntropylist name).map
        fun (t, ret) => ({ s with winHighEntropylist := t }, ret)

/-- `linux_traverse_dir_inode_extent_block`, `win_traverse_process_blacklist` and
`win_traverse_high_entropylist`. -/
def find (s : DetectorLists) : DetectorKey → Option Bool
  | .dirBlock block =>
      (linuxTraverseDirInodeExtentBlock s.dirInodeExtentBlock block).toOption
  | .blacklisted name => s.winProcesseBlacklist.search isFreeName (isInName name)
  | .highEntropy name => s.winHighEntropylist.search isFreeName (isInName name)

end DetectorLists

/-! ## Runs -/

/-- The lists, and the keys whose addition reported success. -/
structure DetectorRun where
  lists : DetectorLists
  added : List DetectorKey

def DetectorRun.initial : DetectorRun := ⟨.initial, []⟩

namespace DetectorRun

/-- One call; `none` says that it left an array. -/
def step (r : DetectorRun) : ListCall → Option DetectorRun
  | .add key =>
      (r.lists.add key).map fun (lists, ret) =>
        ⟨lists, if 0 < ret then key :: r.added else r.added⟩
  | .find key => (r.lists.find key).map fun _ => r

def run : List ListCall → DetectorRun → Option DetectorRun
  | [], r => some r
  | call :: calls, r => (r.step call).bind (run calls)

end DetectorRun

/-! ## Keys that are found -/

/-- The name is not empty and ends before the last byte of its entry. -/
def ProcessName.Fits (name : ProcessName) : Prop :=
  isFreeName name.bytes = false ∧ isInName name name.bytes = true

namespace DetectorLists

def Finds (s : DetectorLists) : DetectorKey → Prop
  | .dirBlock block => s.dirInodeExtentBlock.Found isUnused (· == block)
  | .blacklisted name => s.winProcesseBlacklist.Found isFreeName (isInName name)
  | .highEntropy name => s.winHighEntropylist.Found isFreeName (isInName name)

/-- The search for the key ends inside its array. -/
def Ends (s : DetectorLists) : DetectorKey → Prop
  | .dirBlock block => s.dirInodeExtentBlock.Ends isUnused (· == block)
  | .blacklisted name => s.winProcesseBlacklist.Ends isFreeName (isInName name)
  | .highEntropy name => s.winHighEntropylist.Ends isFreeName (isInName name)

/-- The key is left out, or it is known, or it can be known afterwards and its
list has a free entry. -/
def Takes (s : DetectorLists) : DetectorKey → Prop
  | .dirBlock block => block = 0 ∨ s.Ends (.dirBlock block)
  | .blacklisted name =>
      traverseExcludedProcessList name.bytes = true ∨
        s.Ends (.blacklisted name) ∧ (s.Finds (.blacklisted name) ∨ name.Fits)
  | .highEntropy name =>
      s.Ends (.highEntropy name) ∧ (s.Finds (.highEntropy name) ∨ name.Fits)

instance (s : DetectorLists) : ∀ key, Decidable (s.Finds key)
  | .dirBlock _ => inferInstanceAs (Decidable (SlotTable.Found _ _ _))
  | .blacklisted _ => inferInstanceAs (Decidable (SlotTable.Found _ _ _))
  | .highEntropy _ => inferInstanceAs (Decidable (SlotTable.Found _ _ _))

instance (s : DetectorLists) : ∀ key, Decidable (s.Ends key)
  | .dirBlock _ => inferInstanceAs (Decidable (SlotTable.Ends _ _ _))
  | .blacklisted _ => inferInstanceAs (Decidable (SlotTable.Ends _ _ _))
  | .highEntropy _ => inferInstanceAs (Decidable (SlotTable.Ends _ _ _))

instance (name : ProcessName) : Decidable name.Fits := inferInstanceAs (Decidable (_ ∧ _))

instance (s : DetectorLists) : ∀ key, Decidable (s.Takes key)
  | .dirBlock _ => inferInstanceAs (Decidable (_ ∨ _))
  | .blacklisted _ => inferInstanceAs (Decidable (_ ∨ _ ∧ (_ ∨ _)))
  | .highEntropy _ => inferInstanceAs (Decidable (_ ∧ (_ ∨ _)))

variable {s s' : DetectorLists} {key other : DetectorKey} {ret : Int} {block : Nat}
  {name : ProcessName}

theorem find_dirBlock :
    s.find (.dirBlock block) = s.dirInodeExtentBlock.search isUnused (· == block) := by
  unfold find linuxTraverseDirInodeExtentBlock
  cases hsearch : s.dirInodeExtentBlock.search isUnused (· == block) with
  | none => simp only [hsearch]; rfl
  | some found => simp only [hsearch]; rfl

theorem find_true_iff : s.find key = some true ↔ s.Finds key := by
  cases key with
  | dirBlock block =>
      rw [find_dirBlock]
      exact SlotTable.search_true_iff
  | blacklisted name => exact SlotTable.search_true_iff
  | highEntropy name => exact SlotTable.search_true_iff

theorem find_none_iff : s.find key = none ↔ ¬s.Ends key := by
  cases key with
  | dirBlock block =>
      rw [find_dirBlock]
      exact SlotTable.search_none_iff
  | blacklisted name => exact SlotTable.search_none_iff
  | highEntropy name => exact SlotTable.search_none_iff

/-! ## Additions -/

theorem linuxAddToDirInodeExtentBlock_cases {t t' : SlotTable Nat 500}
    (h : (linuxAddToDirInodeExtentBlock t block).toOption = some (t', ret)) :
    t' = t ∧ block = 0 ∧ ret = -1 ∨
    ∃ old, t.add isUnused (· == block) block = some (t', old) ∧ block ≠ 0 ∧ ret = 1 := by
  unfold linuxAddToDirInodeExtentBlock at h
  by_cases hblock : block = 0
  · rw [if_pos hblock] at h
    cases h
    exact .inl ⟨rfl, hblock, rfl⟩
  · rw [if_neg hblock] at h
    cases hadd : t.add isUnused (· == block) block with
    | none =>
        rw [hadd] at h
        cases h
    | some pair =>
        rw [hadd] at h
        cases h
        exact .inr ⟨pair.2, rfl, hblock, rfl⟩

theorem addToProcessBlacklist_cases {t t' : SlotTable (List Byte) 100}
    (h : addToProcessBlacklist t name = some (t', ret)) :
    t' = t ∧ traverseExcludedProcessList name.bytes = true ∧ ret = -1 ∨
    ∃ old, t.add isFreeName (isInName name) name.bytes = some (t', old) ∧
      traverseExcludedProcessList name.bytes ≠ true ∧ ret = 1 := by
  unfold addToProcessBlacklist at h
  by_cases hexcluded : traverseExcludedProcessList name.bytes = true
  · rw [if_pos hexcluded] at h
    cases h
    exact .inl ⟨rfl, hexcluded, rfl⟩
  · rw [if_neg hexcluded] at h
    rcases Option.map_eq_some_iff.mp h with ⟨pair, hadd, hpair⟩
    cases hpair
    exact .inr ⟨pair.2, hadd, hexcluded, rfl⟩

theorem addToHighEntropylist_cases {t t' : SlotTable (List Byte) 100}
    (h : addToHighEntropylist t name = some (t', ret)) :
    ∃ old, t.add isFreeName (isInName name) name.bytes = some (t', old) ∧ 0 < ret := by
  rcases Option.map_eq_some_iff.mp h with ⟨⟨t₁, old⟩, hadd, hpair⟩
  cases hpair
  refine ⟨old, hadd, ?_⟩
  cases old <;> decide

/-- What an addition does: it reports failure and nothing changes, or it changes
the list of its key by an addition to the table. -/
theorem add_failed (h : s.add key = some (s', ret)) (hret : ret ≤ 0) : s' = s := by
  cases key with
  | dirBlock block =>
      rcases Option.map_eq_some_iff.mp h with ⟨⟨t, ret'⟩, hadd, hpair⟩
      cases hpair
      rcases linuxAddToDirInodeExtentBlock_cases hadd with ⟨rfl, -, -⟩ | ⟨old, -, -, rfl⟩
      · rfl
      · exact absurd hret (by decide)
  | blacklisted name =>
      rcases Option.map_eq_some_iff.mp h with ⟨⟨t, ret'⟩, hadd, hpair⟩
      cases hpair
      rcases addToProcessBlacklist_cases hadd with ⟨rfl, -, -⟩ | ⟨old, -, -, rfl⟩
      · rfl
      · exact absurd hret (by decide)
  | highEntropy name =>
      rcases Option.map_eq_some_iff.mp h with ⟨⟨t, ret'⟩, hadd, hpair⟩
      cases hpair
      rcases addToHighEntropylist_cases hadd with ⟨old, -, hpos⟩
      exact absurd hret (by omega)

/-- An addition keeps every key that is found. -/
theorem Finds.add (hfinds : s.Finds other) (h : s.add key = some (s', ret)) :
    s'.Finds other := by
  cases key with
  | dirBlock block =>
      rcases Option.map_eq_some_iff.mp h with ⟨⟨t, ret'⟩, hadd, hpair⟩
      cases hpair
      rcases linuxAddToDirInodeExtentBlock_cases hadd with ⟨rfl, -, -⟩ | ⟨old, hadd, -, -⟩
      · exact hfinds
      · cases other with
        | dirBlock block' => exact SlotTable.Found.add hfinds hadd
        | blacklisted name => exact hfinds
        | highEntropy name => exact hfinds
  | blacklisted name =>
      rcases Option.map_eq_some_iff.mp h with ⟨⟨t, ret'⟩, hadd, hpair⟩
      cases hpair
      rcases addToProcessBlacklist_cases hadd with ⟨rfl, -, -⟩ | ⟨old, hadd, -, -⟩
      · exact hfinds
      · cases other with
        | dirBlock block => exact hfinds
        | blacklisted name' => exact SlotTable.Found.add hfinds hadd
        | highEntropy name => exact hfinds
  | highEntropy name =>
      rcases Option.map_eq_some_iff.mp h with ⟨⟨t, ret'⟩, hadd, hpair⟩
      cases hpair
      rcases addToHighEntropylist_cases hadd with ⟨old, hadd, -⟩
      cases other with
      | dirBlock block => exact hfinds
      | blacklisted name => exact hfinds
      | highEntropy name' => exact SlotTable.Found.add hfinds hadd

/-- A key whose addition reports success is found afterwards. -/
theorem Takes.finds (htakes : s.Takes key) (h : s.add key = some (s', ret)) (hret : 0 < ret) :
    s'.Finds key := by
  cases key with
  | dirBlock block =>
      rcases Option.map_eq_some_iff.mp h with ⟨⟨t, ret'⟩, hadd, hpair⟩
      cases hpair
      rcases linuxAddToDirInodeExtentBlock_cases hadd with ⟨-, -, rfl⟩ | ⟨old, hadd, hblock, -⟩
      · exact absurd hret (by decide)
      · exact SlotTable.found_of_add hadd (.inr ⟨by simpa using hblock, by simp⟩)
  | blacklisted name =>
      rcases Option.map_eq_some_iff.mp h with ⟨⟨t, ret'⟩, hadd, hpair⟩
      cases hpair
      rcases addToProcessBlacklist_cases hadd with ⟨-, -, rfl⟩ | ⟨old, hadd, hexcluded, -⟩
      · exact absurd hret (by decide)
      · exact SlotTable.found_of_add hadd (htakes.resolve_left hexcluded).2
  | highEntropy name =>
      rcases Option.map_eq_some_iff.mp h with ⟨⟨t, ret'⟩, hadd, hpair⟩
      cases hpair
      rcases addToHighEntropylist_cases hadd with ⟨old, hadd, -⟩
      exact SlotTable.found_of_add hadd htakes.2

/-- An addition that the list takes stays inside its array. -/
theorem Takes.isSome (htakes : s.Takes key) : ∃ result, s.add key = some result := by
  cases key with
  | dirBlock block =>
      have hresult : ∃ result,
          (linuxAddToDirInodeExtentBlock s.dirInodeExtentBlock block).toOption = some result := by
        unfold linuxAddToDirInodeExtentBlock
        by_cases hblock : block = 0
        · rw [if_pos hblock]
          exact ⟨_, rfl⟩
        · rcases SlotTable.Ends.add (htakes.resolve_left hblock) block with ⟨t', old, hadd⟩
          rw [if_neg hblock, hadd]
          exact ⟨_, rfl⟩
      rcases hresult with ⟨result, hresult⟩
      exact ⟨_, Option.map_eq_some_iff.mpr ⟨result, hresult, rfl⟩⟩
  | blacklisted name =>
      have hresult : ∃ result,
          addToProcessBlacklist s.winProcesseBlacklist name = some result := by
        unfold addToProcessBlacklist
        by_cases hexcluded : traverseExcludedProcessList name.bytes = true
        · rw [if_pos hexcluded]
          exact ⟨_, rfl⟩
        · rcases SlotTable.Ends.add (htakes.resolve_left hexcluded).1 name.bytes with
            ⟨t', old, hadd⟩
          rw [if_neg hexcluded, hadd]
          exact ⟨_, rfl⟩
      rcases hresult with ⟨result, hresult⟩
      exact ⟨_, Option.map_eq_some_iff.mpr ⟨result, hresult, rfl⟩⟩
  | highEntropy name =>
      rcases SlotTable.Ends.add htakes.1 name.bytes with ⟨t', old, hadd⟩
      have hresult : addToHighEntropylist s.winHighEntropylist name =
          some (t', if old then 1 else 2) := by
        unfold addToHighEntropylist
        rw [hadd]
        rfl
      exact ⟨_, Option.map_eq_some_iff.mpr ⟨_, hresult, rfl⟩⟩

end DetectorLists

/-! ## Runs that the lists take -/

/-- A key can be added, or the search for it ends. -/
def DetectorLists.Serves (s : DetectorLists) : ListCall → Prop
  | .add key => s.Takes key
  | .find key => s.Ends key

instance (s : DetectorLists) : ∀ call, Decidable (s.Serves call)
  | .add key => inferInstanceAs (Decidable (s.Takes key))
  | .find key => inferInstanceAs (Decidable (s.Ends key))

namespace DetectorRun

variable {r r' : DetectorRun} {call : ListCall} {calls : List ListCall}

/-- Every call is served where it is made. -/
def Served : List ListCall → DetectorRun → Prop
  | [], _ => True
  | call :: calls, r => r.lists.Serves call ∧ ∀ r', r.step call = some r' → Served calls r'

instance decidableServed : ∀ calls r, Decidable (Served calls r)
  | [], _ => isTrue trivial
  | call :: calls, r =>
      have : DecidablePred (Served calls) := decidableServed calls
      inferInstanceAs (Decidable (r.lists.Serves call ∧ ∀ r' ∈ r.step call, Served calls r'))

/-- Every key that was added is found, and an addition that fails changes nothing. -/
structure Reliable (r : DetectorRun) : Prop where
  finds : ∀ key ∈ r.added, r.lists.find key = some true
  failed : ∀ key lists ret, r.lists.add key = some (lists, ret) → ret ≤ 0 → lists = r.lists

/-- Each call of the sequence runs inside the arrays and leaves reliable lists. -/
def Keeps (calls : List ListCall) : Prop :=
  ∀ n, ∃ r, run (calls.take n) initial = some r ∧ r.Reliable

theorem reliable_of_finds (h : ∀ key ∈ r.added, r.lists.Finds key) : r.Reliable where
  finds key hkey := DetectorLists.find_true_iff.mpr (h key hkey)
  failed _ _ _ hadd hret := DetectorLists.add_failed hadd hret

/-- One call that is served stays inside the arrays and keeps what is found. -/
theorem step_finds (hfinds : ∀ key ∈ r.added, r.lists.Finds key) (hserves : r.lists.Serves call) :
    ∃ r', r.step call = some r' ∧ ∀ key ∈ r'.added, r'.lists.Finds key := by
  cases call with
  | add key =>
      have htakes : r.lists.Takes key := hserves
      rcases htakes.isSome with ⟨⟨lists, ret⟩, hadd⟩
      refine ⟨⟨lists, if 0 < ret then key :: r.added else r.added⟩,
        Option.map_eq_some_iff.mpr ⟨_, hadd, rfl⟩, ?_⟩
      have hold : ∀ other ∈ r.added, lists.Finds other := fun other hother =>
        (hfinds other hother).add hadd
      intro other hother
      by_cases hret : 0 < ret
      · simp only [if_pos hret] at hother
        rcases List.mem_cons.mp hother with rfl | hother
        · exact htakes.finds hadd hret
        · exact hold other hother
      · simp only [if_neg hret] at hother
        exact hold other hother
  | find key =>
      have hends : r.lists.Ends key := hserves
      have hfind := mt DetectorLists.find_none_iff.mp (not_not.mpr hends)
      rcases Option.ne_none_iff_exists'.mp hfind with ⟨found, hfound⟩
      exact ⟨r, Option.map_eq_some_iff.mpr ⟨_, hfound, rfl⟩, hfinds⟩

theorem run_finds (hfinds : ∀ key ∈ r.added, r.lists.Finds key) (hserved : Served calls r) :
    ∀ n, ∃ r', run (calls.take n) r = some r' ∧ ∀ key ∈ r'.added, r'.lists.Finds key := by
  induction calls generalizing r with
  | nil =>
      intro n
      rw [List.take_nil]
      exact ⟨r, rfl, hfinds⟩
  | cons call calls ih =>
      intro n
      cases n with
      | zero => exact ⟨r, rfl, hfinds⟩
      | succ n =>
          rcases step_finds hfinds hserved.1 with ⟨r₁, hstep, hfinds₁⟩
          rcases ih hfinds₁ (hserved.2 r₁ hstep) n with ⟨r', hrun, hfinds'⟩
          refine ⟨r', ?_, hfinds'⟩
          rw [List.take_succ_cons]
          unfold run
          rw [hstep]
          exact hrun

/-- In every run whose calls are served, no call leaves an array and every key
that was added is found. -/
theorem detector_lists_keep (calls : List ListCall) (hserved : Served calls initial) :
    Keeps calls := by
  have hnone : ∀ key ∈ initial.added, initial.lists.Finds key := fun key hkey =>
    absurd hkey List.not_mem_nil
  intro n
  rcases run_finds hnone hserved n with ⟨r, hrun, hfinds⟩
  exact ⟨r, hrun, reliable_of_finds hfinds⟩

/-- A name of ten characters. -/
def cerber : ProcessName := ⟨literal "cerber.exe" ++ List.replicate 5 0, rfl⟩

/-- Additions to each list, each with a key that is already there, and searches for keys
that are there and for one that is not. -/
theorem detector_lists_keep_name :
    Keeps [.add (.dirBlock 8), .add (.dirBlock 9), .add (.blacklisted cerber),
      .add (.dirBlock 8), .find (.dirBlock 9), .add (.highEntropy cerber),
      .add (.blacklisted cerber), .find (.dirBlock 10), .find (.blacklisted cerber),
      .add (.highEntropy cerber)] :=
  detector_lists_keep _ (by decide +kernel)

/-! ## The full list -/

/-- The additions of the first `n` blocks. -/
def fillBlocks (n : Nat) : List ListCall :=
  (List.range' 1 n).map fun block => .add (.dirBlock block)

/-- The next block goes into the first free entry. -/
theorem add_next_block {n : Nat} (hn : n < 500)
    (h : r.lists.dirInodeExtentBlock.entries = List.range' 1 n ++ List.replicate (500 - n) 0) :
    ∃ r', r.step (.add (.dirBlock (n + 1))) = some r' ∧
      r'.lists.dirInodeExtentBlock.entries =
        List.range' 1 (n + 1) ++ List.replicate (500 - (n + 1)) 0 := by
  have hzeros : List.replicate (500 - n) 0 = 0 :: List.replicate (500 - (n + 1)) 0 := by
    rw [← List.replicate_succ]
    congr 1
    omega
  rw [hzeros] at h
  have hscan : r.lists.dirInodeExtentBlock.scan isUnused (· == n + 1) = .free n := by
    unfold SlotTable.scan
    rw [h, SlotTable.scanList_append_free, List.length_range']
    · intro block hblock
      have hrange := List.mem_range'_1.mp hblock
      constructor
      · simp only [isUnused, beq_eq_false_iff_ne]
        omega
      · simp only [beq_eq_false_iff_ne]
        omega
    · rfl
  have hadd : linuxAddToDirInodeExtentBlock r.lists.dirInodeExtentBlock (n + 1) =
      .ok (r.lists.dirInodeExtentBlock.put n (n + 1), 1) := by
    unfold linuxAddToDirInodeExtentBlock SlotTable.add
    rw [if_neg (Nat.succ_ne_zero n), hscan]
  refine ⟨⟨{ r.lists with
    dirInodeExtentBlock := r.lists.dirInodeExtentBlock.put n (n + 1) },
    .dirBlock (n + 1) :: r.added⟩, ?_, ?_⟩
  · have hlists : r.lists.add (.dirBlock (n + 1)) = some ({ r.lists with
        dirInodeExtentBlock := r.lists.dirInodeExtentBlock.put n (n + 1) }, 1) := by
      unfold DetectorLists.add
      simp only [hadd]
      rfl
    exact Option.map_eq_some_iff.mpr ⟨_, hlists, rfl⟩
  · change r.lists.dirInodeExtentBlock.entries.set n (n + 1) = _
    rw [h, List.set_append_right _ _ (by rw [List.length_range']), List.length_range',
      Nat.sub_self, List.set_cons_zero, List.range'_concat, List.append_assoc]
    simp [Nat.add_comm]

theorem run_append (more : List ListCall) :
    run (calls ++ more) r = (run calls r).bind (run more) := by
  induction calls generalizing r with
  | nil => rfl
  | cons call calls ih =>
      change (r.step call).bind (run (calls ++ more)) =
        ((r.step call).bind (run calls)).bind (run more)
      cases r.step call with
      | none => rfl
      | some r' => exact ih

theorem run_fillBlocks (n : Nat) (hn : n ≤ 500) :
    ∃ r, run (fillBlocks n) initial = some r ∧
      r.lists.dirInodeExtentBlock.entries = List.range' 1 n ++ List.replicate (500 - n) 0 := by
  induction n with
  | zero => exact ⟨initial, rfl, rfl⟩
  | succ n ih =>
      rcases ih (by omega) with ⟨r, hrun, hentries⟩
      rcases add_next_block (by omega) hentries with ⟨r', hstep, hentries'⟩
      refine ⟨r', ?_, hentries'⟩
      have hcalls : fillBlocks (n + 1) = fillBlocks n ++ [.add (.dirBlock (n + 1))] := by
        unfold fillBlocks
        rw [List.range'_concat, List.map_append]
        simp [Nat.add_comm]
      rw [hcalls, run_append, hrun]
      exact (congrArg (fun o => o.bind (run [])) hstep).trans rfl

/-- With 500 blocks in the list, the search for another one leaves the array. -/
theorem find_behind_full : ¬Keeps (fillBlocks 500 ++ [.find (.dirBlock 501)]) := by
  intro hkeeps
  rcases hkeeps 501 with ⟨r', hrun, -⟩
  have hlength : (fillBlocks 500 ++ [ListCall.find (.dirBlock 501)]).length ≤ 501 := by
    simp [fillBlocks]
  rw [List.take_of_length_le hlength, run_append] at hrun
  rcases run_fillBlocks 500 (le_refl _) with ⟨r, hfull, hentries⟩
  rw [hfull] at hrun
  have hnone : r.lists.find (.dirBlock 501) = none := by
    rw [DetectorLists.find_none_iff]
    rintro ⟨block, hmem, hfree | hhit⟩
    · rw [hentries, Nat.sub_self, List.replicate_zero, List.append_nil] at hmem
      have hrange := List.mem_range'_1.mp hmem
      have hzero : block = 0 := by simpa using hfree
      omega
    · rw [hentries, Nat.sub_self, List.replicate_zero, List.append_nil] at hmem
      have hrange := List.mem_range'_1.mp hmem
      have heq : block = 501 := by simpa using hhit
      omega
  have hstep : r.step (.find (.dirBlock 501)) = none :=
    congrArg (Option.map fun _ => r) hnone
  have hlast : run [.find (.dirBlock 501)] r = none :=
    congrArg (fun o => o.bind (run [])) hstep
  rw [Option.bind_some, hlast] at hrun
  cases hrun

end DetectorRun

end RansomTag

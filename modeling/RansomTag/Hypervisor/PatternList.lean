import RansomTag.Hypervisor.DetectorLists

/-!
# The pattern list

`win_add_to_patternlist` finds the name of a file behind the last backslash of
its path and records the reads and writes of a process on it.  A read before the
start of the path, or outside the list, ends the call.
-/

namespace RansomTag

/-! ## File names -/

/-- `READFILE`, `WRITEFILE` and `DELETEFILE`. -/
inductive FileActivity where
  | read
  | write
  | delete
  deriving DecidableEq

/-- `len` bytes of a path from `start` on. -/
def pathBytes (filename : Nat → Byte) (start len : Nat) : List Byte :=
  (List.range len).map fun i => filename (start + i)

/-- The backward scan from `p` on, two bytes at a time. -/
def scanBack (filename : Nat → Byte) : Nat → Option Nat
  | 0 => if filename 0 = 0x5C then some 0 else none
  | 1 => if filename 1 = 0x5C then some 1 else none
  | p + 2 => if filename (p + 2) = 0x5C then some (p + 2) else scanBack filename p

/-- The name that the code compares, of a path with at least two bytes. -/
def winBaseName (filename : Nat → Byte) (length : Nat) : Option (List Byte) :=
  (scanBack filename (min length 512 - 2)).map fun p =>
    pathBytes filename (p + 2) (min length 512 - 2 - p)

/-! ## Entries -/

/-- `memcpy` of a name to an array. -/
def copyName (array : Nat → Byte) (name : List Byte) : Nat → Byte := fun i =>
  if i < name.length then name.getD i 0 else array i

/-- `memcmp` of an array with a name, over the length of the name. -/
def startsWithName (array : Nat → Byte) (name : List Byte) : Bool :=
  sameBytes array (fun i => name.getD i 0) name.length

/-- The arguments of a call, what the blacklist says of the process, and the
process for patterns. -/
structure PatternCall where
  processName : ProcessName
  filename : Nat → Byte
  length : Nat
  activity : FileActivity
  blacklisted : Bool
  processForPattern : List Byte

namespace RansomPattern

variable (e : RansomPattern) (call : PatternCall) (name : List Byte)

/-- The entry is of the process of the call. -/
def ofProcess : Bool := memFindStr e.processName 14 (cString call.processName.bytes)

/-- The file read by the process is written; the flag says that this was known. -/
def recordWrite : Option (RansomPattern × Bool) :=
  if startsWithName e.readFileName name then
    if startsWithName e.writeFileName name then some (e, true)
    else if e.writeFileName 0 = 0 then
      some ({ e with writeFileName := copyName e.writeFileName name }, false)
    else none
  else none

/-- What the loop does with an entry, if it returns there. -/
def record : Option (RansomPattern × Bool) :=
  if e.used = false then none
  else
    match call.activity with
    | .read =>
        if startsWithName e.readFileName name && e.ofProcess call then some (e, true) else none
    | .write =>
        if memFindStr call.processName.bytes 14 (cString call.processForPattern) &&
            e.ofProcess call && decide (name.length ≤ 42) &&
            startsWithName ntfsMetaFileConvertToNonresident name then
          if sameBytes ntfsMetaFileConvertToNonresident e.writeFileName 42 then some (e, true)
          else if e.writeFileName 0 = 0 then
            some ({ e with writeFileName := copyName e.writeFileName name }, false)
          else e.recordWrite name
        else e.recordWrite name
    | .delete => none

end RansomPattern

/-! ## Calls -/

abbrev PatternTable := SlotTable RansomPattern 100

/-- The end of the call: a new entry for a read, in a list that is cleared when
all entries are in use. -/
def newPattern (t : PatternTable) (call : PatternCall) (name : List Byte) :
    Option (PatternTable × Int) :=
  let t := if t.entries.all (·.used) then SlotTable.fill 100 RansomPattern.zero else t
  if call.activity = .read then
    match t.scan (fun e => !e.used) (fun _ => false) with
    | .free i =>
        some (t.put i
          { t.entries.getD i .zero with
            processName := call.processName.bytes
            readFileName := copyName (t.entries.getD i .zero).readFileName name
            used := true }, 1)
    | _ => none
  else some (t, 0)

/-- `win_add_to_patternlist` -/
def winAddToPatternlist (t : PatternTable) (call : PatternCall) : Option (PatternTable × Int) :=
  if call.blacklisted then some (t, 0)
  else if call.length < 2 then some (t, 0)
  else
    (winBaseName call.filename call.length).bind fun name =>
      if name = [] then some (t, 0)
      else
        match t.replaceFirst fun e => (e.record call name).map Prod.fst with
        | some t => some (t, 1)
        | none => newPattern t call name

/-! ## Base names -/

/-- The last backslash among the first characters. -/
def lastBackslash (filename : Nat → Byte) : Nat → Option Nat
  | 0 => none
  | n + 1 => if le16 filename (2 * n) = 0x5C then some n else lastBackslash filename n

/-- What is behind the last backslash, or the whole name. -/
def baseName (filename : Nat → Byte) (length : Nat) : List Byte :=
  match lastBackslash filename (length / 2) with
  | some k => pathBytes filename (2 * k + 2) (length - (2 * k + 2))
  | none => pathBytes filename 0 length

/-- The array holds this name and zeros behind it. -/
def holdsName (array : Nat → Byte) (name : List Byte) : Prop :=
  ∀ i < fileNameSize, array i = name.getD i 0

/-- The name of the meta file that some writes name. -/
def convertToNonresident : List Byte :=
  pathBytes ntfsMetaFileConvertToNonresident 0 42

/-- A path of whole characters that fits the array, with a backslash behind which
no character has a backslash for its low byte. -/
structure PathFits (filename : Nat → Byte) (length : Nat) : Prop where
  even : length % 2 = 0
  short : length ≤ 512
  separator : ∃ k < length / 2, le16 filename (2 * k) = 0x5C ∧
    ∀ m, k < m → m < length / 2 → filename (2 * m) ≠ 0x5C

instance (array : Nat → Byte) (name : List Byte) : Decidable (holdsName array name) :=
  decidable_of_iff (sameBytes array (fun i => name.getD i 0) fileNameSize = true) sameBytes_iff

variable {filename : Nat → Byte} {length : Nat}

theorem pathFits_iff : PathFits filename length ↔
    length % 2 = 0 ∧ length ≤ 512 ∧ ∃ k < length / 2, le16 filename (2 * k) = 0x5C ∧
      ∀ m < length / 2, k < m → filename (2 * m) ≠ 0x5C := by
  constructor
  · rintro ⟨heven, hshort, k, hk, hsep, hbehind⟩
    exact ⟨heven, hshort, k, hk, hsep, fun m hupper hlower => hbehind m hlower hupper⟩
  · rintro ⟨heven, hshort, k, hk, hsep, hbehind⟩
    exact ⟨heven, hshort, k, hk, hsep, fun m hlower hupper => hbehind m hupper hlower⟩

instance : Decidable (PathFits filename length) := decidable_of_iff _ pathFits_iff.symm

theorem scanBack_even {n k : Nat} (hk : k ≤ n) (hsep : filename (2 * k) = 0x5C)
    (hbehind : ∀ m, k < m → m ≤ n → filename (2 * m) ≠ 0x5C) :
    scanBack filename (2 * n) = some (2 * k) := by
  induction n with
  | zero =>
      have hzero : k = 0 := by omega
      subst hzero
      exact if_pos hsep
  | succ n ih =>
      change scanBack filename (2 * n + 2) = some (2 * k)
      unfold scanBack
      by_cases heq : k = n + 1
      · subst heq
        exact if_pos hsep
      · have hnext : filename (2 * n + 2) ≠ 0x5C := hbehind (n + 1) (by omega) (by omega)
        rw [if_neg hnext]
        exact ih (by omega) fun m hlower hupper => hbehind m hlower (by omega)

theorem lastBackslash_eq {n k : Nat} (hk : k < n) (hsep : le16 filename (2 * k) = 0x5C)
    (hbehind : ∀ m, k < m → m < n → le16 filename (2 * m) ≠ 0x5C) :
    lastBackslash filename n = some k := by
  induction n with
  | zero => exact absurd hk (Nat.not_lt_zero k)
  | succ n ih =>
      unfold lastBackslash
      by_cases heq : k = n
      · subst heq
        exact if_pos hsep
      · rw [if_neg (hbehind n (by omega) (by omega))]
        exact ih (by omega) fun m hlower hupper => hbehind m hlower (by omega)

/-- The low byte of a backslash. -/
theorem le16_backslash {i : Nat} (h : le16 filename i = 0x5C) : filename i = 0x5C := by
  have hlow := (filename i).isLt
  unfold le16 at h
  apply BitVec.eq_of_toNat_eq
  have hvalue : (0x5C : Byte).toNat = 0x5C := rfl
  rw [hvalue]
  omega

/-- The scan stays in a path that fits, and finds its base name. -/
theorem PathFits.winBaseName_eq (h : PathFits filename length) :
    winBaseName filename length = some (baseName filename length) := by
  rcases h.separator with ⟨k, hk, hsep, hbehind⟩
  have heven := h.even
  have hshort : min length 512 - 2 = 2 * (length / 2 - 1) := by
    rw [Nat.min_eq_left h.short]
    omega
  have hscan : scanBack filename (2 * (length / 2 - 1)) = some (2 * k) :=
    scanBack_even (by omega) (le16_backslash hsep) fun m hlower hupper =>
      hbehind m hlower (by omega)
  have hlast : lastBackslash filename (length / 2) = some k :=
    lastBackslash_eq hk hsep fun m hlower hupper hbackslash =>
      hbehind m hlower hupper (le16_backslash hbackslash)
  have hlength : 2 * (length / 2 - 1) - 2 * k = length - (2 * k + 2) := by omega
  unfold winBaseName baseName
  rw [hshort, hscan, hlast, Option.map_some, hlength]

/-! ## One call -/

/-- No entry holds a name that merely starts with this one, and the name does not
merely start that of the meta file. -/
@[mk_iff] structure NoPrefix (t : PatternTable) (name : List Byte) : Prop where
  read : ∀ e ∈ t.entries, e.used = true → startsWithName e.readFileName name = true →
    holdsName e.readFileName name
  write : ∀ e ∈ t.entries, e.used = true → startsWithName e.writeFileName name = true →
    holdsName e.writeFileName name
  metaFile : startsWithName ntfsMetaFileConvertToNonresident name = true →
    name = convertToNonresident
  metaWrite : ∀ e ∈ t.entries, e.used = true →
    sameBytes ntfsMetaFileConvertToNonresident e.writeFileName 42 = true →
      holdsName e.writeFileName convertToNonresident

instance (t : PatternTable) (name : List Byte) : Decidable (NoPrefix t name) :=
  decidable_of_iff _ (noPrefix_iff t name).symm

/-- The entry holds what it takes to count for the call. -/
def RansomPattern.Names (e : RansomPattern) (activity : FileActivity) (name : List Byte) : Prop :=
  holdsName e.readFileName name ∨ activity = .write ∧ name = convertToNonresident

/-- The call stays in the path and the list and finds the base name, and an entry
counts only if it holds the name. -/
structure RecordsFile (t : PatternTable) (call : PatternCall) : Prop where
  inside : ∃ result, winAddToPatternlist t call = some result
  base : call.blacklisted = false → 2 ≤ call.length →
    winBaseName call.filename call.length = some (baseName call.filename call.length)
  names : call.blacklisted = false → 2 ≤ call.length → ∀ e ∈ t.entries, ∀ e' known,
    e.record call (baseName call.filename call.length) = some (e', known) →
      e.Names call.activity (baseName call.filename call.length)
  known : call.blacklisted = false → 2 ≤ call.length → call.activity = .write →
    ∀ e ∈ t.entries, ∀ e',
      e.record call (baseName call.filename call.length) = some (e', true) →
        holdsName e.writeFileName (baseName call.filename call.length)

/-- The condition on one call. -/
def FileFits (t : PatternTable) (call : PatternCall) : Prop :=
  call.blacklisted = false → 2 ≤ call.length →
    PathFits call.filename call.length ∧ NoPrefix t (baseName call.filename call.length)

instance (t : PatternTable) (call : PatternCall) : Decidable (FileFits t call) :=
  inferInstanceAs (Decidable (call.blacklisted = false → 2 ≤ call.length → _ ∧ _))

/-- A new entry is inside the list: a list with all entries in use was cleared. -/
theorem newPattern_inside (t : PatternTable) (call : PatternCall) (name : List Byte) :
    ∃ result, newPattern t call name = some result := by
  unfold newPattern
  by_cases hread : call.activity = .read
  · simp only [if_pos hread]
    by_cases hfull : t.entries.all (·.used) = true
    · rw [if_pos hfull, SlotTable.scan_fill rfl (by decide)]
      exact ⟨_, rfl⟩
    · rw [if_neg hfull]
      have hends : t.Ends (fun e => !e.used) (fun _ => false) := by
        rw [List.all_eq_true] at hfull
        push Not at hfull
        rcases hfull with ⟨e, hmem, hunused⟩
        exact ⟨e, hmem, .inl (by simpa using hunused)⟩
      cases hscan : t.scan (fun e => !e.used) (fun _ => false) with
      | free i => exact ⟨_, rfl⟩
      | past => exact absurd hscan (SlotTable.ends_iff.mp hends)
      | hit i =>
          rcases SlotTable.scanList_hit_iff.mp ⟨i, hscan⟩ with ⟨j, e, -, hhit, -⟩
          cases hhit
  · simp only [if_neg hread]
    exact ⟨_, rfl⟩

/-- After the scan the call stays inside the list. -/
theorem winAddToPatternlist_inside {t : PatternTable} {call : PatternCall}
    (h : call.blacklisted = false → 2 ≤ call.length →
      ∃ name, winBaseName call.filename call.length = some name) :
    ∃ result, winAddToPatternlist t call = some result := by
  unfold winAddToPatternlist
  by_cases hblacklisted : call.blacklisted = true
  · rw [if_pos hblacklisted]
    exact ⟨_, rfl⟩
  · rw [if_neg hblacklisted]
    by_cases hshort : call.length < 2
    · rw [if_pos hshort]
      exact ⟨_, rfl⟩
    · rw [if_neg hshort]
      rcases h (by simpa using hblacklisted) (by omega) with ⟨name, hname⟩
      rw [hname, Option.bind_some]
      by_cases hempty : name = []
      · rw [if_pos hempty]
        exact ⟨_, rfl⟩
      · rw [if_neg hempty]
        cases t.replaceFirst fun e => (e.record call name).map Prod.fst with
        | some t' => exact ⟨_, rfl⟩
        | none => exact newPattern_inside t call name

section

variable {t : PatternTable} {call : PatternCall} {name : List Byte} {e e' : RansomPattern}
  {known : Bool}

theorem NoPrefix.recordWrite (h : NoPrefix t name) (hmem : e ∈ t.entries) (hused : e.used = true)
    (hrecord : e.recordWrite name = some (e', known)) :
    holdsName e.readFileName name ∧ (known = true → holdsName e.writeFileName name) := by
  unfold RansomPattern.recordWrite at hrecord
  split_ifs at hrecord with hread hwrite hempty
  · cases hrecord
    exact ⟨h.read e hmem hused hread, fun _ => h.write e hmem hused hwrite⟩
  · cases hrecord
    exact ⟨h.read e hmem hused hread, fun hknown => absurd hknown Bool.false_ne_true⟩

/-- An entry that counts holds the name. -/
theorem NoPrefix.record (h : NoPrefix t name) (hmem : e ∈ t.entries)
    (hrecord : e.record call name = some (e', known)) :
    e.Names call.activity name ∧
      (call.activity = .write → known = true → holdsName e.writeFileName name) := by
  unfold RansomPattern.record at hrecord
  by_cases hunused : e.used = false
  · rw [if_pos hunused] at hrecord
    cases hrecord
  · have hused : e.used = true := by simpa using hunused
    rw [if_neg hunused] at hrecord
    cases hactivity : call.activity with
    | read =>
        rw [hactivity] at hrecord
        simp only at hrecord
        split_ifs at hrecord with hread
        have hstarts := ((Bool.and_eq_true _ _).mp hread).1
        exact ⟨.inl (h.read e hmem hused hstarts), fun hwrite => by cases hwrite⟩
    | write =>
        rw [hactivity] at hrecord
        simp only at hrecord
        split_ifs at hrecord with hmeta hsame hempty
        · have hname := h.metaFile ((Bool.and_eq_true _ _).mp hmeta).2
          cases hrecord
          refine ⟨.inr ⟨rfl, hname⟩, fun _ _ => ?_⟩
          rw [hname]
          exact h.metaWrite e hmem hused hsame
        · have hname := h.metaFile ((Bool.and_eq_true _ _).mp hmeta).2
          cases hrecord
          exact ⟨.inr ⟨rfl, hname⟩, fun _ hknown => absurd hknown Bool.false_ne_true⟩
        · have hwrite := h.recordWrite hmem hused hrecord
          exact ⟨.inl hwrite.1, fun _ => hwrite.2⟩
        · have hwrite := h.recordWrite hmem hused hrecord
          exact ⟨.inl hwrite.1, fun _ => hwrite.2⟩
    | delete =>
        rw [hactivity] at hrecord
        cases hrecord

theorem FileFits.records (h : FileFits t call) : RecordsFile t call where
  inside := winAddToPatternlist_inside fun hblacklisted hlength =>
    ⟨_, (h hblacklisted hlength).1.winBaseName_eq⟩
  base hblacklisted hlength := (h hblacklisted hlength).1.winBaseName_eq
  names hblacklisted hlength _ hmem _ _ hrecord :=
    ((h hblacklisted hlength).2.record hmem hrecord).1
  known hblacklisted hlength hwrite _ hmem _ hrecord :=
    ((h hblacklisted hlength).2.record hmem hrecord).2 hwrite rfl

end

/-! ## Runs -/

/-- The list after some calls. -/
def winAddAllToPatternlist (calls : List PatternCall) (t : PatternTable) : Option PatternTable :=
  calls.foldlM (fun t call => (winAddToPatternlist t call).map Prod.fst) t

def emptyPatternlist : PatternTable := SlotTable.fill 100 .zero

/-- The calls run one after the other, and each records its file. -/
def RecordsFiles (calls : List PatternCall) : Prop :=
  ∀ n < calls.length, ∃ t, winAddAllToPatternlist (calls.take n) emptyPatternlist = some t ∧
    ∀ call, calls[n]? = some call → RecordsFile t call

/-- A run goes through where each of its calls does. -/
theorem winAddAllToPatternlist_inside {calls : List PatternCall}
    (h : ∀ n t call, winAddAllToPatternlist (calls.take n) emptyPatternlist = some t →
      calls[n]? = some call → ∃ result, winAddToPatternlist t call = some result) (n : Nat) :
    ∃ t, winAddAllToPatternlist (calls.take n) emptyPatternlist = some t := by
  induction n with
  | zero => exact ⟨_, rfl⟩
  | succ n ih =>
      rcases ih with ⟨t, hrun⟩
      cases hcall : calls[n]? with
      | none =>
          have hlength := List.getElem?_eq_none_iff.mp hcall
          rw [List.take_of_length_le hlength] at hrun
          rw [List.take_of_length_le (by omega)]
          exact ⟨t, hrun⟩
      | some call =>
          rcases h n t call hrun hcall with ⟨result, hresult⟩
          refine ⟨result.1, ?_⟩
          unfold winAddAllToPatternlist at hrun ⊢
          rw [List.take_add_one, hcall, List.foldlM_append, hrun]
          change ((winAddToPatternlist t call).map Prod.fst).bind _ = _
          rw [hresult]
          rfl

/-- A call for a path by a process that is not on the blacklist. -/
def callFor (activity : FileActivity) (path : List Byte) : PatternCall where
  processName := ⟨literal "notepad.exe" ++ List.replicate 4 0, rfl⟩
  filename := fun i => path.getD i 0
  length := path.length
  activity := activity
  blacklisted := false
  processForPattern := []

/-- A file `A` of the root directory is read, which takes a free entry, a file `A` of another
directory is written, which that entry records, and both are read and written again. -/
def callsForA : List PatternCall :=
  [callFor .read [0x5C, 0, 0x41, 0], callFor .write [0x5C, 0, 0x44, 0, 0x5C, 0, 0x41, 0],
    callFor .read [0x5C, 0, 0x44, 0, 0x5C, 0, 0x41, 0], callFor .write [0x5C, 0, 0x41, 0]]

end RansomTag

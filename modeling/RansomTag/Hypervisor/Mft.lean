import RansomTag.Hypervisor.Windows

/-!
# Parsing written MFT records

`ParseMFT` of `ransomtag.c`: the walk over the file records of a sector buffer
on its way to the device, and the blacklisting of the process whose pattern
names a deleted file.  The buffer is guest data and is read as memory: what
lies behind its end is read like the rest.
-/

namespace RansomTag

/-! ## Lists of processes and patterns -/

/-- An array of characters up to its terminator. -/
def cString (s : List Byte) : List Byte := s.takeWhile (· ≠ 0)

/-- What `ParseMFT` uses of `win_ransom_pattern`; the names are arrays of 512
bytes. -/
structure RansomPattern where
  processName : List Byte
  readFileName : Nat → Byte
  writeFileName : Nat → Byte
  used : Bool

@[simp, reducible] def fileNameSize : Nat := 512

/-- `win_excluded_processes` -/
def winExcludedProcesses : List (List Byte) :=
  [literal "Idle", literal "7zG", literal "WinRAR", literal "DbgView.exe"]

def traverseExcludedProcessList (processName : List Byte) : Bool :=
  winExcludedProcesses.any fun name => memFindStr processName 14 name

/-- `win_traverse_high_entropylist`, over the entries in use. -/
def winTraverseHighEntropylist (highEntropy : List (List Byte)) (processName : List Byte) : Bool :=
  highEntropy.any fun name => memFindStr processName 14 (cString name)

/-- `win_add_to_process_blacklist`, on the entries in use. -/
def winAddToProcessBlacklist (blacklist : List (List Byte)) (processName : List Byte) :
    List (List Byte) :=
  if traverseExcludedProcessList processName then blacklist
  else if blacklist.any fun name => memFindStr processName 14 (cString name) then blacklist
  else if blacklist.length < 100 then blacklist ++ [processName]
  else blacklist

/-- An entry of `patternlist` after `memset`. -/
def RansomPattern.zero : RansomPattern := ⟨List.replicate 15 0, fun _ => 0, fun _ => 0, false⟩

/-- `win_del_from_patternlist` -/
def winDelFromPatternlist (patterns : List RansomPattern) (processName : List Byte) :
    List RansomPattern :=
  patterns.map fun p => if memFindStr p.processName 14 (cString processName) then .zero else p

/-- `NTFS_MetaFile_ConvertToNonresident`: the name in 16-bit characters. -/
def ntfsMetaFileConvertToNonresident (i : Nat) : Byte :=
  if i % 2 = 0 then (literal "$ConvertToNonresident").getD (i / 2) 0 else 0

/-- `memcmp` of the first `len` bytes is zero. -/
def sameBytes (a b : Nat → Byte) (len : Nat) : Bool := (List.range len).all fun i => a i == b i

theorem sameBytes_iff {a b : Nat → Byte} {len : Nat} :
    sameBytes a b len = true ↔ ∀ i < len, a i = b i := by
  simp [sameBytes]

/-- The test that the loop over `patternlist` makes of an entry. -/
def RansomPattern.matches (p : RansomPattern) (highEntropy : List (List Byte))
    (filename : Nat → Byte) (filenameLength : Nat) : Bool :=
  p.used && sameBytes p.readFileName filename filenameLength &&
    (sameBytes p.writeFileName filename filenameLength ||
      sameBytes p.writeFileName ntfsMetaFileConvertToNonresident 42) &&
    winTraverseHighEntropylist highEntropy p.processName

/-! ## Records -/

@[simp, reducible] def mftFileSize : Nat := 1024

/-- A sector buffer and the memory behind it. -/
abbrev GuestBuffer := Nat → Byte

section

variable (buf : GuestBuffer)

def le16 (i : Nat) : Nat := (buf i).toNat + 256 * (buf (i + 1)).toNat
def le32 (i : Nat) : Nat := le16 buf i + 65536 * le16 buf (i + 2)

/-- `Ntfs.Type`, `AttributeOffset` and `Flags` of the record at `record`. -/
def recordType (record : Nat) : Nat := le32 buf record
def attributeOffset (record : Nat) : Nat := le16 buf (record + 0x14)
def recordFlags (record : Nat) : Nat := le16 buf (record + 0x16)

/-- Fields of the attribute that starts `attr` bytes into the record. -/
def attributeType (record attr : Nat) : Nat := le32 buf (record + attr)
def recordLength (record attr : Nat) : Nat := le16 buf (record + attr + 4)
def valueOffset (record attr : Nat) : Nat := le16 buf (record + attr + 0x14)

/-- Where its `FILENAME_ATTRIBUTE` starts in the record. -/
def fileNameOffset (record attr : Nat) : Nat := attr + valueOffset buf record attr

/-- `NameLength`, in characters. -/
def nameLength (record attr : Nat) : Nat :=
  (buf (record + fileNameOffset buf record attr + 0x40)).toNat

/-- The byte variable `filename_length`. -/
def filenameLength (record attr : Nat) : Nat := nameLength buf record attr * 2 % 256

/-- The bytes of `Name`. -/
def filename (record attr : Nat) : Nat → Byte := fun i =>
  buf (record + fileNameOffset buf record attr + 0x42 + i)

/-! ## The walk -/

/-- A process that was blacklisted for the file name at `attr`. -/
structure Blacklisting where
  record : Nat
  attr : Nat
  pattern : RansomPattern

/-- The lists, the bytes read so far by their offset in their record, and whom
the records had blacklisted, the latest first. -/
structure MftScan where
  patterns : List RansomPattern
  blacklist : List (List Byte)
  reads : List Nat
  blacklisted : List Blacklisting

def MftScan.read (s : MftScan) (first len : Nat) : MftScan :=
  { s with reads := List.range' first len ++ s.reads }

variable (highEntropy : List (List Byte))

/-- The entry at which the loop over `patternlist` breaks. -/
def findPattern (patterns : List RansomPattern) (record attr : Nat) : Option RansomPattern :=
  patterns.find? fun p =>
    p.matches highEntropy (filename buf record attr) (filenameLength buf record attr)

/-- The loop over `patternlist` for a deleted file. -/
def handleDeleted (record attr : Nat) (s : MftScan) : MftScan :=
  match findPattern buf highEntropy s.patterns record attr with
  | none => s
  | some p =>
      { s with
        patterns := winDelFromPatternlist s.patterns p.processName
        blacklist := winAddToProcessBlacklist s.blacklist p.processName
        blacklisted :=
          if traverseExcludedProcessList p.processName then s.blacklisted
          else ⟨record, attr, p⟩ :: s.blacklisted }

/-- An attribute of type `0x30`: its name is printed and looked for. -/
def parseFileName (record attr : Nat) (s : MftScan) : MftScan :=
  let s := s.read (attr + 0x14) 2
  let s := s.read (fileNameOffset buf record attr + 0x40) 1
  let s := s.read (fileNameOffset buf record attr + 0x42) (filenameLength buf record attr)
  if recordFlags buf record = 0 then handleDeleted buf highEntropy record attr s else s

/-- The loop over the attributes, which may not end within the fuel. -/
def attributeLoop (record : Nat) : Nat → Nat → MftScan → Option MftScan
  | 0, _, _ => none
  | fuel + 1, attr, s =>
      if attr < mftFileSize then
        let s := s.read attr 4
        if attributeType buf record attr = 0x30 then
          let s := parseFileName buf highEntropy record attr s
          attributeLoop record fuel (attr + recordLength buf record attr)
            (s.read (attr + 4) 2)
        else if attributeType buf record attr = 0xFFFFFFFF then some s
        else
          attributeLoop record fuel (attr + recordLength buf record attr)
            (s.read (attr + 4) 2)
      else some s

/-- The loop over the records from `record` on, `n` of them. -/
def recordLoop (fuel : Nat) : Nat → Nat → MftScan → Option MftScan
  | 0, _, s => some s
  | n + 1, record, s =>
      if recordType buf record ≠ 0x454C4946 then recordLoop fuel n (record + 1024) s
      else
        (attributeLoop buf highEntropy record fuel (attributeOffset buf record) s).bind
          (recordLoop fuel n (record + 1024))

/-- `ParseMFT`, given `fuel` rounds for each record. -/
def parseMft (fuel length : Nat) (s : MftScan) : Option MftScan :=
  recordLoop buf highEntropy fuel (length / 1024) 0 s

/-! ## What a run relies on -/

/-- The whole name, as an array of 512 bytes. -/
def fullName (record attr : Nat) (i : Nat) : Byte :=
  if i < nameLength buf record attr * 2 then filename buf record attr i else 0

/-- `$ConvertToNonresident` as an array of 512 bytes. -/
def convertName (i : Nat) : Byte := if i < 42 then ntfsMetaFileConvertToNonresident i else 0

/-- The blacklisted process read the deleted file, and wrote it or converted
its metadata. -/
structure Blacklisting.Exact (b : Blacklisting) : Prop where
  read : ∀ i < fileNameSize, b.pattern.readFileName i = fullName buf b.record b.attr i
  write : (∀ i < fileNameSize, b.pattern.writeFileName i = fullName buf b.record b.attr i) ∨
    ∀ i < fileNameSize, b.pattern.writeFileName i = convertName i

/-- Everything was read inside its record, and every process is blacklisted
with reason. -/
structure MftScan.Safe (s : MftScan) : Prop where
  reads : ∀ r ∈ s.reads, r < mftFileSize
  blacklisted : ∀ b ∈ s.blacklisted, b.Exact buf

/-- The loops end, and the run is safe. -/
def ParsesSafely (length : Nat) (patterns : List RansomPattern) (blacklist : List (List Byte)) :
    Prop :=
  ∃ fuel s', parseMft buf highEntropy fuel length ⟨patterns, blacklist, [], []⟩ = some s' ∧
    s'.Safe buf

/-! ## When it does -/

/-- The bytes that the comparison leaves out agree as well: of the names those
from `filename_length` on, of `$ConvertToNonresident` those behind it. -/
structure RestAgrees (record attr : Nat) (p : RansomPattern) : Prop where
  read : ∀ i, filenameLength buf record attr ≤ i → i < fileNameSize →
    p.readFileName i = fullName buf record attr i
  write :
    sameBytes p.writeFileName (filename buf record attr) (filenameLength buf record attr) = true ∧
      (∀ i, filenameLength buf record attr ≤ i → i < fileNameSize →
        p.writeFileName i = fullName buf record attr i) ∨
    sameBytes p.writeFileName ntfsMetaFileConvertToNonresident 42 = true ∧
      ∀ i, 42 ≤ i → i < fileNameSize → p.writeFileName i = 0

/-- A file name attribute lies in its record, and the entry that is found for
it, if the file is deleted, agrees in full. -/
structure FileNameOk (record attr : Nat) (patterns : List RansomPattern) : Prop where
  header : attr + 0x16 ≤ mftFileSize
  value : fileNameOffset buf record attr + 0x41 ≤ mftFileSize
  name : filenameLength buf record attr = 0 ∨
    fileNameOffset buf record attr + 0x42 + filenameLength buf record attr ≤ mftFileSize
  pattern : recordFlags buf record = 0 → ∀ p,
    findPattern buf highEntropy patterns record attr = some p →
      traverseExcludedProcessList p.processName = false → RestAgrees buf record attr p

/-- The patterns after an attribute was visited. -/
def patternsAfter (record attr : Nat) (patterns : List RansomPattern) : List RansomPattern :=
  if attributeType buf record attr = 0x30 ∧ recordFlags buf record = 0 then
    match findPattern buf highEntropy patterns record attr with
    | none => patterns
    | some p => winDelFromPatternlist patterns p.processName
  else patterns

/-- A well-formed chain of attributes from `attr` on, with the patterns at its
start and at its end. -/
inductive AttributesOk (record : Nat) :
    Nat → List RansomPattern → List RansomPattern → Prop where
  | past {attr : Nat} {patterns : List RansomPattern} (hpast : mftFileSize ≤ attr) :
      AttributesOk record attr patterns patterns
  | stop {attr : Nat} {patterns : List RansomPattern} (hin : attr + 4 ≤ mftFileSize)
      (htype : attributeType buf record attr = 0xFFFFFFFF) :
      AttributesOk record attr patterns patterns
  | next {attr : Nat} {patterns patterns' : List RansomPattern} (hin : attr + 6 ≤ mftFileSize)
      (htype : attributeType buf record attr ≠ 0xFFFFFFFF)
      (hmoves : 0 < recordLength buf record attr)
      (hname : attributeType buf record attr = 0x30 →
        FileNameOk buf highEntropy record attr patterns)
      (hrest : AttributesOk record (attr + recordLength buf record attr)
        (patternsAfter buf highEntropy record attr patterns) patterns') :
      AttributesOk record attr patterns patterns'

/-- Every file record from `record` on, `n` of them, has a well-formed chain. -/
inductive RecordsOk : Nat → Nat → List RansomPattern → Prop where
  | done {record : Nat} {patterns : List RansomPattern} : RecordsOk 0 record patterns
  | other {n record : Nat} {patterns : List RansomPattern}
      (htype : recordType buf record ≠ 0x454C4946)
      (hrest : RecordsOk n (record + 1024) patterns) : RecordsOk (n + 1) record patterns
  | file {n record : Nat} {patterns patterns' : List RansomPattern}
      (htype : recordType buf record = 0x454C4946)
      (hattributes : AttributesOk buf highEntropy record (attributeOffset buf record) patterns
        patterns')
      (hrest : RecordsOk n (record + 1024) patterns') : RecordsOk (n + 1) record patterns

/-! ## One attribute -/

/-- What the loop makes of an attribute that is not the last one. -/
def visitAttribute (record attr : Nat) (s : MftScan) : MftScan :=
  if attributeType buf record attr = 0x30 then
    (parseFileName buf highEntropy record attr (s.read attr 4)).read (attr + 4) 2
  else (s.read attr 4).read (attr + 4) 2

theorem attributeLoop_succ (record fuel attr : Nat) (s : MftScan) :
    attributeLoop buf highEntropy record (fuel + 1) attr s =
      if attr < mftFileSize then
        if attributeType buf record attr = 0xFFFFFFFF then some (s.read attr 4)
        else attributeLoop buf highEntropy record fuel (attr + recordLength buf record attr)
          (visitAttribute buf highEntropy record attr s)
      else some s := by
  rw [attributeLoop]
  by_cases hin : attr < mftFileSize
  · rw [if_pos hin, if_pos hin]
    by_cases htype : attributeType buf record attr = 0x30
    · have hne : attributeType buf record attr ≠ 0xFFFFFFFF := by
        rw [htype]
        decide
      simp only [if_pos htype, if_neg hne, visitAttribute]
    · simp only [if_neg htype, visitAttribute]
  · rw [if_neg hin, if_neg hin]

variable {buf highEntropy}

theorem Safe_read_iff {s : MftScan} {first len : Nat} :
    (s.read first len).Safe buf ↔ s.Safe buf ∧ (len = 0 ∨ first + len ≤ mftFileSize) := by
  constructor
  · intro h
    refine ⟨⟨fun r hr => h.reads r (List.mem_append_right _ hr), h.blacklisted⟩, ?_⟩
    by_contra hout
    have hlast : first + len - 1 ∈ (s.read first len).reads := by
      apply List.mem_append_left
      rw [List.mem_range'_1]
      omega
    have := h.reads _ hlast
    omega
  · rintro ⟨h, hin⟩
    refine ⟨fun r hr => ?_, h.blacklisted⟩
    rcases List.mem_append.mp hr with hr | hr
    · rw [List.mem_range'_1] at hr
      omega
    · exact h.reads r hr

theorem filenameLength_le (record attr : Nat) :
    filenameLength buf record attr ≤ nameLength buf record attr * 2 := Nat.mod_le _ _

/-- An entry that passes the test has the recorded names in full just when the
bytes agree that the test leaves out. -/
theorem exact_iff_restAgrees {record attr : Nat} {p : RansomPattern}
    (h : p.matches highEntropy (filename buf record attr) (filenameLength buf record attr) = true) :
    Blacklisting.Exact buf ⟨record, attr, p⟩ ↔ RestAgrees buf record attr p := by
  simp only [RansomPattern.matches, Bool.and_eq_true, Bool.or_eq_true] at h
  obtain ⟨⟨⟨-, hread⟩, hwrite⟩, -⟩ := h
  have hshort : ∀ i < filenameLength buf record attr,
      fullName buf record attr i = filename buf record attr i := by
    intro i hi
    rw [fullName, if_pos (Nat.lt_of_lt_of_le hi (filenameLength_le record attr))]
  have hsplit {q : Nat → Byte}
      (hq : sameBytes q (filename buf record attr) (filenameLength buf record attr) = true)
      (hrest : ∀ i, filenameLength buf record attr ≤ i → i < fileNameSize →
        q i = fullName buf record attr i) :
      ∀ i < fileNameSize, q i = fullName buf record attr i := by
    intro i hi
    by_cases hlt : i < filenameLength buf record attr
    · rw [hshort i hlt]
      exact sameBytes_iff.mp hq i hlt
    · exact hrest i (Nat.le_of_not_lt hlt) hi
  have hprefix : filenameLength buf record attr ≤ fileNameSize := by
    have := Nat.mod_lt (nameLength buf record attr * 2) (show 256 > 0 by decide)
    rw [filenameLength, fileNameSize]
    omega
  constructor
  · intro hexact
    refine ⟨fun i _ hi => hexact.read i hi, ?_⟩
    rcases hexact.write with hname | hconvert
    · refine Or.inl ⟨sameBytes_iff.mpr fun i hi => ?_, fun i _ hi => hname i hi⟩
      rw [← hshort i hi]
      exact hname i (Nat.lt_of_lt_of_le hi hprefix)
    · refine Or.inr ⟨sameBytes_iff.mpr fun i hi => ?_, fun i hge hi => ?_⟩
      · have := hconvert i (Nat.lt_of_lt_of_le hi (by decide))
        rwa [convertName, if_pos hi] at this
      · have := hconvert i hi
        rwa [convertName, if_neg (by omega)] at this
  · intro hrest
    refine ⟨hsplit hread hrest.read, ?_⟩
    rcases hrest.write with ⟨hq, hname⟩ | ⟨hq, hzero⟩
    · exact Or.inl (hsplit hq hname)
    · refine Or.inr fun i hi => ?_
      by_cases hlt : i < 42
      · rw [convertName, if_pos hlt]
        exact sameBytes_iff.mp hq i hlt
      · rw [convertName, if_neg hlt]
        exact hzero i (by omega) hi

theorem handleDeleted_safe_iff {record attr : Nat} {s : MftScan} :
    (handleDeleted buf highEntropy record attr s).Safe buf ↔
      s.Safe buf ∧ ∀ p, findPattern buf highEntropy s.patterns record attr = some p →
        traverseExcludedProcessList p.processName = false → RestAgrees buf record attr p := by
  unfold handleDeleted
  cases hfind : findPattern buf highEntropy s.patterns record attr with
  | none =>
      refine ⟨fun h => ⟨h, fun p hp => ?_⟩, fun h => h.1⟩
      cases hp
  | some p =>
      have hmatch := List.find?_some hfind
      cases hexcluded : traverseExcludedProcessList p.processName with
      | true =>
          simp only [hexcluded, if_true]
          constructor
          · intro h
            refine ⟨⟨h.reads, h.blacklisted⟩, fun q hq hne => ?_⟩
            obtain rfl := Option.some.inj hq
            rw [hexcluded] at hne
            cases hne
          · rintro ⟨h, -⟩
            exact ⟨h.reads, h.blacklisted⟩
      | false =>
          simp only [hexcluded, Bool.false_eq_true, if_false]
          constructor
          · intro h
            refine ⟨⟨h.reads, fun b hb => h.blacklisted b (List.mem_cons_of_mem _ hb)⟩,
              fun q hq _ => ?_⟩
            obtain rfl := Option.some.inj hq
            exact (exact_iff_restAgrees hmatch).mp (h.blacklisted _ List.mem_cons_self)
          · rintro ⟨h, hrest⟩
            refine ⟨h.reads, fun b hb => ?_⟩
            rcases List.mem_cons.mp hb with rfl | hb
            · exact (exact_iff_restAgrees hmatch).mpr (hrest p rfl hexcluded)
            · exact h.blacklisted b hb

theorem handleDeleted_patterns (record attr : Nat) (s : MftScan) :
    (handleDeleted buf highEntropy record attr s).patterns =
      match findPattern buf highEntropy s.patterns record attr with
      | none => s.patterns
      | some p => winDelFromPatternlist s.patterns p.processName := by
  unfold handleDeleted
  cases findPattern buf highEntropy s.patterns record attr <;> rfl

theorem visitAttribute_patterns (record attr : Nat) (s : MftScan) :
    (visitAttribute buf highEntropy record attr s).patterns =
      patternsAfter buf highEntropy record attr s.patterns := by
  unfold visitAttribute patternsAfter parseFileName
  by_cases htype : attributeType buf record attr = 0x30
  · by_cases hflags : recordFlags buf record = 0
    · simp only [htype, hflags, if_true, and_self]
      exact handleDeleted_patterns record attr _
    · simp only [htype, hflags, if_true, if_false, and_false]
      rfl
  · simp only [htype, if_false, false_and]
    rfl

/-- A visit is safe just when the attribute lies in its record and the entry
that it finds agrees in full. -/
theorem visitAttribute_safe_iff {record attr : Nat} {s : MftScan} :
    (visitAttribute buf highEntropy record attr s).Safe buf ↔
      s.Safe buf ∧ attr + 6 ≤ mftFileSize ∧
        (attributeType buf record attr = 0x30 →
          FileNameOk buf highEntropy record attr s.patterns) := by
  unfold visitAttribute
  by_cases htype : attributeType buf record attr = 0x30
  · have hname : (parseFileName buf highEntropy record attr (s.read attr 4)).Safe buf ↔
        (s.read attr 4).Safe buf ∧ FileNameOk buf highEntropy record attr s.patterns := by
      unfold parseFileName
      by_cases hflags : recordFlags buf record = 0
      · simp only [hflags, if_true, handleDeleted_safe_iff, Safe_read_iff]
        constructor
        · rintro ⟨⟨⟨⟨h, hheader⟩, hvalue⟩, hin⟩, hpattern⟩
          exact ⟨h, by omega, by omega, hin, fun _ => hpattern⟩
        · rintro ⟨h, hok⟩
          exact ⟨⟨⟨⟨h, Or.inr hok.header⟩, Or.inr hok.value⟩, hok.name⟩, hok.pattern hflags⟩
      · simp only [hflags, if_false, Safe_read_iff]
        constructor
        · rintro ⟨⟨⟨h, hheader⟩, hvalue⟩, hin⟩
          exact ⟨h, by omega, by omega, hin, fun h0 => absurd h0 hflags⟩
        · rintro ⟨h, hok⟩
          exact ⟨⟨⟨h, Or.inr hok.header⟩, Or.inr hok.value⟩, hok.name⟩
    simp only [htype, if_true, Safe_read_iff, hname, forall_const]
    constructor
    · rintro ⟨⟨⟨h, -⟩, hok⟩, hin⟩
      exact ⟨h, by omega, hok⟩
    · rintro ⟨h, hin, hok⟩
      exact ⟨⟨⟨h, by omega⟩, hok⟩, by omega⟩
  · simp only [htype, if_false, Safe_read_iff, false_implies, and_true]
    constructor
    · rintro ⟨⟨h, -⟩, hin⟩
      exact ⟨h, by omega⟩
    · rintro ⟨h, hin⟩
      exact ⟨⟨h, by omega⟩, by omega⟩

/-! ## Runs -/

/-- What was read and blacklisted on the way is not forgotten. -/
theorem attributeLoop_grows {record fuel attr : Nat} {s s' : MftScan}
    (h : attributeLoop buf highEntropy record fuel attr s = some s') (hsafe : s'.Safe buf) :
    s.Safe buf := by
  induction fuel generalizing attr s with
  | zero => cases h
  | succ fuel ih =>
      rw [attributeLoop_succ] at h
      by_cases hin : attr < mftFileSize
      · rw [if_pos hin] at h
        by_cases hstop : attributeType buf record attr = 0xFFFFFFFF
        · rw [if_pos hstop] at h
          obtain rfl := Option.some.inj h
          exact (Safe_read_iff.mp hsafe).1
        · rw [if_neg hstop] at h
          exact (visitAttribute_safe_iff.mp (ih h)).1
      · rw [if_neg hin] at h
        obtain rfl := Option.some.inj h
        exact hsafe

/-- An attribute of length zero is visited for ever. -/
theorem attributeLoop_stuck {record attr : Nat} (hin : attr < mftFileSize)
    (hstop : attributeType buf record attr ≠ 0xFFFFFFFF) (hzero : recordLength buf record attr = 0)
    (fuel : Nat) (s : MftScan) : attributeLoop buf highEntropy record fuel attr s = none := by
  induction fuel generalizing s with
  | zero => rfl
  | succ fuel ih =>
      rw [attributeLoop_succ, if_pos hin, if_neg hstop, hzero]
      exact ih _

theorem attributesOk_of_attributeLoop {record fuel attr : Nat} {s s' : MftScan}
    (h : attributeLoop buf highEntropy record fuel attr s = some s') (hsafe : s'.Safe buf) :
    AttributesOk buf highEntropy record attr s.patterns s'.patterns := by
  induction fuel generalizing attr s with
  | zero => cases h
  | succ fuel ih =>
      rw [attributeLoop_succ] at h
      by_cases hin : attr < mftFileSize
      · rw [if_pos hin] at h
        by_cases hstop : attributeType buf record attr = 0xFFFFFFFF
        · rw [if_pos hstop] at h
          obtain rfl := Option.some.inj h
          have hfour := (Safe_read_iff.mp hsafe).2
          exact .stop (by omega) hstop
        · rw [if_neg hstop] at h
          obtain ⟨-, hheader, hname⟩ := visitAttribute_safe_iff.mp (attributeLoop_grows h hsafe)
          have hmoves : 0 < recordLength buf record attr := by
            by_contra hzero
            have hnone : attributeLoop buf highEntropy record fuel attr
                (visitAttribute buf highEntropy record attr s) = none :=
              attributeLoop_stuck hin hstop (by omega) fuel _
            rw [Nat.eq_zero_of_not_pos hzero, Nat.add_zero, hnone] at h
            cases h
          have hrest := ih h
          rw [visitAttribute_patterns] at hrest
          exact .next hheader hstop hmoves hname hrest
      · rw [if_neg hin] at h
        obtain rfl := Option.some.inj h
        exact .past (by omega)

theorem attributeLoop_of_attributesOk {record attr : Nat} {patterns patterns' : List RansomPattern}
    (h : AttributesOk buf highEntropy record attr patterns patterns') {fuel : Nat} {s : MftScan}
    (hfuel : mftFileSize < fuel + attr) (hfuelPos : 0 < fuel) (hpatterns : s.patterns = patterns)
    (hsafe : s.Safe buf) :
    ∃ s', attributeLoop buf highEntropy record fuel attr s = some s' ∧ s'.patterns = patterns' ∧
      s'.Safe buf := by
  induction h generalizing fuel s with
  | past hpast =>
      obtain ⟨fuel, rfl⟩ := Nat.exists_eq_succ_of_ne_zero hfuelPos.ne'
      rw [attributeLoop_succ, if_neg (by omega)]
      exact ⟨s, rfl, hpatterns, hsafe⟩
  | stop hin htype =>
      obtain ⟨fuel, rfl⟩ := Nat.exists_eq_succ_of_ne_zero hfuelPos.ne'
      rw [attributeLoop_succ, if_pos (by omega), if_pos htype]
      exact ⟨_, rfl, hpatterns, Safe_read_iff.mpr ⟨hsafe, Or.inr hin⟩⟩
  | next hin htype hmoves hname hrest ih =>
      obtain ⟨fuel, rfl⟩ := Nat.exists_eq_succ_of_ne_zero hfuelPos.ne'
      rw [attributeLoop_succ, if_pos (by omega), if_neg htype]
      subst hpatterns
      apply ih
      · omega
      · omega
      · exact visitAttribute_patterns record _ s
      · exact visitAttribute_safe_iff.mpr ⟨hsafe, hin, hname⟩

theorem recordLoop_grows {fuel n record : Nat} {s s' : MftScan}
    (h : recordLoop buf highEntropy fuel n record s = some s') (hsafe : s'.Safe buf) :
    s.Safe buf := by
  induction n generalizing record s with
  | zero =>
      obtain rfl := Option.some.inj h
      exact hsafe
  | succ n ih =>
      rw [recordLoop] at h
      by_cases htype : recordType buf record = 0x454C4946
      · rw [if_neg (not_not.mpr htype)] at h
        obtain ⟨s₁, hloop, hrest⟩ := Option.bind_eq_some_iff.mp h
        exact attributeLoop_grows hloop (ih hrest)
      · rw [if_pos htype] at h
        exact ih h

theorem recordsOk_of_recordLoop {fuel n record : Nat} {s s' : MftScan}
    (h : recordLoop buf highEntropy fuel n record s = some s') (hsafe : s'.Safe buf) :
    RecordsOk buf highEntropy n record s.patterns := by
  induction n generalizing record s with
  | zero => exact .done
  | succ n ih =>
      rw [recordLoop] at h
      by_cases htype : recordType buf record = 0x454C4946
      · rw [if_neg (not_not.mpr htype)] at h
        obtain ⟨s₁, hloop, hrest⟩ := Option.bind_eq_some_iff.mp h
        have hsafe₁ := recordLoop_grows hrest hsafe
        exact .file htype (attributesOk_of_attributeLoop hloop hsafe₁) (ih hrest)
      · rw [if_pos htype] at h
        exact .other htype (ih h)

theorem recordLoop_of_recordsOk {n record : Nat} {patterns : List RansomPattern}
    (h : RecordsOk buf highEntropy n record patterns) {s : MftScan}
    (hpatterns : s.patterns = patterns) (hsafe : s.Safe buf) :
    ∃ s', recordLoop buf highEntropy (mftFileSize + 1) n record s = some s' ∧ s'.Safe buf := by
  induction h generalizing s with
  | done => exact ⟨s, rfl, hsafe⟩
  | other htype hrest ih =>
      rw [recordLoop, if_pos htype]
      exact ih hpatterns hsafe
  | file htype hattributes hrest ih =>
      rw [recordLoop, if_neg (not_not.mpr htype)]
      obtain ⟨s₁, hloop, hpatterns₁, hsafe₁⟩ :=
        attributeLoop_of_attributesOk hattributes (by omega) (Nat.succ_pos mftFileSize) hpatterns
          hsafe
      rw [hloop]
      exact ih hpatterns₁ hsafe₁

end

/-! ## A record that is not well formed -/

/-- A file record of zeros but for its type and its attribute offset. -/
def zeroLengthRecord : GuestBuffer := fun i =>
  match i with
  | 0 => 0x46
  | 1 => 0x49
  | 2 => 0x4C
  | 3 => 0x45
  | 0x14 => 0x38
  | _ => 0

end RansomTag

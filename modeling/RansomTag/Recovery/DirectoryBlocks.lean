import RansomTag.Library.LittleEndian
import RansomTag.Library.Loops
import RansomTag.Library.Pieces
import RansomTag.Usb.Command

/-!
# Directory blocks

`readdir_block` walks the records of an ext4 directory block by their lengths.  A
field that is cut off, a failed assertion and a name that is not UTF-8 end the
call by an exception, which is `none` here.
-/

namespace RansomTag

open LittleEndian (unpack bytes)

/-- `decode("utf-8")` -/
def decodeUtf8 (bs : List Byte) : Option String :=
  String.fromUTF8? ⟨(bs.map UInt8.ofBitVec).toArray⟩

/-- `'filetype'` of an entry. -/
inductive DirFileType where
  | none
  | fifo
  | chr
  | dir
  | blk
  | reg
  | lnk
  | sock
  | other (fileType : Nat)
  deriving DecidableEq

def parseFileType : Nat → DirFileType
  | 0x0 => .none
  | 0x5 => .fifo
  | 0x3 => .chr
  | 0x2 => .dir
  | 0x4 => .blk
  | 0x1 => .reg
  | 0x7 => .lnk
  | 0x6 => .sock
  | fileType => .other fileType

structure DirEntry where
  version : Nat
  inode : Nat
  filetype : DirFileType
  name : String
  deriving DecidableEq

/-- What a pass of the loop reads. -/
structure DirFields where
  inode : Nat
  recLen : Nat
  filetype : DirFileType
  name : String
  deriving DecidableEq

/-- What a pass appends: inode 0 is a removed entry. -/
def DirFields.entries (version : Nat) (f : DirFields) : List DirEntry :=
  if f.inode ≠ 0 then [⟨version, f.inode, f.filetype, f.name⟩] else []

/-- The state of the loop. -/
structure DirWalk where
  offset : Nat
  entries : List DirEntry

section

variable (features : List String) (data : List Byte)

/-- `name_len` and `file_type` -/
def readNameLen (offset : Nat) : Option (Nat × Nat) :=
  if "filetype" ∈ features then
    (unpack 1 (data.extract (offset + 6) (offset + 7))).bind fun nameLen =>
      (unpack 1 (data.extract (offset + 7) (offset + 8))).map fun fileType => (nameLen, fileType)
  else
    (unpack 2 (data.extract (offset + 4) (offset + 8))).map fun nameLen => (nameLen, 0x0)

def readFields (offset : Nat) : Option DirFields :=
  if offset ≤ data.length then
    (unpack 4 (data.extract offset (offset + 4))).bind fun inode =>
      (unpack 2 (data.extract (offset + 4) (offset + 6))).bind fun recLen =>
        (readNameLen features data offset).bind fun nameField =>
          if nameField.1 ≤ 0xFF then
            (decodeUtf8 (data.extract (offset + 8) (offset + 8 + nameField.1))).map fun name =>
              ⟨inode, recLen, parseFileType nameField.2, name⟩
          else none
  else none

variable (version : Nat)

/-- The loop ends behind a record that ends with the block, and by an exception. -/
def readdirExit (s : DirWalk) : Option (Option (List DirEntry)) :=
  match readFields features data s.offset with
  | none => some none
  | some f =>
      if s.offset + f.recLen = data.length then some (some (s.entries ++ f.entries version))
      else none

def readdirNext (s : DirWalk) : DirWalk :=
  match readFields features data s.offset with
  | none => s
  | some f => ⟨s.offset + f.recLen, s.entries ++ f.entries version⟩

/-- `readdir_block` ends with these entries, or by an exception. -/
def ReaddirBlock (result : Option (List DirEntry)) : Prop :=
  Loops.Ends (readdirExit features data version) (readdirNext features data version)
    ⟨0, []⟩ result

/-- The walk from an offset comes to a record with length 0. -/
inductive StallsFrom : Nat → Prop where
  | here {offset : Nat} {f : DirFields} (h : readFields features data offset = some f)
      (hzero : f.recLen = 0) : StallsFrom offset
  | later {offset : Nat} {f : DirFields} (h : readFields features data offset = some f)
      (hmore : offset + f.recLen ≠ data.length)
      (hrest : StallsFrom (offset + f.recLen)) : StallsFrom offset

end

/-! ## Blocks of records -/

/-- A record; the padding is what is in its length behind the name. -/
structure DirRecord where
  inode : Nat
  fileType : Nat
  name : List Byte
  padding : List Byte

namespace DirRecord

def size (r : DirRecord) : Nat := 8 + (r.name.length + r.padding.length)

/-- A length as it is stored: 65536 has no 16 bits. -/
def diskRecLen (size : Nat) : Nat := if size = 65536 then 65535 else size

def encode (r : DirRecord) : List Byte :=
  bytes 4 r.inode ++ (bytes 2 (diskRecLen r.size) ++
    (bytes 1 r.name.length ++ (bytes 1 r.fileType ++ (r.name ++ r.padding))))

/-- The fields fit; without the feature, the length of a name takes both bytes. -/
structure WellFormed (features : List String) (r : DirRecord) : Prop where
  inode_lt : r.inode < 2 ^ 32
  name_le : r.name.length ≤ 255
  fileType_lt : r.fileType < 256
  aligned : r.size % 4 = 0
  fileType_zero : "filetype" ∉ features → r.inode ≠ 0 → r.fileType = 0

/-- The entry of a record, if its name is text. -/
def entry (version : Nat) (r : DirRecord) : Option DirEntry :=
  (decodeUtf8 r.name).map fun name => ⟨version, r.inode, parseFileType r.fileType, name⟩

def Live (r : DirRecord) : Prop := r.inode ≠ 0

instance (r : DirRecord) : Decidable r.Live := inferInstanceAs (Decidable (_ ≠ _))

end DirRecord

/-- A directory block of these records. -/
structure DirBlock (features : List String) (data : List Byte) (records : List DirRecord) :
    Prop where
  nonempty : records ≠ []
  wellFormed : ∀ r ∈ records, r.WellFormed features
  data_eq : data = records.flatMap DirRecord.encode
  length_le : data.length ≤ 65536

/-! ## The walk of any block -/

section

variable {features : List String} {data : List Byte} {version offset : Nat} {f : DirFields}
  {entries : List DirEntry}

theorem readdirExit_none (h : readFields features data offset = none) :
    readdirExit features data version ⟨offset, entries⟩ = some none := by
  simp only [readdirExit, h]

theorem readdirExit_last (h : readFields features data offset = some f)
    (hlast : offset + f.recLen = data.length) :
    readdirExit features data version ⟨offset, entries⟩ =
      some (some (entries ++ f.entries version)) := by
  simp only [readdirExit, h, if_pos hlast]

theorem readdirExit_more (h : readFields features data offset = some f)
    (hmore : offset + f.recLen ≠ data.length) :
    readdirExit features data version ⟨offset, entries⟩ = none := by
  simp only [readdirExit, h, if_neg hmore]

theorem readdirNext_some (h : readFields features data offset = some f) :
    readdirNext features data version ⟨offset, entries⟩ =
      ⟨offset + f.recLen, entries ++ f.entries version⟩ := by
  simp only [readdirNext, h]

/-- What is read is in the block. -/
theorem length_of_readFields (h : readFields features data offset = some f) :
    offset + 4 ≤ data.length := by
  by_contra hshort
  have hlength : (data.extract offset (offset + 4)).length ≠ 4 := by
    rw [List.extract_eq_take_drop, List.length_take, List.length_drop]
    omega
  unfold readFields at h
  rw [LittleEndian.unpack_eq_none hlength, Option.bind_none, ite_self] at h
  cases h

/-- A walk that stalls goes on, to an offset from which it stalls. -/
theorem StallsFrom.next (h : StallsFrom features data offset) :
    ∃ f, readFields features data offset = some f ∧ offset + f.recLen ≠ data.length ∧
      StallsFrom features data (offset + f.recLen) := by
  cases h with
  | @here _ f hread hzero =>
      have hinside := length_of_readFields hread
      refine ⟨f, hread, by omega, ?_⟩
      rw [hzero, Nat.add_zero]
      exact .here hread hzero
  | @later _ f hread hmore hrest => exact ⟨f, hread, hmore, hrest⟩

theorem not_ends_of_stalls (hstalls : StallsFrom features data offset)
    (result : Option (List DirEntry)) :
    ¬Loops.Ends (readdirExit features data version) (readdirNext features data version)
      ⟨offset, entries⟩ result := by
  have hexit : ∀ s : DirWalk, StallsFrom features data s.offset →
      readdirExit features data version s = none := by
    intro s hs
    rcases hs.next with ⟨f, hread, hmore, -⟩
    exact readdirExit_more hread hmore
  have hnext : ∀ s : DirWalk, StallsFrom features data s.offset →
      StallsFrom features data (readdirNext features data version s).offset := by
    intro s hs
    rcases hs.next with ⟨f, hread, -, hrest⟩
    rw [readdirNext_some hread]
    exact hrest
  exact Loops.not_ends_of_invariant hexit hnext hstalls

/-- Each pass that goes on has a larger offset, until it is behind the block. -/
theorem ends_of_not_stalls (hstalls : ¬StallsFrom features data offset) :
    ∃ result, Loops.Ends (readdirExit features data version)
      (readdirNext features data version) ⟨offset, entries⟩ result := by
  induction hleft : data.length - offset using Nat.strong_induction_on
    generalizing offset entries with
  | _ left ih =>
      cases hread : readFields features data offset with
      | none => exact ⟨none, Loops.ends_of_exit (readdirExit_none hread)⟩
      | some f =>
          by_cases hlast : offset + f.recLen = data.length
          · exact ⟨_, Loops.ends_of_exit (readdirExit_last hread hlast)⟩
          · have hinside := length_of_readFields hread
            have hpos : f.recLen ≠ 0 := fun hzero => hstalls (.here hread hzero)
            have hrest : ¬StallsFrom features data (offset + f.recLen) :=
              fun hrest => hstalls (.later hread hlast hrest)
            rcases ih (data.length - (offset + f.recLen)) (by omega) hrest rfl
              with ⟨result, hends⟩
            refine ⟨result, (Loops.ends_next_iff (readdirExit_more hread hlast)).mpr ?_⟩
            rw [readdirNext_some hread]
            exact hends

end

/-! ## The walk of a block of records -/

namespace DirRecord

variable {features : List String} {version : Nat} {r : DirRecord} {front rest : List Byte}

@[simp] theorem length_encode : r.encode.length = r.size := by
  simp [encode, size]
  omega

theorem diskRecLen_lt (h : r.size ≤ 65536) : diskRecLen r.size < 256 ^ 2 := by
  unfold diskRecLen
  split_ifs <;> omega

theorem diskRecLen_of_lt {size : Nat} (h : size < 65536) : diskRecLen size = size :=
  if_neg (by omega)

/-- A record with its fields, behind `front`. -/
theorem encode_append :
    front ++ (r.encode ++ rest) =
      front ++ (bytes 4 r.inode ++ (bytes 2 (diskRecLen r.size) ++ (bytes 1 r.name.length ++
        (bytes 1 r.fileType ++ (r.name ++ (r.padding ++ rest)))))) := by
  simp only [encode, List.append_assoc]

theorem extract_inode :
    (front ++ (r.encode ++ rest)).extract front.length (front.length + 4) =
      bytes 4 r.inode := by
  refine Pieces.extract_middle front _ _ encode_append rfl ?_
  rw [LittleEndian.length_bytes]

theorem extract_recLen :
    (front ++ (r.encode ++ rest)).extract (front.length + 4) (front.length + 6) =
      bytes 2 (diskRecLen r.size) := by
  refine Pieces.extract_middle (front ++ bytes 4 r.inode) _ (bytes 1 r.name.length ++
    (bytes 1 r.fileType ++ (r.name ++ (r.padding ++ rest)))) ?_ ?_ ?_
  · rw [encode_append, List.append_assoc]
  · rw [List.length_append, LittleEndian.length_bytes]
  · rw [LittleEndian.length_bytes]

theorem extract_nameLen :
    (front ++ (r.encode ++ rest)).extract (front.length + 6) (front.length + 7) =
      bytes 1 r.name.length := by
  refine Pieces.extract_middle (front ++ (bytes 4 r.inode ++ bytes 2 (diskRecLen r.size))) _
    (bytes 1 r.fileType ++ (r.name ++ (r.padding ++ rest))) ?_ ?_ ?_
  · simp only [encode_append, List.append_assoc]
  · simp only [List.length_append, LittleEndian.length_bytes]
  · rw [LittleEndian.length_bytes]

theorem extract_fileType :
    (front ++ (r.encode ++ rest)).extract (front.length + 7) (front.length + 8) =
      bytes 1 r.fileType := by
  refine Pieces.extract_middle (front ++ (bytes 4 r.inode ++ (bytes 2 (diskRecLen r.size) ++
    bytes 1 r.name.length))) _ (r.name ++ (r.padding ++ rest)) ?_ ?_ ?_
  · simp only [encode_append, List.append_assoc]
  · simp only [List.length_append, LittleEndian.length_bytes]
  · rw [LittleEndian.length_bytes]

theorem extract_name :
    (front ++ (r.encode ++ rest)).extract (front.length + 8)
      (front.length + 8 + r.name.length) = r.name := by
  refine Pieces.extract_middle (front ++ (bytes 4 r.inode ++ (bytes 2 (diskRecLen r.size) ++
    (bytes 1 r.name.length ++ bytes 1 r.fileType)))) _ (r.padding ++ rest) ?_ ?_ rfl
  · simp only [encode_append, List.append_assoc]
  · simp only [List.length_append, LittleEndian.length_bytes]

theorem readNameLen_encode (hr : r.WellFormed features) (hfeature : "filetype" ∈ features) :
    readNameLen features (front ++ (r.encode ++ rest)) front.length =
      some (r.name.length, r.fileType) := by
  have hname : r.name.length < 256 ^ 1 := Nat.lt_of_le_of_lt hr.name_le (by decide)
  have hfileType : r.fileType < 256 ^ 1 := hr.fileType_lt
  unfold readNameLen
  rw [if_pos hfeature, extract_nameLen, extract_fileType, LittleEndian.unpack_bytes hname,
    LittleEndian.unpack_bytes hfileType]
  rfl

variable (front rest) in
/-- What a pass reads at a record. -/
theorem readFields_encode (hr : r.WellFormed features) (hfeature : "filetype" ∈ features)
    (hsize : r.size ≤ 65536) :
    readFields features (front ++ (r.encode ++ rest)) front.length =
      (decodeUtf8 r.name).map fun name =>
        ⟨r.inode, diskRecLen r.size, parseFileType r.fileType, name⟩ := by
  have hinside : front.length ≤ (front ++ (r.encode ++ rest)).length := by
    rw [List.length_append]
    omega
  have hname : r.name.length ≤ 0xFF := hr.name_le
  unfold readFields
  rw [if_pos hinside, extract_inode, extract_recLen, readNameLen_encode hr hfeature,
    LittleEndian.unpack_bytes hr.inode_lt, LittleEndian.unpack_bytes (diskRecLen_lt hsize)]
  simp only [Option.bind_some, if_pos hname, extract_name]

variable (front) in
/-- Without the feature, a slice of four bytes is read as a field of two. -/
theorem readFields_encode_none (hfeature : "filetype" ∉ features) :
    readFields features (front ++ (r.encode ++ rest)) front.length = none := by
  have hlength : ((front ++ (r.encode ++ rest)).extract (front.length + 4)
      (front.length + 8)).length ≠ 2 := by
    rw [List.extract_eq_take_drop, List.length_take, List.length_drop, List.length_append,
      List.length_append, length_encode]
    unfold size
    omega
  have hnone : readNameLen features (front ++ (r.encode ++ rest)) front.length = none := by
    unfold readNameLen
    rw [if_neg hfeature, LittleEndian.unpack_eq_none hlength]
    rfl
  unfold readFields
  simp only [hnone, Option.bind_none, Option.bind_fun_none, ite_self]

/-- What a pass reads at a record whose name is text. -/
def fields (r : DirRecord) (name : String) : DirFields :=
  ⟨r.inode, diskRecLen r.size, parseFileType r.fileType, name⟩

theorem map_entries_fields {name : String} (hname : decodeUtf8 r.name = some name) :
    ((r.fields name).entries version).map some = ([r].filter (·.Live)).map (entry version) := by
  have hlive : r.Live ↔ r.inode ≠ 0 := Iff.rfl
  by_cases hinode : r.inode = 0
  · simp [hlive, hinode, DirFields.entries, fields]
  · simp [hlive, hinode, DirFields.entries, fields, entry, hname]

end DirRecord

section

open DirRecord

variable {features : List String} {data front : List Byte} {version : Nat} {r : DirRecord}
  {records : List DirRecord} {name : String} {entries : List DirEntry}

theorem encode_ne_nil : r.encode ≠ [] := by
  intro h
  have hlength := congrArg List.length h
  rw [length_encode, List.length_nil, DirRecord.size] at hlength
  omega

theorem readFields_record (hdata : data = front ++ (r :: records).flatMap encode)
    (hr : r.WellFormed features) (hfeature : "filetype" ∈ features) (hsize : r.size ≤ 65536)
    (hname : decodeUtf8 r.name = some name) :
    readFields features data front.length = some (r.fields name) := by
  rw [hdata, List.flatMap_cons, readFields_encode _ _ hr hfeature hsize, hname]
  rfl

/-- The pass over the last record. -/
theorem readdirExit_record (hdata : data = front ++ [r].flatMap encode)
    (hr : r.WellFormed features) (hfeature : "filetype" ∈ features) (hsize : r.size < 65536)
    (hname : decodeUtf8 r.name = some name) :
    readdirExit features data version ⟨front.length, entries⟩ =
      some (some (entries ++ (r.fields name).entries version)) := by
  refine readdirExit_last (readFields_record hdata hr hfeature (Nat.le_of_lt hsize) hname) ?_
  rw [fields, diskRecLen_of_lt hsize, hdata, List.flatMap_cons, List.flatMap_nil,
    List.append_nil, List.length_append, length_encode]

/-- The pass over a record with records behind it. -/
theorem ends_record_iff (hdata : data = front ++ (r :: records).flatMap encode)
    (hr : r.WellFormed features) (hfeature : "filetype" ∈ features) (hsize : r.size < 65536)
    (hname : decodeUtf8 r.name = some name) (hmore : records ≠ [])
    (result : Option (List DirEntry)) :
    Loops.Ends (readdirExit features data version) (readdirNext features data version)
        ⟨front.length, entries⟩ result ↔
      Loops.Ends (readdirExit features data version) (readdirNext features data version)
        ⟨(front ++ r.encode).length, entries ++ (r.fields name).entries version⟩ result := by
  have hread := readFields_record hdata hr hfeature (Nat.le_of_lt hsize) hname
  have hlength : front.length + (r.fields name).recLen = (front ++ r.encode).length := by
    rw [fields, diskRecLen_of_lt hsize, List.length_append, length_encode]
  have hlast : front.length + (r.fields name).recLen ≠ data.length := by
    rcases List.exists_cons_of_ne_nil hmore with ⟨r', rest, rfl⟩
    have hpos := List.length_pos_iff.mpr (encode_ne_nil (r := r'))
    have htotal : data.length =
        (front ++ r.encode).length + (r'.encode ++ rest.flatMap encode).length := by
      rw [hdata, List.flatMap_cons, List.flatMap_cons, ← List.append_assoc]
      exact List.length_append
    have hbehind : (r'.encode ++ rest.flatMap encode).length =
        r'.encode.length + (rest.flatMap encode).length := List.length_append
    rw [hlength, htotal, hbehind]
    omega
  rw [Loops.ends_next_iff (readdirExit_more hread hlast), readdirNext_some hread, hlength]

/-- Over records whose names are text, the loop ends with the live entries. -/
theorem ends_of_names (hwf : ∀ r ∈ records, r.WellFormed features)
    (hfeature : "filetype" ∈ features) (hsize : ∀ r ∈ records, r.size < 65536)
    (hnames : ∀ r ∈ records, ∃ name, decodeUtf8 r.name = some name) (hne : records ≠ []) :
    ∃ live : List DirEntry,
      live.map some = (records.filter (·.Live)).map (entry version) ∧
      ∀ front entries data, data = front ++ records.flatMap encode →
        Loops.Ends (readdirExit features data version) (readdirNext features data version)
          ⟨front.length, entries⟩ (some (entries ++ live)) := by
  induction records with
  | nil => exact absurd rfl hne
  | cons r records ih =>
      rcases List.forall_mem_cons.mp hwf with ⟨hr, hwf⟩
      rcases List.forall_mem_cons.mp hsize with ⟨hrsize, hsize⟩
      rcases List.forall_mem_cons.mp hnames with ⟨⟨name, hname⟩, hnames⟩
      by_cases hmore : records = []
      · subst hmore
        refine ⟨(r.fields name).entries version, map_entries_fields hname, ?_⟩
        intro front entries data hdata
        exact Loops.ends_of_exit (readdirExit_record hdata hr hfeature hrsize hname)
      · rcases ih hwf hsize hnames hmore with ⟨live, hlive, hends⟩
        refine ⟨(r.fields name).entries version ++ live, ?_, ?_⟩
        · rw [List.map_append, hlive, map_entries_fields hname, ← List.map_append,
            ← List.filter_append]
          rfl
        · intro front entries data hdata
          rw [ends_record_iff hdata hr hfeature hrsize hname hmore, ← List.append_assoc]
          refine hends _ _ _ ?_
          rw [hdata, List.flatMap_cons, List.append_assoc]

/-- A name that is not text ends the call by an exception, also of a removed entry. -/
theorem ends_none_of_name (hwf : ∀ r ∈ records, r.WellFormed features)
    (hfeature : "filetype" ∈ features) (hsize : ∀ r ∈ records, r.size < 65536)
    (hbad : ∃ r ∈ records, decodeUtf8 r.name = none)
    (hdata : data = front ++ records.flatMap encode) :
    Loops.Ends (readdirExit features data version) (readdirNext features data version)
      ⟨front.length, entries⟩ none := by
  induction records generalizing front entries with
  | nil =>
      rcases hbad with ⟨r, hr, -⟩
      cases hr
  | cons r records ih =>
      rcases List.forall_mem_cons.mp hwf with ⟨hr, hwf⟩
      rcases List.forall_mem_cons.mp hsize with ⟨hrsize, hsize⟩
      cases hname : decodeUtf8 r.name with
      | none =>
          refine Loops.ends_of_exit (readdirExit_none ?_)
          rw [hdata, List.flatMap_cons, readFields_encode _ _ hr hfeature (Nat.le_of_lt hrsize),
            hname]
          rfl
      | some name =>
          have hrest : ∃ r' ∈ records, decodeUtf8 r'.name = none := by
            rcases hbad with ⟨r', hmem, hnone⟩
            rcases List.mem_cons.mp hmem with rfl | hmem
            · rw [hname] at hnone
              cases hnone
            · exact ⟨r', hmem, hnone⟩
          have hmore : records ≠ [] := by
            rcases hrest with ⟨r', hmem, -⟩
            exact List.ne_nil_of_mem hmem
          rw [ends_record_iff hdata hr hfeature hrsize hname hmore]
          refine ih hwf hsize hrest ?_
          rw [hdata, List.flatMap_cons, List.append_assoc]

end

/-! ## The block -/

section

open DirRecord

variable {features : List String} {data : List Byte} {version : Nat}
  {records : List DirRecord}

theorem size_le_of_block (hblock : DirBlock features data records) :
    ∀ r ∈ records, r.size ≤ data.length := by
  intro r hr
  rcases List.append_of_mem hr with ⟨front, rest, rfl⟩
  rw [hblock.data_eq, List.flatMap_append, List.flatMap_cons, List.length_append,
    List.length_append, length_encode]
  omega

theorem readdirBlock_no_feature (hblock : DirBlock features data records)
    (hfeature : "filetype" ∉ features) : ReaddirBlock features data version none := by
  rcases List.exists_cons_of_ne_nil hblock.nonempty with ⟨r, rest, rfl⟩
  refine Loops.ends_of_exit (readdirExit_none ?_)
  rw [hblock.data_eq, List.flatMap_cons]
  exact readFields_encode_none [] hfeature

/-- A record of 65536 bytes is the whole block, and its length is read as one less. -/
theorem readdirBlock_long (hblock : DirBlock features data records)
    (hfeature : "filetype" ∈ features) {r : DirRecord} (hr : r ∈ records)
    (hsize : r.size = 65536) : ReaddirBlock features data version none := by
  have hmax := hblock.length_le
  rcases List.append_of_mem hr with ⟨front, rest, rfl⟩
  have hdata := hblock.data_eq
  rw [List.flatMap_append] at hdata
  have hlength := congrArg List.length hdata
  rw [List.length_append, List.flatMap_cons, List.length_append, length_encode] at hlength
  have hfront : front.flatMap encode = [] := List.eq_nil_of_length_eq_zero (by omega)
  rw [hfront] at hdata
  have hwf := hblock.wellFormed r hr
  cases hname : decodeUtf8 r.name with
  | none =>
      refine Loops.ends_of_exit (readdirExit_none ?_)
      rw [hdata, List.flatMap_cons]
      have hread := readFields_encode [] (rest.flatMap encode) hwf hfeature
        (Nat.le_of_eq hsize)
      rw [hname] at hread
      exact hread
  | some name =>
      have hread : readFields features data 0 = some (r.fields name) :=
        readFields_record hdata hwf hfeature (Nat.le_of_eq hsize) hname
      have hstored : diskRecLen 65536 = 65535 := if_pos rfl
      have hrecLen : 0 + (r.fields name).recLen = 65535 := by
        rw [Nat.zero_add, fields, hsize]
        exact hstored
      have hmore : 0 + (r.fields name).recLen ≠ data.length := by omega
      have hbehind : readFields features data 65535 = none := by
        by_contra hsome
        rcases Option.ne_none_iff_exists'.mp hsome with ⟨f, hf⟩
        have hinside := length_of_readFields hf
        omega
      refine (Loops.ends_next_iff (readdirExit_more hread hmore)).mpr ?_
      rw [readdirNext_some hread, hrecLen]
      exact Loops.ends_of_exit (readdirExit_none hbehind)

/-- The call lists the live entries of a block of records exactly where it can read
its records. -/
theorem readdirBlock_lists_iff (hblock : DirBlock features data records) :
    (∃ entries, ReaddirBlock features data version (some entries) ∧
      entries.map some = (records.filter (·.Live)).map (entry version)) ↔
      "filetype" ∈ features ∧
        ∀ r ∈ records, r.size < 65536 ∧ ∃ name, decodeUtf8 r.name = some name := by
  have hdata : data = [] ++ records.flatMap encode := hblock.data_eq
  constructor
  · rintro ⟨entries, hends, -⟩
    have hreturns : ¬ReaddirBlock features data version none := by
      intro hnone
      cases hends.unique hnone
    have hfeature : "filetype" ∈ features := by
      by_contra hmissing
      exact hreturns (readdirBlock_no_feature hblock hmissing)
    have hsize : ∀ r ∈ records, r.size < 65536 := by
      intro r hr
      have hle := size_le_of_block hblock r hr
      have hmax := hblock.length_le
      by_contra hlong
      exact hreturns (readdirBlock_long hblock hfeature hr (by omega))
    refine ⟨hfeature, fun r hr => ⟨hsize r hr, ?_⟩⟩
    by_contra hname
    have hbad : decodeUtf8 r.name = none :=
      Option.eq_none_iff_forall_ne_some.mpr fun name hsome => hname ⟨name, hsome⟩
    exact hreturns (ends_none_of_name hblock.wellFormed hfeature hsize ⟨r, hr, hbad⟩ hdata)
  · rintro ⟨hfeature, hrecords⟩
    rcases ends_of_names hblock.wellFormed hfeature (fun r hr => (hrecords r hr).1)
      (fun r hr => (hrecords r hr).2) hblock.nonempty with ⟨live, hlive, hends⟩
    exact ⟨live, hends [] [] data hdata, hlive⟩

end

/-- The call ends and lists a block of records exactly where its walk comes to no
record with length 0 and it can read the records. -/
theorem readdirBlock_ends_and_lists_iff (features : List String) (data : List Byte)
    (version : Nat) :
    ((∃ result, ReaddirBlock features data version result) ∧
      ∀ records, DirBlock features data records →
        ∃ entries, ReaddirBlock features data version (some entries) ∧
          entries.map some = (records.filter (·.Live)).map (DirRecord.entry version)) ↔
      ¬StallsFrom features data 0 ∧
        ∀ records, DirBlock features data records → "filetype" ∈ features ∧
          ∀ r ∈ records, r.size < 65536 ∧ ∃ name, decodeUtf8 r.name = some name := by
  have hends : (∃ result, ReaddirBlock features data version result) ↔
      ¬StallsFrom features data 0 := by
    constructor
    · rintro ⟨result, hends⟩ hstalls
      exact not_ends_of_stalls hstalls result hends
    · exact ends_of_not_stalls
  exact and_congr hends
    (forall_congr' fun records => forall_congr' fun hblock => readdirBlock_lists_iff hblock)

/-- On a block of zeros the call does not end. -/
theorem readdirBlock_zeros :
    ¬∃ result, ReaddirBlock ["filetype"] (List.replicate 1024 0) 0 result := by
  have hread : readFields ["filetype"] (List.replicate 1024 0) 0 =
      some ⟨0, 0, .none, ""⟩ := by
    decide +kernel
  rintro ⟨result, hends⟩
  exact not_ends_of_stalls (.here hread rfl) result hends

end RansomTag

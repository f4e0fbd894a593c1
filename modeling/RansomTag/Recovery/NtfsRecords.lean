import RansomTag.Library.Chains
import RansomTag.Recovery.NtfsFixup
import RansomTag.Recovery.NtfsRunLists
import Mathlib.Order.Interval.Set.Infinite

/-!
# NTFS file records

`parse_file` walks the attributes of a record by their sizes, and `get_filepath` walks
the records by the parents in their file names.  An exception that leaves a function is
`none`; those of `parse_attr` are caught by `parse_file`.
-/

namespace RansomTag

open LittleEndian (unpack)

/-! ## Attributes -/

/-- `decode('UTF-16-LE')` -/
def decodeUtf16 : List Byte → Option (List Char)
  | [] => some []
  | [_] => none
  | low :: high :: rest =>
      let unit := low.toNat + 256 * high.toNat
      if unit < 0xD800 ∨ 0xDFFF < unit then
        (decodeUtf16 rest).map (Char.ofNat unit :: ·)
      else
        match rest with
        | low' :: high' :: rest' =>
            let unit' := low'.toNat + 256 * high'.toNat
            if unit < 0xDC00 ∧ 0xDC00 ≤ unit' ∧ unit' ≤ 0xDFFF then
              (decodeUtf16 rest').map
                (Char.ofNat (0x10000 + (unit - 0xD800) * 0x400 + (unit' - 0xDC00)) :: ·)
            else none
        | _ => none

inductive AttrParser where
  | parseFilename
  | parseRaw
  deriving DecidableEq

/-- `sname` and `sparser` of a type, in `ATTR_INFO`: of two entries with a type, the
second counts. -/
def attrInfo : Int → String × AttrParser
  | 0x10 => ("STANDARD_INFORMATION", .parseRaw)
  | 0x20 => ("ATTRIBUTE_LIST", .parseRaw)
  | 0x30 => ("FILE_NAME", .parseFilename)
  | 0x40 => ("OBJECT_ID", .parseRaw)
  | 0x50 => ("SECURITY_DESCRIPTOR", .parseRaw)
  | 0x60 => ("VOLUME_NAME", .parseRaw)
  | 0x70 => ("VOLUME_INFORMATION", .parseRaw)
  | 0x80 => ("DATA", .parseRaw)
  | 0x90 => ("INDEX_ROOT", .parseRaw)
  | 0xA0 => ("INDEX_ALLOCATION", .parseRaw)
  | 0xB0 => ("BITMAP", .parseRaw)
  | 0xC0 => ("REPARSE_POINT", .parseRaw)
  | 0xD0 => ("EA_INFORMATION", .parseRaw)
  | 0xE0 => ("EA", .parseRaw)
  | 0xF0 => ("PROPERTY_SET", .parseRaw)
  | 0x100 => ("LOGGED_UTILITY_STREAM", .parseRaw)
  | type => (toString type, .parseRaw)

/-- Where the bytes of an attribute are. -/
inductive AttrSource where
  | resident (data : List Byte)
  | nonresident (runlist : List (Nat × Int)) (sizeActual : Nat)

/-- What `parse_attr` returns: the type gives `sname` and the parser in `attrdata`. -/
structure Attr where
  type : Int
  name : Option String
  source : AttrSource

def Attr.sname (a : Attr) : String := (attrInfo a.type).1

def Attr.sparser (a : Attr) : AttrParser := (attrInfo a.type).2

/-- What a call of `attrdata` returns. -/
inductive AttrValue where
  | raw (bs : List Byte)
  | filename (ref : Nat) (fn : String)

/-- `parseFilename` -/
def parseFilename (s : List Byte) : Option (Nat × String) :=
  (unpack 8 (s.take 8)).bind fun ref =>
    (unpack 1 (s.extract 64 65)).bind fun flen =>
      (decodeUtf16 (s.extract 66 (66 + flen * 2))).map fun fn => (ref, String.ofList fn)

def AttrSource.read (f : List Byte) (bpc : Nat) : AttrSource → Option (List Byte)
  | .resident data => some data
  | .nonresident runlist sizeActual => (readRunlist f bpc runlist).map (·.take sizeActual)

/-- A call of `attrdata`. -/
def Attr.call (f : List Byte) (bpc : Nat) (a : Attr) : Option AttrValue :=
  (a.source.read f bpc).bind fun s =>
    match a.sparser with
    | .parseRaw => some (.raw s)
    | .parseFilename => (parseFilename s).map fun r => .filename r.1 r.2

/-- `attrlen` and `attroff`, or the run list. -/
def parseSource (nonres : Nat) (chunk : List Byte) : Option AttrSource :=
  if nonres ≠ 0 then (parseRunlist chunk).map fun r => .nonresident r.1 r.2
  else
    (unpack 4 (chunk.extract 16 20)).bind fun attrlen =>
      (unpack 2 (chunk.extract 20 22)).map fun attroff =>
        .resident (chunk.extract attroff (attroff + attrlen))

def parseAttrName (namelen nameoff : Nat) (chunk : List Byte) : Option (Option String) :=
  if namelen = 0 then some none
  else
    (decodeUtf16 (chunk.extract nameoff (nameoff + namelen * 2))).map fun name =>
      some (String.ofList name)

/-- The value of a field of four bytes with a sign. -/
def signed32 (v : Nat) : Int := if v < 2 ^ 31 then v else (v : Int) - 2 ^ 32

/-- `parse_attr` -/
def parseAttr (chunk : List Byte) : Option Attr :=
  if chunk.length < 12 then none
  else
    let type := signed32 (LittleEndian.value (chunk.extract 0 4))
    let nonres := LittleEndian.value (chunk.extract 8 9)
    let namelen := LittleEndian.value (chunk.extract 9 10)
    let nameoff := LittleEndian.value (chunk.extract 10 12)
    (parseAttrName namelen nameoff chunk).bind fun name =>
      (parseSource nonres chunk).map fun source => ⟨type, name, source⟩

/-! ## The attributes of a record -/

/-- The fields of the header that `parse_file` uses. -/
structure FileHeader where
  usaOfs : Nat
  usaCount : Nat
  attrOffset : Nat
  deriving DecidableEq

def parseHeader (chunk : List Byte) : Option FileHeader :=
  if chunk.length < 22 then none
  else
    some ⟨LittleEndian.value (chunk.extract 4 6), LittleEndian.value (chunk.extract 6 8),
      LittleEndian.value (chunk.extract 20 22)⟩

/-- `type` and `size` at a position; none where the loop breaks. -/
def attrAt (chunk : List Byte) (pos : Nat) : Option (Int × Nat) :=
  if chunk.length < pos + 12 then none
  else
    let type := signed32 (LittleEndian.value (chunk.extract pos (pos + 4)))
    let size := LittleEndian.value (chunk.extract (pos + 4) (pos + 8))
    if type = -1 then none else some (type, size)

/-- The state of the loop; the attribute that was parsed last comes first. -/
structure AttrWalk where
  pos : Nat
  attrs : List Attr

def parseFileExit (chunk : List Byte) (s : AttrWalk) : Option (List Attr) :=
  match attrAt chunk s.pos with
  | none => some s.attrs
  | some _ => none

def parseFileNext (chunk : List Byte) (s : AttrWalk) : AttrWalk :=
  match attrAt chunk s.pos with
  | none => s
  | some (_, size) =>
      ⟨s.pos + size, (parseAttr (chunk.extract s.pos (s.pos + size))).toList ++ s.attrs⟩

/-- `parse_file` ends with these attributes, or by an exception. -/
def ParseFile (chunk : List Byte) (result : Option (List Attr)) : Prop :=
  match parseHeader chunk with
  | none => result = none
  | some h =>
      let fixed := usaFixup chunk h.usaOfs h.usaCount
      ∃ attrs, result = some attrs ∧
        Loops.Ends (parseFileExit fixed) (parseFileNext fixed) ⟨h.attrOffset, []⟩ attrs

/-- The position of the attribute behind the one at a position. -/
def nextAttr (chunk : List Byte) (pos : Nat) : Option Nat :=
  (attrAt chunk pos).map fun head => pos + head.2

/-- The attributes of the record come to one with size 0. -/
def AttrsStall (chunk : List Byte) : Prop :=
  match parseHeader chunk with
  | none => False
  | some h => Chains.Stalls (nextAttr (usaFixup chunk h.usaOfs h.usaCount)) h.attrOffset

/-! ## The path of a record -/

/-- `attrs[sname][name]` -/
def findAttr (attrs : List Attr) (sname : String) (name : Option String) : Option Attr :=
  attrs.find? fun a => a.sname = sname ∧ a.name = name

/-- `parent, name = ...` -/
def AttrValue.toFilename : AttrValue → Option (Nat × String)
  | .filename ref fn => some (ref, fn)
  | .raw _ => none

section

variable (f : List Byte) (bpc : Nat) (mft : List (Option (List Attr)))

/-- `mft[i]['FILE_NAME'][None]()` -/
def fileName (i : Nat) : Option (Nat × String) :=
  mft[i]?.join.bind fun attrs =>
    (findAttr attrs "FILE_NAME" none).bind fun a => (a.call f bpc).bind AttrValue.toFilename

structure PathWalk where
  i : Nat
  bits : List String

def getFilepathExit (s : PathWalk) : Option (Option (List String)) :=
  match fileName f bpc mft s.i with
  | none => some none
  | some (_, name) => if name = "." then some (some s.bits.reverse) else none

def getFilepathNext (s : PathWalk) : PathWalk :=
  match fileName f bpc mft s.i with
  | none => s
  | some (parent, name) => ⟨parent &&& 0xffffffffffff, s.bits ++ [name]⟩

/-- `get_filepath` ends with this path, or by an exception. -/
def GetFilepath (i : Nat) (result : Option (List String)) : Prop :=
  Loops.Ends (getFilepathExit f bpc mft) (getFilepathNext f bpc mft) ⟨i, []⟩ result

/-- The parent of a record other than the root. -/
def parentOf (i : Nat) : Option Nat :=
  (fileName f bpc mft i).bind fun r =>
    if r.2 = "." then none else some (r.1 &&& 0xffffffffffff)

/-- The names on the way from the root to a record. -/
inductive PathTo : Nat → List String → Prop where
  | root {i parent : Nat} (h : fileName f bpc mft i = some (parent, ".")) : PathTo i []
  | child {i parent : Nat} {name : String} {path : List String}
      (h : fileName f bpc mft i = some (parent, name)) (hname : name ≠ ".")
      (hparent : PathTo (parent &&& 0xffffffffffff) path) : PathTo i (path ++ [name])

end

/-! ## What is under `FILE_NAME` -/

/-- The name of an unknown type has no letter in it. -/
theorem toString_type_ne {sname : String} {c : Char} (type : Int) (hc : c ∈ sname.toList)
    (hdigit : c.isDigit = false) (hsign : c ≠ '-') : toString type ≠ sname := by
  have hdigits : ∀ n : Nat, c ∉ n.repr.toList := by
    intro n hmem
    rw [Nat.toList_repr] at hmem
    have htrue := Nat.isDigit_of_mem_toDigits (by decide) (by decide) hmem
    rw [hdigit] at htrue
    cases htrue
  rintro rfl
  cases type with
  | ofNat n => exact hdigits n hc
  | negSucc n =>
      have hparts : (toString (Int.negSucc n)).toList = '-' :: (n + 1).repr.toList :=
        String.toList_append
      rw [hparts] at hc
      rcases List.mem_cons.mp hc with heq | hmem
      · exact hsign heq
      · exact hdigits (n + 1) hmem

theorem attrInfo_fileName {type : Int} (h : (attrInfo type).1 = "FILE_NAME") :
    (attrInfo type).2 = .parseFilename := by
  unfold attrInfo at h ⊢
  split at h
  case h_3 => rfl
  case h_17 =>
    have hletter : 'F' ∈ "FILE_NAME".toList := by decide
    exact absurd h (toString_type_ne _ hletter (by decide) (by decide))
  all_goals exact absurd h (by decide)

section

variable {f : List Byte} {bpc : Nat} {mft : List (Option (List Attr))} {i parent : Nat}
  {name : String}

theorem call_of_findAttr {attrs : List Attr} {a : Attr}
    (hfind : findAttr attrs "FILE_NAME" none = some a) :
    (a.call f bpc).bind AttrValue.toFilename = (a.source.read f bpc).bind parseFilename := by
  have hkey := List.find?_some hfind
  have hsname : a.sname = "FILE_NAME" := (of_decide_eq_true hkey).1
  have hparser : a.sparser = .parseFilename := attrInfo_fileName hsname
  unfold Attr.call
  rw [hparser]
  cases a.source.read f bpc with
  | none => rfl
  | some s =>
      cases hparse : parseFilename s with
      | none => simp only [Option.bind_some, hparse, Option.map_none, Option.bind_none]
      | some r =>
          simp only [Option.bind_some, hparse, Option.map_some]
          rfl

/-- What is under `FILE_NAME` is a file name. -/
theorem fileName_eq (i : Nat) :
    fileName f bpc mft i = mft[i]?.join.bind fun attrs =>
      (findAttr attrs "FILE_NAME" none).bind fun a =>
        (a.source.read f bpc).bind parseFilename := by
  unfold fileName
  refine Option.bind_congr fun attrs _ => Option.bind_congr fun a hfind => ?_
  exact call_of_findAttr hfind

/-! ## The walk over the attributes -/

variable {chunk : List Byte} {pos : Nat}

theorem attrAt_inside {head : Int × Nat} (h : attrAt chunk pos = some head) :
    pos + 12 ≤ chunk.length := by
  by_contra hshort
  unfold attrAt at h
  rw [if_pos (by omega)] at h
  cases h

theorem nextAttr_grows {p q : Nat} (h : nextAttr chunk p = some q) :
    p ≤ q ∧ p < chunk.length := by
  rcases Option.map_eq_some_iff.mp h with ⟨head, hread, hsum⟩
  have hinside := attrAt_inside hread
  omega

theorem parseFileExit_of_stop (chunk : List Byte) (s : AttrWalk) (h : nextAttr chunk s.pos = none) :
    ∃ attrs, parseFileExit chunk s = some attrs := by
  have hread : attrAt chunk s.pos = none := Option.map_eq_none_iff.mp h
  exact ⟨s.attrs, by simp only [parseFileExit, hread]⟩

theorem parseFile_step (s : AttrWalk) (pos : Nat) (h : nextAttr chunk s.pos = some pos) :
    parseFileExit chunk s = none ∧ (parseFileNext chunk s).pos = pos := by
  rcases Option.map_eq_some_iff.mp h with ⟨head, hread, hsum⟩
  constructor
  · simp only [parseFileExit, hread]
  · simp only [parseFileNext, hread]
    exact hsum

/-- The loop over the attributes ends if and only if none that it comes to has size 0. -/
theorem parseFile_ends_iff (chunk : List Byte) :
    (∃ result, ParseFile chunk result) ↔ ¬AttrsStall chunk := by
  unfold ParseFile AttrsStall
  cases parseHeader chunk with
  | none => exact ⟨fun _ h => h, fun _ => ⟨none, rfl⟩⟩
  | some h =>
      have hloop := Chains.loop_ends_iff
        (parseFileExit_of_stop (usaFixup chunk h.usaOfs h.usaCount)) parseFile_step
        ⟨h.attrOffset, []⟩
      rw [Chains.stops_iff_not_stalls fun p q => nextAttr_grows] at hloop
      rw [← hloop]
      constructor
      · rintro ⟨result, attrs, -, hends⟩
        exact ⟨attrs, hends⟩
      · rintro ⟨attrs, hends⟩
        exact ⟨some attrs, attrs, rfl, hends⟩

/-! ## The walk over the parents -/

variable (f bpc mft) in
theorem getFilepathExit_of_stop (s : PathWalk) (h : parentOf f bpc mft s.i = none) :
    ∃ result, getFilepathExit f bpc mft s = some result := by
  unfold parentOf at h
  cases hread : fileName f bpc mft s.i with
  | none => exact ⟨none, by simp only [getFilepathExit, hread]⟩
  | some r =>
      rw [hread, Option.bind_some] at h
      by_cases hroot : r.2 = "."
      · exact ⟨some s.bits.reverse, by simp only [getFilepathExit, hread, if_pos hroot]⟩
      · rw [if_neg hroot] at h
        cases h

theorem getFilepath_step (s : PathWalk) (i : Nat) (h : parentOf f bpc mft s.i = some i) :
    getFilepathExit f bpc mft s = none ∧ (getFilepathNext f bpc mft s).i = i := by
  unfold parentOf at h
  cases hread : fileName f bpc mft s.i with
  | none =>
      rw [hread] at h
      cases h
  | some r =>
      rw [hread, Option.bind_some] at h
      by_cases hroot : r.2 = "."
      · rw [if_pos hroot] at h
        cases h
      · rw [if_neg hroot] at h
        constructor
        · simp only [getFilepathExit, hread, if_neg hroot]
        · simp only [getFilepathNext, hread]
          exact Option.some.inj h

/-- Only the records of the list have parents. -/
theorem finite_parentOf : {i | parentOf f bpc mft i ≠ none}.Finite := by
  refine (Set.finite_lt_nat mft.length).subset ?_
  intro i hparent
  by_contra hbehind
  refine hparent ?_
  unfold parentOf fileName
  rw [List.getElem?_eq_none (not_lt.mp hbehind)]
  rfl

/-- The walk over the parents ends if and only if it comes to no record twice. -/
theorem getFilepath_ends_iff (i : Nat) :
    (∃ result, GetFilepath f bpc mft i result) ↔
      Chains.Acyclic (parentOf f bpc mft) i := by
  have hloop := Chains.loop_ends_iff (getFilepathExit_of_stop f bpc mft) getFilepath_step ⟨i, []⟩
  rw [Chains.stops_iff_acyclic finite_parentOf] at hloop
  exact hloop

theorem ends_of_pathTo {path : List String} (h : PathTo f bpc mft i path)
    (bits : List String) :
    Loops.Ends (getFilepathExit f bpc mft) (getFilepathNext f bpc mft) ⟨i, bits⟩
      (some (path ++ bits.reverse)) := by
  induction h generalizing bits with
  | root hread =>
      refine Loops.ends_of_exit ?_
      simp only [getFilepathExit, hread, List.nil_append, if_true]
  | @child i parent name path hread hname _ ih =>
      have hgoes : getFilepathExit f bpc mft ⟨i, bits⟩ = none := by
        simp only [getFilepathExit, hread, if_neg hname]
      have hnext : getFilepathNext f bpc mft ⟨i, bits⟩ =
          ⟨parent &&& 0xffffffffffff, bits ++ [name]⟩ := by
        simp only [getFilepathNext, hread]
      have hrest := ih (bits ++ [name])
      rw [List.reverse_append, List.reverse_singleton, ← List.append_assoc] at hrest
      rw [Loops.ends_next_iff hgoes, hnext]
      exact hrest

theorem getFilepath_of_pathTo {path : List String} (h : PathTo f bpc mft i path) :
    GetFilepath f bpc mft i (some path) := by
  have hends := ends_of_pathTo h []
  rw [List.reverse_nil, List.append_nil] at hends
  exact hends

end

/-- Both walks end, with the path to the root where there is one, exactly where no
attribute that the first comes to has size 0 and the second comes to no record twice. -/
theorem parseFile_getFilepath_iff (f : List Byte) (bpc : Nat) (chunk : List Byte)
    (mft : List (Option (List Attr))) (i : Nat) :
    ((∃ result, ParseFile chunk result) ∧ (∃ result, GetFilepath f bpc mft i result) ∧
      ∀ path, PathTo f bpc mft i path → GetFilepath f bpc mft i (some path)) ↔
      ¬AttrsStall chunk ∧ Chains.Acyclic (parentOf f bpc mft) i := by
  rw [parseFile_ends_iff, getFilepath_ends_iff]
  constructor
  · rintro ⟨hrecord, hpath, -⟩
    exact ⟨hrecord, hpath⟩
  · rintro ⟨hrecord, hpath⟩
    exact ⟨hrecord, hpath, fun _ => getFilepath_of_pathTo⟩

/-- A record with its first attribute at 56, of zeros. -/
def zeroSizeRecord : List Byte :=
  [0x46, 0x49, 0x4C, 0x45, 48, 0, 3, 0, 0, 0, 0, 0, 0, 0, 0, 0, 1, 0, 1, 0, 56, 0] ++
    List.replicate 1002 0

/-- A record whose file name is "a", in the directory of record `parent`. -/
def recordWithParent (parent : Byte) : List Attr :=
  [⟨0x30, none, .resident ([parent] ++ List.replicate 63 0 ++ [1, 0, 0x61, 0])⟩]

theorem walks_endless :
    (¬∃ result, ParseFile zeroSizeRecord result) ∧
      ¬∃ result, GetFilepath [] 512 [some (recordWithParent 1), some (recordWithParent 0)] 0
        result := by
  constructor
  · rw [parseFile_ends_iff, not_not]
    have hhead : parseHeader zeroSizeRecord = some ⟨48, 3, 56⟩ := by decide +kernel
    have hzero : nextAttr (usaFixup zeroSizeRecord 48 3) 56 = some 56 := by decide +kernel
    unfold AttrsStall
    rw [hhead]
    exact ⟨0, 56, rfl, hzero⟩
  · rw [getFilepath_ends_iff]
    intro hacyclic
    have htwice := hacyclic 0 2 0 (by decide +kernel) (by decide +kernel)
    cases htwice

end RansomTag

import RansomTag.Library.LittleEndian
import RansomTag.Usb.Command
import Mathlib.Data.Nat.Bitwise

/-!
# NTFS run lists

`parse_attr` decodes the run list of an attribute that is not resident, and
`read_runlist` reads the clusters of its runs.  A run without an offset field is a
hole, but it is read like the others.
-/

namespace RansomTag

open LittleEndian (unpack bytes)

/-! ## Decoding and reading -/

/-- `parse_varint` -/
def parseVarint (v : List Byte) : Nat := LittleEndian.value v

/-- `thisoff` with its sign, from a field of `offlen` bytes. -/
def signedOffset (offlen thisoff : Nat) : Int :=
  if thisoff ≠ 0 ∧ thisoff &&& (1 <<< (8 * offlen - 1)) ≠ 0 then
    (thisoff : Int) - (1 <<< (8 * offlen) : Nat)
  else thisoff

/-- The loop of `parse_attr` over the run list, from `rlpos` on, with `curoff`. -/
def decodeRuns (curoff : Int) : List Byte → List (Nat × Int)
  | [] => []
  | header :: rest =>
      if header = 0 then []
      else
        let lenlen := header.toNat &&& 0xf
        let offlen := header.toNat >>> 4
        if rest.length < lenlen + offlen then []
        else
          let thislen := parseVarint (rest.take lenlen)
          let thisoff := parseVarint ((rest.drop lenlen).take offlen)
          let curoff := curoff + signedOffset offlen thisoff
          (thislen, curoff) :: decodeRuns curoff (rest.drop (lenlen + offlen))
  termination_by chunk => chunk.length
  decreasing_by simp only [List.length_drop, List.length_cons]; omega

/-- `runlist` and `size_actual` of an attribute that is not resident. -/
def parseRunlist (chunk : List Byte) : Option (List (Nat × Int) × Nat) :=
  (unpack 2 (chunk.extract 32 34)).bind fun rloff =>
    (unpack 8 (chunk.extract 48 56)).map fun sizeActual =>
      (decodeRuns 0 (chunk.drop rloff), sizeActual)

/-- `readat`: a seek in front of the disk is refused, a read behind its end is short. -/
def readAt (f : List Byte) (n : Int) (s : Nat) : Option (List Byte) :=
  if n < 0 then none else some ((f.drop n.toNat).take s)

/-- `read_runlist` -/
def readRunlist (f : List Byte) (bpc : Nat) : List (Nat × Int) → Option (List Byte)
  | [] => some []
  | (rlen, roff) :: runlist =>
      (readAt f (roff * bpc) (rlen * bpc)).bind fun out =>
        (readRunlist f bpc runlist).map (out ++ ·)

/-- `attrdata` of an attribute that is not resident, before its parser. -/
def nonresidentData (f : List Byte) (bpc : Nat) (chunk : List Byte) : Option (List Byte) :=
  (parseRunlist chunk).bind fun r => (readRunlist f bpc r.1).map (·.take r.2)

/-! ## Mapping pairs -/

/-- A mapping pair: its length in a field of `lenWidth` bytes and, where it is no hole,
the width of the offset field and the distance to the run before. -/
structure MappingPair where
  lenWidth : Nat
  length : Nat
  offset : Option (Nat × Int)

namespace MappingPair

/-- The fields fit, and their widths fit in the header. -/
structure Valid (p : MappingPair) : Prop where
  lenWidth_pos : 0 < p.lenWidth
  lenWidth_lt : p.lenWidth < 16
  length_lt : p.length < 256 ^ p.lenWidth
  offset_fits : ∀ width delta, p.offset = some (width, delta) →
    0 < width ∧ width < 16 ∧ -(2 ^ (8 * width - 1) : Int) ≤ delta ∧ delta < 2 ^ (8 * width - 1)

def offWidth (p : MappingPair) : Nat := (p.offset.map Prod.fst).getD 0

def offsetBytes (p : MappingPair) : List Byte :=
  match p.offset with
  | none => []
  | some (width, delta) => LittleEndian.signedBytes width delta

def encode (p : MappingPair) : List Byte :=
  BitVec.ofNat 8 (p.offWidth * 16 + p.lenWidth) ::
    (bytes p.lenWidth p.length ++ p.offsetBytes)

/-- The absolute cluster of the run, from that of the run before. -/
def lcn (before : Int) (p : MappingPair) : Int := before + (p.offset.map Prod.snd).getD 0

end MappingPair

/-- The runs with their absolute clusters. -/
def absoluteRuns : Int → List MappingPair → List (Nat × Int)
  | _, [] => []
  | before, p :: pairs => (p.length, p.lcn before) :: absoluteRuns (p.lcn before) pairs

/-- What the runs contribute: clusters of the disk, and zeros for a hole. -/
def runContents (f : List Byte) (bpc : Nat) : Int → List MappingPair → List Byte
  | _, [] => []
  | before, p :: pairs =>
      (match p.offset with
        | none => List.replicate (p.length * bpc) 0
        | some _ => (f.drop (p.lcn before * bpc).toNat).take (p.length * bpc)) ++
        runContents f bpc (p.lcn before) pairs

/-- The clusters of the runs that are no holes are not in front of the disk. -/
def LcnsNonneg : Int → List MappingPair → Prop
  | _, [] => True
  | before, p :: pairs => (p.offset ≠ none → 0 ≤ p.lcn before) ∧ LcnsNonneg (p.lcn before) pairs

/-- The clusters of the runs that are no holes are on the disk. -/
def RunsOnDisk (f : List Byte) (bpc : Nat) : Int → List MappingPair → Prop
  | _, [] => True
  | before, p :: pairs =>
      (p.offset ≠ none → (p.lcn before * bpc).toNat + p.length * bpc ≤ f.length) ∧
        RunsOnDisk f bpc (p.lcn before) pairs

/-- From a position in the data on, no hole has a byte before the size. -/
def HolesBehind (bpc size : Nat) : Nat → List MappingPair → Prop
  | _, [] => True
  | position, p :: pairs =>
      (p.offset = none → p.length * bpc = 0 ∨ size ≤ position) ∧
        HolesBehind bpc size (position + p.length * bpc) pairs

/-! ## Decoding -/

section

variable {p : MappingPair} {pairs : List MappingPair} {before : Int}

theorem and_high_bit_iff {width raw : Nat} (hwidth : 0 < width) (hraw : raw < 256 ^ width) :
    raw &&& (1 <<< (8 * width - 1)) ≠ 0 ↔ 2 ^ (8 * width - 1) ≤ raw := by
  have hpow : 256 ^ width = 2 ^ (8 * width - 1 + 1) := by
    have hexp : 8 * width - 1 + 1 = 8 * width := by omega
    have hbyte : (2 : Nat) ^ 8 = 256 := rfl
    rw [hexp, pow_mul, hbyte]
  rw [Nat.one_shiftLeft, Nat.and_two_pow]
  constructor
  · intro hbit
    by_contra hlt
    rw [Nat.testBit_lt_two_pow (by omega)] at hbit
    exact hbit (Nat.zero_mul _)
  · intro hle
    rw [Nat.testBit_of_two_pow_le_and_two_pow_add_one_gt hle (by rw [← hpow]; exact hraw)]
    have hpos := Nat.two_pow_pos (8 * width - 1)
    simp

/-- The offset field is read with its sign. -/
theorem signedOffset_value {width : Nat} {delta : Int} (hwidth : 0 < width)
    (hlow : -(2 ^ (8 * width - 1) : Int) ≤ delta) (hhigh : delta < 2 ^ (8 * width - 1)) :
    signedOffset width (LittleEndian.value (LittleEndian.signedBytes width delta)) = delta := by
  have hbyte : (2 : Nat) ^ 8 = 256 := rfl
  have hfull : (1 <<< (8 * width) : Nat) = 256 ^ width := by
    rw [Nat.one_shiftLeft, pow_mul, hbyte]
  have hhalf : (256 : Int) ^ width = 2 * 2 ^ (8 * width - 1) := by
    have hexp : 8 * width = 8 * width - 1 + 1 := by omega
    rw [← pow_succ', ← hexp, pow_mul]
    rfl
  have hpos : (0 : Int) < 2 ^ (8 * width - 1) := by positivity
  have hraw : LittleEndian.value (LittleEndian.signedBytes width delta) < 256 ^ width := by
    have hlt := LittleEndian.value_lt (LittleEndian.signedBytes width delta)
    rwa [LittleEndian.length_signedBytes] at hlt
  have hvalue := LittleEndian.value_signedBytes hlow hhigh hwidth
  have hbit := and_high_bit_iff hwidth hraw
  generalize LittleEndian.value (LittleEndian.signedBytes width delta) = raw at *
  unfold signedOffset
  rw [hfull]
  have hcast : ((2 ^ (8 * width - 1) : Nat) : Int) = 2 ^ (8 * width - 1) := by push_cast; rfl
  by_cases hneg : delta < 0
  · rw [if_pos hneg] at hvalue
    have hhigh : 2 ^ (8 * width - 1) ≤ raw := by omega
    rw [if_pos ⟨by omega, hbit.mpr hhigh⟩]
    push_cast
    omega
  · rw [if_neg hneg] at hvalue
    have hsmall : ¬2 ^ (8 * width - 1) ≤ raw := by omega
    rw [if_neg fun h => hsmall (hbit.mp h.2)]
    exact hvalue

namespace MappingPair

theorem length_offsetBytes : p.offsetBytes.length = p.offWidth := by
  unfold offsetBytes offWidth
  cases p.offset with
  | none => rfl
  | some field => exact LittleEndian.length_signedBytes _ _

theorem Valid.offWidth_lt (h : p.Valid) : p.offWidth < 16 := by
  unfold offWidth
  cases hoffset : p.offset with
  | none => exact Nat.succ_pos _
  | some field => exact (h.offset_fits field.1 field.2 hoffset).2.1

theorem Valid.toNat_header (h : p.Valid) :
    (BitVec.ofNat 8 (p.offWidth * 16 + p.lenWidth)).toNat = p.offWidth * 16 + p.lenWidth := by
  have hoff := h.offWidth_lt
  have hlen := h.lenWidth_lt
  rw [BitVec.toNat_ofNat]
  exact Nat.mod_eq_of_lt (by omega)

/-- The offset field, a missing one too, is read as the distance. -/
theorem Valid.signedOffset_offsetBytes (h : p.Valid) (before : Int) :
    before + signedOffset p.offWidth (parseVarint p.offsetBytes) = p.lcn before := by
  unfold lcn offWidth offsetBytes parseVarint
  cases hoffset : p.offset with
  | none => rfl
  | some field =>
      rcases h.offset_fits field.1 field.2 hoffset with ⟨hwidth, -, hlow, hhigh⟩
      exact congrArg (before + ·) (signedOffset_value hwidth hlow hhigh)

theorem Valid.decodeRuns_cons (h : p.Valid) (before : Int) (rest : List Byte) :
    decodeRuns before (p.encode ++ rest) =
      (p.length, p.lcn before) :: decodeRuns (p.lcn before) rest := by
  have hheader := h.toNat_header
  have hoff := h.offWidth_lt
  have hlen := h.lenWidth_lt
  have hpos := h.lenWidth_pos
  have hne : BitVec.ofNat 8 (p.offWidth * 16 + p.lenWidth) ≠ 0 := by
    intro hzero
    rw [hzero] at hheader
    have hsum : p.offWidth * 16 + p.lenWidth = 0 := hheader.symm
    omega
  have hlenlen : (p.offWidth * 16 + p.lenWidth) &&& 0xf = p.lenWidth := by
    have hmask := Nat.and_two_pow_sub_one_eq_mod (p.offWidth * 16 + p.lenWidth) 4
    have hmod : (p.offWidth * 16 + p.lenWidth) % 2 ^ 4 = p.lenWidth := by omega
    exact hmask.trans hmod
  have hofflen : (p.offWidth * 16 + p.lenWidth) >>> 4 = p.offWidth := by
    rw [Nat.shiftRight_eq_div_pow]
    omega
  have hfields : bytes p.lenWidth p.length ++ p.offsetBytes ++ rest =
      bytes p.lenWidth p.length ++ (p.offsetBytes ++ rest) := List.append_assoc _ _ _
  have hlength : (bytes p.lenWidth p.length).length = p.lenWidth :=
    LittleEndian.length_bytes _ _
  have hvalue : parseVarint (bytes p.lenWidth p.length) = p.length :=
    LittleEndian.value_bytes_of_lt h.length_lt
  rw [encode, List.cons_append, decodeRuns, if_neg hne]
  simp only [hheader, hlenlen, hofflen]
  rw [hfields, if_neg ?_, List.take_left' hlength, List.drop_left' hlength,
    List.take_left' length_offsetBytes, hvalue, h.signedOffset_offsetBytes]
  · have hboth : (bytes p.lenWidth p.length ++ p.offsetBytes).length =
        p.lenWidth + p.offWidth := by
      rw [List.length_append, hlength, length_offsetBytes]
    rw [← hfields, List.drop_left' hboth]
  · rw [List.length_append, List.length_append, hlength, length_offsetBytes]
    omega

end MappingPair

/-- The decoded runs are those of the mapping pairs, whatever is behind the list. -/
theorem decodeRuns_encode (hvalid : ∀ p ∈ pairs, p.Valid) (before : Int) (tail : List Byte) :
    decodeRuns before (pairs.flatMap MappingPair.encode ++ 0 :: tail) =
      absoluteRuns before pairs := by
  induction pairs generalizing before with
  | nil =>
      rw [List.flatMap_nil, List.nil_append, decodeRuns, if_pos rfl]
      rfl
  | cons p pairs ih =>
      rcases List.forall_mem_cons.mp hvalid with ⟨hp, hpairs⟩
      rw [List.flatMap_cons, List.append_assoc, hp.decodeRuns_cons, ih hpairs]
      rfl

/-! ## Reading -/

variable {f : List Byte} {bpc size position : Nat}

/-- What is read of the runs, holes like the others. -/
def runReads (f : List Byte) (bpc : Nat) : Int → List MappingPair → List Byte
  | _, [] => []
  | before, p :: pairs =>
      (f.drop (p.lcn before * bpc).toNat).take (p.length * bpc) ++
        runReads f bpc (p.lcn before) pairs

theorem lcn_hole (h : p.offset = none) (before : Int) : p.lcn before = before := by
  unfold MappingPair.lcn
  rw [h]
  exact Int.add_zero before

theorem readRunlist_eq (hbefore : 0 ≤ before) (hlcns : LcnsNonneg before pairs) :
    readRunlist f bpc (absoluteRuns before pairs) = some (runReads f bpc before pairs) := by
  induction pairs generalizing before with
  | nil => rfl
  | cons p pairs ih =>
      have hlcn : 0 ≤ p.lcn before := by
        by_cases hhole : p.offset = none
        · rw [lcn_hole hhole]
          exact hbefore
        · exact hlcns.1 hhole
      have hseek : ¬p.lcn before * bpc < 0 :=
        not_lt.mpr (Int.mul_nonneg hlcn (Int.natCast_nonneg bpc))
      rw [absoluteRuns, readRunlist, ih hlcn hlcns.2, readAt, if_neg hseek]
      rfl

theorem length_read_run {n s : Nat} (h : n + s ≤ f.length) : ((f.drop n).take s).length = s := by
  rw [List.length_take, List.length_drop]
  omega

theorem holesBehind_of_le (h : size ≤ position) : HolesBehind bpc size position pairs := by
  induction pairs generalizing position with
  | nil => trivial
  | cons p pairs ih => exact ⟨fun _ => .inr h, ih (Nat.le_add_right_of_le h)⟩

variable (position) in
theorem take_runReads (hdisk : RunsOnDisk f bpc before pairs)
    (hholes : HolesBehind bpc size position pairs) :
    (runReads f bpc before pairs).take (size - position) =
      (runContents f bpc before pairs).take (size - position) := by
  induction pairs generalizing before position with
  | nil => rfl
  | cons p pairs ih =>
      have hrest := ih _ hdisk.2 hholes.2
      have hsub : size - position - p.length * bpc = size - (position + p.length * bpc) :=
        Nat.sub_sub _ _ _
      cases hoffset : p.offset with
      | some field =>
          have hlength := length_read_run (hdisk.1 (by simp [hoffset]))
          simp only [runReads, runContents, hoffset]
          rw [List.take_append, List.take_append, hlength, hsub, hrest]
      | none =>
          rcases hholes.1 hoffset with hempty | hbehind
          · simp only [runReads, runContents, hoffset]
            rw [hempty, Nat.add_zero] at hrest
            rw [hempty]
            exact hrest
          · have hzero : size - position = 0 := by omega
            rw [hzero, List.take_zero, List.take_zero]

/-- Every disk that is large enough has the runs. -/
theorem exists_runsOnDisk (bpc : Nat) (before : Int) (pairs : List MappingPair) :
    ∃ n, ∀ f : List Byte, n ≤ f.length → RunsOnDisk f bpc before pairs := by
  induction pairs generalizing before with
  | nil => exact ⟨0, fun _ _ => trivial⟩
  | cons p pairs ih =>
      rcases ih (p.lcn before) with ⟨n, hn⟩
      refine ⟨max n ((p.lcn before * bpc).toNat + p.length * bpc), fun f hf => ?_⟩
      exact ⟨fun _ => le_trans (le_max_right _ _) hf, hn f (le_trans (le_max_left _ _) hf)⟩

theorem mem_runReads {byte : Byte} (h : byte ∈ runReads f bpc before pairs) : byte ∈ f := by
  induction pairs generalizing before with
  | nil => cases h
  | cons p pairs ih =>
      rcases List.mem_append.mp h with hrun | hrest
      · exact List.mem_of_mem_drop (List.mem_of_mem_take hrun)
      · exact ih hrest

/-- A disk without a zero shows each hole before the size. -/
theorem holesBehind_of_take (hones : 0 ∉ f) (hdisk : RunsOnDisk f bpc before pairs)
    (hsame : (runReads f bpc before pairs).take (size - position) =
      (runContents f bpc before pairs).take (size - position)) :
    HolesBehind bpc size position pairs := by
  induction pairs generalizing before position with
  | nil => trivial
  | cons p pairs ih =>
      have hsub : size - position - p.length * bpc = size - (position + p.length * bpc) :=
        Nat.sub_sub _ _ _
      cases hoffset : p.offset with
      | some field =>
          have hlength := length_read_run (hdisk.1 (by simp [hoffset]))
          simp only [runReads, runContents, hoffset] at hsame
          rw [List.take_append, List.take_append, hlength, hsub,
            List.append_cancel_left_eq] at hsame
          refine ⟨fun hnone => ?_, ih hdisk.2 hsame⟩
          rw [hoffset] at hnone
          cases hnone
      | none =>
          by_cases hbehind : size ≤ position
          · exact ⟨fun _ => .inr hbehind, holesBehind_of_le (Nat.le_add_right_of_le hbehind)⟩
          · by_cases hempty : p.length * bpc = 0
            · refine ⟨fun _ => .inl hempty, ?_⟩
              simp only [runReads, runContents, hoffset] at hsame
              rw [hempty] at hsame
              rw [hempty, Nat.add_zero]
              exact ih hdisk.2 hsame
            · -- The first byte of the hole is 0, but 0 is not on the disk.
              have hzero : (0 : Byte) ∈
                  (runContents f bpc before (p :: pairs)).take (size - position) := by
                rw [runContents, hoffset]
                obtain ⟨k, hk⟩ := Nat.exists_eq_succ_of_ne_zero hempty
                obtain ⟨n, hn⟩ := Nat.exists_eq_succ_of_ne_zero
                  (show size - position ≠ 0 by omega)
                rw [hk, hn, List.replicate_succ, List.cons_append, List.take_succ_cons]
                exact List.mem_cons_self
              rw [← hsame] at hzero
              exact absurd (mem_runReads (List.mem_of_mem_take hzero)) hones

theorem nonresidentData_eq {chunk : List Byte}
    (hchunk : parseRunlist chunk = some (absoluteRuns 0 pairs, size))
    (hlcns : LcnsNonneg 0 pairs) (f : List Byte) :
    nonresidentData f bpc chunk = some ((runReads f bpc 0 pairs).take size) := by
  unfold nonresidentData
  rw [hchunk, Option.bind_some, readRunlist_eq le_rfl hlcns, Option.map_some]

theorem nonresidentData_right_iff {chunk : List Byte}
    (hchunk : parseRunlist chunk = some (absoluteRuns 0 pairs, size))
    (hlcns : LcnsNonneg 0 pairs) :
    (∀ f, RunsOnDisk f bpc 0 pairs →
      nonresidentData f bpc chunk = some ((runContents f bpc 0 pairs).take size)) ↔
      HolesBehind bpc size 0 pairs := by
  constructor
  · intro hread
    rcases exists_runsOnDisk bpc 0 pairs with ⟨n, hn⟩
    have hdisk : RunsOnDisk (List.replicate n 1) bpc 0 pairs :=
      hn _ (Nat.le_of_eq List.length_replicate.symm)
    have hsame := hread _ hdisk
    rw [nonresidentData_eq hchunk hlcns] at hsame
    refine holesBehind_of_take ?_ hdisk (Option.some.inj hsame)
    intro hzero
    exact absurd (List.eq_of_mem_replicate hzero) (by decide)
  · intro hholes f hdisk
    rw [nonresidentData_eq hchunk hlcns]
    exact congrArg some (take_runReads 0 hdisk hholes)

end

/-- An attribute that is not resident, with these mapping pairs in its run list. -/
structure NonresidentAttr (chunk : List Byte) (pairs : List MappingPair) (size : Nat) :
    Prop where
  valid : ∀ p ∈ pairs, p.Valid
  lcns : LcnsNonneg 0 pairs
  rloff_eq : ∃ rloff tail, unpack 2 (chunk.extract 32 34) = some rloff ∧
    chunk.drop rloff = pairs.flatMap MappingPair.encode ++ 0 :: tail
  size_eq : unpack 8 (chunk.extract 48 56) = some size

theorem NonresidentAttr.parseRunlist_eq {chunk : List Byte} {pairs : List MappingPair}
    {size : Nat} (h : NonresidentAttr chunk pairs size) :
    parseRunlist chunk = some (absoluteRuns 0 pairs, size) := by
  rcases h.rloff_eq with ⟨rloff, tail, hrloff, hdrop⟩
  unfold parseRunlist
  rw [hrloff, h.size_eq, Option.bind_some, Option.map_some, hdrop, decodeRuns_encode h.valid]

/-- The runs are decoded, and the data is read on every disk exactly where no hole has a
byte before the size. -/
theorem nonresidentData_iff (bpc size : Nat) (chunk : List Byte) (pairs : List MappingPair)
    (hattr : NonresidentAttr chunk pairs size) :
    (parseRunlist chunk = some (absoluteRuns 0 pairs, size) ∧
      ∀ f, RunsOnDisk f bpc 0 pairs →
        nonresidentData f bpc chunk = some ((runContents f bpc 0 pairs).take size)) ↔
      HolesBehind bpc size 0 pairs := by
  have hchunk := hattr.parseRunlist_eq
  rw [and_iff_right hchunk]
  exact nonresidentData_right_iff hchunk hattr.lcns

/-- An attribute with two runs, the second in front of the first. -/
def backwardChunk : List Byte :=
  List.replicate 32 0 ++ [64, 0] ++ List.replicate 14 0 ++ [0, 6, 0, 0, 0, 0, 0, 0] ++
    List.replicate 8 0 ++ [0x11, 2, 9, 0x21, 1, 0xFD, 0xFF, 0]

def backwardPairs : List MappingPair := [⟨1, 2, some (1, 9)⟩, ⟨1, 1, some (2, -3)⟩]

theorem nonresidentAttr_backward : NonresidentAttr backwardChunk backwardPairs 1536 where
  valid := by
    have hfirst : MappingPair.Valid ⟨1, 2, some (1, 9)⟩ :=
      ⟨by decide, by decide, by decide, by
        rintro width delta hoffset
        cases hoffset
        decide⟩
    have hsecond : MappingPair.Valid ⟨1, 1, some (2, -3)⟩ :=
      ⟨by decide, by decide, by decide, by
        rintro width delta hoffset
        cases hoffset
        decide⟩
    exact List.forall_mem_cons.mpr ⟨hfirst, List.forall_mem_cons.mpr
      ⟨hsecond, fun p hp => absurd hp List.not_mem_nil⟩⟩
  lcns := ⟨fun _ => by decide, fun _ => by decide, trivial⟩
  rloff_eq := ⟨64, [], by decide, by decide⟩
  size_eq := by decide

/-- Runs without a hole are read on every disk. -/
theorem nonresidentData_backward :
    parseRunlist backwardChunk = some (absoluteRuns 0 backwardPairs, 1536) ∧
      ∀ f, RunsOnDisk f 512 0 backwardPairs →
        nonresidentData f 512 backwardChunk =
          some ((runContents f 512 0 backwardPairs).take 1536) := by
  refine (nonresidentData_iff 512 1536 backwardChunk backwardPairs
    nonresidentAttr_backward).mpr ⟨?_, ?_, trivial⟩
  · intro hhole
    cases hhole
  · intro hhole
    cases hhole

/-- An attribute that is a hole of one cluster. -/
def holeChunk : List Byte :=
  List.replicate 32 0 ++ [64, 0] ++ List.replicate 14 0 ++ [0, 2, 0, 0, 0, 0, 0, 0] ++
    List.replicate 8 0 ++ [0x01, 1, 0]

theorem nonresidentAttr_hole : NonresidentAttr holeChunk [⟨1, 1, none⟩] 512 where
  valid := by
    intro p hp
    rw [List.mem_singleton.mp hp]
    exact ⟨by decide, by decide, by decide, fun width delta hoffset => by cases hoffset⟩
  lcns := ⟨fun hrun => absurd rfl hrun, trivial⟩
  rloff_eq := ⟨64, [], by decide, by decide⟩
  size_eq := by decide

/-- The hole is read from the first cluster of the disk. -/
theorem nonresidentData_hole :
    ¬∀ f, RunsOnDisk f 512 0 [⟨1, 1, none⟩] →
      nonresidentData f 512 holeChunk = some ((runContents f 512 0 [⟨1, 1, none⟩]).take 512) := by
  intro hread
  have hholes := (nonresidentData_right_iff nonresidentAttr_hole.parseRunlist_eq
    nonresidentAttr_hole.lcns).mp hread
  rcases hholes.1 rfl with hempty | hbehind
  · exact absurd hempty (by decide)
  · exact absurd hbehind (by decide)

end RansomTag

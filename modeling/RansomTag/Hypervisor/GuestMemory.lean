import RansomTag.Usb.Command

/-!
# Guest memory

The introspection reads the guest's memory byte by byte at linear addresses.  A
byte whose page walk fails leaves the byte of the destination as it was, and the
caller does not learn of it.
-/

namespace RansomTag

/-- `linux_virtaddr` and `Win_virtaddr` -/
abbrev VirtAddr := BitVec 64

/-- The guest at the time of an analysis: the page walk of an address, with an
error code where it fails, and the bytes of its memory. -/
structure Guest where
  translate : VirtAddr → Except (BitVec 64) (BitVec 64)
  ram : BitVec 64 → Byte

/-! ## Little-endian values -/

/-- The first `n` bytes of a value as they are in memory. -/
def leBytes {w : Nat} (n : Nat) (value : BitVec w) : List Byte :=
  (List.range n).map fun i => (value >>> (8 * i)).setWidth 8

/-- The value that these bytes are. -/
def leValue {w : Nat} (bytes : List Byte) : BitVec w :=
  bytes.foldr (fun b value => value <<< 8 ||| b.setWidth w) 0

/-- The bytes of a value are the value, as far as they go. -/
theorem getLsbD_leValue_leBytes {w : Nat} (n : Nat) (value : BitVec w) {i : Nat} (hi : i < 8 * n) :
    (leValue (leBytes n value) : BitVec w).getLsbD i = value.getLsbD i := by
  induction n generalizing value i with
  | zero => omega
  | succ n ih =>
      have hbytes : leBytes (n + 1) value =
          value.setWidth 8 :: leBytes n (value >>> 8) := by
        unfold leBytes
        rw [List.range_succ_eq_map, List.map_cons, List.map_map]
        congr 1
        apply List.map_congr_left
        intro k _
        have hshift : 8 * (k + 1) = 8 + 8 * k := by omega
        simp only [Function.comp, Nat.succ_eq_add_one, hshift, BitVec.shiftRight_add]
      rw [hbytes]
      change (leValue (leBytes n (value >>> 8)) <<< 8 |||
        (value.setWidth 8).setWidth w : BitVec w).getLsbD i = _
      by_cases hlow : i < 8
      · simp only [BitVec.getLsbD_or, BitVec.getLsbD_shiftLeft, hlow, decide_true, Bool.not_true,
          Bool.and_false, Bool.false_and, Bool.false_or, BitVec.getLsbD_setWidth, Bool.true_and]
        by_cases hw : i < w
        · simp [hw]
        · simp [hw, BitVec.getLsbD_of_ge value i (by omega)]
      · have hrest := @ih (value >>> 8) (i - 8) (by omega)
        simp only [BitVec.getLsbD_or, BitVec.getLsbD_shiftLeft, BitVec.getLsbD_setWidth, hlow,
          decide_false, Bool.not_false, Bool.false_and, Bool.and_false, Bool.or_false, hrest,
          BitVec.getLsbD_ushiftRight]
        have hsum : 8 + (i - 8) = i := by omega
        rw [hsum]
        by_cases hw : i < w
        · simp [hw]
        · simp [hw, BitVec.getLsbD_of_ge value i (by omega)]

theorem leValue_leBytes {w n : Nat} (h : w = 8 * n) (value : BitVec w) :
    leValue (leBytes n value) = value := by
  apply BitVec.eq_of_getLsbD_eq
  intro i hi
  exact getLsbD_leValue_leBytes n value (by omega)

/-- A guest whose memory is mapped as it is and holds these words. -/
def Guest.ofWords (word : BitVec 64 → BitVec 64) : Guest where
  translate := .ok
  ram phys := (word (phys &&& ~~~7) >>> (8 * (phys &&& 7))).setWidth 8

/-! ## Reads -/

namespace Guest

variable (g : Guest)

/-- The byte at an address, where the page walk finds it. -/
def byteAt (virt : VirtAddr) : Option Byte := (g.translate virt).toOption.map g.ram

/-- `read_linearaddr_b` -/
def readLinearaddrB (virt : VirtAddr) (data : Byte) : Byte :=
  match g.translate virt with
  | .ok phys => g.ram phys
  | .error _ => data

/-- `guestvirt_to_guestphys`, which returns an error code as an address. -/
def guestvirtToGuestphys (virt : VirtAddr) : BitVec 64 :=
  match g.translate virt with
  | .ok phys => phys
  | .error code => code

/-- The loop of `read_virtaddr_data` and `win_read_virtaddr_data`, which test the
first address only. -/
def readBytes (isKernelAddr : VirtAddr → Bool) (virt : VirtAddr) (data : List Byte) :
    List Byte :=
  if isKernelAddr virt then
    data.mapIdx fun i b => g.readLinearaddrB (virt + BitVec.ofNat 64 i) b
  else data

/-- A read of `n` bytes into a variable. -/
def readValue {w : Nat} (isKernelAddr : VirtAddr → Bool) (virt : VirtAddr) (old : BitVec w) :
    BitVec w :=
  leValue (g.readBytes isKernelAddr virt (leBytes (w / 8) old))

/-- The value at an address, where all its bytes can be read. -/
def valueAt (w : Nat) (isKernelAddr : VirtAddr → Bool) (virt : VirtAddr) :
    Option (BitVec w) :=
  if isKernelAddr virt ∧ ∀ i < w / 8, (g.byteAt (virt + BitVec.ofNat 64 i)).isSome then
    some (leValue ((List.range (w / 8)).map fun i =>
      (g.byteAt (virt + BitVec.ofNat 64 i)).getD 0))
  else none

variable {g} {isKernelAddr : VirtAddr → Bool} {virt : VirtAddr}

theorem readLinearaddrB_eq (data : Byte) :
    g.readLinearaddrB virt data = (g.byteAt virt).getD data := by
  unfold readLinearaddrB byteAt
  cases g.translate virt <;> rfl

@[simp] theorem length_readBytes (data : List Byte) :
    (g.readBytes isKernelAddr virt data).length = data.length := by
  unfold readBytes
  split
  · exact List.length_mapIdx
  · rfl

/-- A read that finds no byte leaves the variable as it was. -/
theorem readValue_of_unread {n : Nat} (h : isKernelAddr virt = false ∨
      ∀ i < n, g.byteAt (virt + BitVec.ofNat 64 i) = none) (old : BitVec (8 * n)) :
    g.readValue isKernelAddr virt old = old := by
  have hwidth : 8 * n / 8 = n := by omega
  have hbytes : g.readBytes isKernelAddr virt (leBytes (8 * n / 8) old) = leBytes n old := by
    rw [hwidth]
    unfold readBytes
    split_ifs with hkernel
    · have hnone := h.resolve_left (by simp [hkernel])
      apply List.ext_getElem
      · simp [leBytes]
      · intro i hi _
        have hlt : i < n := by simpa [leBytes] using hi
        simp [readLinearaddrB_eq, hnone i hlt]
    · rfl
  unfold readValue
  rw [hbytes]
  exact leValue_leBytes rfl old

/-- A read of a value that can be read does not depend on the variable before. -/
theorem readValue_of_valueAt {w : Nat} {value : BitVec w}
    (h : g.valueAt w isKernelAddr virt = some value) (old : BitVec w) :
    g.readValue isKernelAddr virt old = value := by
  unfold valueAt at h
  split_ifs at h with hread
  cases h
  rcases hread with ⟨hkernel, hbytes⟩
  unfold readValue readBytes
  rw [if_pos hkernel]
  congr 1
  apply List.ext_getElem
  · simp [leBytes]
  · intro i hi _
    have hlt : i < w / 8 := by simpa [leBytes] using hi
    rcases Option.isSome_iff_exists.mp (hbytes i hlt) with ⟨b, hb⟩
    simp [readLinearaddrB_eq, hb]

end Guest

end RansomTag

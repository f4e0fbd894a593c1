import Mathlib.Data.List.Basic
import Mathlib.Tactic.Positivity
import Mathlib.Tactic.Zify

/-!
# Numbers as little-endian bytes

The value of a list of bytes, least byte first, and the bytes of a number.
-/

namespace LittleEndian

def value : List (BitVec 8) → Nat
  | [] => 0
  | b :: bs => b.toNat + 256 * value bs

/-- The lowest `n` bytes of a number. -/
def bytes : Nat → Nat → List (BitVec 8)
  | 0, _ => []
  | n + 1, v => BitVec.ofNat 8 v :: bytes n (v / 256)

/-- The value of a field of `n` bytes; other lengths are refused. -/
def unpack (n : Nat) (bs : List (BitVec 8)) : Option Nat :=
  if bs.length = n then some (value bs) else none

/-- The bytes of a number with a sign, in two's complement. -/
def signedBytes (n : Nat) (z : Int) : List (BitVec 8) := bytes n (z % 256 ^ n).toNat

variable {bs : List (BitVec 8)} {n v : Nat}

@[simp] theorem length_bytes (n v : Nat) : (bytes n v).length = n := by
  induction n generalizing v with
  | zero => rfl
  | succ n ih => rw [bytes, List.length_cons, ih]

theorem value_bytes (n v : Nat) : value (bytes n v) = v % 256 ^ n := by
  induction n generalizing v with
  | zero => rw [Nat.pow_zero, Nat.mod_one]; rfl
  | succ n ih =>
      have hpow : 256 ^ (n + 1) = 256 * 256 ^ n := Nat.pow_succ'
      rw [bytes, value, ih, BitVec.toNat_ofNat, hpow, Nat.mod_mul]

theorem value_bytes_of_lt (h : v < 256 ^ n) : value (bytes n v) = v := by
  rw [value_bytes, Nat.mod_eq_of_lt h]

theorem value_lt (bs : List (BitVec 8)) : value bs < 256 ^ bs.length := by
  induction bs with
  | nil => exact Nat.one_pos
  | cons b bs ih =>
      have hb := b.isLt
      rw [value, List.length_cons, Nat.pow_succ]
      omega

theorem unpack_bytes (h : v < 256 ^ n) : unpack n (bytes n v) = some v := by
  rw [unpack, if_pos (length_bytes n v), value_bytes_of_lt h]

theorem unpack_eq_none (h : bs.length ≠ n) : unpack n bs = none := if_neg h

@[simp] theorem length_signedBytes (n : Nat) (z : Int) : (signedBytes n z).length = n :=
  length_bytes n _

/-- The value of a number with a sign is moved up where it is negative. -/
theorem value_signedBytes {z : Int} (hlow : -(2 ^ (8 * n - 1) : Int) ≤ z)
    (hhigh : z < 2 ^ (8 * n - 1)) (hn : 0 < n) :
    (value (signedBytes n z) : Int) = if z < 0 then z + 256 ^ n else z := by
  have hpow : (256 : Int) ^ n = 2 * 2 ^ (8 * n - 1) := by
    have hexp : 8 * n = 8 * n - 1 + 1 := by omega
    rw [← pow_succ', ← hexp, pow_mul]
    rfl
  have hpos : (0 : Int) < 2 ^ (8 * n - 1) := by positivity
  have hmod : z % 256 ^ n = if z < 0 then z + 256 ^ n else z := by
    split_ifs with hneg
    · rw [← Int.add_emod_right, Int.emod_eq_of_lt (by omega) (by omega)]
    · exact Int.emod_eq_of_lt (by omega) (by omega)
  have hnonneg : 0 ≤ z % 256 ^ n := Int.emod_nonneg z (by omega)
  have hlt : z % 256 ^ n < 256 ^ n := Int.emod_lt_of_pos z (by omega)
  have hbound : (z % 256 ^ n).toNat < 256 ^ n := by
    zify
    rw [Int.toNat_of_nonneg hnonneg]
    exact hlt
  rw [signedBytes, value_bytes_of_lt hbound, Int.toNat_of_nonneg hnonneg, hmod]

end LittleEndian

import Mathlib.Algebra.GroupWithZero.Nat
import Mathlib.Data.Fin.VecNotation
import Mathlib.Logic.Function.Basic

/-!
# Command blocks and tags

The command block wrapper of the bulk-only transport as `msc.h` lays it out,
the numbers that `MSC_RWSetup` decodes from it, and the tags of `recovery.h`
that both programs keep in byte 6 of the command block.
-/

namespace RansomTag

abbrev Byte := BitVec 8

/-! ## Tags -/

/-- The request may come from ransomware. -/
def ransomTag : Byte := 0x7
/-- The request modifies the metadata of the file system. -/
def ransomTagMft : Byte := 0x8
/-- The request comes from the recovery program. -/
def recoverTag : Byte := 0x10

/-- `CheckTag` -/
def checkTag (cdb : Byte) : Int :=
  if cdb = 0 then 0
  else if cdb &&& ransomTag = ransomTag then 1
  else if cdb &&& ransomTagMft = ransomTagMft then 2
  else if cdb &&& recoverTag = recoverTag then 3
  else -1

/-! ## Command block wrappers -/

/-- `MSC_CBW` -/
structure Cbw where
  dSignature : Nat
  dTag : Nat
  dDataLength : Nat
  bmFlags : Byte
  bLUN : Byte
  bCBLength : Byte
  cb : Fin 16 → Byte

instance cdbLength_neZero : NeZero 16 := ⟨by decide⟩

def mscCbwSignature : Nat := 0x43425355

def scsiTestUnitReady : Byte := 0x00
def scsiRequestSense : Byte := 0x03
def scsiInquiry : Byte := 0x12
def scsiModeSense6 : Byte := 0x1A
def scsiReadFormatCapacities : Byte := 0x23
def scsiReadCapacity : Byte := 0x25
def scsiRead10 : Byte := 0x28
def scsiWrite10 : Byte := 0x2A
def scsiVerify10 : Byte := 0x2F
def scsiModeSense10 : Byte := 0x5A
def scsiRead12 : Byte := 0xA8
def scsiWrite12 : Byte := 0xAA

@[simp, reducible] def mscBlockSize : Nat := 512

namespace Cbw

variable (c : Cbw)

/-- The operation code. -/
def opcode : Byte := c.cb 0

def isRead : Prop := c.opcode = scsiRead10 ∨ c.opcode = scsiRead12
def isWrite : Prop := c.opcode = scsiWrite10 ∨ c.opcode = scsiWrite12

instance : Decidable c.isRead := inferInstanceAs (Decidable (_ ∨ _))
instance : Decidable c.isWrite := inferInstanceAs (Decidable (_ ∨ _))

/-- `(CBW.bmFlags & 0x80) != 0`: the host expects data. -/
def toHost : Prop := c.bmFlags &&& 0x80 ≠ 0

instance : Decidable c.toHost := inferInstanceAs (Decidable (_ ≠ _))

/-- The logical block address that `MSC_RWSetup` decodes. -/
def lba : Nat :=
  (c.cb 2).toNat * 16777216 + (c.cb 3).toNat * 65536 + (c.cb 4).toNat * 256 + (c.cb 5).toNat

/-- The number of blocks that `MSC_RWSetup` decodes.  The twelve-byte commands
have their length where the tag is. -/
def blocks : Nat :=
  if c.opcode = scsiRead10 ∨ c.opcode = scsiWrite10 ∨ c.opcode = scsiVerify10 then
    (c.cb 7).toNat * 256 + (c.cb 8).toNat
  else if c.opcode = scsiRead12 ∨ c.opcode = scsiWrite12 then
    (c.cb 6).toNat * 16777216 + (c.cb 7).toNat * 65536 + (c.cb 8).toNat * 256 + (c.cb 9).toNat
  else c.lba

/-- The byte that carries the tag, `CBW.CB[6]`. -/
def tagByte : Byte := c.cb 6

/-- The first check of `MSC_GetCBW`. -/
def Valid (bulkLen : Nat) : Prop := bulkLen = 31 ∧ c.dSignature = mscCbwSignature

/-- The second check of `MSC_GetCBW`. -/
def Meaningful : Prop := c.bLUN = 0 ∧ 1 ≤ c.bCBLength.toNat ∧ c.bCBLength.toNat ≤ 16

/-- The wrapper `c'` has the bits of the tag in byte 6 besides those of `c`, and
is `c` otherwise. -/
structure CarriesTag (tag : Byte) (c' : Cbw) : Prop where
  byte : c'.cb 6 = c.cb 6 ||| tag
  bytes : ∀ k, k ≠ 6 → c'.cb k = c.cb k
  wrapper : c' = { c with cb := c'.cb }

/-- The check of `MSC_RWSetup`, in 32-bit arithmetic. -/
def LengthAgrees : Prop :=
  c.dDataLength ≠ 0 ∧ c.dDataLength = c.blocks * mscBlockSize % 4294967296

instance (n : Nat) : Decidable (c.Valid n) := inferInstanceAs (Decidable (_ ∧ _))
instance : Decidable c.Meaningful := inferInstanceAs (Decidable (_ ∧ _ ∧ _))
instance : Decidable c.LengthAgrees := inferInstanceAs (Decidable (_ ∧ _))

variable {c}

theorem LengthAgrees.blocks_pos (h : c.LengthAgrees) : 0 < c.blocks := by
  obtain ⟨hne, heq⟩ := h
  by_contra hzero
  have hblocks : c.blocks = 0 := by omega
  rw [hblocks] at heq
  exact hne heq

end Cbw

/-- A command of ten bytes without a tag, for reads and writes of 512-byte sectors. -/
def tenByteCommand (opcode : Byte) (lba sectors : Nat) : Cbw where
  dSignature := mscCbwSignature
  dTag := 0
  dDataLength := sectors * 512
  bmFlags := if opcode = scsiRead10 then 0x80 else 0
  bLUN := 0
  bCBLength := 10
  cb := ![opcode, 0, BitVec.ofNat 8 (lba / 16777216), BitVec.ofNat 8 (lba / 65536),
    BitVec.ofNat 8 (lba / 256), BitVec.ofNat 8 lba, 0, BitVec.ofNat 8 (sectors / 256),
    BitVec.ofNat 8 sectors, 0, 0, 0, 0, 0, 0, 0]

end RansomTag

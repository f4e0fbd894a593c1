import RansomTag.Ftl.State

/-!
# The block layer below the translation layer

`UBI_Read`, `UBI_Write` and `UBI_Erase` as `ubi.h` promises them while no NAND
operation fails: a logical block holds what was programmed since its last
erase.  Each program and each erase is one operation at whose boundary the
power can fail.  Waiting for a busy die takes time only, so `UBI_Flush` and
`UBI_ReadStatus` succeed at once.
-/

namespace RansomTag

variable [Platform]

/-- What `UBI_Read` leaves: its status, and the buffers that it filled. -/
structure ReadResult where
  status : Status
  data : Option Buffer
  spare : Option Spare

/-- `UBI_Read`.  An erased page and a torn page fail and fill nothing; the
address of no page reads as zeros and leaves the spare buffer alone. -/
def ubiRead (block page : Nat) : Ftl ReadResult := do
  if block ≠ invalidBlock ∧ page ≠ invalidPage then
    assert (block < ubiCapacity)
    let s ← get
    match s.flash.page block page with
    | .programmed data spare => pure ⟨.success, some data, some spare⟩
    | _ => pure ⟨.failure, none, none⟩
  else
    assert (block = invalidBlock ∧ page = invalidPage)
    pure ⟨.success, some .zeros, none⟩

/-- `UBI_Write` -/
def ubiWrite (block page : Nat) (data : Buffer) (spare : Spare) : Ftl Status := do
  assert (block < ubiCapacity)
  modify (·.program block page data spare)
  pure .success

/-- `UBI_Erase` -/
def ubiErase (block : Nat) : Ftl Status := do
  modify (·.erase block)
  pure .success

/-- `UBI_Flush` -/
def ubiFlush : Ftl Status := pure .success

/-- `UBI_ReadStatus` -/
def ubiReadStatus (block : Nat) : Ftl Status := do
  assert (block < ubiCapacity)
  pure .success

/-- `UBI_Format` followed by `UBI_Init`: every block erased. -/
def ubiFormat : Ftl Status := do
  modify fun s => { s with
    flash := { Flash.blank with log := s.flash.log }
    past := s.flash :: s.past }
  pure .success

/-- `UBI_Init`: the block tables are rebuilt below this interface. -/
def ubiInit : Ftl Status := pure .success

end RansomTag

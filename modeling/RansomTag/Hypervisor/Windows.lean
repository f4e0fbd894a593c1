import RansomTag.Usb.Command

/-!
# The hypervisor under a Windows guest

The part of `ransomtag.c` that sees a command block wrapper on its way to the
device.  What the introspection of the guest yields is an arbitrary
`WinProcessInfo`: its local variables are not set where the guest's pointers
lead nowhere.
-/

namespace RansomTag

/-! ## Search in memory -/

/-- `mem_find_str`, whether it finds `sub` in the first `len` bytes. -/
def memFindStr (full : List Byte) (len : Nat) (sub : List Byte) : Bool :=
  sub ≠ [] &&
    (List.range (len + 1 - sub.length)).any fun i => (full.drop i).take sub.length == sub

/-- The bytes of a string literal. -/
def literal (s : String) : List Byte := s.toList.map fun c => BitVec.ofNat 8 c.toNat

/-! ## Introspection -/

/-- What `win_analyse` uses of `win_process_info`; `isMft` is
`IrpInfo[0].FileObjectInfo.is_MFT` after `traverse_IrpList`. -/
structure WinProcessInfo where
  eThread : Nat
  processName : List Byte
  isMft : Bool

/-- `is_win_kernel_addr` -/
def isWinKernelAddr (addr : Nat) : Bool :=
  0xFFFF000000000000 ≤ addr && addr ≤ 0xFFFFFFFFFFFFFFFF

/-- The guest as `win_analyse` finds it, and once more `win_Handle_Recovery`. -/
structure WinGuest where
  current : WinProcessInfo
  recovery : WinProcessInfo

/-! ## Tagging -/

/-- `win_AddTag` -/
def winAddTag (c : Cbw) (tag : Byte) : Cbw :=
  if tag = ransomTag ∨ tag = ransomTagMft ∨ tag = recoverTag then
    { c with cb := Function.update c.cb 6 (c.cb 6 ||| tag) }
  else c

def ntfsMftStartLba : Nat := 319488
def ntfsMftEndLba : Nat := 320000

/-- The test of `win_DetermineTag`: the file object is `$MFT`, or the address is
inside its range. -/
def winIsMftRequest (c : Cbw) (info : WinProcessInfo) : Prop :=
  info.isMft = true ∨ ntfsMftStartLba < c.lba ∧ c.lba < ntfsMftEndLba

instance (c : Cbw) (info : WinProcessInfo) : Decidable (winIsMftRequest c info) :=
  inferInstanceAs (Decidable (_ ∨ _))

/-- `win_DetermineTag` -/
def winDetermineTag (c : Cbw) (info : WinProcessInfo) : Cbw :=
  if winIsMftRequest c info then winAddTag c ransomTagMft else winAddTag c ransomTag

/-- `sector2048count` after a read of the scanner. -/
def winScanCount (c : Cbw) (count : Nat) : Nat :=
  if c.lba = 2048 then count + 1 else count

/-- `win_Handle_Recovery`, with `sector2048count` before and after. -/
def winHandleRecovery (c : Cbw) (info : WinProcessInfo) (count : Nat) : Cbw × Nat :=
  if isWinKernelAddr info.eThread then
    if memFindStr info.processName 11 (literal "scanmft") then
      if winScanCount c count = 2 ∧ c.lba ≠ 2048 then
        (winAddTag c ransomTagMft, winScanCount c count)
      else if winScanCount c count = 3 then (c, 0)
      else (c, winScanCount c count)
    else if memFindStr info.processName 13 (literal "ransomrecover") then
      (winAddTag c recoverTag, count)
    else (c, count)
  else (c, count)

/-- `win_analyse`, with `sector2048count` before and after. -/
def winAnalyse (guest : WinGuest) (count : Nat) (c : Cbw) : Cbw × Nat :=
  if isWinKernelAddr guest.current.eThread then
    if c.opcode = scsiRead10 then winHandleRecovery c guest.recovery count
    else if c.opcode = scsiWrite10 then (winDetermineTag c guest.current, count)
    else (c, count)
  else (c, count)

/-! ## What tagging leaves alone -/

section

variable {c : Cbw} {tag : Byte} {info : WinProcessInfo}

theorem winAddTag_cb_of_ne (k : Fin 16) (hk : k ≠ 6) : (winAddTag c tag).cb k = c.cb k := by
  unfold winAddTag
  split
  · exact Function.update_of_ne hk _ _
  · rfl

theorem winAddTag_carriesTag (h : tag = ransomTag ∨ tag = ransomTagMft ∨ tag = recoverTag) :
    c.CarriesTag tag (winAddTag c tag) := by
  refine ⟨?_, winAddTag_cb_of_ne, ?_⟩
  · unfold winAddTag
    rw [if_pos h]
    change Function.update c.cb 6 (c.cb 6 ||| tag) 6 = _
    rw [Function.update_self]
  · unfold winAddTag
    rw [if_pos h]

@[simp] theorem winAddTag_opcode : (winAddTag c tag).opcode = c.opcode :=
  winAddTag_cb_of_ne 0 (by decide)

@[simp] theorem winAddTag_lba : (winAddTag c tag).lba = c.lba := by
  unfold Cbw.lba
  rw [winAddTag_cb_of_ne 2 (by decide), winAddTag_cb_of_ne 3 (by decide),
    winAddTag_cb_of_ne 4 (by decide), winAddTag_cb_of_ne 5 (by decide)]

/-- A ten-byte command keeps its length: the tag is not in it. -/
theorem winAddTag_blocks_of_ten (h : c.opcode = scsiRead10 ∨ c.opcode = scsiWrite10) :
    (winAddTag c tag).blocks = c.blocks := by
  have hten : c.opcode = scsiRead10 ∨ c.opcode = scsiWrite10 ∨ c.opcode = scsiVerify10 :=
    h.elim .inl fun h => .inr (.inl h)
  unfold Cbw.blocks
  rw [winAddTag_opcode, if_pos hten, if_pos hten, winAddTag_cb_of_ne 7 (by decide),
    winAddTag_cb_of_ne 8 (by decide)]

theorem winDetermineTag_eq : ∃ tag, winDetermineTag c info = winAddTag c tag := by
  unfold winDetermineTag
  split
  · exact ⟨_, rfl⟩
  · exact ⟨_, rfl⟩

theorem winHandleRecovery_eq (c : Cbw) (info : WinProcessInfo) (count : Nat) :
    (winHandleRecovery c info count).1 = c ∨
    ∃ tag, (winHandleRecovery c info count).1 = winAddTag c tag := by
  unfold winHandleRecovery
  by_cases hthread : isWinKernelAddr info.eThread
  · rw [if_pos hthread]
    by_cases hscan : memFindStr info.processName 11 (literal "scanmft")
    · rw [if_pos hscan]
      split_ifs
      · exact .inr ⟨ransomTagMft, rfl⟩
      · exact .inl rfl
      · exact .inl rfl
    · rw [if_neg hscan]
      split_ifs
      · exact .inr ⟨recoverTag, rfl⟩
      · exact .inl rfl
  · rw [if_neg hthread]
    exact .inl rfl

/-- The wrapper leaves `win_analyse` as it came, or a ten-byte command with a tag. -/
theorem winAnalyse_eq (guest : WinGuest) (count : Nat) (c : Cbw) :
    (winAnalyse guest count c).1 = c ∨
    (c.opcode = scsiRead10 ∨ c.opcode = scsiWrite10) ∧
      ∃ tag, (winAnalyse guest count c).1 = winAddTag c tag := by
  unfold winAnalyse
  split
  · split
    · next hop =>
        rcases winHandleRecovery_eq c guest.recovery count with h | h
        · exact .inl h
        · exact .inr ⟨.inl hop, h⟩
    · split
      · next hop => exact .inr ⟨.inr hop, winDetermineTag_eq⟩
      · exact .inl rfl
  · exact .inl rfl

/-- The firmware decodes the same address and the same length. -/
theorem winAnalyse_decodes (guest : WinGuest) (count : Nat) (c : Cbw) :
    (winAnalyse guest count c).1.opcode = c.opcode ∧
    (winAnalyse guest count c).1.lba = c.lba ∧
    (winAnalyse guest count c).1.blocks = c.blocks := by
  rcases winAnalyse_eq guest count c with h | ⟨hop, tag, h⟩
  · rw [h]
    exact ⟨rfl, rfl, rfl⟩
  · rw [h]
    exact ⟨winAddTag_opcode, winAddTag_lba, winAddTag_blocks_of_ten hop⟩

end

end RansomTag

import RansomTag.Hypervisor.Linux
import RansomTag.Library.Latch

/-!
# The windows of the recovery program

The recovery program opens and closes two windows by reads of four blocks.  Each
window is a latch over the commands, whatever else is known about the file
system when they arrive.
-/

namespace RansomTag

/-- A `READ(10)` that starts at a block of the file system. -/
def readsBlock (block : Nat) (c : Cbw) : Prop :=
  c.opcode = scsiRead10 ∧ c.lba = ext4BlockToSectorStart block

instance (block : Nat) : DecidablePred (readsBlock block) :=
  fun _ => inferInstanceAs (Decidable (_ ∧ _))

/-- The command by which the recovery program reads one block. -/
def scriptRead (block : Nat) : Cbw :=
  tenByteCommand scsiRead10 (ext4BlockToSectorStart block) 8

/-- The windows after commands, each with the variables that it meets. -/
def windowsAfter (history : List (LinuxFs × Cbw)) : LinuxWindows :=
  history.foldl (fun w cmd => (linuxAnalyseCbw ⟨cmd.1, w⟩ cmd.2).1.windows) .closed

@[simp] theorem mfttagStart_sector : ext4BlockToSectorStart mfttagStartBlock = 960000 := rfl
@[simp] theorem mfttagEnd_sector : ext4BlockToSectorStart mfttagEndBlock = 960008 := rfl
@[simp] theorem recovertagStart_sector :
    ext4BlockToSectorStart recovertagStartBlock = 960016 := rfl
@[simp] theorem recovertagEnd_sector :
    ext4BlockToSectorStart recovertagEndBlock = 960024 := rfl

/-! ## One command -/

variable {fs : LinuxFs} {w : LinuxWindows} {c : Cbw}

theorem LinuxWindows.read_marks (hread : c.opcode = scsiRead10) :
    (w.read c).1 =
      ⟨Latch.step (readsBlock mfttagStartBlock) (readsBlock mfttagEndBlock)
          w.triggerMfttagStart c,
        Latch.step (readsBlock recovertagStartBlock) (readsBlock recovertagEndBlock)
          w.triggerRecovertagStart c⟩ := by
  rcases w with ⟨mft, recover⟩
  have hmarks : ∀ block, readsBlock block c ↔ c.lba = ext4BlockToSectorStart block := fun _ =>
    ⟨And.right, fun h => ⟨hread, h⟩⟩
  unfold LinuxWindows.read Latch.step
  simp only [hmarks, mfttagStart_sector, mfttagEnd_sector, recovertagStart_sector,
    recovertagEnd_sector]
  by_cases hmarker : isWindowMarker c.lba
  · rcases hmarker with h | h | h | h <;>
      simp only [mfttagStart_sector, mfttagEnd_sector, recovertagStart_sector,
        recovertagEnd_sector] at h <;>
      cases mft <;> cases recover <;> simp [h, isWindowMarker]
  · have hnone : c.lba ≠ 960000 ∧ c.lba ≠ 960008 ∧ c.lba ≠ 960016 ∧ c.lba ≠ 960024 := by
      simpa [isWindowMarker] using hmarker
    rcases hnone with ⟨hmftStart, hmftEnd, hrecoverStart, hrecoverEnd⟩
    cases mft <;> cases recover <;>
      simp [hmftStart, hmftEnd, hrecoverStart, hrecoverEnd, hmarker]

theorem LinuxWindows.read_tags :
    (w.read c).2 =
      if isWindowMarker c.lba then c
      else if w.triggerMfttagStart = true then linuxAddTag c ransomTagMft
      else if w.triggerRecovertagStart = true then linuxAddTag c recoverTag
      else c := by
  unfold LinuxWindows.read
  by_cases hmarker : isWindowMarker c.lba
  · rw [if_pos hmarker]
    split_ifs <;> first | rfl | tauto
  · have hnone : c.lba ≠ 960000 ∧ c.lba ≠ 960008 ∧ c.lba ≠ 960016 ∧ c.lba ≠ 960024 := by
      simpa [isWindowMarker] using hmarker
    rcases hnone with ⟨hmftStart, hmftEnd, hrecoverStart, hrecoverEnd⟩
    simp only [hmarker, mfttagStart_sector, mfttagEnd_sector, recovertagStart_sector,
      recovertagEnd_sector, hmftStart, hmftEnd, hrecoverStart, hrecoverEnd, if_false, and_true,
      not_false_eq_true, false_and]
    split_ifs <;> rfl

/-- Commands other than reads leave the windows alone. -/
theorem linuxAnalyseCbw_windows (s : LinuxState) (hread : c.opcode ≠ scsiRead10) :
    ∃ fs result, linuxAnalyseCbw s c = (⟨fs, s.windows⟩, result) := by
  by_cases hwrite : c.opcode = scsiWrite10
  · exact ⟨_, _, linuxAnalyseCbw_write s hwrite⟩
  · exact ⟨_, _, linuxAnalyseCbw_other s hread hwrite⟩

/-- One command moves each window as a latch. -/
theorem windows_step (fs : LinuxFs) (w : LinuxWindows) (c : Cbw) :
    (linuxAnalyseCbw ⟨fs, w⟩ c).1.windows =
      ⟨Latch.step (readsBlock mfttagStartBlock) (readsBlock mfttagEndBlock)
          w.triggerMfttagStart c,
        Latch.step (readsBlock recovertagStartBlock) (readsBlock recovertagEndBlock)
          w.triggerRecovertagStart c⟩ := by
  -- Projections are computed on variables: the tests against the sectors stay closed.
  have hwindows : ∀ (fs : LinuxFs) (w : LinuxWindows) (result : Except LinuxFault Cbw),
      (LinuxState.mk fs w, result).1.windows = w := fun _ _ _ => rfl
  by_cases hread : c.opcode = scsiRead10
  · exact (congrArg (fun r : LinuxState × Except LinuxFault Cbw => r.1.windows)
      (linuxAnalyseCbw_read ⟨fs, w⟩ hread)).trans
      ((hwindows _ _ _).trans (LinuxWindows.read_marks hread))
  · rcases linuxAnalyseCbw_windows ⟨fs, w⟩ hread with ⟨fs', result, heq⟩
    rw [heq, hwindows]
    simp [Latch.step, readsBlock, hread]

/-! ## Histories -/

theorem windowsAfter_concat (history : List (LinuxFs × Cbw)) (cmd : LinuxFs × Cbw) :
    windowsAfter (history ++ [cmd]) =
      (linuxAnalyseCbw ⟨cmd.1, windowsAfter history⟩ cmd.2).1.windows := by
  unfold windowsAfter
  rw [List.foldl_append]
  rfl

theorem windowsAfter_eq (history : List (LinuxFs × Cbw)) :
    windowsAfter history =
      ⟨Latch.after (readsBlock mfttagStartBlock) (readsBlock mfttagEndBlock)
          (history.map Prod.snd),
        Latch.after (readsBlock recovertagStartBlock) (readsBlock recovertagEndBlock)
          (history.map Prod.snd)⟩ := by
  induction history using List.reverseRecOn with
  | nil => rfl
  | append_singleton history cmd ih =>
      rw [windowsAfter_concat, windows_step, ih, List.map_append]
      simp only [List.map_cons, List.map_nil, Latch.after_concat]

/-- The last read among the two blocks is the one of `start`. -/
abbrev LastReadIs (start stop : Nat) (commands : List Cbw) : Prop :=
  Latch.LastSets (readsBlock start) (readsBlock stop) commands

/-- The tag of a read depends on the reads of the four blocks before it alone. -/
theorem linux_recovery_windows (history : List (LinuxFs × Cbw)) (fs : LinuxFs) (c : Cbw)
    (hread : c.opcode = scsiRead10) :
    ∃ c', (linuxAnalyseCbw ⟨fs, windowsAfter history⟩ c).2 = .ok c' ∧
      if isWindowMarker c.lba then c' = c
      else if LastReadIs mfttagStartBlock mfttagEndBlock (history.map Prod.snd) then
        c.CarriesTag ransomTagMft c'
      else if LastReadIs recovertagStartBlock recovertagEndBlock (history.map Prod.snd) then
        c.CarriesTag recoverTag c'
      else c' = c := by
  rw [linuxAnalyseCbw_read _ hread]
  refine ⟨_, rfl, ?_⟩
  rw [LinuxWindows.read_tags, windowsAfter_eq]
  simp only [Latch.after_iff]
  split_ifs
  · rfl
  · exact winAddTag_carriesTag (.inr (.inl rfl))
  · exact winAddTag_carriesTag (.inr (.inr rfl))
  · rfl

/-- The recovery window stays open under a window for metadata that was closed again:
byte 6 of the read is the tag, and the other bytes are as they were. -/
theorem linux_recovery_windows_nested : ∃ c',
    (linuxAnalyseCbw ⟨.initial, windowsAfter
      [(.initial, scriptRead recovertagStartBlock), (.initial, scriptRead mfttagStartBlock),
        (.initial, scriptRead mfttagEndBlock)]⟩ (scriptRead 5)).2 = .ok c' ∧
      c'.cb 6 = 0x10 ∧ ∀ k, k ≠ 6 → c'.cb k = (scriptRead 5).cb k := by
  obtain ⟨c', hresult, htag⟩ := linux_recovery_windows
    [(.initial, scriptRead recovertagStartBlock), (.initial, scriptRead mfttagStartBlock),
      (.initial, scriptRead mfttagEndBlock)] .initial (scriptRead 5) rfl
  rw [if_neg (by decide +kernel), if_neg (by decide +kernel), if_pos (by decide +kernel)] at htag
  exact ⟨c', hresult, htag.byte, htag.bytes⟩

end RansomTag

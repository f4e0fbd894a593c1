import RansomTag.Ftl.Format
import RansomTag.Ftl.LookupErrors

/-!
# The data layer over any invariant

Between its calls of the mapping table the data layer only changes its own
blocks, journals and statics.  An invariant that these steps and the calls of
the mapping table keep is kept by every call of the interface.
-/

namespace RansomTag

open Program

section

variable [Platform]

/-- A step of the data layer between its calls of the mapping table. -/
structure DataLayerStep (s s' : FtlState) : Prop extends SameNodes s s' where
  current : s'.rootTable.pmtCurrentBlock = s.rootTable.pmtCurrentBlock
  spare : s'.rootTable.pmtReclaimBlock = s.rootTable.pmtReclaimBlock
  dirty : ∀ b, b < dataStartBlock → s'.blockDirtyTable b = s.blockDirtyTable b
  ran : Ran (fun b => dataStartBlock ≤ b) s s'
  bdt : s'.bdt = s.bdt
  root : s'.root = s.root
  hdi : s'.hdi = s.hdi
  bdtWord : s'.rootTable.bdtCurrentJournal = s.rootTable.bdtCurrentJournal
  hdiWord : s'.rootTable.hdiCurrentJournal = s.rootTable.hdiCurrentJournal
  journal : ∀ isHot, dataStartBlock ≤ pmNodeBlock (s'.rootTable.journal isHot)
  reclaim : dataStartBlock ≤ pmNodeBlock s'.rootTable.reclaimJournal

/-- What the data layer needs of an invariant; `Addr` are the addresses for which
the mapping may be updated. -/
structure DataLayerInv (I : FtlState → Prop) (Addr : Nat → Prop) : Prop where
  journal : ∀ {s}, I s → ∀ isHot, dataStartBlock ≤ pmNodeBlock (s.rootTable.journal isHot)
  reclaim : ∀ {s}, I s → dataStartBlock ≤ pmNodeBlock s.rootTable.reclaimJournal
  step : ∀ {s s'}, I s → DataLayerStep s s' → I s'
  touched : ∀ {s}, I s → ∀ addr, I (s.touched addr)
  search : ∀ {s addr}, I s → wp (pmtSearch addr) (fun r t => I t ∧
    ∀ location, r.2 = some location → location.1 ≠ invalidBlock → Addr addr) (fun _ => True) s
  update : ∀ {s addr block page isBackup}, I s → Addr addr →
    (updateWord block page = invalidPmNode ∨
      dataStartBlock ≤ pmNodeBlock (updateWord block page)) →
    (block = invalidBlock ↔ page = invalidPage) →
    wp (pmtUpdate addr block page isBackup) (fun _ t => I t) (fun _ => True) s
  commit : ∀ {s}, I s → wp dataCommit (fun _ t => I t) (fun _ => True) s

section

variable {s : FtlState} {block page : Nat}

theorem wp_ubiWrite_keeps {data : Buffer} {spare : Spare} {Q : Status → FtlState → Prop}
    (hQ : block < ubiCapacity → Q .success (s.program block page data spare)) :
    wp (ubiWrite block page data spare) Q (fun _ => True) s := by
  by_cases hb : block < ubiCapacity
  · exact (wp_ubiWrite hb).mpr (hQ hb)
  · unfold ubiWrite
    rw [wp_bind, wp_assert, if_neg hb]
    trivial

theorem wp_ubiRead_lt {Q : ReadResult → FtlState → Prop} (hpage : page < 64)
    (hQ : block < ubiCapacity → ∀ r, Q r s) : wp (ubiRead block page) Q (fun _ => True) s := by
  by_cases hb : block < ubiCapacity
  · exact wp_ubiRead_any (hQ hb)
  · unfold ubiRead
    split
    · rw [wp_bind, wp_assert, if_neg hb]
      trivial
    · have hvalid : ¬(block = invalidBlock ∧ page = invalidPage) := by
        simp only [invalidPage]
        omega
      rw [wp_bind, wp_assert, if_neg hvalid]
      trivial

theorem wp_ubiReadStatus_keeps {Q : Status → FtlState → Prop} (hQ : Q .success s) :
    wp (ubiReadStatus block) Q (fun _ => True) s := by
  unfold ubiReadStatus
  rw [wp_bind, wp_assert]
  split
  · exact hQ
  · trivial

/-- The journal word after a page of a data block; past the last page it names
the next block. -/
theorem journalWord_ge (hb : dataStartBlock ≤ block) (hb' : block < ubiCapacity) (hp : page ≤ 64) :
    dataStartBlock ≤ pmNodeBlock (pmNodeSetBlockPage block page) := by
  have hcap := Platform.ubiCapacity_le
  unfold pmNodeBlock pmNodeSetBlockPage
  simp only [dataStartBlock] at hb ⊢
  omega

theorem updateWord_ge (hb : dataStartBlock ≤ block) (hb' : block < ubiCapacity) (hp : page ≤ 64) :
    updateWord block page = invalidPmNode ∨
      dataStartBlock ≤ pmNodeBlock (updateWord block page) := by
  have hcap := Platform.ubiCapacity_le
  have hne : block ≠ invalidBlock := by
    simp only [invalidBlock]
    omega
  unfold updateWord
  rw [if_pos hne]
  exact .inr (journalWord_ge hb hb' hp)

theorem validPlace (hb' : block < ubiCapacity) (hp : page ≤ 64) :
    block = invalidBlock ↔ page = invalidPage := by
  have hcap := Platform.ubiCapacity_le
  simp only [invalidBlock, invalidPage]
  omega

theorem dataVictim_range {v : Nat} (h : dataVictim s isHot = some v) :
    dataStartBlock ≤ v ∧ v < ubiCapacity :=
  mem_dataBlocks.mp (dataVictimFrom_some h).1

end

namespace DataLayerInv

variable {I : FtlState → Prop} {Addr : Nat → Prop} {s : FtlState} {addr block page k n : Nat}
  {flag mft isHot : Bool} (D : DataLayerInv I Addr)

include D

/-- The root table stays as it is. -/
theorem sameRoot {s' : FtlState} (h : I s) (hroot : s'.rootTable = s.rootTable)
    (hpmt : s'.pmt = s.pmt)
    (hdirty : ∀ b, b < dataStartBlock → s'.blockDirtyTable b = s.blockDirtyTable b)
    (hran : Ran (fun b => dataStartBlock ≤ b) s s')
    (htables : s'.bdt = s.bdt ∧ s'.root = s.root ∧ s'.hdi = s.hdi) : I s' := by
  obtain ⟨hbdt, hcursor, hhdi⟩ := htables
  have hjournal := D.journal h
  have hreclaim := D.reclaim h
  rw [← hroot] at hjournal hreclaim
  refine D.step h ⟨⟨?_, hpmt⟩, ?_, ?_, hdirty, hran, hbdt, hcursor, hhdi, ?_, ?_, hjournal, hreclaim⟩
  all_goals rw [hroot]

theorem program {data : Buffer} {spare : Spare} (h : I s) (hb : dataStartBlock ≤ block) :
    I (s.program block page data spare) :=
  D.sameRoot h rfl rfl (fun _ _ => rfl) (.program hb) ⟨rfl, rfl, rfl⟩

theorem erase (h : I s) (hb : dataStartBlock ≤ block) : I (s.erase block) :=
  D.sameRoot h rfl rfl (fun _ _ => rfl) (.erase hb) ⟨rfl, rfl, rfl⟩

/-- Only the statics of the data layer change. -/
theorem withData (h : I s) (d : DataRam) : I { s with data := d } :=
  D.sameRoot h rfl rfl (fun _ _ => rfl) (.of_eq rfl rfl) ⟨rfl, rfl, rfl⟩

theorem withUnset (h : I s) (unset : Nat → Nat) : I { s with unset := unset } :=
  D.sameRoot h rfl rfl (fun _ _ => rfl) (.of_eq rfl rfl) ⟨rfl, rfl, rfl⟩

theorem withApi (h : I s) (api : ApiRam) : I { s with api := api } :=
  D.sameRoot h rfl rfl (fun _ _ => rfl) (.of_eq rfl rfl) ⟨rfl, rfl, rfl⟩

theorem withDirty (h : I s) {table : Ram Nat}
    (hsame : ∀ b, b < dataStartBlock → table b = s.blockDirtyTable b) :
    I { s with blockDirtyTable := table } :=
  D.sameRoot h rfl rfl hsame (.of_eq rfl rfl) ⟨rfl, rfl, rfl⟩

theorem withReclaim {w : Nat} (h : I s) (hw : dataStartBlock ≤ pmNodeBlock w) :
    I { s with rootTable := { s.rootTable with reclaimJournal := w } } := by
  have hjournal := D.journal h
  exact D.step h ⟨⟨rfl, rfl⟩, rfl, rfl, fun _ _ => rfl, .of_eq rfl rfl, rfl, rfl, rfl, rfl, rfl,
    hjournal, hw⟩

theorem withJournal {w : Nat} (h : I s) (isHot : Bool) (hw : dataStartBlock ≤ pmNodeBlock w) :
    I { s with rootTable := s.rootTable.setJournal isHot w } := by
  have hhot := D.journal h true
  have hcold := D.journal h false
  have hreclaim := D.reclaim h
  cases isHot
  all_goals
    refine D.step h ⟨⟨rfl, rfl⟩, rfl, rfl, fun _ _ => rfl, .of_eq rfl rfl, rfl, rfl, rfl, rfl, rfl,
      fun isHot' => ?_, hreclaim⟩
    cases isHot' <;> assumption

/-! ## Calls of the data layer -/

theorem foundLocation_keeps {found : Option (Nat × Nat)} (h : I s) :
    wp (foundLocation found) (fun _ t => I t) (fun _ => True) s := by
  cases found with
  | some location => exact h
  | none =>
      unfold foundLocation
      simp only [wp_bind, wp_unsetLocal, wp_pure]
      exact D.withUnset (D.withUnset h _) _

theorem dataOldVersion_keeps (h : I s) :
    wp (dataOldVersion addr flag mft) (fun _ t => I t) (fun _ => True) s := by
  by_cases htag : flag ∨ mft
  · rw [dataOldVersion_eq addr htag, wp_bind]
    refine wp_mono_post (D.search h) ?_
    rintro ⟨ret, found⟩ t ⟨ht, -⟩
    unfold dataOldVersionFound
    rw [wp_bind]
    refine wp_mono_post (D.foundLocation_keeps ht) fun place u hu => ?_
    by_cases hplace : place.1 ≠ invalidBlock ∧ place.2 ≠ invalidPage
    · rw [if_pos hplace, wp_bind]
      refine wp_ubiRead_any fun r => ?_
      cases r.spare with
      | none => exact hu
      | some spare =>
          simp only [wp_ite, wp_pure, ite_self]
          exact hu
    · rw [if_neg hplace, wp_bind, wp_unsetLocal]
      exact D.withUnset hu _
  · unfold dataOldVersion
    rw [if_neg htag]
    exact h

theorem dataWriteVersion_keeps {buffer : Option Buffer} {version : Bool × Nat × Status}
    (h : I s) (haddr : Addr addr) :
    wp (dataWriteVersion addr buffer isHot mft version) (fun _ t => I t) (fun _ => True)
      s := by
  have hge := D.journal h isHot
  have hpage : pmNodePage (s.rootTable.journal isHot) < 64 := Nat.mod_lt _ (by decide)
  unfold dataWriteVersion
  rw [wp_bind, wp_get]
  by_cases hroom : pmNodePage (s.rootTable.journal isHot) < pagePerPhyBlock - 1
  case' pos =>
    simp only [if_pos hroom]
    rw [wp_bind]
    refine wp_ubiReadStatus_keeps ?_
    rw [wp_bind, wp_assert, if_pos rfl]
  case' neg =>
    simp only [if_neg hroom]
    rw [wp_bind, wp_pure, wp_bind, wp_assert]
    by_cases hret : version.2.2 = .success
    swap
    · rw [if_neg hret]
      trivial
    rw [if_pos hret]
  -- with or without room, the page goes where the journal points
  all_goals
    cases buffer with
    | none => exact D.update h haddr (.inl rfl) (by decide)
    | some buffer =>
        simp only []
        rw [wp_bind, wp_get, wp_bind, wp_modify, wp_bind]
        refine wp_ubiWrite_keeps fun hb => ?_
        rw [if_pos rfl, wp_bind]
        refine wp_mono_post (D.update (D.program (D.withData h _) hge) haddr
          (updateWord_ge hge hb (by omega)) (validPlace hb (by omega))) ?_
        rintro ret t ht
        by_cases hret : ret = .success
        · have hjournal := D.withJournal ht isHot (journalWord_ge hge hb hpage)
          rw [if_pos hret, wp_bind, wp_modify, wp_bind, wp_get]
          split
          · exact wp_ubiWrite_keeps fun _ => D.program hjournal hge
          · exact hjournal
        · rw [if_neg hret, wp_bind, wp_get]
          split
          · exact wp_ubiWrite_keeps fun _ => D.program ht hge
          · exact ht

theorem dataWrite_keeps {buffer : Option Buffer} (h : I s) (haddr : Addr addr) :
    wp (dataWrite addr buffer isHot flag mft) (fun _ t => I t) (fun _ => True) s := by
  rw [dataWrite_eq, wp_bind]
  exact wp_mono_post (D.dataOldVersion_keeps h) fun _ _ ht => D.dataWriteVersion_keeps ht haddr

variable {dirtyBlock reclaimBlock : Nat} {pagesBuffer : Buffer} {ret : Status}

theorem dataReclaimPage_keeps (h : I s) (hdirty : dirtyBlock < ubiCapacity)
    (hge : dataStartBlock ≤ reclaimBlock) (hk : k ≤ 63) :
    wp (dataReclaimPage isHot dirtyBlock reclaimBlock pagesBuffer page ret k)
      (fun r t => I t ∧ r.2 ≤ k + 1) (fun _ => True) s := by
  have hcap := Platform.ubiCapacity_le
  unfold dataReclaimPage
  by_cases hret : ret = .success
  swap
  · rw [if_neg hret]
    exact ⟨h, Nat.le_succ k⟩
  rw [if_pos hret, wp_bind]
  refine wp_mono_post (D.search h) ?_
  rintro ⟨ret', found⟩ t ⟨ht, hfound⟩
  dsimp only
  by_cases hvalid : ret' = .success ∧ found = some (dirtyBlock, page)
  swap
  · rw [if_neg hvalid]
    exact ⟨ht, Nat.le_succ k⟩
  have haddr : Addr (pagesBuffer.spareAddr page) := by
    refine hfound _ hvalid.2 ?_
    simp only [invalidBlock]
    omega
  rw [if_pos hvalid, wp_bind]
  refine wp_ubiRead_any fun r => ?_
  by_cases hread : r.status = .success
  swap
  · simp only [hread, if_false, wp_bind, wp_pure]
    exact ⟨ht, Nat.le_succ k⟩
  simp only [hread, if_true, wp_bind]
  refine wp_ubiWrite_keeps fun hb => ?_
  simp only [if_true, wp_bind]
  refine wp_mono_post (D.update (D.program ht hge) haddr (updateWord_ge hge hb (by omega))
    (validPlace hb (by omega))) ?_
  rintro ret'' u hu
  rw [wp_assert]
  split
  swap
  · trivial
  have hnoted := D.withData hu
    (u.data.noteMeta isHot k (r.spare.getD default).w0 k)
  by_cases hdone : ret'' = .success
  · simp only [hdone, wp_modify, wp_pure, if_true, wp_bind]
    exact ⟨D.withReclaim hnoted (journalWord_ge hge hb (by omega)), le_rfl⟩
  · simp only [hdone, wp_modify, wp_pure, if_false]
    exact ⟨hnoted, Nat.le_succ k⟩

theorem dataReclaimPages_keeps {pages : List Nat} (h : I s)
    (hdirty : dirtyBlock < ubiCapacity) (hge : dataStartBlock ≤ reclaimBlock)
    (hk : k + pages.length ≤ 63) :
    wp (dataReclaimPages isHot dirtyBlock reclaimBlock pagesBuffer pages ret k)
      (fun _ t => I t) (fun _ => True) s := by
  induction pages generalizing s ret k with
  | nil => exact h
  | cons page pages ih =>
      simp only [List.length_cons] at hk
      unfold dataReclaimPages
      rw [wp_bind]
      refine wp_mono_post (D.dataReclaimPage_keeps h hdirty hge (by omega)) ?_
      rintro ⟨ret', k'⟩ t ⟨ht, hk'⟩
      simp only at hk'
      exact ih ht (by omega)

theorem dataReclaim_keeps (h : I s) :
    wp (dataReclaim isHot) (fun _ t => I t) (fun _ => True) s := by
  unfold dataReclaim
  rw [wp_bind, wp_ubiFlush, wp_bind, wp_get]
  cases hvictim : dataVictim s isHot with
  | none => trivial
  | some v =>
      obtain ⟨hge, hlt⟩ := dataVictim_range hvictim
      have hempty : dataStartBlock ≤ pmNodeBlock (pmNodeSetBlockPage v 0) :=
        journalWord_ge hge hlt (by decide)
      simp only []
      by_cases hsome : maxDirtyPages - s.blockDirtyTable v ≠ 0
      · simp only [if_pos hsome]
        rw [wp_bind]
        refine wp_ubiRead_any fun r => ?_
        by_cases hread : r.status = .success
        · simp only [hread, if_true, wp_bind]
          refine wp_mono_post (D.dataReclaimPages_keeps h hlt (D.reclaim h) (by simp)) ?_
          rintro ⟨ret, k⟩ t ht
          rw [wp_assert]
          split
          swap
          · trivial
          by_cases hret : ret = .success
          · have herased := D.erase ht hge
            have hreclaim := D.reclaim herased
            have hnext := D.withReclaim (D.withJournal herased isHot hreclaim) hempty
            simp only [hret, if_true, wp_bind, wp_ubiErase, wp_modify, wp_pure]
            refine D.withData (D.withDirty hnext fun b hb => ?_) _
            exact (Ram.set_other _ _ (by omega)).trans (Ram.set_other _ _ (by omega))
          · simp only [hret, if_false, wp_bind, wp_pure]
            exact ht
        · -- nothing was copied, and the count of valid pages is not zero
          simp only [hread, if_false, wp_bind, wp_pure]
          rw [wp_assert, if_neg hsome]
          trivial
      · simp only [if_neg hsome]
        rw [wp_bind, wp_ubiErase]
        simp only [if_true, wp_bind, wp_modify, wp_pure]
        exact D.withData (D.withDirty (D.withJournal (D.erase h hge) isHot hempty) fun b hb =>
          Ram.set_other _ _ (by omega)) _

/-! ## Replay -/

theorem dataReplayLoop_keeps {fuel edition : Nat} (h : I s) (hall : ∀ a, Addr a) :
    wp (dataReplayLoop isHot fuel edition) (fun _ t => I t) (fun _ => True) s := by
  induction fuel generalizing s edition with
  | zero => trivial
  | succ fuel ih =>
      have hge := D.journal h isHot
      have hpage : pmNodePage (s.rootTable.journal isHot) < 64 := Nat.mod_lt _ (by decide)
      unfold dataReplayLoop
      split
      · exact h
      rw [wp_bind, wp_get, wp_bind]
      refine wp_ubiRead_lt hpage fun hb r => ?_
      by_cases hread : r.status = .success
      · by_cases hnext : (r.spare.getD default).w1 = edition
        swap
        · simp only [hread, ne_eq, hnext, not_false_eq_true, and_self, if_true]
          exact ih h
        · simp only [hread, ne_eq, hnext, not_true_eq_false, and_false, if_false, if_true, wp_bind]
          refine wp_mono_post (D.update h (hall _) (updateWord_ge hge hb (by omega))
            (validPlace hb (by omega))) fun ret t ht => ?_
          split
          · rw [wp_bind, wp_modify]
            exact ih (D.withJournal ht isHot (journalWord_ge hge hb (by omega)))
          · rw [wp_bind, wp_modify]
            exact ih (D.withData ht _)
      · simp only [hread, false_and, if_false, wp_bind, wp_pure, wp_modify]
        exact ih (D.withData h _)

theorem dataReplayMeta_keeps (h : I s) (hge : dataStartBlock ≤ block) :
    wp (dataReplayMeta isHot block n page) (fun _ t => I t) (fun _ => True) s := by
  induction n generalizing s page with
  | zero => exact h
  | succ n ih =>
      unfold dataReplayMeta
      rw [wp_bind]
      refine wp_ubiRead_any fun r => ?_
      cases r.spare with
      | some spare =>
          simp only []
          rw [wp_bind, wp_modify]
          exact ih (D.withData h _)
      | none =>
          simp only []
          split
          · rw [wp_bind, wp_get]
            exact wp_ubiWrite_keeps fun _ => D.program h hge
          · exact h

theorem dataReplay_keeps {fuel : Nat} (h : I s) (hall : ∀ a, Addr a) :
    wp (dataReplay fuel isHot) (fun _ t => I t) (fun _ => True) s := by
  unfold dataReplay
  rw [wp_bind]
  refine wp_mono_post (D.dataReplayLoop_keeps h hall) fun _ t ht => ?_
  rw [wp_bind, wp_get]
  exact D.dataReplayMeta_keeps ht (D.journal ht isHot)

theorem ftlInitReclaim_keeps (h : I s) :
    wp (ftlInitReclaim isHot) (fun _ t => I t) (fun _ => True) s := by
  unfold ftlInitReclaim
  rw [wp_bind, wp_get]
  split
  · rw [wp_bind]
    refine wp_mono_post (D.dataReclaim_keeps h) fun ret t ht => ?_
    split
    · exact D.commit ht
    · exact ht
  · exact h

/-! ## Calls of the interface -/

variable {buffer : Option Buffer}

theorem ftlWriteStream_keeps (h : I s) (haddr : Addr addr) :
    wp (ftlWriteStream addr buffer isHot flag mft) (fun _ t => I t) (fun _ => True) s := by
  unfold ftlWriteStream
  rw [wp_bind]
  refine wp_mono_post (D.dataWrite_keeps h haddr) fun ret t ht => ?_
  by_cases hret : ret = .success
  · rw [if_pos hret, wp_bind, wp_get]
    split
    · rw [wp_bind]
      refine wp_mono_post (D.dataReclaim_keeps ht) fun ret' u hu => ?_
      split
      · exact D.commit hu
      · exact hu
    · exact ht
  · rw [if_neg hret]
    exact ht

theorem ftlWrite_keeps (h : I s) (haddr : Addr addr) :
    wp (ftlWrite addr buffer flag mft) (fun _ t => I t) (fun _ => True) s := by
  unfold ftlWrite
  rw [wp_bind, wp_hdiIsHotPage]
  exact D.ftlWriteStream_keeps (D.touched h addr) haddr

theorem ftlTrimFrom_keeps (h : I s) (haddr : ∀ a, addr ≤ a → a < addr + n → Addr a) :
    wp (ftlTrimFrom n addr) (fun _ t => I t) (fun _ => True) s := by
  induction n generalizing s addr with
  | zero => exact h
  | succ n ih =>
      unfold ftlTrimFrom
      rw [wp_bind]
      refine wp_mono_post (D.ftlWrite_keeps h (haddr addr le_rfl (by omega))) fun ret t ht => ?_
      split
      · exact ih ht fun a hle hlt => haddr a (by omega) (by omega)
      · exact ht

theorem ftlFlush_keeps (h : I s) :
    wp ftlFlush (fun _ t => I t) (fun _ => True) s := by
  unfold ftlFlush
  rw [wp_bind]
  refine wp_mono_post (D.commit h) fun ret t ht => ?_
  split
  · exact ht
  · exact ht

theorem spareAfter_keeps {r : ReadResult} (h : I s) :
    wp (spareAfter r) (fun _ t => I t) (fun _ => True) s := by
  unfold spareAfter
  cases r.spare with
  | none => exact D.withUnset h _
  | some spare => exact h

theorem ftlReadMft_keeps {block page : Nat} (h : I s) :
    wp (ftlReadMft addr block page) (fun _ t => I t) (fun _ => True) s := by
  unfold ftlReadMft
  rw [wp_bind, wp_get]
  split
  · rw [wp_bind]
    exact wp_ubiRead_any fun _ => h
  · have hmoved := D.withApi h { s.api with lastAddr := addr }
    rw [wp_bind, wp_modify]
    split
    · rw [wp_bind, wp_modify, wp_bind]
      refine wp_ubiRead_any fun r => ?_
      rw [wp_bind]
      refine wp_mono_post (D.spareAfter_keeps (D.withApi hmoved _)) fun link t ht => ?_
      rw [wp_bind, wp_modify]
      exact D.withApi ht _
    · rw [wp_bind]
      refine wp_ubiRead_any fun r => ?_
      rw [wp_bind]
      refine wp_mono_post (D.spareAfter_keeps hmoved) fun link t ht => ?_
      split
      · rw [wp_bind, wp_modify]
        exact D.withApi ht _
      · exact ht

theorem ftlReadBackup_keeps {block page : Nat} {ret : Status} (h : I s) :
    wp (ftlReadBackup block page ret) (fun _ t => I t) (fun _ => True) s := by
  have hlast : ∀ (place : Nat × Nat × Status) t, I t → wp (do
      if place.2.2 = .success then
        let r ← ubiRead place.1 place.2.1
        pure (r.status, r.data)
      else pure (place.2.2, none) : Ftl (Status × Option Buffer)) (fun _ t => I t)
      (fun _ => True) t := by
    intro place t ht
    split
    · rw [wp_bind]
      exact wp_ubiRead_any fun _ => ht
    · exact ht
  unfold ftlReadBackup
  by_cases hplace : block ≠ invalidBlock ∧ page ≠ invalidPage
  · simp only [if_pos hplace]
    rw [wp_bind]
    refine wp_ubiRead_any fun r => ?_
    rw [wp_bind]
    refine wp_mono_post (D.spareAfter_keeps h) fun link t ht => ?_
    by_cases hlink : link ≠ invalidPmNode
    · simp only [if_pos hlink]
      exact hlast (pmNodeBlock link, pmNodePage link, r.status) t ht
    · simp only [if_neg hlink]
      exact hlast (block, page, r.status) t ht
  · simp only [if_neg hplace]
    exact hlast (block, page, ret) s h

theorem ftlRead_keeps (h : I s) :
    wp (ftlRead addr flag mft) (fun _ t => I t) (fun _ => True) s := by
  rw [ftlRead_eq, wp_bind]
  refine wp_mono_post (D.search h) ?_
  rintro ⟨ret, found⟩ t ⟨ht, -⟩
  unfold ftlReadFound
  rw [wp_bind]
  refine wp_mono_post (D.foundLocation_keeps ht) fun place u hu => ?_
  split
  · rw [wp_bind]
    exact wp_ubiRead_any fun _ => hu
  · split
    · exact D.ftlReadMft_keeps hu
    · exact D.ftlReadBackup_keeps hu

end DataLayerInv

end

end RansomTag

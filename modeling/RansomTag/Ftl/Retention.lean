import RansomTag.Ftl.ReadResults
import RansomTag.Ftl.Store

/-!
# Retention of tagged overwrites

The version that a series of tagged writes began with stays readable.  The link
in the spare area of the current page names it, however often the current page
is rewritten or copied, and the flag of its block keeps the block from ever
being reclaimed.
-/

namespace RansomTag

open Program

/-! ## Versions of the pages -/

/-- The content of a page and, if it was written with a tag, the version that its
tagged writes retain. -/
structure PageVersion where
  current : Buffer
  retained : Option Buffer

/-- The version after a write: the first tagged write retains what it
overwrites, or itself on a page without a version, and the next ones retain the
same. -/
def PageVersion.next (old : Option PageVersion) (flag : Bool) (buffer : Buffer) :
    PageVersion where
  current := buffer
  retained :=
    if flag then
      match old with
      | none => some buffer
      | some version => some (version.retained.getD version.current)
    else none

abbrev VersionStore := Nat → Option PageVersion

/-- What a call means for the versions. -/
def StoreCall.versions : StoreCall → VersionStore → VersionStore
  | .write addr buffer flag _, store =>
      Function.update store addr (buffer.map (PageVersion.next (store addr) flag))
  | .trim start last, store => fun a => if start ≤ a ∧ a ≤ last then none else store a
  | .flush, store => store
  | .read _ _ _, store => store

/-- A write without the MFT tag, or another call. -/
def StoreCall.NoMft : StoreCall → Prop
  | .write _ _ _ mft => mft = false
  | _ => True

/-- The versions after a series of tagged writes. -/
def PageVersion.afterTagged (version : Option PageVersion) (series : List Buffer) :
    Option PageVersion :=
  series.foldl (fun version buffer => some (.next version true buffer)) version

/-- A series of tagged writes retains the untagged version that it began with. -/
theorem PageVersion.afterTagged_untagged (content : Buffer) {series : List Buffer}
    (hseries : series ≠ []) : ∃ current,
      afterTagged (some ⟨content, none⟩) series = some ⟨current, some content⟩ := by
  induction series using List.reverseRecOn with
  | nil => exact absurd rfl hseries
  | append_singleton series buffer ih =>
      unfold afterTagged at ih ⊢
      rw [List.foldl_append]
      by_cases hnil : series = []
      · rw [hnil]
        exact ⟨buffer, rfl⟩
      · obtain ⟨current, hcurrent⟩ := ih hnil
        rw [hcurrent]
        exact ⟨buffer, rfl⟩

/-- On a page without a version it retains its own first content. -/
theorem PageVersion.afterTagged_unmapped (first : Buffer) (series : List Buffer) : ∃ current,
    afterTagged none (first :: series) = some ⟨current, some first⟩ := by
  induction series using List.reverseRecOn with
  | nil => exact ⟨first, rfl⟩
  | append_singleton series buffer ih =>
      obtain ⟨current, hcurrent⟩ := ih
      unfold afterTagged at hcurrent ⊢
      rw [← List.cons_append, List.foldl_append, hcurrent]
      exact ⟨buffer, rfl⟩

section

variable [Platform]

/-! ## Flagged blocks -/

/-- Flagged blocks stay flagged, with all their pages. -/
def KeepsFlagged (v v' : DataView) : Prop :=
  ∀ b, dataStartBlock ≤ b → b < ubiCapacity → backupFlag ≤ v.dirty b → backupFlag ≤ v'.dirty b ∧
    ∀ p data spare, v.page b p = .programmed data spare → v'.page b p = .programmed data spare

/-- Page `p` of the flagged block `b` holds `content`. -/
structure DataView.Holds (v : DataView) (b p : Nat) (content : Buffer) : Prop where
  range : dataStartBlock ≤ b ∧ b < ubiCapacity
  flagged : backupFlag ≤ v.dirty b
  page : ∃ spare, v.page b p = .programmed content spare

/-- A tagged page retains `content`: itself, or the page that it links to. -/
def DataView.Retains (v : DataView) (data : Buffer) (link : Nat) (content : Buffer) : Prop :=
  link = invalidPmNode ∧ content = data ∨ v.Holds (pmNodeBlock link) (pmNodePage link) content

variable {v v' v'' : DataView} {isHot flag mft isBackup : Bool} {a b p link old addr : Nat}
  {data content buffer : Buffer} {spare : Spare}

theorem KeepsFlagged.refl : KeepsFlagged v v := fun _ _ _ hflag => ⟨hflag, fun _ _ _ hp => hp⟩

theorem KeepsFlagged.trans (h : KeepsFlagged v v') (h' : KeepsFlagged v' v'') :
    KeepsFlagged v v'' := by
  intro b hb hb' hflag
  obtain ⟨hflag', hpages⟩ := h b hb hb' hflag
  obtain ⟨hflag'', hpages'⟩ := h' b hb hb' hflag'
  exact ⟨hflag'', fun p data spare hp => hpages' p data spare (hpages p data spare hp)⟩

theorem DataView.Holds.keep (h : v.Holds b p content) (hkeep : KeepsFlagged v v') :
    v'.Holds b p content := by
  obtain ⟨hflag, hpages⟩ := hkeep b h.range.1 h.range.2 h.flagged
  obtain ⟨spare, hpage⟩ := h.page
  exact ⟨h.range, hflag, spare, hpages p content spare hpage⟩

theorem DataView.Retains.keep (h : v.Retains data link content) (hkeep : KeepsFlagged v v') :
    v'.Retains data link content := by
  rcases h with hself | hholds
  · exact .inl hself
  · exact .inr (hholds.keep hkeep)

/-- An update of the mapping never clears a flag, and sets that of the block of
the old page if this is to be retained. -/
theorem DataCore.update_flag {opened : Nat → Option Nat} (h : DataCore v opened)
    (hb : dataStartBlock ≤ b) (hb' : b < ubiCapacity) {w : Nat}
    (hflag : backupFlag ≤ v.dirty b ∨
      isBackup = true ∧ v.mapping a ≠ invalidPmNode ∧ b = pmNodeBlock (v.mapping a)) :
    backupFlag ≤ (v.update a w isBackup).dirty b := by
  have hlt := h.dirty_lt hb hb'
  have hdirty : (v.update a w isBackup).dirty b =
      if v.mapping a ≠ invalidPmNode ∧ b = pmNodeBlock (v.mapping a) then
        staleCount (v.dirty b) isBackup
      else v.dirty b := rfl
  rw [hdirty]
  by_cases hold : v.mapping a ≠ invalidPmNode ∧ b = pmNodeBlock (v.mapping a)
  · rw [if_pos hold]
    simp only [backupFlag] at hflag ⊢
    cases isBackup with
    | true =>
        rw [staleCount_true (by omega)]
        split <;> omega
    | false =>
        rw [staleCount_false (by omega)]
        rcases hflag with hflag | ⟨hno, _⟩
        · omega
        · exact nomatch hno
  · rw [if_neg hold]
    rcases hflag with hflag | ⟨_, hmapped⟩
    · exact hflag
    · exact absurd hmapped hold

omit [Platform] in
theorem DataView.dirty_wroteFull : (v.wroteFull isHot data spare isBackup).dirty =
    (v.update spare.w0 0 isBackup).dirty := by
  unfold DataView.wroteFull
  split <;> cases isHot <;> rfl

/-- A write to a journal takes no programmed page away. -/
theorem DataInv.page_wroteFull (h : DataInv v none) (hq : v.journalPage isHot < 63)
    {data' : Buffer} {spare' : Spare} (hp : v.page b p = .programmed data' spare') :
    (v.wroteFull isHot data spare isBackup).page b p = .programmed data' spare' := by
  have hopen := h.opened_journal isHot (by simp)
  have hnext : ¬ (b = v.journalBlock isHot ∧ p = v.journalPage isHot) := by
    rintro ⟨rfl, rfl⟩
    rw [h.core.free _ _ hopen _ le_rfl (by omega)] at hp
    exact nomatch hp
  have hlast : ¬ (b = v.journalBlock isHot ∧ p = 63) := by
    rintro ⟨rfl, rfl⟩
    rw [h.core.free _ _ hopen 63 (by omega) (by decide)] at hp
    exact nomatch hp
  have hwrote : (v.wrote isHot data spare isBackup).page b p = v.page b p := by
    cases isHot <;> exact if_neg hnext
  unfold DataView.wroteFull
  split
  · have hcap := Platform.ubiCapacity_le
    obtain ⟨hb, hb'⟩ := h.range isHot
    have hblock : (v.wrote isHot data spare isBackup).journalBlock isHot = v.journalBlock isHot := by
      cases isHot <;> exact pmNodeBlock_set (by omega) (by omega)
    unfold DataView.closed
    rw [hblock]
    exact (if_neg hlast).trans (hwrote.trans hp)
  · exact hwrote.trans hp

theorem DataInv.keepsFlagged_wroteFull (h : DataInv v none) (hq : v.journalPage isHot < 63) :
    KeepsFlagged v (v.wroteFull isHot data spare isBackup) := by
  intro b hb hb' hflag
  refine ⟨?_, fun p data' spare' hp => h.page_wroteFull hq hp⟩
  rw [DataView.dirty_wroteFull]
  exact h.core.update_flag hb hb' (.inl hflag)

theorem DataCore.keepsFlagged_trimmed {opened : Nat → Option Nat} (h : DataCore v opened) :
    KeepsFlagged v (v.update a invalidPmNode isBackup) :=
  fun _ hb hb' hflag => ⟨h.update_flag hb hb' (.inl hflag), fun _ _ _ hp => hp⟩

/-- Only blocks without a flag are reclaimed. -/
theorem DataReclaimed.keepsFlagged {db rb : Nat} (h : DataReclaimed v v' isHot db rb)
    (hclean : v.dirty rb = 0) : KeepsFlagged v v' := by
  have hvictim := h.victim
  intro b _ _ hflag
  have hdb : b ≠ db := by
    rintro rfl
    simp only [backupFlag] at hflag
    omega
  have hrb : b ≠ rb := by
    rintro rfl
    rw [hclean] at hflag
    exact absurd hflag (by decide)
  rw [h.dirty b hdb]
  refine ⟨hflag, fun p data spare hp => ?_⟩
  rw [h.page b p hdb hrb, hp]

/-! ## Writes -/

theorem StreamWritten.keepsFlagged {s s' : FtlState}
    (h : StreamWritten s s' isHot addr buffer link isBackup) (hs : FtlInv s)
    (haddr : addr < ftlCapacity) (hq : s.view.journalPage isHot < 63) :
    ∃ spare : Spare, spare.w0 = addr ∧
      KeepsFlagged (s.view.wroteFull isHot buffer spare isBackup) s'.view := by
  obtain ⟨t, hwrite, hrest⟩ := h.steps
  obtain ⟨spare, hw, _, hview⟩ := hwrite.view
  have hinv := hwrite.inv hs.data haddr hq
  refine ⟨spare, hw, ?_⟩
  rw [← hview]
  split at hrest
  · obtain ⟨u, hreclaim, hcommit⟩ := hrest
    obtain ⟨db, hmoved, _⟩ := hreclaim.moved
    rw [hcommit.view hreclaim.ok.tables hreclaim.ok.pmt]
    exact hmoved.keepsFlagged hinv.reclaim_clean
  · rw [hrest]
    exact .refl

/-- What the link of a tagged write retains: the version that the page had. -/
theorem StreamWritten.retains {s s' : FtlState}
    (h : StreamWritten s s' isHot addr buffer (newLink isBackup false old)
      (newBackup isBackup false old)) (hs : FtlInv s) (haddr : addr < ftlCapacity)
    (hq : s.view.journalPage isHot < 63) (hold : s.view.OldVersion addr true false isBackup old)
    (hentry : s.view.entry addr = some (data, link)) (hretains : s.view.Retains data link content) :
    s'.view.Retains buffer (newLink isBackup false old) content := by
  have hcap := Platform.ubiCapacity_le
  have hmapped : s.view.mapping addr ≠ invalidPmNode := by
    intro hno
    rw [(DataView.entry_eq_none hs.data.core haddr).mpr hno] at hentry
    exact nomatch hentry
  obtain ⟨_, hb, hb', _, data', spare', hprog, _⟩ := hs.data.core.mapped_word haddr hmapped
  obtain ⟨rfl, rfl⟩ : data' = data ∧ spare'.w2 = link := by
    unfold DataView.entry at hentry
    rw [if_neg hmapped, hprog] at hentry
    simpa using hentry
  unfold DataView.OldVersion at hold
  rw [if_neg hmapped] at hold
  obtain ⟨rfl, hlink⟩ := hold
  have hold : old = if spare'.w2 ≠ invalidPmNode then spare'.w2 else s.view.mapping addr := by
    rw [hlink (.inl rfl)]
    unfold DataView.oldLink
    rw [hprog]
    simp
  -- the block of the version is a data block, so the write keeps the link
  have hkept : pmNodeBlock old < ubiCapacity → s'.view.Holds (pmNodeBlock old) (pmNodePage old)
      content → s'.view.Retains buffer (newLink true false old) content := by
    intro hlt hholds
    unfold newLink
    rw [if_pos (.inl rfl), if_neg (by omega)]
    exact .inr hholds
  obtain ⟨spare, hw, hkeep⟩ := h.keepsFlagged hs haddr hq
  by_cases hself : spare'.w2 = invalidPmNode
  · -- the first tagged write after an untagged one, or the second one on the page
    rw [if_neg (by simp [hself])] at hold
    have hcontent : content = data' := by
      rcases hretains with ⟨_, hcontent⟩ | hholds
      · exact hcontent
      · have hrange := hholds.range.2
        rw [hself, pmNodeBlock_invalid] at hrange
        omega
    have hbackup : newBackup true false old = true := by
      unfold newBackup
      rw [hold, if_neg (by omega)]
    apply hkept
    · rw [hold]
      exact hb'
    · rw [hbackup] at hkeep
      rw [hold, hcontent]
      refine DataView.Holds.keep ⟨⟨hb, hb'⟩, ?_, spare', hs.data.page_wroteFull hq hprog⟩ hkeep
      rw [DataView.dirty_wroteFull, hw]
      exact hs.data.core.update_flag hb hb' (.inr ⟨rfl, hmapped, rfl⟩)
  · rw [if_pos hself] at hold
    have hholds : s.view.Holds (pmNodeBlock old) (pmNodePage old) content := by
      rw [hold]
      rcases hretains with ⟨hno, _⟩ | hholds
      · exact absurd hno hself
      · exact hholds
    exact hkept hholds.range.2 ((hholds.keep (hs.data.keepsFlagged_wroteFull hq)).keep hkeep)

/-! ## Runs -/

/-- The pages hold their versions, and a page that was written without a tag
links to none. -/
structure KeepsVersions (s : FtlState) (store : VersionStore) : Prop where
  inv : FtlInv s
  unmapped : ∀ a, a < ftlCapacity → store a = none → s.view.mapping a = invalidPmNode
  current : ∀ a version, a < ftlCapacity → store a = some version →
    ∃ link, s.view.entry a = some (version.current, link) ∧
      (version.retained = none → link = invalidPmNode) ∧
      ∀ content, version.retained = some content →
        s.view.Retains version.current link content

variable {s s' : FtlState} {store : VersionStore} {version : PageVersion} {start last : Nat}

/-- The old version that a tagged write retains. -/
theorem KeepsVersions.retains (h : KeepsVersions s store) (haddr : addr < ftlCapacity)
    (hstore : store addr = some version) : ∃ link,
      s.view.entry addr = some (version.current, link) ∧
      s.view.Retains version.current link (version.retained.getD version.current) := by
  obtain ⟨link, hentry, huntagged, htagged⟩ := h.current addr version haddr hstore
  refine ⟨link, hentry, ?_⟩
  cases hretained : version.retained with
  | none => exact .inl ⟨huntagged hretained, rfl⟩
  | some content => exact htagged content hretained

theorem KeepsVersions.of_view (h : KeepsVersions s store) (hinv : FtlInv s') (api : ApiRam)
    (hview : s'.view = { s.view with api := api }) : KeepsVersions s' store := by
  refine ⟨hinv, fun a ha hnone => ?_, fun a version ha hsome => ?_⟩
  · rw [hview]
    exact h.unmapped a ha hnone
  · obtain ⟨link, hentry, huntagged, htagged⟩ := h.current a version ha hsome
    rw [hview]
    refine ⟨link, hentry, huntagged, fun content hcontent => ?_⟩
    exact (htagged content hcontent).keep fun _ _ _ hflag => ⟨hflag, fun _ _ _ hp => hp⟩

/-- The pages other than `addr` after a step that keeps their entries and all
flagged blocks. -/
theorem KeepsVersions.frame (h : KeepsVersions s store) (hinv : FtlInv s')
    (hkeep : KeepsFlagged s.view s'.view)
    (hentry : ∀ a, a < ftlCapacity → a ≠ addr → s'.view.entry a = s.view.entry a)
    {next : Option PageVersion} (hnone : next = none → s'.view.entry addr = none)
    (hsome : ∀ version, next = some version →
      ∃ link, s'.view.entry addr = some (version.current, link) ∧
        (version.retained = none → link = invalidPmNode) ∧
        ∀ content, version.retained = some content →
          s'.view.Retains version.current link content) :
    KeepsVersions s' (Function.update store addr next) := by
  refine ⟨hinv, fun a ha hstore => ?_, fun a version ha hstore => ?_⟩
  · rw [← DataView.entry_eq_none hinv.data.core ha]
    by_cases haa : a = addr
    · rw [haa, Function.update_self] at hstore
      rw [haa]
      exact hnone hstore
    · rw [Function.update_of_ne haa] at hstore
      rw [hentry a ha haa, DataView.entry_eq_none h.inv.data.core ha]
      exact h.unmapped a ha hstore
  · by_cases haa : a = addr
    · rw [haa, Function.update_self] at hstore
      rw [haa]
      exact hsome version hstore
    · rw [Function.update_of_ne haa] at hstore
      obtain ⟨link, hlink, huntagged, htagged⟩ := h.current a version ha hstore
      rw [hentry a ha haa]
      exact ⟨link, hlink, huntagged, fun content hcontent => (htagged content hcontent).keep hkeep⟩

omit [Platform] in
theorem newLink_untagged : newLink false false old = invalidPmNode := rfl

/-- What a tagged write of a page links to. -/
theorem StreamWritten.next (h : KeepsVersions s store)
    (hw : StreamWritten s s' isHot addr buffer (newLink isBackup false old)
      (newBackup isBackup false old)) (haddr : addr < ftlCapacity)
    (hq : s.view.journalPage isHot < 63) (hold : s.view.OldVersion addr flag false isBackup old) :
    ((PageVersion.next (store addr) flag buffer).retained = none →
      newLink isBackup false old = invalidPmNode) ∧
      ∀ content, (PageVersion.next (store addr) flag buffer).retained = some content →
        s'.view.Retains buffer (newLink isBackup false old) content := by
  cases flag with
  | false =>
      have hbackup : isBackup = false := by
        unfold DataView.OldVersion at hold
        split at hold
        · exact hold
        · exact hold.1
      rw [hbackup]
      exact ⟨fun _ => newLink_untagged, fun content hcontent => nomatch hcontent⟩
  | true =>
      cases hstore : store addr with
      | none =>
          have hbackup : isBackup = false := by
            unfold DataView.OldVersion at hold
            rwa [if_pos (h.unmapped addr haddr hstore)] at hold
          rw [hbackup]
          refine ⟨fun _ => newLink_untagged, fun content hcontent => .inl ⟨newLink_untagged, ?_⟩⟩
          exact (Option.some.inj hcontent).symm
      | some version =>
          obtain ⟨link, hentry, hretains⟩ := h.retains haddr hstore
          constructor
          · exact fun hno => nomatch hno
          · intro content hcontent
            obtain rfl := Option.some.inj hcontent
            exact hw.retains h.inv haddr hq hold hentry hretains

theorem KeepsVersions.written {buffer : Option Buffer} (h : KeepsVersions s store)
    (hwritten : Written s s' addr buffer flag false) (haddr : addr < ftlCapacity)
    (hq : StartsNonFull s addr) :
    KeepsVersions s' (Function.update store addr (buffer.map (.next (store addr) flag))) := by
  have hinv := hwritten.inv h.inv haddr hq
  obtain ⟨isBackup, old, hold, hrest⟩ := hwritten
  have hview : (s.touched addr).view = s.view := FtlState.touched_same.1
  rw [startsNonFull_iff, ← hview] at hq
  have htouched : KeepsVersions (s.touched addr) store := h.of_view h.inv.touched s.api hview
  rw [← hview] at hold
  cases buffer with
  | none =>
      refine htouched.frame hinv ?_ (fun a _ hne => ?_) (fun _ => ?_) fun version hno => ?_
      · rw [hrest.view]
        exact htouched.inv.data.core.keepsFlagged_trimmed
      · rw [hrest.view, DataView.entry_trimmed, if_neg hne]
      · rw [hrest.view, DataView.entry_trimmed, if_pos rfl]
      · exact nomatch hno
  | some buffer =>
      obtain ⟨hnone, hsome⟩ := hrest.next htouched haddr hq hold
      obtain ⟨spare, _, hkeep⟩ := hrest.keepsFlagged htouched.inv haddr hq
      refine htouched.frame hinv ?_ (fun a ha hne => ?_) (fun hno => ?_) fun version hversion => ?_
      · exact (htouched.inv.data.keepsFlagged_wroteFull hq).trans hkeep
      · rw [hrest.entry htouched.inv haddr hq ha, if_neg hne]
      · exact nomatch hno
      · obtain rfl := Option.some.inj hversion
        refine ⟨_, ?_, hnone, hsome⟩
        rw [hrest.entry htouched.inv haddr hq haddr, if_pos rfl]
        rfl

theorem TrimmedRun.keepsVersions {n : Nat} (h : TrimmedRun n start s s')
    (hs : KeepsVersions s store) (hcap : start + n ≤ ftlCapacity) :
    KeepsVersions s' fun a => if start ≤ a ∧ a < start + n then none else store a := by
  induction h generalizing store with
  | @nil start s =>
      have hsame : (fun a => if start ≤ a ∧ a < start + 0 then none else store a) = store := by
        funext a
        rw [if_neg (by omega)]
      rw [hsame]
      exact hs
  | @cons n start s t s' hstart hwritten _ ih =>
      have hnext := ih (hs.written hwritten (by omega) hstart) (by omega)
      have hsame : (fun a => if start ≤ a ∧ a < start + (n + 1) then none else store a) = fun a =>
          if start + 1 ≤ a ∧ a < start + 1 + n then none
          else Function.update store start none a := by
        funext a
        by_cases haa : a = start
        · rw [haa, if_pos (by omega), if_neg (by omega), Function.update_self]
        · have hiff : start ≤ a ∧ a < start + (n + 1) ↔
              start + 1 ≤ a ∧ a < start + 1 + n := by omega
          simp only [hiff, Function.update_of_ne haa]
      rw [hsame]
      exact hnext

theorem KeepsVersions.trim (h : KeepsVersions s store) (hlast : last < ftlCapacity)
    (hq : TrimsNonFull (last + 1 - start) start s) :
    wp (ftlTrim start last)
      (fun _ s' => KeepsVersions s' fun a => if start ≤ a ∧ a ≤ last then none else store a)
      (fun _ => True) s := by
  by_cases hrange : start ≤ last
  · have hcap : start + (last + 1 - start) ≤ ftlCapacity := by omega
    refine wp_mono_post (ftlTrimFrom_spec h.inv hcap hq) ?_
    rintro _ s' ⟨_, htrimmed⟩
    have hdone := htrimmed.keepsVersions h hcap
    have hiff : ∀ a, a < start + (last + 1 - start) ↔ a ≤ last := by omega
    simp only [hiff] at hdone
    exact hdone
  · -- an empty range: the loop does not run
    have hnone : last + 1 - start = 0 := by omega
    have hsame : (fun a => if start ≤ a ∧ a ≤ last then none else store a) = store := by
      funext a
      rw [if_neg (by omega)]
    unfold ftlTrim
    rw [hnone, hsame]
    exact h

theorem KeepsVersions.flush (h : KeepsVersions s store) :
    wp ftlFlush (fun _ s' => KeepsVersions s' store) (fun _ => True) s := by
  refine wp_mono_post (ftlFlush_spec h.inv.base) ?_
  rintro _ s' ⟨_, hcommit⟩
  exact h.of_view (hcommit.inv h.inv) s.api (hcommit.view h.inv.base.tables h.inv.base.pmt)

theorem KeepsVersions.read (h : KeepsVersions s store) (haddr : addr < ftlCapacity) :
    wp (ftlRead addr flag mft) (fun _ s' => KeepsVersions s' store) (fun _ => True) s := by
  refine wp_mono_post (ftlRead_any h.inv.base haddr) ?_
  intro _ s' hdone
  exact h.of_view (hdone.inv h.inv) s'.api (hdone.view h.inv.base)

/-- The calls of the interface, without MFT writes, and the versions that they
leave. -/
def versionCalls : Commands FtlState Stop Status StoreCall VersionStore where
  exec := StoreCall.exec
  Allowed c s := c.NoMft ∧ c.Allowed s
  model := StoreCall.versions

/-- The first mount of a device; no page has a version. -/
structure FirstVersions (s : FtlState) (store : VersionStore) : Prop where
  mount : FirstMount s fun _ => none
  empty : store = fun _ => none

/-- The states of a mount without power loss, each with the versions of the pages. -/
abbrev VersionRun : FtlState → VersionStore → Prop := versionCalls.Run FirstVersions

theorem FirstVersions.keepsVersions (h : FirstVersions s store) : KeepsVersions s store := by
  have hmounted := h.mount.mounted
  refine ⟨hmounted.inv, fun a _ _ => hmounted.unmapped a, fun a version _ hsome => ?_⟩
  rw [h.empty] at hsome
  exact nomatch hsome

/-- One case for each call. -/
theorem versionCalls_keeps : versionCalls.Keeps KeepsVersions := by
  intro c s store h hallowed
  obtain ⟨hmft, hallowed⟩ := hallowed
  cases c with
  | write addr buffer flag mft =>
      obtain rfl : mft = false := hmft
      obtain ⟨haddr, hq⟩ := hallowed
      refine wp_mono_post (ftlWrite_spec h.inv haddr hq fun _ _ => trivial) ?_
      rintro _ s' ⟨_, hwritten⟩
      exact h.written hwritten haddr hq
  | trim start last => exact h.trim hallowed.1 hallowed.2
  | flush => exact h.flush
  | read addr flag mft =>
      change wp (StoreCall.read addr flag mft).exec _ _ _
      unfold StoreCall.exec
      rw [wp_bind]
      exact h.read hallowed

theorem VersionRun.keepsVersions (h : VersionRun s store) : KeepsVersions s store :=
  h.keeps (fun _ _ => FirstVersions.keepsVersions) versionCalls_keeps

theorem KeepsVersions.result {content : Buffer} (h : KeepsVersions s store)
    (haddr : addr < ftlCapacity) (hstore : store addr = some version)
    (hretained : version.retained = some content) : s.view.LinksData addr ∧
      s.view.result true addr = .ok (.success, some content) := by
  have hcap := Platform.ubiCapacity_le
  obtain ⟨link, hentry, _, htagged⟩ := h.current addr version haddr hstore
  have hretains := htagged content hretained
  constructor
  · intro data' link' hentry' hlink
    obtain ⟨_, rfl⟩ : version.current = data' ∧ link = link' := by
      rw [hentry] at hentry'
      simpa using hentry'
    rcases hretains with ⟨hno, _⟩ | hholds
    · exact absurd hno hlink
    · have hrange := hholds.range
      exact ⟨hrange.1, by omega⟩
  · unfold DataView.result
    rw [hentry]
    rcases hretains with ⟨hno, rfl⟩ | hholds
    · simp [hno]
    · obtain ⟨spare, hpage⟩ := hholds.page
      have hlink : link ≠ invalidPmNode := by
        rintro rfl
        have hrange := hholds.range.2
        rw [pmNodeBlock_invalid] at hrange
        omega
      simp only [hlink, ne_eq, not_false_eq_true, and_self, if_true]
      unfold DataView.readAt
      rw [if_pos hholds.range.2, hpage]

/-- However often a page was rewritten with a tag, and whatever was reclaimed
since, a tagged read returns the version that its tagged writes retain. -/
theorem ftlRead_returns_retained {current content : Buffer} (h : VersionRun s store)
    (haddr : addr < ftlCapacity) (hstore : store addr = some ⟨current, some content⟩) :
    ∃ s', ftlRead addr true false s = .ok ((.success, some content), s') := by
  have hkeeps : KeepsVersions s store := VersionRun.keepsVersions h
  obtain ⟨hlink, hresult⟩ := hkeeps.result haddr hstore rfl
  obtain ⟨s', hread, _⟩ := ftlRead_same hkeeps.inv (s := s) rfl haddr (fun _ => hlink) hresult
  exact ⟨s', hread⟩

theorem VersionRun.afterWrite {buffer : Buffer} (h : VersionRun s store)
    (hafter : s.afterWrite addr buffer flag = some s') :
    VersionRun s' (Function.update store addr (some (.next (store addr) flag buffer))) := by
  obtain ⟨hallowed, hwrite⟩ := FtlState.afterWrite_eq_some hafter
  have hwriteAllowed : versionCalls.Allowed (.write addr (some buffer) flag false) s :=
    ⟨rfl, hallowed⟩
  exact .step h hwriteAllowed hwrite

end

section

attribute [local instance] k9wag08

/-- The page that was written once, and once more with a tag. -/
theorem ftlRead_returns_retained_rewritten : ∃ s s', ftlRewritten = some s ∧
    ftlRead 5 true false s = .ok ((.success, some (.bytes (.const 7))), s') := by
  have hcap : 5 < ftlCapacity := by decide
  obtain ⟨s, hs⟩ := Option.isSome_iff_exists.mp ftlRewritten_isSome
  obtain ⟨s₀, hstart, hrest⟩ := Option.bind_eq_some_iff.mp hs
  obtain ⟨s₁, hfirst, hsecond⟩ := Option.bind_eq_some_iff.mp hrest
  have hmount : VersionRun s₀ fun _ => none := .start ⟨ftlFirstMount_start hstart, rfl⟩
  have hrun := VersionRun.afterWrite (VersionRun.afterWrite hmount hfirst) hsecond
  obtain ⟨s', hread⟩ := ftlRead_returns_retained hrun hcap rfl
  exact ⟨s, s', hs, hread⟩

end

end RansomTag

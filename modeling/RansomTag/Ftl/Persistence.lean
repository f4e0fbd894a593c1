import RansomTag.Ftl.CleanMount
import RansomTag.Ftl.Retention

/-!
# What a clean power cycle keeps

After `FTL_Flush` the power may go: the next mount delivers every page as it was
stored, and with a tag the version that was retained.
-/

namespace RansomTag

open Program

section

variable [Platform] {s t : FtlState} {E : Stop → Prop}

/-! ## The root log from the format on -/

theorem Formatted.openJournal (h : Formatted s) (isHot : Bool) :
    OpenJournal s.flash (s.rootTable.journal isHot) := by
  have hge := Platform.ubiCapacity_ge
  obtain ⟨hhot, hcold, _, _, hempty⟩ := h.journals
  have hspare := formatted_bounds.1
  have hpage : pmNodePage (s.rootTable.journal isHot) = 0 := hempty isHot
  have hblock : dataStartBlock ≤ pmNodeBlock (s.rootTable.journal isHot) ∧
      pmNodeBlock (s.rootTable.journal isHot) < ubiCapacity := by
    change dataStartBlock ≤ s.view.journalBlock isHot ∧ s.view.journalBlock isHot < ubiCapacity
    cases isHot
    · rw [hcold]
      simp only [dataStartBlock]
      omega
    · rw [hhot]
      simp only [dataStartBlock]
      omega
  refine ⟨hblock, by omega, fun p hp => ?_, fun p _ _ => ?_⟩
  · rw [hpage] at hp
    exact absurd hp (Nat.not_lt_zero p)
  · apply h.clusters.free
    simp only [dataStartBlock] at hblock
    omega

theorem BeforeRoot.settled (h : BeforeRoot s) : Settled s.rootCleared.rootCommitted := by
  obtain ⟨hformatted, hfresh⟩ := h.fresh
  have hcursor : s.rootCleared.rootCommitted.root = ⟨rootBlock0, 1, 1⟩ := rfl
  have hlength : s.rootCleared.flash.log.length < s.rootCleared.rootCommitted.flash.log.length :=
    s.rootCleared.append_length _ _ _ _
  have hlast := hfresh.last
  have hretained := hfresh.retained
  constructor
  case image =>
    rw [hcursor]
    exact ⟨hfresh.root, hlast, ⟨1, hfresh.bdt⟩, 1, hfresh.hdi⟩
  case bound => exact Nat.zero_lt_of_lt hlength
  case edition =>
    rw [hcursor]
    decide
  case retained =>
    rw [hretained]
    decide
  case journal => exact hformatted.openJournal

theorem ftlFormatted_settled (hmeta : ∀ p, s.pmt.metaData p < pmtClusterCount) :
    Settled s.ftlFormatted := by
  have hbefore := beforePmt hmeta
  unfold FtlState.ftlFormatted
  generalize s.blanked.dataFormatted.hdiCleared.hdiCommitted = t at hbefore ⊢
  exact hbefore.beforeRoot.settled

/-- What holds in every state of a mount. -/
theorem FirstMount.rootLogged {store : PageStore} (h : FirstMount s store) :
    MountInv s ∧ RootLogged s := by
  obtain ⟨flash, unset, fuel, hfuel, hrun⟩ := h.start
  have hmeta : ∀ p, (FtlState.powerOn flash unset).pmt.metaData p < pmtClusterCount :=
    fun _ => pmtClusterCount_pos
  have hmount := of_wp_ok (ftlFormatAndMount_inv (E := fun _ => True) hmeta (fun _ _ => rfl) hfuel)
    hrun
  have hroot : wp (ftlFormatAndMount fuel) (fun _ u => RootLogged u) (fun _ => True)
      (.powerOn flash unset) := by
    have hformatted := (ftlFormatted_ok hmeta).1
    unfold ftlFormatAndMount
    rw [wp_bind]
    apply ftlFormat_spec
    rw [if_pos rfl]
    apply wp_mono_post (ftlInit_spec (ftlFormatted_settled hmeta) rfl hformatted.clusters.meta_lt
      hfuel)
    rintro _ u ⟨_, hu, _⟩
    exact hu.logged
  exact ⟨hmount.2, of_wp_ok hroot hrun⟩

/-- One case for each call. -/
theorem storeCall_rootLogged (c : StoreCall) (h : MountInv s ∧ RootLogged s)
    (hallowed : c.Allowed s) :
    wp c.exec (fun _ u => MountInv u ∧ RootLogged u) (fun _ => True) s := by
  cases c with
  | write addr buffer flag mft => exact rootLogged_dataLayer.ftlWrite_keeps h hallowed.1
  | trim start last =>
      have hlast := hallowed.1
      by_cases hrange : start ≤ last
      · exact rootLogged_dataLayer.ftlTrimFrom_keeps h fun a _ hlt => by omega
      · have hnone : last + 1 - start = 0 := by omega
        change wp (ftlTrim start last) _ _ s
        unfold ftlTrim
        rw [hnone]
        exact h
  | flush => exact rootLogged_dataLayer.ftlFlush_keeps h
  | read addr flag mft =>
      unfold StoreCall.exec
      rw [wp_bind]
      exact rootLogged_dataLayer.ftlRead_keeps h

theorem StoreRun.rootLogged {store : PageStore} (h : StoreRun s store) : RootLogged s := by
  have hkept : MountInv s ∧ RootLogged s :=
    h.keeps (fun _ _ => FirstMount.rootLogged) fun c _ _ hinv hallowed =>
      storeCall_rootLogged c hinv hallowed
  exact hkept.2

theorem VersionRun.rootLogged {store : VersionStore} (h : VersionRun s store) : RootLogged s := by
  have hkept : MountInv s ∧ RootLogged s :=
    h.keeps (fun _ _ hfirst => hfirst.mount.rootLogged) fun c _ _ hinv hallowed =>
      storeCall_rootLogged c hinv hallowed.2
  exact hkept.2

/-! ## Reads after the mount -/

/-- Reads one after the other, each with its tag. -/
def ftlReads : List (Nat × Bool) → Ftl (List (Status × Option Buffer))
  | [] => pure []
  | read :: reads => do
      let r ← ftlRead read.1 read.2 false
      let rs ← ftlReads reads
      pure (r :: rs)

theorem DataView.result_congr {v v' : DataView} {flag : Bool} {a : Nat}
    (hmapping : v'.mapping = v.mapping) (hpage : v'.page = v.page) :
    v'.result flag a = v.result flag a ∧ (v'.LinksData a ↔ v.LinksData a) := by
  unfold DataView.result DataView.LinksData DataView.entry DataView.readAt
  rw [hmapping, hpage]
  exact ⟨rfl, Iff.rfl⟩

/-- Every read delivers what the view says, and the next one finds the same. -/
theorem ftlReads_spec {reads : List (Nat × Bool)}
    {answer : Nat × Bool → Status × Option Buffer} (h : BaseOk t 0) (hd : DataInv t.view none)
    (hreads : ∀ read ∈ reads, read.1 < ftlCapacity ∧
      (read.2 = true → t.view.LinksData read.1) ∧
      t.view.result read.2 read.1 = .ok (answer read)) :
    wp (ftlReads reads) (fun rs _ => rs = reads.map answer) E t := by
  induction reads generalizing t with
  | nil => exact rfl
  | cons read reads ih =>
      obtain ⟨haddr, hlink, hresult⟩ := hreads read List.mem_cons_self
      have hread := ftlRead_result h hd haddr hlink
      rw [hresult] at hread
      unfold ftlReads
      rw [wp_bind]
      apply wp_mono hread
      · rintro r u ⟨hr, hdone⟩
        obtain rfl : answer read = r := by simpa using hr
        have hview := hdone.view h
        have hnext : wp (ftlReads reads) (fun rs _ => rs = reads.map answer) E u := by
          apply ih hdone.base
          · rw [hview]
            exact hd.with_api _
          · intro read' hmem
            have hsame := @DataView.result_congr _ t.view u.view read'.2 read'.1
              (by rw [hview]) (by rw [hview])
            rw [hsame.1, hsame.2]
            exact hreads read' (List.mem_cons_of_mem _ hmem)
        rw [wp_bind]
        apply wp_mono_post hnext
        rintro rs _ rfl
        exact rfl
      · intro e he
        cases he

/-! ## A clean power cycle -/

/-- After `FTL_Flush` and a loss of power the device mounts, and `reads` get
`answers`; `fuel` bounds the replay loops. -/
def FtlState.Keeps (s : FtlState) (reads : List (Nat × Bool))
    (answers : List (Status × Option Buffer)) : Prop :=
  ∃ s', ftlFlush s = .ok (.success, s') ∧
    (s'.flash.log.length < maxUint32 → ∀ unset fuel, 2 ≤ fuel →
      ∃ t t', ftlInit fuel (.powerOn s'.flash unset) = .ok (.success, t) ∧
        ftlReads reads t = .ok (answers, t'))

/-- The same for any `m` that is run after the mount and returns `a`. -/
def FtlState.Survives {α : Type} (s : FtlState) (m : Ftl α) (a : α) : Prop :=
  ∃ s', ftlFlush s = .ok (.success, s') ∧
    (s'.flash.log.length < maxUint32 → ∀ unset fuel, 2 ≤ fuel →
      ∃ t t', ftlInit fuel (.powerOn s'.flash unset) = .ok (.success, t) ∧ m t = .ok (a, t'))

/-- `t` is mounted from the flash that a flush of `s` left. -/
structure CleanlyMounted (s t : FtlState) : Prop where
  base : BaseOk t 0
  data : DataInv t.view none
  mapping : t.view.mapping = s.view.mapping
  page : t.view.page = s.view.page
  api : t.api = ⟨0, 0, 0, 0⟩

theorem FtlInv.survives {α : Type} {m : Ftl α} {a : α} (h : FtlInv s) (hroot : RootLogged s)
    (hfull : s.NonFull) (hretained : s.rootTable.backupBlockCount < threshold)
    (hm : ∀ t, CleanlyMounted s t → wp m (fun r _ => r = a) (fun _ => False) t) :
    s.Survives m a := by
  have hflush : wp ftlFlush _ (fun _ => False) s := ftlFlush_spec h.base
  obtain ⟨_, s', hrun, rfl, hcommit⟩ := exists_ok_of_wp hflush
  refine ⟨s', hrun, fun hfewer unset fuel hfuel => ?_⟩
  have hjournal : ∀ isHot, OpenJournal s.flash (s.rootTable.journal isHot) := by
    intro isHot
    cases isHot
    · exact h.data.openJournal hfull.2
    · exact h.data.openJournal hfull.1
  have hsettled := hcommit.settled h.base.tables hroot hjournal hretained hfewer
  have hmeta : ∀ p, (FtlState.powerOn s'.flash unset).pmt.metaData p < pmtClusterCount :=
    fun _ => pmtClusterCount_pos
  have hmount : wp (ftlInit fuel) _ (fun _ => False) (.powerOn s'.flash unset) :=
    ftlInit_spec hsettled rfl hmeta hfuel
  obtain ⟨_, t, hinit, rfl, ht, hapi⟩ := exists_ok_of_wp hmount
  have huncached := hcommit.uncached h.base.tables
  have hinv := hcommit.inv h
  obtain ⟨hmapping, hpage, _⟩ := ht.view hinv.base.pmt huncached
  have hview := hcommit.view h.base.tables h.base.pmt
  rw [hview] at hmapping hpage
  have hmounted : CleanlyMounted s t := ⟨ht.base hinv.base huncached,
    ht.data hinv.base.pmt huncached hinv.data, hmapping, hpage, hapi⟩
  obtain ⟨_, t', hread, rfl⟩ := exists_ok_of_wp (hm t hmounted)
  exact ⟨t, t', hinit, hread⟩

/-- The reads deliver what they would have delivered before. -/
theorem FtlInv.keeps (h : FtlInv s) (hroot : RootLogged s) (hfull : s.NonFull)
    (hretained : s.rootTable.backupBlockCount < threshold) (reads : List (Nat × Bool))
    (answer : Nat × Bool → Status × Option Buffer)
    (hreads : ∀ read ∈ reads, read.1 < ftlCapacity ∧
      (read.2 = true → s.view.LinksData read.1) ∧
      s.view.result read.2 read.1 = .ok (answer read)) :
    s.Keeps reads (reads.map answer) := by
  have hsurvives : s.Survives (ftlReads reads) (reads.map answer) := by
    apply h.survives hroot hfull hretained
    intro t ht
    apply ftlReads_spec ht.base ht.data
    intro read hmem
    have hsame := @DataView.result_congr _ s.view t.view read.2 read.1 ht.mapping ht.page
    rw [hsame.1, hsame.2]
    exact hreads read hmem
  exact hsurvives

theorem DataView.result_false (v : DataView) (a : Nat) :
    v.result false a = .ok (.success, some ((v.plain a).getD .zeros)) := by
  unfold DataView.result DataView.plain
  cases v.entry a with
  | none => rfl
  | some e => simp

/-- What was stored is read back after the power cycle. -/
theorem stored_after_powerCycle {store : PageStore} {addrs : List Nat} (h : StoreRun s store)
    (hfull : s.NonFull) (hretained : s.rootTable.backupBlockCount < threshold)
    (haddrs : ∀ a ∈ addrs, a < ftlCapacity) :
    s.Keeps (addrs.map fun a => (a, false))
      (addrs.map fun a => (.success, some ((store a).getD .zeros))) := by
  have hstores : Stores s store := StoreRun.stores h
  have hkeeps := hstores.inv.keeps (StoreRun.rootLogged h) hfull hretained
    (addrs.map fun a => (a, false)) fun read => (.success, some ((store read.1).getD .zeros))
  rw [List.map_map] at hkeeps
  apply hkeeps
  intro read hmem
  obtain ⟨a, ha, rfl⟩ := List.mem_map.mp hmem
  refine ⟨haddrs a ha, fun hno => absurd hno Bool.false_ne_true, ?_⟩
  rw [DataView.result_false, hstores.plain a (haddrs a ha)]

/-- The content that a read finds, or with a tag the version that is retained. -/
def VersionStore.content (store : VersionStore) (read : Nat × Bool) : Buffer :=
  match store read.1 with
  | none => .zeros
  | some version => if read.2 then version.retained.getD version.current else version.current

theorem KeepsVersions.answer {store : VersionStore} (h : KeepsVersions s store) {a : Nat}
    {flag : Bool} (ha : a < ftlCapacity) :
    (flag = true → s.view.LinksData a) ∧
      s.view.result flag a = .ok (.success, some (store.content (a, flag))) := by
  unfold VersionStore.content
  rcases hstore : store a with _ | version
  · have hnone := (DataView.entry_eq_none h.inv.data.core ha).mpr (h.unmapped a ha hstore)
    refine ⟨fun _ data link hentry => ?_, ?_⟩
    · rw [hnone] at hentry
      simp at hentry
    · unfold DataView.result
      rw [hnone]
  · obtain ⟨link, hentry, huntagged, _⟩ := h.current a version ha hstore
    cases flag with
    | false =>
        refine ⟨fun hno => absurd hno Bool.false_ne_true, ?_⟩
        rw [DataView.result_false]
        unfold DataView.plain
        rw [hentry]
        rfl
    | true =>
        cases hretained : version.retained with
        | none =>
            obtain rfl := huntagged hretained
            refine ⟨fun _ data link hentry' hlink => ?_, ?_⟩
            · rw [hentry] at hentry'
              exact absurd (congrArg Prod.snd (Option.some.inj hentry')).symm hlink
            · unfold DataView.result
              rw [hentry]
              simp [hretained]
        | some content =>
            obtain ⟨hlink, hresult⟩ := h.result ha hstore hretained
            exact ⟨fun _ => hlink, by simpa [hretained] using hresult⟩

/-- Every version is read back after the power cycle, with a tag the retained one. -/
theorem versions_after_powerCycle {store : VersionStore} {reads : List (Nat × Bool)}
    (h : VersionRun s store) (hfull : s.NonFull)
    (hretained : s.rootTable.backupBlockCount < threshold)
    (hreads : ∀ read ∈ reads, read.1 < ftlCapacity) :
    s.Keeps reads (reads.map fun read => (.success, some (store.content read))) := by
  have hversions : KeepsVersions s store := VersionRun.keepsVersions h
  apply hversions.inv.keeps (VersionRun.rootLogged h) hfull hretained
  intro read hmem
  exact ⟨hreads read hmem, hversions.answer (hreads read hmem)⟩

end

section

attribute [local instance] k9wag08

theorem ftlRewritten_open : ∀ s, ftlRewritten = some s →
    s.NonFull ∧ s.rootTable.backupBlockCount < threshold := by
  intro s hs
  have hopen : (ftlRewritten.all fun s =>
      decide (s.NonFull ∧ s.rootTable.backupBlockCount < threshold)) = true := by decide +kernel
  rw [hs] at hopen
  simpa using hopen

/-- The rewritten page and a page that was never written. -/
theorem stored_after_powerCycle_rewritten : ∃ s, ftlRewritten = some s ∧
    s.Keeps [(5, false), (6, false)]
      [(.success, some (.bytes (.const 8))), (.success, some .zeros)] := by
  obtain ⟨s, hs⟩ := Option.isSome_iff_exists.mp ftlRewritten_isSome
  obtain ⟨s₀, hstart, hrest⟩ := Option.bind_eq_some_iff.mp hs
  obtain ⟨s₁, hfirst, hsecond⟩ := Option.bind_eq_some_iff.mp hrest
  have hmount : StoreRun s₀ fun _ => none := .start (ftlFirstMount_start hstart)
  have hrun := StoreRun.afterWrite (StoreRun.afterWrite hmount hfirst) hsecond
  obtain ⟨hfull, hretained⟩ := ftlRewritten_open s hs
  have haddrs : ∀ a ∈ [5, 6], a < ftlCapacity := by decide
  have hkeeps := stored_after_powerCycle hrun hfull hretained haddrs
  exact ⟨s, hs, hkeeps⟩

/-- The page that was rewritten with a tag. -/
theorem versions_after_powerCycle_rewritten : ∃ s, ftlRewritten = some s ∧
    s.Keeps [(5, true), (5, false)]
      [(.success, some (.bytes (.const 7))), (.success, some (.bytes (.const 8)))] := by
  obtain ⟨s, hs⟩ := Option.isSome_iff_exists.mp ftlRewritten_isSome
  obtain ⟨s₀, hstart, hrest⟩ := Option.bind_eq_some_iff.mp hs
  obtain ⟨s₁, hfirst, hsecond⟩ := Option.bind_eq_some_iff.mp hrest
  have hmount : VersionRun s₀ fun _ => none := .start ⟨ftlFirstMount_start hstart, rfl⟩
  have hrun := VersionRun.afterWrite (VersionRun.afterWrite hmount hfirst) hsecond
  obtain ⟨hfull, hretained⟩ := ftlRewritten_open s hs
  have hreads : ∀ read ∈ [(5, true), (5, false)], read.1 < ftlCapacity := by decide
  have hkeeps := versions_after_powerCycle hrun hfull hretained hreads
  exact ⟨s, hs, hkeeps⟩

end

end RansomTag

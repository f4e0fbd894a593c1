import RansomTag.Ftl.PmtCommit

/-!
# Access to the page mapping table

`DATA_Commit`, `PMT_Load`, `PMT_Search` and `PMT_Update`.  To the data layer a
search changes nothing, and an update changes one mapping word and one dirty
count, whatever commits and reclaims of mapping blocks they cause.
-/

namespace RansomTag

open Program

variable [Platform]

/-- The tables below the data layer, between two calls. -/
structure BaseOk (s : FtlState) (k : Nat) : Prop where
  tables : TablesInv s
  pmt : PmtOk s 0 k

theorem BaseOk.mono {s : FtlState} {k k' : Nat} (h : BaseOk s k) (hk : k' ≤ k) : BaseOk s k' :=
  ⟨h.tables, h.pmt.mono hk⟩

theorem PmtFrame.tables {s s' : FtlState} (h : PmtFrame s s') (ht : TablesInv s) :
    TablesInv s' := by
  refine ht.congr ?_ h.bdt h.root h.hdi
  intro b hb
  apply h.ran.flash.page
  simp only [pmtStartBlock]
  omega

/-! ## Commit -/

/-- The state after the tables other than the mapping table are committed. -/
def FtlState.committed (s : FtlState) : FtlState :=
  { s.bdtCommitted.rootCommitted with data := { s.data with editionHot := 0, editionCold := 0 } }

/-- What `DATA_Commit` leaves. -/
def DataCommitted (s s' : FtlState) (k : Nat) : Prop :=
  ∃ t, PmtCommitted s.hdiCommitted t k ∧ s' = t.committed

section

variable {s s' : FtlState} {k : Nat}

omit [Platform] in
theorem FtlState.hdiCommitted_same (h : TablesInv s) : SamePmt s s.hdiCommitted := by
  refine ⟨⟨rfl, rfl⟩, rfl, rfl, fun _ _ => rfl, ?_⟩
  intro b hb _
  apply (s.hdiCommitted_ran h).flash.page
  simp only [pmtStartBlock] at hb
  omega

omit [Platform] in
theorem FtlState.committed_ran (h : TablesInv s) :
    Ran (fun b => b < pmtStartBlock) s s.committed := by
  have hbdt : Ran (fun b => b < pmtStartBlock) s s.bdtCommitted :=
    (s.bdtCommitted_ran h).mono fun b hb => by simp only [pmtStartBlock]; omega
  have hroot : Ran (fun b => b < pmtStartBlock) s.bdtCommitted s.bdtCommitted.rootCommitted :=
    (s.bdtCommitted.rootCommitted_ran h.bdtCommitted).mono fun b hb => by
      simp only [pmtStartBlock]; omega
  exact (hbdt.trans hroot).trans (.of_eq rfl rfl)

omit [Platform] in
theorem FtlState.committed_same (h : TablesInv s) : SamePmt s s.committed := by
  refine ⟨⟨rfl, rfl⟩, rfl, rfl, fun _ _ => rfl, ?_⟩
  intro b hb _
  apply (s.committed_ran h).flash.page
  omega

omit [Platform] in
theorem TablesInv.committed (h : TablesInv s) : TablesInv s.committed :=
  h.bdtCommitted.rootCommitted.congr (fun _ _ _ => rfl) rfl rfl rfl

namespace DataCommitted

theorem tables (h : DataCommitted s s' k) (ht : TablesInv s) : TablesInv s' := by
  obtain ⟨t, hpmt, rfl⟩ := h
  exact (hpmt.frame.tables ht.hdiCommitted).committed

theorem ok (h : DataCommitted s s' k) (ht : TablesInv s) : BaseOk s' k := by
  refine ⟨h.tables ht, ?_⟩
  obtain ⟨t, hpmt, rfl⟩ := h
  exact (t.committed_same (hpmt.frame.tables ht.hdiCommitted)).pmtOk hpmt.ok

theorem uncached (h : DataCommitted s s' k) (ht : TablesInv s) : Uncached s' := by
  obtain ⟨t, hpmt, rfl⟩ := h
  exact (t.committed_same (hpmt.frame.tables ht.hdiCommitted)).uncached hpmt.uncached

theorem ran (h : DataCommitted s s' k) (ht : TablesInv s) :
    Ran (fun b => b < dataStartBlock) s s' := by
  obtain ⟨t, hpmt, rfl⟩ := h
  have hhdi : Ran (fun b => b < dataStartBlock) s s.hdiCommitted :=
    (s.hdiCommitted_ran ht).mono fun b hb => by simp only [dataStartBlock]; omega
  have hmid : Ran (fun b => b < dataStartBlock) s.hdiCommitted t :=
    hpmt.frame.ran.mono fun b hb => hb.2
  have hend : Ran (fun b => b < dataStartBlock) t t.committed :=
    (t.committed_ran (hpmt.frame.tables ht.hdiCommitted)).mono fun b hb => by
      simp only [pmtStartBlock] at hb
      simp only [dataStartBlock]
      omega
  exact (hhdi.trans hmid).trans hend

theorem clusters (h : DataCommitted s s' k) (ht : TablesInv s) (hs : PmtOk s 0 k) :
    SameClusters s s' := by
  obtain ⟨t, hpmt, rfl⟩ := h
  have hhdi := (s.hdiCommitted_same ht).clusters hs.inv.toCacheInv
  have hend := (t.committed_same (hpmt.frame.tables ht.hdiCommitted)).clusters
    hpmt.ok.inv.toCacheInv
  exact (hhdi.trans hpmt.clusters).trans hend

theorem dirty (h : DataCommitted s s' k) {b : Nat} (hb : dataStartBlock ≤ b) :
    s'.blockDirtyTable b = s.blockDirtyTable b := by
  obtain ⟨t, hpmt, rfl⟩ := h
  exact hpmt.frame.dirty b (.inr hb)

/-- A commit changes of the root table only what names the tables' own pages. -/
theorem rootTable (h : DataCommitted s s' k) :
    s'.rootTable.hotJournal = s.rootTable.hotJournal ∧
    s'.rootTable.coldJournal = s.rootTable.coldJournal ∧
    s'.rootTable.reclaimJournal = s.rootTable.reclaimJournal ∧
    s'.rootTable.backupBlockCount = s.rootTable.backupBlockCount := by
  obtain ⟨t, hpmt, rfl⟩ := h
  obtain ⟨nodes, current, reclaim, hroot⟩ := hpmt.frame.rootTable
  have hfields : t.committed.rootTable.hotJournal = t.rootTable.hotJournal ∧
      t.committed.rootTable.coldJournal = t.rootTable.coldJournal ∧
      t.committed.rootTable.reclaimJournal = t.rootTable.reclaimJournal ∧
      t.committed.rootTable.backupBlockCount = t.rootTable.backupBlockCount :=
    ⟨rfl, rfl, rfl, rfl⟩
  rw [hroot] at hfields
  exact hfields

theorem data (h : DataCommitted s s' k) :
    s'.data = { s.data with editionHot := 0, editionCold := 0 } := by
  obtain ⟨t, hpmt, rfl⟩ := h
  exact congrArg (fun d : DataRam => { d with editionHot := 0, editionCold := 0 }) hpmt.frame.data

theorem api (h : DataCommitted s s' k) : s'.api = s.api := by
  obtain ⟨t, hpmt, rfl⟩ := h
  exact hpmt.frame.api

theorem view (h : DataCommitted s s' k) (ht : TablesInv s) (hs : PmtOk s 0 k) :
    s'.view = s.view := by
  obtain ⟨hhot, hcold, hreclaim, _⟩ := h.rootTable
  unfold FtlState.view
  rw [hhot, hcold, hreclaim, h.data, h.api]
  congr 1
  · funext addr
    split
    · next haddr =>
        exact h.clusters ht hs _ (clusterIndex_lt haddr) _ (pageInCluster_lt addr)
    · rfl
  · funext b p
    split
    · next hb => exact (h.ran ht).flash.page (by omega) p
    · rfl
  · funext b
    split
    · next hb => exact h.dirty hb
    · rfl
  · exact (h.ran ht).flash.log_filter fun op hop => decide_eq_false (by omega)

end DataCommitted

variable {E : Stop → Prop}

/-- `DATA_Commit` always succeeds. -/
theorem dataCommit_spec (h : BaseOk s k) :
    wp dataCommit (fun ret s' => ret = .success ∧ DataCommitted s s' k) E s := by
  have hsame := s.hdiCommitted_same h.tables
  unfold dataCommit
  rw [wp_bind, wp_hdiCommit h.tables.hdi]
  simp only [if_true, wp_bind]
  refine wp_mono_post (pmtCommit_spec (hsame.pmtOk h.pmt)) ?_
  rintro _ t ⟨rfl, hpmt⟩
  have htables := hpmt.frame.tables h.tables.hdiCommitted
  simp only [if_true, wp_bdtCommit htables.bdt, wp_rootCommit htables.bdtCommitted.root,
    wp_modify, wp_pure, true_and, wp_bind]
  exact ⟨t, hpmt, rfl⟩

end

/-! ## Load -/

omit [Platform] in
theorem emptySlot_spec (pmt : PmtRam) (n start : Nat) :
    (emptySlot pmt n start = start + n) ∨
      (start ≤ emptySlot pmt n start ∧ emptySlot pmt n start < start + n ∧
        pmt.cacheOrigin (emptySlot pmt n start) = invalidPmNode) := by
  induction n generalizing start with
  | zero => exact .inl rfl
  | succ n ih =>
      unfold emptySlot
      by_cases hempty : pmt.cacheOrigin start = invalidPmNode
      · rw [if_pos hempty]
        right
        exact ⟨le_rfl, by omega, hempty⟩
      · rw [if_neg hempty]
        rcases ih (start + 1) with h | ⟨hge, hlt, h⟩
        · left; omega
        · right
          exact ⟨by omega, by omega, h⟩

/-- The state after cluster `c` was read from page `b`, `p` into slot `i`. -/
def FtlState.loaded (s : FtlState) (i c b p : Nat) (data : Buffer) : FtlState :=
  { s with
    rootTable := { s.rootTable with
      pageMappingNodes := s.rootTable.pageMappingNodes.set c (pmCacheAddr i) }
    pmt := { s.pmt with
      nodeCaches := s.pmt.nodeCaches.set i (.ofFn data.node)
      cacheOrigin := s.pmt.cacheOrigin.set i (pmNodeSetBlockPage b p)
      cacheCluster := s.pmt.cacheCluster.set i c } }

/-- Nothing but mapping nodes and cache slots changed. -/
structure OnlyCache (s s' : FtlState) : Prop where
  rootTable : ∃ nodes, s'.rootTable = { s.rootTable with pageMappingNodes := nodes }
  unused : SameUnused s s'
  flash : s'.flash = s.flash
  past : s'.past = s.past
  table : s'.blockDirtyTable = s.blockDirtyTable
  bdt : s'.bdt = s.bdt
  root : s'.root = s.root
  hdi : s'.hdi = s.hdi
  data : s'.data = s.data
  api : s'.api = s.api

theorem OnlyCache.refl {s : FtlState} : OnlyCache s s :=
  ⟨⟨_, rfl⟩, .refl, rfl, rfl, rfl, rfl, rfl, rfl, rfl, rfl⟩

theorem OnlyCache.tables {s s' : FtlState} (h : OnlyCache s s') (ht : TablesInv s) :
    TablesInv s' :=
  ht.congr (fun _ _ _ => by rw [h.flash]) h.bdt h.root h.hdi

theorem OnlyCache.frame {s s' : FtlState} (h : OnlyCache s s') : PmtFrame s s' := by
  obtain ⟨nodes, hroot⟩ := h.rootTable
  exact ⟨.of_eq h.flash h.past, fun _ _ => by rw [h.table], ⟨_, _, _, hroot⟩, h.unused, h.bdt,
    h.root, h.hdi, h.data, h.api⟩

section

variable {s s' : FtlState} {i c k b p : Nat} {data : Buffer} {E : Stop → Prop}

theorem PmtOk.loaded (h : PmtOk s 0 k) (hi : i < 4)
    (hempty : s.pmt.cacheOrigin i = invalidPmNode) (hc : c < pmtClusterCount)
    (hcached : pmNodeIsCached (s.node c) = false) (hnode : s.node c = pmNodeSetBlockPage b p)
    {spare : Spare} (hpage : s.flash.page b p = .programmed data spare) (hb : b < dataStartBlock)
    (hp : p < 63) :
    PmtOk (s.loaded i c b p data) 0 k ∧ SameClusters s (s.loaded i c b p data) := by
  have hcache := h.inv.toCacheInv
  have hslotEmpty : s.pmt.cacheCluster i = invalidCluster := by
    rcases hcache.slot i hi with ⟨hno, _⟩ | ⟨_, hvalid, _⟩
    · exact hno
    · exact absurd hempty hvalid
  have hnot : ∀ d, d < pmtClusterCount → s.pmt.cacheCluster i ≠ d := by
    intro d hd heq
    have := pmtClusterCount_le
    rw [hslotEmpty] at heq
    simp only [invalidCluster] at heq
    omega
  have hnode' : ∀ d, (s.loaded i c b p data).node d = if d = c then pmCacheAddr i else s.node d :=
    fun d => Ram.set_apply _ _ _ _
  have hcached' : ∀ d, pmNodeIsCached ((s.loaded i c b p data).node d) =
      if d = c then true else pmNodeIsCached (s.node d) := by
    intro d
    rw [hnode']
    split
    · exact pmNodeIsCached_cacheAddr i
    · rfl
  have hdirty' : ∀ d, (s.loaded i c b p data).isDirty d = s.isDirty d := by
    intro d
    unfold FtlState.isDirty
    rw [hcached', hnode']
    by_cases hdc : d = c
    · rw [if_pos hdc, if_pos hdc, hdc, hcached, pmNodeIsDirty_cacheAddr]
      rfl
    · rw [if_neg hdc, if_neg hdc]
  -- a cached cluster keeps its slot, which is not the empty one
  have hother : ∀ d, d < pmtClusterCount → pmNodeIsCached (s.node d) = true →
      pmCacheSlot (s.node d) ≠ i := by
    intro d hd hdc heq
    have hcluster := (hcache.cached_at hd hdc).2.2.1
    rw [heq] at hcluster
    exact hnot d hd hcluster
  have hhome : ∀ d, d < pmtClusterCount → (s.loaded i c b p data).home d = s.home d := by
    intro d hd
    unfold FtlState.home
    rw [hcached', hnode']
    by_cases hdc : d = c
    · rw [if_pos hdc, if_pos hdc, if_pos rfl, pmCacheSlot_cacheAddr, hdc, hcached, hnode]
      exact Ram.set_same _ _ _
    · rw [if_neg hdc, if_neg hdc]
      by_cases hdcached : pmNodeIsCached (s.node d) = true
      · rw [if_pos hdcached, if_pos hdcached]
        exact Ram.set_other _ _ (hother d hd hdcached)
      · rw [if_neg hdcached, if_neg hdcached]
  have same : SameHomes s (s.loaded i c b p data) := by
    refine ⟨?_, ?_, fun d _ hd => (hdirty' d).trans hd, rfl, rfl, rfl, fun _ _ => rfl,
      fun _ _ _ _ => rfl⟩
    · intro d hd
      unfold FtlState.homeBlock
      rw [hhome d hd]
    · intro d hd
      unfold FtlState.homePage
      rw [hhome d hd]
  have hclusters : SameClusters s (s.loaded i c b p data) := by
    intro d hd j _
    unfold FtlState.cluster
    rw [hcached', hnode']
    by_cases hdc : d = c
    · simp only [dataStartBlock] at hb
      rw [if_pos hdc, if_pos hdc, if_pos rfl, pmCacheSlot_cacheAddr, hdc, hcached, hnode,
        pmNodeBlock_set (by omega) (by omega), pmNodePage_set (by omega),
        if_neg Bool.false_ne_true, Flash.words_of_page hpage]
      exact congrFun (congrArg Ram.read (Ram.set_same _ _ _)) j
    · rw [if_neg hdc, if_neg hdc]
      by_cases hdcached : pmNodeIsCached (s.node d) = true
      · rw [if_pos hdcached, if_pos hdcached]
        exact congrFun (congrArg Ram.read (Ram.set_other _ _ (hother d hd hdcached))) j
      · rw [if_neg hdcached, if_neg hdcached]
        rfl
  have hcache' : CacheInv (s.loaded i c b p data) 0 := by
    constructor
    case cached =>
      intro d hd hdc
      by_cases heq : d = c
      · refine ⟨i, Nat.zero_le _, hi, ?_, .inl ?_⟩
        · rw [heq]
          exact Ram.set_same _ _ _
        · rw [hnode', if_pos heq]
      · rw [hcached', if_neg heq] at hdc
        obtain ⟨_, hj, hcluster, hnodej⟩ := hcache.cached_at hd hdc
        refine ⟨pmCacheSlot (s.node d), Nat.zero_le _, hj, ?_, ?_⟩
        · exact (Ram.set_other _ _ (hother d hd hdc)).trans hcluster
        · rw [hnode', if_neg heq]
          exact hnodej
    case slot =>
      intro j hj
      by_cases hji : j = i
      · right
        have hcluster : (s.loaded i c b p data).pmt.cacheCluster j = c := by
          rw [hji]
          exact Ram.set_same _ _ _
        have horigin : (s.loaded i c b p data).pmt.cacheOrigin j = pmNodeSetBlockPage b p := by
          rw [hji]
          exact Ram.set_same _ _ _
        rw [hcluster, horigin]
        refine ⟨hc, pmNodeSetBlockPage_ne_invalid, fun _ => .inl ?_, fun hlt => ?_⟩
        · rw [hnode', if_pos rfl, hji]
        · omega
      · have hcluster : (s.loaded i c b p data).pmt.cacheCluster j = s.pmt.cacheCluster j :=
          Ram.set_other _ _ hji
        have horigin : (s.loaded i c b p data).pmt.cacheOrigin j = s.pmt.cacheOrigin j :=
          Ram.set_other _ _ hji
        rw [hcluster, horigin]
        rcases hcache.slot j hj with hno | ⟨hlt, hvalid, hlive, _⟩
        · exact .inl hno
        · right
          have hjc : s.pmt.cacheCluster j ≠ c := by
            intro heq
            rw [heq] at hlive
            rcases hlive (Nat.zero_le _) with hn | hn
            · rw [hn, pmNodeIsCached_cacheAddr] at hcached
              simp at hcached
            · rw [hn, pmNodeIsCached_cacheAddr_dirty] at hcached
              simp at hcached
          refine ⟨hlt, hvalid, fun hdone => ?_, fun hlt' => by omega⟩
          rw [hnode', if_neg hjc]
          exact hlive hdone
    case home =>
      intro d hd
      rw [hhome d hd]
      exact hcache.home d hd
    case stored =>
      intro d hd hdd
      rw [hdirty'] at hdd
      rw [same.block d hd, same.homePage d hd]
      exact hcache.stored d hd hdd
    case clean =>
      intro d hd hdd j hj
      rw [hdirty'] at hdd
      rw [hclusters d hd j hj, same.block d hd, same.homePage d hd]
      exact hcache.clean d hd hdd j hj
    case meta_lt => exact h.inv.meta_lt
  refine ⟨same.pmtOk (j := 0) h hcache' ?_, hclusters⟩
  exact (Occupancy.congr fun d _ => hdirty' d).le

/-- What an access that may load a cluster leaves: the cluster in the cache, and
nothing else changed since the start or since the end of one commit. -/
structure Accessed (s s' : FtlState) (k c : Nat) : Prop where
  ok : BaseOk s' k
  clusters : SameClusters s s'
  cached : pmNodeIsCached (s'.node c) = true
  start : ∃ u, (u = s ∨ DataCommitted s u k) ∧ OnlyCache u s'

theorem CacheInv.node_word (h : CacheInv s 0) (hc : c < pmtClusterCount)
    (hcached : pmNodeIsCached (s.node c) = false) :
    s.node c = pmNodeSetBlockPage (pmNodeBlock (s.node c)) (pmNodePage (s.node c)) ∧
      pmNodeBlock (s.node c) < dataStartBlock ∧ pmNodePage (s.node c) < 63 ∧
      ∃ data spare, s.flash.page (pmNodeBlock (s.node c)) (pmNodePage (s.node c)) =
        .programmed data spare := by
  obtain ⟨hhome, hdirty⟩ := CacheInv.node_of_not_cached hcached
  obtain ⟨b, p, hword, _, hb, hp⟩ := h.home c hc
  have hstored := h.stored c hc hdirty
  unfold FtlState.homeBlock FtlState.homePage at hstored
  rw [hhome] at hstored hword
  have hb' := hb
  simp only [dataStartBlock] at hb'
  refine ⟨?_, ?_, ?_, hstored⟩
  · rw [hword, pmNodeBlock_set (by omega) (by omega), pmNodePage_set (by omega)]
  · rw [hword, pmNodeBlock_set (by omega) (by omega)]
    exact hb
  · rw [hword, pmNodePage_set (by omega)]
    exact hp

theorem wp_pmtLoadSlot {Q : Status → FtlState → Prop} (hb : b < dataStartBlock) (hp : p < 63)
    {spare : Spare} (hpage : s.flash.page b p = .programmed data spare) :
    wp (pmtLoadSlot i b p c) Q E s ↔ Q .success (s.loaded i c b p data) := by
  have hcap := Platform.ubiCapacity_ge
  simp only [dataStartBlock] at hb
  unfold pmtLoadSlot
  simp only [wp_bind, wp_ubiRead_programmed (by omega : b < ubiCapacity) (by omega : p < 64) hpage,
    if_true, wp_modify, wp_pure, Option.getD_some]
  rfl

theorem FtlState.loaded_only (hc : c < pmtClusterCount) : OnlyCache s (s.loaded i c b p data) :=
  ⟨⟨_, rfl⟩, .of_set hc rfl, rfl, rfl, rfl, rfl, rfl, rfl, rfl, rfl⟩

theorem FtlState.loaded_cached : pmNodeIsCached ((s.loaded i c b p data).node c) = true :=
  (congrArg pmNodeIsCached (Ram.set_same _ _ _)).trans (pmNodeIsCached_cacheAddr i)

theorem pmtLoad_spec (h : BaseOk s k) (hc : c < pmtClusterCount)
    (hcached : pmNodeIsCached (s.node c) = false) :
    wp (pmtLoad (pmNodeBlock (s.node c)) (pmNodePage (s.node c)) c)
      (fun ret s' => ret = .success ∧ Accessed s s' k c) E s := by
  unfold pmtLoad
  rw [wp_bind, wp_get]
  rcases emptySlot_spec s.pmt pmtCacheCount 0 with hfull | ⟨_, hlt, hempty⟩
  · rw [Nat.zero_add] at hfull
    rw [if_pos hfull, wp_bind]
    refine wp_mono_post (dataCommit_spec h) ?_
    rintro _ u ⟨rfl, hu⟩
    have hok := hu.ok h.tables
    have hno := hu.uncached h.tables c hc
    obtain ⟨hword, hb, hp, data, spare, hpage⟩ := hok.pmt.inv.toCacheInv.node_word hc hno
    -- the commit has emptied all slots
    have hslot : u.pmt.cacheOrigin 0 = invalidPmNode := by
      rcases hok.pmt.inv.slot 0 (by decide) with ⟨_, horigin⟩ | ⟨hlt, _, hlive, _⟩
      · exact horigin
      · have := hu.uncached h.tables _ hlt
        rcases hlive (Nat.zero_le _) with hn | hn
        · rw [hn, pmNodeIsCached_cacheAddr] at this
          simp at this
        · rw [hn, pmNodeIsCached_cacheAddr_dirty] at this
          simp at this
    obtain ⟨hpmt, hclusters⟩ := hok.pmt.loaded (by decide) hslot hc hno hword hpage hb hp
    rw [if_pos rfl, wp_bind, wp_get]
    refine (wp_pmtLoadSlot hb hp hpage).mpr ⟨rfl, ?_⟩
    exact ⟨⟨(u.loaded_only hc).tables hok.tables, hpmt⟩,
      (hu.clusters h.tables h.pmt).trans hclusters, u.loaded_cached, u, .inr hu, u.loaded_only hc⟩
  · rw [Nat.zero_add] at hlt
    have hne : emptySlot s.pmt pmtCacheCount 0 ≠ pmtCacheCount := by omega
    obtain ⟨hword, hb, hp, data, spare, hpage⟩ := h.pmt.inv.toCacheInv.node_word hc hcached
    obtain ⟨hpmt, hclusters⟩ := h.pmt.loaded hlt hempty hc hcached hword hpage hb hp
    rw [if_neg hne]
    refine (wp_pmtLoadSlot hb hp hpage).mpr ⟨rfl, ?_⟩
    exact ⟨⟨(s.loaded_only hc).tables h.tables, hpmt⟩, hclusters, s.loaded_cached, s, .inl rfl,
      s.loaded_only hc⟩

theorem pmtEnsureCached_spec (h : BaseOk s k) (hc : c < pmtClusterCount) :
    wp (pmtEnsureCached c) (fun ret s' => ret = .success ∧ Accessed s s' k c) E s := by
  unfold pmtEnsureCached
  rw [wp_bind, wp_get]
  by_cases hcached : pmNodeIsCached (s.node c) = false
  · exact (iff_of_eq (congrArg (fun m => wp m _ E s) (if_pos hcached))).mpr
      (pmtLoad_spec h hc hcached)
  · refine (iff_of_eq (congrArg (fun m => wp m _ E s) (if_neg hcached))).mpr ⟨rfl, ?_⟩
    exact ⟨h, fun _ _ _ _ => rfl, by simpa using hcached, s, .inl rfl, .refl⟩

end

/-! ## Search -/

/-- The block and the page that `PMT_Search` returns for a mapping word. -/
def wordLocation (w : Nat) : Nat × Nat :=
  if w ≠ invalidPmNode then (pmNodeBlock w, pmNodePage w) else (invalidBlock, invalidPage)

section

variable {s s' : FtlState} {k addr : Nat} {E : Stop → Prop}

/-- The words of a cached cluster are in its slot. -/
theorem FtlState.mapping_cached (hcached : pmNodeIsCached (s.node (clusterIndex addr)) = true) :
    s.mapping addr =
      s.pmt.nodeCaches (pmCacheSlot (s.node (clusterIndex addr))) (pageInCluster addr) := by
  unfold FtlState.mapping FtlState.cluster
  rw [if_pos hcached]

theorem SameClusters.mapping (h : SameClusters s s')
    (hc : clusterIndex addr < pmtClusterCount) : s'.mapping addr = s.mapping addr :=
  h _ hc _ (pageInCluster_lt addr)

theorem pmtSearch_spec (h : BaseOk s k) (hc : clusterIndex addr < pmtClusterCount) :
    wp (pmtSearch addr) (fun r s' => r = (.success, some (wordLocation (s.mapping addr))) ∧
      Accessed s s' k (clusterIndex addr)) E s := by
  unfold pmtSearch
  rw [wp_bind]
  refine wp_mono_post (pmtEnsureCached_spec h hc) ?_
  rintro _ t ⟨rfl, ht⟩
  obtain ⟨_, _, _, hnode⟩ := ht.ok.pmt.inv.toCacheInv.cached_at hc ht.cached
  have haligned := Platform.pmNodeCaches_aligned
  have hnull := Platform.pmNodeCaches_ne_null
  have hodd : pmNodeIsCached invalidPmNode = false := rfl
  have hvalid : t.rootTable.pageMappingNodes (clusterIndex addr) ≠ invalidPmNode := by
    intro heq
    have hcached := ht.cached
    unfold FtlState.node at hcached
    rw [heq, hodd] at hcached
    simp at hcached
  have haddress : pmNodeAddress (t.rootTable.pageMappingNodes (clusterIndex addr)) ≠ 0 := by
    unfold FtlState.node pmCacheAddr at hnode
    unfold pmNodeAddress
    rcases hnode with hnode | hnode
    · rw [hnode]; omega
    · rw [hnode]; omega
  simp only [if_true, wp_bind, wp_get, wp_assert, ne_eq, hvalid, haddress, not_false_eq_true]
  have hmapping := ht.clusters.mapping hc
  rw [FtlState.mapping_cached ht.cached] at hmapping
  unfold FtlState.node at hmapping
  rw [hmapping]
  unfold wordLocation
  by_cases hword : s.mapping addr = invalidPmNode
  · simp only [hword, not_true_eq_false, if_false, wp_pure, ne_eq, true_and]
    exact ht
  · simp only [hword, not_false_eq_true, if_true, wp_pure, ne_eq, true_and]
    exact ht

/-- The data layer does not see an access. -/
theorem Accessed.view {c : Nat} (h : Accessed s s' k c) (hs : BaseOk s k) :
    s'.view = s.view := by
  obtain ⟨u, hu, honly⟩ := h.start
  have hclusters : SameClusters u s' := by
    intro d hd j hj
    rw [h.clusters d hd j hj]
    rcases hu with rfl | hu
    · rfl
    · exact (hu.clusters hs.tables hs.pmt d hd j hj).symm
  have hstart : u.view = s.view := by
    rcases hu with rfl | hu
    · rfl
    · exact hu.view hs.tables hs.pmt
  exact (honly.frame.view_eq hclusters).trans hstart

end

/-! ## Update -/

/-- A dirty count after one more page of its block went stale. -/
def staleCount (count : Nat) (isBackup : Bool) : Nat :=
  if isBackup then count ||| backupFlag else (count + 1) % 256

omit [Platform] in
theorem markStale_apply (table : Ram Nat) (block b : Nat) (isBackup : Bool) :
    markStale table block isBackup b =
      if b = block then staleCount (table block) isBackup else table b := by
  unfold markStale staleCount
  split <;> exact Ram.set_apply _ _ _ _

/-- The view after a logical page is mapped to a new word. -/
def DataView.update (v : DataView) (addr w : Nat) (isBackup : Bool) : DataView :=
  { v with
    mapping := fun a => if a = addr then w else v.mapping a
    dirty := fun b =>
      if v.mapping addr ≠ invalidPmNode ∧ b = pmNodeBlock (v.mapping addr) then
        staleCount (v.dirty b) isBackup
      else v.dirty b }

/-- The state after `PMT_Update` of a cached cluster. -/
def FtlState.updated (s : FtlState) (addr w : Nat) (isBackup : Bool) : FtlState :=
  let c := clusterIndex addr
  let old := s.mapping addr
  let slot := pmCacheSlot (s.node c)
  { s with
    rootTable := { s.rootTable with
      pageMappingNodes := s.rootTable.pageMappingNodes.set c (pmNodeSetDirty (s.node c))
      backupBlockCount :=
        if old ≠ invalidPmNode ∧ isBackup ∧ s.blockDirtyTable (pmNodeBlock old) < backupFlag then
          (s.rootTable.backupBlockCount + 1) % 4294967296
        else s.rootTable.backupBlockCount }
    blockDirtyTable :=
      if old ≠ invalidPmNode then markStale s.blockDirtyTable (pmNodeBlock old) isBackup
      else s.blockDirtyTable
    pmt := { s.pmt with
      nodeCaches := s.pmt.nodeCaches.set slot
        ((s.pmt.nodeCaches slot).set (pageInCluster addr) w) } }

/-- The word that `PMT_Update` stores. -/
def updateWord (block page : Nat) : Nat :=
  if block ≠ invalidBlock then pmNodeSetBlockPage block page else invalidPmNode

section

variable {s s' : FtlState} {k addr w : Nat} {isBackup : Bool} {E : Stop → Prop}

theorem FtlState.updated_node (c : Nat) : (s.updated addr w isBackup).node c =
    if c = clusterIndex addr then pmNodeSetDirty (s.node (clusterIndex addr)) else s.node c :=
  Ram.set_apply _ _ _ _

theorem PmtOk.updated (w : Nat) (isBackup : Bool) (h : PmtOk s 0 (k + 1)) (haddr : addr < ftlCapacity)
    (hcached : pmNodeIsCached (s.node (clusterIndex addr)) = true)
    (hold : s.mapping addr = invalidPmNode ∨ dataStartBlock ≤ pmNodeBlock (s.mapping addr)) :
    PmtOk (s.updated addr w isBackup) 0 k ∧
      ∀ a, clusterIndex a < pmtClusterCount → (s.updated addr w isBackup).mapping a =
        if a = addr then w else s.mapping a := by
  set c := clusterIndex addr with hcdef
  have hc : c < pmtClusterCount := clusterIndex_lt haddr
  have hcache := h.inv.toCacheInv
  obtain ⟨_, hi, hcluster, hnode⟩ := hcache.cached_at hc hcached
  set i := pmCacheSlot (s.node c) with hidef
  have hset : pmNodeSetDirty (s.node c) = pmCacheAddr i + 2 := by
    rcases hnode with hnode | hnode
    · rw [hnode, pmNodeSetDirty_cacheAddr]
    · rw [hnode, pmNodeSetDirty_cacheAddr_dirty]
  have hnode' : ∀ d, (s.updated addr w isBackup).node d =
      if d = c then pmCacheAddr i + 2 else s.node d := by
    intro d
    rw [FtlState.updated_node, hset]
  have hcached' : ∀ d, pmNodeIsCached ((s.updated addr w isBackup).node d) =
      pmNodeIsCached (s.node d) := by
    intro d
    rw [hnode']
    split
    · next hdc => rw [hdc, hcached, pmNodeIsCached_cacheAddr_dirty]
    · rfl
  have hslot' : ∀ d, pmCacheSlot ((s.updated addr w isBackup).node d) =
      pmCacheSlot (s.node d) := by
    intro d
    rw [hnode']
    split
    · next hdc => rw [hdc, pmCacheSlot_cacheAddr_dirty]
    · rfl
  have hdirty' : ∀ d, (s.updated addr w isBackup).isDirty d =
      if d = c then true else s.isDirty d := by
    intro d
    unfold FtlState.isDirty
    rw [hcached', hnode']
    by_cases hdc : d = c
    · rw [if_pos hdc, if_pos hdc, hdc, hcached, pmNodeIsDirty_cacheAddr_dirty]
      rfl
    · rw [if_neg hdc, if_neg hdc]
  have hhome : ∀ d, (s.updated addr w isBackup).home d = s.home d := by
    intro d
    unfold FtlState.home
    rw [hcached', hslot', hnode']
    split
    · rfl
    · next hdcached =>
        rw [if_neg]
        rintro rfl
        exact hdcached hcached
  have same : SameHomes s (s.updated addr w isBackup) := by
    refine ⟨?_, ?_, ?_, rfl, rfl, rfl, ?_, fun _ _ _ _ => rfl⟩
    · intro d _
      unfold FtlState.homeBlock
      rw [hhome]
    · intro d _
      unfold FtlState.homePage
      rw [hhome]
    · intro d _ hd
      rw [hdirty']
      split
      · rfl
      · exact hd
    · intro b hb
      change (if s.mapping addr ≠ invalidPmNode then markStale s.blockDirtyTable _ isBackup
        else s.blockDirtyTable) b = _
      split
      · next hvalid =>
          rw [markStale_apply, if_neg]
          rintro rfl
          rcases hold with hold | hold
          · exact hvalid hold
          · omega
      · rfl
  have hcaches : ∀ j, j ≠ i →
      (s.updated addr w isBackup).pmt.nodeCaches j = s.pmt.nodeCaches j :=
    fun j hj => Ram.set_other _ _ hj
  have hother : ∀ d, d < pmtClusterCount → d ≠ c →
      (s.updated addr w isBackup).cluster d = s.cluster d := by
    intro d hd hdc
    unfold FtlState.cluster
    rw [hcached', hslot', hnode', if_neg hdc]
    split
    · next hdcached =>
        have hslot := (hcache.cached_at hd hdcached).2.2.1
        rw [hcaches]
        intro heq
        rw [heq, hcluster] at hslot
        exact hdc hslot.symm
    · rfl
  have hself : (s.updated addr w isBackup).cluster c =
      (s.pmt.nodeCaches i).set (pageInCluster addr) w := by
    unfold FtlState.cluster
    rw [hcached', if_pos hcached, hslot', ← hidef]
    exact congrArg Ram.read (Ram.set_same _ _ _)
  have hcache' : CacheInv (s.updated addr w isBackup) 0 := by
    constructor
    case cached =>
      intro d hd hdc
      rw [hcached'] at hdc
      obtain ⟨_, hj, hdcluster, hdnode⟩ := hcache.cached_at hd hdc
      refine ⟨pmCacheSlot (s.node d), Nat.zero_le _, hj, hdcluster, ?_⟩
      rw [hnode']
      split
      · next heq =>
          right
          rw [hidef, heq]
      · exact hdnode
    case slot =>
      intro j hj
      rcases hcache.slot j hj with hno | ⟨hlt, hvalid, hlive, _⟩
      · exact .inl hno
      · right
        refine ⟨hlt, hvalid, fun hdone => ?_, fun hlt' => by omega⟩
        change (s.updated addr w isBackup).node (s.pmt.cacheCluster j) = _ ∨
          (s.updated addr w isBackup).node (s.pmt.cacheCluster j) = _
        rw [hnode']
        split
        · next heq =>
            right
            have : i = j := hcache.slot_unique hc hcached hj heq
            rw [this]
        · exact hlive hdone
    case home =>
      intro d hd
      rw [hhome]
      exact hcache.home d hd
    case stored =>
      intro d hd hdd
      rw [hdirty'] at hdd
      split at hdd
      · simp at hdd
      · rw [same.block d hd, same.homePage d hd]
        exact hcache.stored d hd hdd
    case clean =>
      intro d hd hdd j hj
      rw [hdirty'] at hdd
      split at hdd
      · simp at hdd
      · next hdc =>
          rw [hother d hd hdc, same.block d hd, same.homePage d hd]
          exact hcache.clean d hd hdd j hj
    case meta_lt => exact h.inv.meta_lt
  refine ⟨same.pmtOk (j := 1) h hcache' ?_, ?_⟩
  · have hmove := Occupancy.move (f := s.isDirty) (g := (s.updated addr w isBackup).isDirty)
      (b := true) hc fun d _ hdc => by rw [hdirty', if_neg hdc]
    unfold FtlState.dirtyClusters
    rw [hdirty', if_pos rfl] at hmove
    simp only [if_true] at hmove
    omega
  · intro a ha
    unfold FtlState.mapping
    by_cases hac : clusterIndex a = c
    · rw [hac, hself, Ram.set_apply]
      by_cases haa : a = addr
      · rw [if_pos haa, haa, if_pos rfl]
      · have hne : pageInCluster a ≠ pageInCluster addr := by
          unfold clusterIndex at hac hcdef
          unfold pageInCluster
          omega
        rw [if_neg haa, if_neg hne]
        unfold FtlState.cluster
        rw [if_pos hcached]
    · have haa : a ≠ addr := by
        rintro rfl
        exact hac rfl
      rw [if_neg haa, hother _ ha hac]

theorem FtlState.updated_view (haddr : addr < ftlCapacity)
    (hold : s.mapping addr = invalidPmNode ∨ dataStartBlock ≤ pmNodeBlock (s.mapping addr))
    (hmapping : ∀ a, a < ftlCapacity → (s.updated addr w isBackup).mapping a =
      if a = addr then w else s.mapping a) :
    (s.updated addr w isBackup).view = s.view.update addr w isBackup := by
  have hview : s.view.mapping addr = s.mapping addr := if_pos haddr
  unfold FtlState.view DataView.update
  congr 1
  · funext a
    change _ = if a = addr then w else if a < ftlCapacity then s.mapping a else invalidPmNode
    by_cases ha : a < ftlCapacity
    · rw [if_pos ha, if_pos ha, hmapping a ha]
    · rw [if_neg ha, if_neg ha, if_neg]
      rintro rfl
      exact ha haddr
  · funext b
    change (if dataStartBlock ≤ b then (if s.mapping addr ≠ invalidPmNode then
      markStale s.blockDirtyTable (pmNodeBlock (s.mapping addr)) isBackup
      else s.blockDirtyTable) b else 0) =
      if s.view.mapping addr ≠ invalidPmNode ∧ b = pmNodeBlock (s.view.mapping addr) then
        staleCount (if dataStartBlock ≤ b then s.blockDirtyTable b else 0) isBackup
      else if dataStartBlock ≤ b then s.blockDirtyTable b else 0
    rw [hview]
    by_cases hvalid : s.mapping addr = invalidPmNode
    · simp only [hvalid, ne_eq, not_true_eq_false, if_false, false_and]
    · have hblock : dataStartBlock ≤ pmNodeBlock (s.mapping addr) := by
        rcases hold with hold | hold
        · exact absurd hold hvalid
        · exact hold
      simp only [hvalid, ne_eq, not_false_eq_true, if_true, true_and]
      by_cases hb : dataStartBlock ≤ b
      · rw [if_pos hb, if_pos hb, markStale_apply]
        by_cases heq : b = pmNodeBlock (s.mapping addr)
        · rw [if_pos heq, if_pos heq, heq]
        · rw [if_neg heq, if_neg heq]
      · rw [if_neg hb, if_neg hb, if_neg]
        rintro rfl
        exact hb hblock

theorem wp_pmtSetWord {block page : Nat} {Q : Unit → FtlState → Prop}
    (hcached : pmNodeIsCached (s.node (clusterIndex addr)) = true)
    (hpage : block = invalidBlock ↔ page = invalidPage) :
    wp (pmtSetWord addr block page isBackup) Q E s ↔
      Q () (s.updated addr (updateWord block page) isBackup) := by
  have hword := FtlState.mapping_cached hcached
  unfold FtlState.node at hword
  unfold pmtSetWord FtlState.updated updateWord FtlState.node
  rw [wp_bind, wp_get]
  simp only [hword]
  by_cases hinvalid : s.pmt.nodeCaches (pmCacheSlot (s.rootTable.pageMappingNodes
      (clusterIndex addr))) (pageInCluster addr) = invalidPmNode
  · by_cases hb : block = invalidBlock
    · simp only [hinvalid, hb, hpage.mp hb, wp_bind, wp_assert, wp_modify, ne_eq,
        not_true_eq_false, if_true, if_false, false_and]
    · simp only [hinvalid, hb, mt hpage.mpr hb, wp_bind, wp_assert, wp_modify, ne_eq,
        not_true_eq_false, not_false_eq_true, if_true, if_false, false_and]
  · by_cases hb : block = invalidBlock
    · simp only [hinvalid, hb, hpage.mp hb, wp_bind, wp_assert, wp_modify, ne_eq,
        not_true_eq_false, not_false_eq_true, if_true, if_false, true_and]
    · simp only [hinvalid, hb, mt hpage.mpr hb, wp_bind, wp_assert, wp_modify, ne_eq,
        not_false_eq_true, if_true, true_and]

/-- `PMT_Update` succeeds, and to the data layer it only maps the page anew. -/
theorem pmtUpdate_spec {block page : Nat} (h : BaseOk s (k + 1)) (haddr : addr < ftlCapacity)
    (hold : s.mapping addr = invalidPmNode ∨ dataStartBlock ≤ pmNodeBlock (s.mapping addr))
    (hpage : block = invalidBlock ↔ page = invalidPage) :
    wp (pmtUpdate addr block page isBackup)
      (fun ret s' => ret = .success ∧ BaseOk s' k ∧
        s'.view = s.view.update addr (updateWord block page) isBackup ∧
        ∃ t, Accessed s t (k + 1) (clusterIndex addr) ∧
          s' = t.updated addr (updateWord block page) isBackup) E s := by
  unfold pmtUpdate
  rw [wp_bind]
  refine wp_mono_post (pmtEnsureCached_spec h (clusterIndex_lt haddr)) ?_
  rintro _ t ⟨rfl, ht⟩
  have hmap := ht.clusters.mapping (clusterIndex_lt haddr)
  rw [← hmap] at hold
  have hupdated := ht.ok.pmt.updated (updateWord block page) isBackup haddr ht.cached hold
  simp only [if_true, wp_bind, wp_pmtSetWord ht.cached hpage, wp_pure]
  refine ⟨trivial, ⟨ht.ok.tables.congr (fun _ _ _ => rfl) rfl rfl rfl, hupdated.1⟩, ?_, t, ht, rfl⟩
  rw [FtlState.updated_view haddr hold fun a ha => hupdated.2 a (clusterIndex_lt ha), ht.view h]

end

end RansomTag

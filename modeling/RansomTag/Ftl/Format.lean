import RansomTag.Ftl.Mount

/-!
# Format and the first mount

`main` formats the device and mounts it at every start.  The state after that
keeps the invariant of the translation layer, both journals are empty, and no
page is mapped.
-/

namespace RansomTag

open Program

/-- Where `PMT_Format` puts a cluster. -/
def formatBlock (c : Nat) : Nat := pmtStartBlock + c / 63

def formatPage (c : Nat) : Nat := c % 63

/-- The page of a cluster without mappings. -/
def emptyCluster : Buffer := .words (.const invalidPmNode)

variable [Platform]

/-- The first `n` clusters are formatted, and the rest of the mapping blocks is
erased. -/
structure ClustersFormatted (s : FtlState) (n : Nat) : Prop where
  node : ∀ c, c < n →
    s.rootTable.pageMappingNodes c = pmNodeSetBlockPage (formatBlock c) (formatPage c)
  page : ∀ c, c < n →
    s.flash.page (formatBlock c) (formatPage c) = .programmed emptyCluster (.footprint c)
  table : ∀ b, pmtStartBlock ≤ b → b < formatBlock n → ∃ table,
    s.flash.page b 63 = .programmed table .null ∧
      ∀ p, p < 63 → table.node p = (b - pmtStartBlock) * 63 + p
  named : ∀ p, p < formatPage n → s.pmt.metaData p = n / 63 * 63 + p
  meta_lt : ∀ p, s.pmt.metaData p < pmtClusterCount
  free : ∀ b p, formatBlock n < b ∨ b = formatBlock n ∧ formatPage n ≤ p →
    s.flash.page b p = .erased

/-! ## Format of the mapping table -/

namespace FtlState

variable (s : FtlState)

/-- The page of a cluster is written. -/
def formatCluster (n : Nat) : FtlState :=
  let t := s.program (formatBlock n) (formatPage n) emptyCluster (.footprint n)
  { t with
    pmt := { s.pmt with metaData := s.pmt.metaData.set (formatPage n) n }
    rootTable := { s.rootTable with
      pageMappingNodes := s.rootTable.pageMappingNodes.set n
        (pmNodeSetBlockPage (formatBlock n) (formatPage n)) } }

/-- The meta data of a full block is written. -/
def formatMeta (b : Nat) : FtlState :=
  let t := s.program b 63 (.words s.pmt.metaData) .null
  { t with blockDirtyTable := s.blockDirtyTable.set b 0 }

/-- One round of the loop of `PMT_Format`. -/
def formatRound (n : Nat) : FtlState :=
  if formatPage n + 1 = 63 then (s.formatCluster n).formatMeta (formatBlock n)
  else s.formatCluster n

/-- The state after `n` rounds. -/
def formatClusters : Nat → FtlState
  | 0 => s
  | n + 1 => (formatClusters n).formatRound n

end FtlState

section

variable {s : FtlState} {n i : Nat} {E : Stop → Prop}

omit [Platform] in
theorem formatBlock_succ (h : formatPage n + 1 = 63) :
    formatBlock (n + 1) = formatBlock n + 1 ∧ formatPage (n + 1) = 0 := by
  unfold formatPage formatBlock at *
  omega

omit [Platform] in
theorem formatBlock_succ_of_ne (h : formatPage n + 1 ≠ 63) :
    formatBlock (n + 1) = formatBlock n ∧ formatPage (n + 1) = formatPage n + 1 := by
  unfold formatPage formatBlock at *
  omega

theorem pmtFormatClusters_spec {Q : Status × Nat × Nat → FtlState → Prop} (hn : i + n ≤ 119)
    (hQ : Q (.success, formatBlock (i + n), formatPage (i + n)) (s.formatClusters (i + n))) :
    wp (pmtFormatClusters n i .success (formatBlock i) (formatPage i)) Q E
      (s.formatClusters i) := by
  have hcap := Platform.ubiCapacity_ge
  induction n generalizing i with
  | zero => exact hQ
  | succ n ih =>
      have hblock : formatBlock i < ubiCapacity := by
        unfold formatBlock
        simp only [pmtStartBlock]
        omega
      have hnext := ih (i := i + 1) (by omega) (by rw [Nat.add_right_comm]; exact hQ)
      unfold pmtFormatClusters
      simp only [if_true, wp_bind]
      rw [wp_ubiWrite hblock]
      simp only [if_true, wp_bind, wp_modify]
      have hround : s.formatClusters (i + 1) = (s.formatClusters i).formatRound i := rfl
      rw [hround] at hnext
      unfold FtlState.formatRound at hnext
      by_cases hfull : formatPage i + 1 = 63
      · have hlast : formatPage i + 1 = pagePerPhyBlock - 1 := hfull
        obtain ⟨hb, hp⟩ := formatBlock_succ hfull
        rw [if_pos hlast]
        simp only [wp_bind, wp_get]
        rw [wp_ubiWrite hblock, wp_modify]
        rw [if_pos hfull, hb, hp] at hnext
        rw [hfull]
        exact hnext
      · have hlast : ¬ formatPage i + 1 = pagePerPhyBlock - 1 := hfull
        obtain ⟨hb, hp⟩ := formatBlock_succ_of_ne hfull
        rw [if_neg hlast]
        rw [if_neg hfull, hb, hp] at hnext
        exact hnext

omit [Platform] in
theorem formatBlock_inj {c : Nat} (hb : formatBlock c = formatBlock n)
    (hp : formatPage c = formatPage n) : c = n := by
  unfold formatBlock formatPage at *
  omega

/-- A round that does not fill its block. -/
theorem ClustersFormatted.cluster (h : ClustersFormatted s n) (hn : n < pmtClusterCount)
    (hfull : formatPage n + 1 ≠ 63) : ClustersFormatted (s.formatCluster n) (n + 1) := by
  obtain ⟨hb, hp⟩ := formatBlock_succ_of_ne hfull
  have hother : ∀ b p, ¬ (b = formatBlock n ∧ p = formatPage n) →
      (s.formatCluster n).flash.page b p = s.flash.page b p :=
    fun b p hne => Flash.page_program_other hne
  have hmeta : (s.formatCluster n).pmt.metaData = s.pmt.metaData.set (formatPage n) n := rfl
  refine ⟨fun c hc => ?_, fun c hc => ?_, fun b hlow hhigh => ?_, fun p hlt => ?_, fun p => ?_,
    fun b p hfree => ?_⟩
  · change s.rootTable.pageMappingNodes.set n _ c = _
    rw [Ram.set_apply]
    split
    · next heq => rw [heq]
    · exact h.node c (by omega)
  · by_cases hcn : c = n
    · rw [hcn]
      exact Flash.page_program_erased (h.free _ _ (.inr ⟨rfl, le_rfl⟩))
    · rw [hother _ _ fun heq => hcn (formatBlock_inj heq.1 heq.2)]
      exact h.page c (by omega)
  · rw [hb] at hhigh
    rw [hother _ _ (by omega)]
    exact h.table b hlow hhigh
  · rw [hp] at hlt
    rw [hmeta, Ram.set_apply]
    have hdiv : (n + 1) / 63 = n / 63 := by
      unfold formatPage at hfull
      omega
    rw [hdiv]
    split
    · next heq =>
        rw [heq]
        unfold formatPage
        omega
    · exact h.named p (by omega)
  · rw [hmeta, Ram.set_apply]
    split
    · exact hn
    · exact h.meta_lt p
  · rw [hb, hp] at hfree
    rw [hother _ _ (by omega)]
    exact h.free b p (by omega)

/-- A round that fills its block. -/
theorem ClustersFormatted.block (h : ClustersFormatted s n) (hn : n < pmtClusterCount)
    (hfull : formatPage n + 1 = 63) :
    ClustersFormatted ((s.formatCluster n).formatMeta (formatBlock n)) (n + 1) := by
  obtain ⟨hb, hp⟩ := formatBlock_succ hfull
  have hother : ∀ b p, ¬ (b = formatBlock n ∧ p = formatPage n) →
      ¬ (b = formatBlock n ∧ p = 63) →
      ((s.formatCluster n).formatMeta (formatBlock n)).flash.page b p = s.flash.page b p :=
    fun b p hne hne' => (Flash.page_program_other hne').trans (Flash.page_program_other hne)
  have hmeta : ((s.formatCluster n).formatMeta (formatBlock n)).pmt.metaData =
      s.pmt.metaData.set (formatPage n) n := rfl
  have hlast : ((s.formatCluster n).formatMeta (formatBlock n)).flash.page (formatBlock n) 63 =
      .programmed (.words (s.pmt.metaData.set (formatPage n) n)) .null := by
    apply Flash.page_program_erased
    have hkept : (s.formatCluster n).flash.page (formatBlock n) 63 =
        s.flash.page (formatBlock n) 63 := Flash.page_program_other (by omega)
    rw [hkept]
    exact h.free _ _ (.inr ⟨rfl, by omega⟩)
  refine ⟨fun c hc => ?_, fun c hc => ?_, fun b hlow hhigh => ?_, fun p hlt => ?_, fun p => ?_,
    fun b p hfree => ?_⟩
  · change s.rootTable.pageMappingNodes.set n _ c = _
    rw [Ram.set_apply]
    split
    · next heq => rw [heq]
    · exact h.node c (by omega)
  · have hpage : formatPage c ≠ 63 := by
      unfold formatPage
      omega
    by_cases hcn : c = n
    · rw [hcn] at hpage ⊢
      have hkept : ((s.formatCluster n).formatMeta (formatBlock n)).flash.page (formatBlock n)
          (formatPage n) = (s.formatCluster n).flash.page (formatBlock n) (formatPage n) :=
        Flash.page_program_other fun heq => hpage heq.2
      rw [hkept]
      exact Flash.page_program_erased (h.free _ _ (.inr ⟨rfl, le_rfl⟩))
    · rw [hother _ _ (fun heq => hcn (formatBlock_inj heq.1 heq.2)) fun heq => hpage heq.2]
      exact h.page c (by omega)
  · by_cases hbn : b = formatBlock n
    · rw [hbn]
      refine ⟨_, hlast, fun p hlt => ?_⟩
      change s.pmt.metaData.set (formatPage n) n p = _
      rw [Ram.set_apply]
      split
      · next heq =>
          rw [heq]
          unfold formatPage formatBlock
          omega
      · rw [h.named p (by omega)]
        unfold formatBlock
        omega
    · rw [hother _ _ (fun heq => hbn heq.1) fun heq => hbn heq.1]
      exact h.table b hlow (by omega)
  · omega
  · rw [hmeta, Ram.set_apply]
    split
    · exact hn
    · exact h.meta_lt p
  · rw [hb, hp] at hfree
    rw [hother _ _ (by omega) (by omega)]
    exact h.free b p (by omega)

theorem ClustersFormatted.round (h : ClustersFormatted s n) (hn : n < pmtClusterCount) :
    ClustersFormatted (s.formatRound n) (n + 1) := by
  unfold FtlState.formatRound
  by_cases hfull : formatPage n + 1 = 63
  · rw [if_pos hfull]
    exact h.block hn hfull
  · rw [if_neg hfull]
    exact h.cluster hn hfull

/-- The rounds write the mapping blocks and nothing else, and clear the counts of
the blocks they fill. -/
structure RoundsDone (s s' : FtlState) (n : Nat) : Prop where
  page : ∀ b, b < pmtStartBlock ∨ formatBlock n < b → ∀ p,
    s'.flash.page b p = s.flash.page b p
  dirty : ∀ b, s'.blockDirtyTable b =
    if pmtStartBlock ≤ b ∧ b < formatBlock n then 0 else s.blockDirtyTable b
  rootTable : ∃ nodes, s'.rootTable = { s.rootTable with pageMappingNodes := nodes }
  hdi : s'.hdi = s.hdi
  data : s'.data = s.data

omit [Platform] in
theorem formatClusters_done : RoundsDone s (s.formatClusters n) n := by
  induction n with
  | zero =>
      refine ⟨fun _ _ _ => rfl, fun b => ?_, ⟨_, rfl⟩, rfl, rfl⟩
      rw [if_neg (by unfold formatBlock; omega)]
      rfl
  | succ n ih =>
      have hround : s.formatClusters (n + 1) = (s.formatClusters n).formatRound n := rfl
      obtain ⟨nodes, hnodes⟩ := ih.rootTable
      obtain ⟨nodes', hnodes'⟩ : ∃ nodes', ((s.formatClusters n).formatCluster n).rootTable =
          { (s.formatClusters n).rootTable with pageMappingNodes := nodes' } := ⟨_, rfl⟩
      have hlow : pmtStartBlock ≤ formatBlock n := by
        unfold formatBlock
        omega
      rw [hround]
      unfold FtlState.formatRound
      by_cases hfull : formatPage n + 1 = 63
      · obtain ⟨hb, _⟩ := formatBlock_succ hfull
        rw [if_pos hfull]
        refine ⟨fun b hne p => ?_, fun b => ?_, ?_, ih.hdi, ih.data⟩
        · rw [hb] at hne
          have hout : b ≠ formatBlock n := by omega
          exact ((Flash.page_program_other fun heq => hout heq.1).trans
            (Flash.page_program_other fun heq => hout heq.1)).trans (ih.page b (by omega) p)
        · change (s.formatClusters n).blockDirtyTable.set (formatBlock n) 0 b = _
          rw [Ram.set_apply, ih.dirty, hb]
          split_ifs <;> omega
        · refine ⟨nodes', hnodes'.trans ?_⟩
          rw [hnodes]
      · obtain ⟨hb, _⟩ := formatBlock_succ_of_ne hfull
        rw [if_neg hfull]
        refine ⟨fun b hne p => ?_, fun b => ?_, ?_, ih.hdi, ih.data⟩
        · rw [hb] at hne
          have hout : b ≠ formatBlock n := by omega
          exact (Flash.page_program_other fun heq => hout heq.1).trans (ih.page b (by omega) p)
        · rw [hb]
          exact ih.dirty b
        · refine ⟨nodes', hnodes'.trans ?_⟩
          rw [hnodes]

theorem formatClusters_formatted (h : ClustersFormatted s 0) (hn : n ≤ pmtClusterCount) :
    ClustersFormatted (s.formatClusters n) n := by
  induction n with
  | zero => exact h
  | succ n ih => exact (ih (by omega)).round (by omega)

end

/-! ## The formatted device -/

/-- The three blocks that `DATA_Format` erases for the journals. -/
def journalBlocks (b : Nat) : Prop :=
  b = dataStartBlock ∨ b = dataStartBlock + 1 ∨ b = dataStartBlock + 2

instance (b : Nat) : Decidable (journalBlocks b) := inferInstanceAs (Decidable (_ ∨ _ ∨ _))

/-- What `FTL_Format` leaves besides the logs of the tables. -/
structure Formatted (s : FtlState) : Prop where
  clusters : ClustersFormatted s pmtClusterCount
  hot : s.rootTable.hotJournal = pmNodeSetBlockPage dataStartBlock 0
  cold : s.rootTable.coldJournal = pmNodeSetBlockPage (dataStartBlock + 1) 0
  reclaim : s.rootTable.reclaimJournal = pmNodeSetBlockPage (dataStartBlock + 2) 0
  current : s.rootTable.pmtCurrentBlock =
    pmNodeSetBlockPage (formatBlock pmtClusterCount) (formatPage pmtClusterCount)
  spare : s.rootTable.pmtReclaimBlock = pmNodeSetBlockPage (formatBlock pmtClusterCount + 1) 0
  dirty : ∀ b, pmtStartBlock ≤ b → b < cfgLogBlockCount → s.blockDirtyTable b =
    if b ≤ formatBlock pmtClusterCount + 1 ∨ journalBlocks b then 0 else 63

/-- The cache of `PMT_Init` is empty. -/
structure EmptyCache (s : FtlState) : Prop where
  origin : ∀ i, s.pmt.cacheOrigin i = invalidPmNode
  cluster : ∀ i, s.pmt.cacheCluster i = invalidCluster

section

variable {s s' : FtlState}

/-- `Formatted` reads neither the first six blocks nor the links to the tables. -/
theorem Formatted.congr (h : Formatted s)
    (hpage : ∀ b, pmtStartBlock ≤ b → ∀ p, s'.flash.page b p = s.flash.page b p)
    (hnodes : ∀ c, s'.rootTable.pageMappingNodes c = s.rootTable.pageMappingNodes c)
    (hmeta : s'.pmt.metaData = s.pmt.metaData)
    (hhot : s'.rootTable.hotJournal = s.rootTable.hotJournal)
    (hcold : s'.rootTable.coldJournal = s.rootTable.coldJournal)
    (hreclaim : s'.rootTable.reclaimJournal = s.rootTable.reclaimJournal)
    (hcurrent : s'.rootTable.pmtCurrentBlock = s.rootTable.pmtCurrentBlock)
    (hspare : s'.rootTable.pmtReclaimBlock = s.rootTable.pmtReclaimBlock)
    (hdirty : ∀ b, pmtStartBlock ≤ b → b < cfgLogBlockCount →
      s'.blockDirtyTable b = s.blockDirtyTable b) : Formatted s' := by
  have hlow : ∀ c, pmtStartBlock ≤ formatBlock c := by
    intro c
    unfold formatBlock
    omega
  refine ⟨⟨fun c hc => ?_, fun c hc => ?_, fun b hb hb' => ?_, fun p hp => ?_, fun p => ?_,
    fun b p hfree => ?_⟩, hhot.trans h.hot, hcold.trans h.cold, hreclaim.trans h.reclaim,
    hcurrent.trans h.current, hspare.trans h.spare, fun b hb hb' => ?_⟩
  · rw [hnodes]
    exact h.clusters.node c hc
  · rw [hpage _ (hlow c)]
    exact h.clusters.page c hc
  · rw [hpage b hb]
    exact h.clusters.table b hb hb'
  · rw [hmeta]
    exact h.clusters.named p hp
  · rw [hmeta]
    exact h.clusters.meta_lt p
  · have := hlow pmtClusterCount
    rw [hpage b (by omega)]
    exact h.clusters.free b p hfree
  · rw [hdirty b hb hb']
    exact h.dirty b hb hb'

omit [Platform] in
/-- The clusters fill one block after the other. -/
theorem occupancy_formatBlock (n b : Nat) (hb : pmtStartBlock ≤ b) :
    occupancy formatBlock n b = min 63 (n - (b - pmtStartBlock) * 63) := by
  simp only [pmtStartBlock] at hb
  induction n with
  | zero =>
      rw [Occupancy.eq_zero_iff.mpr fun k hk => absurd hk (Nat.not_lt_zero k)]
      omega
  | succ n ih =>
      rw [Occupancy.succ, ih]
      unfold formatBlock
      simp only [pmtStartBlock]
      split <;> omega

theorem formatted_bounds : formatBlock pmtClusterCount ≤ 7 ∧ formatPage pmtClusterCount < 63 ∧
    pmtStartBlock ≤ formatBlock pmtClusterCount := by
  have hle := pmtClusterCount_le
  unfold formatBlock formatPage
  simp only [pmtStartBlock]
  omega

namespace Formatted

/-- No cluster is cached. -/
theorem home (h : Formatted s) {c : Nat} (hc : c < pmtClusterCount) :
    s.home c = pmNodeSetBlockPage (formatBlock c) (formatPage c) ∧ s.isDirty c = false ∧
      s.homeBlock c = formatBlock c ∧ s.homePage c = formatPage c := by
  have hnode : s.node c = pmNodeSetBlockPage (formatBlock c) (formatPage c) := h.clusters.node c hc
  have hle := pmtClusterCount_le
  have hcached : pmNodeIsCached (s.node c) = false := by
    rw [hnode]
    exact pmNodeIsCached_set
  obtain ⟨hhome, hclean⟩ := CacheInv.node_of_not_cached hcached
  have hrange : formatBlock c < 16777216 ∧ formatPage c < 64 := by
    unfold formatBlock formatPage
    simp only [pmtStartBlock]
    omega
  rw [hnode] at hhome
  refine ⟨hhome, hclean, ?_, ?_⟩
  · unfold FtlState.homeBlock
    rw [hhome, pmNodeBlock_set hrange.1 hrange.2]
  · unfold FtlState.homePage
    rw [hhome, pmNodePage_set hrange.2]

theorem homes (h : Formatted s) {b : Nat} (hb : pmtStartBlock ≤ b) :
    s.homes b = min 63 (pmtClusterCount - (b - pmtStartBlock) * 63) := by
  rw [← occupancy_formatBlock _ _ hb]
  exact Occupancy.congr fun c hc => (h.home hc).2.2.1

theorem pmtBlock (h : Formatted s) : s.rootTable.pmtBlock = formatBlock pmtClusterCount ∧
    s.rootTable.pmtPage = formatPage pmtClusterCount ∧
    s.pmtSpare = formatBlock pmtClusterCount + 1 := by
  obtain ⟨hb, hp, _⟩ := formatted_bounds
  refine ⟨?_, ?_, ?_⟩
  · unfold Root.pmtBlock
    rw [h.current, pmNodeBlock_set (by omega) (by omega)]
  · unfold Root.pmtPage
    rw [h.current, pmNodePage_set (by omega)]
  · unfold FtlState.pmtSpare
    rw [h.spare, pmNodeBlock_set (by omega) (by omega)]

theorem cacheInv (h : Formatted s) (hcache : EmptyCache s) : CacheInv s 0 where
  cached := by
    intro c hc hcached
    have hnode : s.node c = pmNodeSetBlockPage (formatBlock c) (formatPage c) :=
      h.clusters.node c hc
    rw [hnode, pmNodeIsCached_set] at hcached
    exact absurd hcached (by simp)
  slot := fun i _ => .inl ⟨hcache.cluster i, hcache.origin i⟩
  home := by
    intro c hc
    have hle := pmtClusterCount_le
    have hrange : pmtStartBlock ≤ formatBlock c ∧ formatBlock c < dataStartBlock ∧
        formatPage c < 63 := by
      unfold formatBlock formatPage
      simp only [pmtStartBlock, dataStartBlock]
      omega
    exact ⟨formatBlock c, formatPage c, (h.home hc).1, hrange⟩
  stored := by
    intro c hc _
    obtain ⟨_, _, hblock, hpage⟩ := h.home hc
    rw [hblock, hpage]
    exact ⟨_, _, h.clusters.page c hc⟩
  clean := by
    intro c hc _ k _
    have hnode : s.node c = pmNodeSetBlockPage (formatBlock c) (formatPage c) :=
      h.clusters.node c hc
    have hcached : pmNodeIsCached (s.node c) = false := by
      rw [hnode]
      exact pmNodeIsCached_set
    have hhome := (CacheInv.node_of_not_cached hcached).1
    unfold FtlState.cluster FtlState.homeBlock FtlState.homePage
    rw [if_neg (by simp [hcached]), hhome]
  meta_lt := h.clusters.meta_lt

theorem pmtInv (h : Formatted s) (hcache : EmptyCache s) : PmtInv s 0 := by
  obtain ⟨hb, hp, hlow⟩ := formatted_bounds
  obtain ⟨hblock, hpage, hspare⟩ := h.pmtBlock
  have hclear : s.homes (formatBlock pmtClusterCount + 1) = 0 := by
    rw [h.homes (by omega)]
    unfold formatBlock
    simp only [pmtStartBlock]
    omega
  have hzero : s.blockDirtyTable (formatBlock pmtClusterCount + 1) = 0 := by
    rw [h.dirty _ (by omega) (by simp only [cfgLogBlockCount]; omega), if_pos (.inl le_rfl)]
  have hjournal : ∀ b, b < dataStartBlock → ¬ journalBlocks b := by
    intro b hb hj
    unfold journalBlocks at hj
    omega
  exact { h.cacheInv hcache with
    current_block := by
      rw [hblock]
      simp only [dataStartBlock]
      omega
    current_page := by omega
    current_free := by
      rw [hblock, hpage]
      exact fun p hle _ => h.clusters.free _ _ (.inr ⟨rfl, hle⟩)
    spare_block := by
      rw [hspare, hblock]
      simp only [dataStartBlock]
      omega
    spare_free := by
      rw [hspare]
      exact fun p _ => h.clusters.free _ _ (.inl (Nat.lt_succ_self _))
    spare_homes := by
      intro c hc heq
      rw [hspare, (h.home hc).2.2.1] at heq
      unfold formatBlock at heq
      omega
    spare_count := by
      rw [hspare, hclear, hzero]
      omega
    spare_room := .inl (by rw [hspare]; exact hclear)
    count := by
      rw [hspare, hblock, hpage]
      intro b hlow' hhigh hne
      rw [h.homes hlow', h.dirty b hlow' (by simp only [dataStartBlock, cfgLogBlockCount] at *; omega)]
      have hno := hjournal b hhigh
      unfold formatBlock formatPage at *
      simp only [hno, or_false]
      simp only [pmtStartBlock] at *
      split_ifs <;> omega
    closed := by
      rw [hspare, hblock]
      intro b hlow' hhigh hne hne' hdirty
      have hno := hjournal b hhigh
      rw [h.dirty b hlow' (by simp only [dataStartBlock, cfgLogBlockCount] at *; omega)] at hdirty
      simp only [hno, or_false] at hdirty
      split at hdirty
      · obtain ⟨table, hprog, htable⟩ := h.clusters.table b hlow' (by omega)
        refine ⟨table, _, hprog, fun p hp => ?_⟩
        rw [htable p hp]
        unfold formatBlock at *
        omega
      · exact absurd rfl hdirty }

theorem named (h : Formatted s) : Named s s.rootTable.pmtBlock := by
  obtain ⟨hblock, _, _⟩ := h.pmtBlock
  intro c hc _
  obtain ⟨_, _, hhome, hpage⟩ := h.home hc
  rw [hblock, hhome, hpage]
  by_cases hsame : formatBlock c = formatBlock pmtClusterCount
  · rw [if_pos hsame, h.clusters.named _ ?_]
    · unfold formatBlock formatPage at *
      omega
    · unfold formatBlock formatPage at *
      omega
  · rw [if_neg hsame]
    obtain ⟨table, hprog, htable⟩ := h.clusters.table (formatBlock c)
      (by unfold formatBlock; omega) (by unfold formatBlock at *; omega)
    rw [Flash.words_of_page hprog, htable _ (by unfold formatPage; omega)]
    unfold formatBlock formatPage
    omega

theorem pmtOk (h : Formatted s) (hcache : EmptyCache s) : PmtOk s 0 63 where
  inv := h.pmtInv hcache
  page := by
    rw [h.pmtBlock.2.1]
    exact formatted_bounds.2.1
  budget := .inl h.named

theorem mapping_word (h : Formatted s) {a : Nat} (hc : clusterIndex a < pmtClusterCount) :
    s.mapping a = invalidPmNode := by
  have hnode : s.node (clusterIndex a) = pmNodeSetBlockPage (formatBlock (clusterIndex a))
      (formatPage (clusterIndex a)) := h.clusters.node _ hc
  have hcached : pmNodeIsCached (s.node (clusterIndex a)) = false := by
    rw [hnode]
    exact pmNodeIsCached_set
  have hrange : formatBlock (clusterIndex a) < 16777216 ∧
      formatPage (clusterIndex a) < 64 := by
    have := pmtClusterCount_le
    unfold formatBlock formatPage
    simp only [pmtStartBlock]
    omega
  unfold FtlState.mapping FtlState.cluster
  rw [if_neg (by simp [hcached]), hnode, pmNodeBlock_set hrange.1 hrange.2,
    pmNodePage_set hrange.2, Flash.words_of_page (h.clusters.page _ hc)]
  rfl

/-- No page is mapped. -/
theorem mapping (h : Formatted s) (a : Nat) : s.view.mapping a = invalidPmNode := by
  change (if a < ftlCapacity then s.mapping a else invalidPmNode) = _
  split
  · next ha => exact h.mapping_word (clusterIndex_lt ha)
  · rfl

theorem journals (h : Formatted s) : s.view.journalBlock true = dataStartBlock ∧
    s.view.journalBlock false = dataStartBlock + 1 ∧
    s.view.reclaimBlock = dataStartBlock + 2 ∧ pmNodePage s.view.reclaimJournal = 0 ∧
    ∀ isHot, s.view.journalPage isHot = 0 := by
  refine ⟨?_, ?_, ?_, ?_, fun isHot => ?_⟩
  · exact (congrArg pmNodeBlock h.hot).trans (pmNodeBlock_set (by decide) (by decide))
  · exact (congrArg pmNodeBlock h.cold).trans (pmNodeBlock_set (by decide) (by decide))
  · exact (congrArg pmNodeBlock h.reclaim).trans (pmNodeBlock_set (by decide) (by decide))
  · exact (congrArg pmNodePage h.reclaim).trans (pmNodePage_set (by decide))
  · cases isHot
    · exact (congrArg pmNodePage h.cold).trans (pmNodePage_set (by decide))
    · exact (congrArg pmNodePage h.hot).trans (pmNodePage_set (by decide))

/-- The journals and the reclaim block are open and empty. -/
theorem opened (h : Formatted s) (b : Nat) :
    s.view.opened none b = if journalBlocks b then some 0 else none := by
  obtain ⟨hhot, hcold, hreclaim, _, hpage⟩ := h.journals
  unfold DataView.opened
  rw [hhot, hcold, hreclaim, hpage, hpage]
  simp only [dataStartBlock, ne_eq, reduceCtorEq, not_false_eq_true, true_and]
  by_cases hj : journalBlocks b
  · rw [if_pos hj]
    unfold journalBlocks at hj
    simp only [dataStartBlock] at hj
    split_ifs <;> first | rfl | omega
  · rw [if_neg hj]
    unfold journalBlocks at hj
    simp only [dataStartBlock] at hj
    split_ifs <;> first | rfl | omega

theorem dataInv (h : Formatted s) : DataInv s.view none := by
  obtain ⟨hhot, hcold, hreclaim, hpage, hempty⟩ := h.journals
  have hge := Platform.ubiCapacity_ge
  have hle := Platform.ubiCapacity_le
  obtain ⟨hspare, _, _⟩ := formatted_bounds
  have hlive : ∀ b, b < ubiCapacity → s.view.live b = 0 := by
    intro b hb
    refine Occupancy.eq_zero_iff.mpr fun a _ => ?_
    rw [h.mapping a, pmNodeBlock_invalid]
    omega
  have hfree : ∀ b p, dataStartBlock ≤ b → s.view.page b p = .erased := by
    intro b p hb
    change (if dataStartBlock ≤ b then s.flash.page b p else .erased) = _
    rw [if_pos hb]
    exact h.clusters.free b p (.inl (by simp only [dataStartBlock] at hb; omega))
  have hdirty : ∀ b, dataStartBlock ≤ b → b < ubiCapacity →
      s.view.dirty b = if journalBlocks b then 0 else 63 := by
    intro b hb hb'
    change (if dataStartBlock ≤ b then s.blockDirtyTable b else 0) = _
    simp only [dataStartBlock] at hb
    rw [if_pos hb, h.dirty b (by simp only [pmtStartBlock]; omega)
      (by simp only [cfgLogBlockCount]; omega)]
    have hout : ¬ b ≤ formatBlock pmtClusterCount + 1 := by omega
    simp only [hout, false_or]
  have hjournal : ∀ {b}, journalBlocks b → dataStartBlock ≤ b ∧ b < ubiCapacity := by
    intro b hb
    unfold journalBlocks at hb
    simp only [dataStartBlock] at hb ⊢
    omega
  have hopen : ∀ {b q}, s.view.opened none b = some q → journalBlocks b ∧ q = 0 := by
    intro b q hq
    rw [h.opened] at hq
    split at hq
    · next hb => exact ⟨hb, (Option.some.inj hq).symm⟩
    · exact absurd hq (by simp)
  refine ⟨⟨fun a _ => .inl (h.mapping a), ?range, ?filled, ?free, ?closed, ?count, ?flagged⟩, ?_,
    ?_, hpage, ?_, ?_, ?_⟩
  case range =>
    intro b q hq
    obtain ⟨hb, rfl⟩ := hopen hq
    obtain ⟨hlow, hhigh⟩ := hjournal hb
    exact ⟨hlow, hhigh, by omega⟩
  case filled =>
    intro b q hq p hp
    obtain ⟨_, rfl⟩ := hopen hq
    exact absurd hp (Nat.not_lt_zero p)
  case free =>
    intro b q hq p _ _
    exact hfree b p (hjournal (hopen hq).1).1
  case closed =>
    intro b hb hb' hclosed hne
    rw [h.opened] at hclosed
    rw [hdirty b hb hb'] at hne
    split at hclosed
    · exact absurd hclosed (by simp)
    · next hno => exact absurd (if_neg hno) hne
  case count =>
    intro b hb hb' _
    rw [hdirty b hb hb', hlive b hb', h.opened]
    split <;> rfl
  case flagged =>
    intro b hb hb' hflag
    rw [hdirty b hb hb'] at hflag
    simp only [backupFlag] at hflag
    split at hflag <;> omega
  · rw [hhot, hcold]
    simp
  · intro isHot
    rw [hreclaim]
    cases isHot
    · rw [hcold]
      simp
    · rw [hhot]
      simp
  · rw [hreclaim, hdirty _ (by simp) (by simp only [dataStartBlock]; omega)]
    exact if_pos (.inr (.inr rfl))
  · intro isHot
    cases isHot
    · rw [hcold]
      simp only [dataStartBlock]
      omega
    · rw [hhot]
      simp only [dataStartBlock]
      omega
  · intro isHot _ p hp
    rw [hempty isHot] at hp
    exact absurd hp (Nat.not_lt_zero p)

end Formatted

end

/-! ## Format -/

namespace FtlState

variable (s : FtlState)

/-- The state after `UBI_Format`. -/
def blanked : FtlState :=
  { s with
    flash := { Flash.blank with log := s.flash.log }
    past := s.flash :: s.past }

/-- The state after `DATA_Format`. -/
def dataFormatted : FtlState :=
  let t := ((s.erase dataStartBlock).erase (dataStartBlock + 1)).erase (dataStartBlock + 2)
  { t with
    rootTable := { s.rootTable with
      hotJournal := pmNodeSetBlockPage dataStartBlock 0
      coldJournal := pmNodeSetBlockPage (dataStartBlock + 1) 0
      reclaimJournal := pmNodeSetBlockPage (dataStartBlock + 2) 0 }
    blockDirtyTable := (((Ram.ofFn fun i =>
      if i < cfgLogBlockCount then maxDirtyPages else s.blockDirtyTable i).set
        dataStartBlock 0).set (dataStartBlock + 1) 0).set (dataStartBlock + 2) 0 }

/-- The state before the first `HDI_Commit`. -/
def hdiCleared : FtlState :=
  let t := s.erase hdiBlock0
  { t with hdi := { s.hdi with
      hashTable := .const 0
      currentBlock := hdiBlock0
      currentPage := 0 } }

/-- The state after `PMT_Format`. -/
def pmtFormatted : FtlState :=
  let t := s.formatClusters pmtClusterCount
  let b := formatBlock pmtClusterCount
  { t with
    rootTable := { t.rootTable with
      pmtCurrentBlock := pmNodeSetBlockPage b (formatPage pmtClusterCount)
      pmtReclaimBlock := pmNodeSetBlockPage (b + 1) 0 }
    blockDirtyTable := (t.blockDirtyTable.set b 0).set (b + 1) 0 }

/-- The state before the first `BDT_Commit`. -/
def bdtCleared : FtlState :=
  let t := s.erase bdtBlock0
  { t with bdt := ⟨bdtBlock0, 0⟩ }

/-- The state before the first `ROOT_Commit`. -/
def rootCleared : FtlState :=
  let t := s.erase rootBlock0
  { t with
    root := ⟨rootBlock0, 0, 0⟩
    rootTable := { s.rootTable with backupBlockCount := 0 } }

end FtlState

section

variable {s : FtlState} {E : Stop → Prop} {Q : Status → FtlState → Prop} {first : Nat}

omit [Platform] in
theorem wp_dataFormat : wp dataFormat Q E s ↔ Q .success s.dataFormatted := Iff.rfl

omit [Platform] in
/-- A table whose first block has just been erased. -/
theorem tableLog_erase : TableLog (s.erase first).flash first first 0 :=
  ⟨.inl rfl, Nat.zero_le 64, fun p hp => absurd hp (Nat.not_lt_zero p),
    fun _ _ _ => Flash.page_erase_same⟩

theorem wp_hdiFormat : wp hdiFormat Q E s ↔ Q .success s.hdiCleared.hdiCommitted := by
  unfold hdiFormat
  rw [wp_bind, wp_modify, wp_bind, wp_ubiErase, if_pos rfl]
  exact wp_hdiCommit (s := s.hdiCleared) tableLog_erase

theorem wp_bdtFormat : wp bdtFormat Q E s ↔ Q .success s.bdtCleared.bdtCommitted := by
  unfold bdtFormat
  rw [wp_bind, wp_modify, wp_bind, wp_ubiErase, if_pos rfl]
  exact wp_bdtCommit (s := s.bdtCleared) tableLog_erase

theorem wp_rootFormat : wp rootFormat Q E s ↔ Q .success s.rootCleared.rootCommitted := by
  unfold rootFormat
  rw [wp_bind, wp_modify, wp_bind, wp_ubiErase, if_pos rfl]
  exact wp_rootCommit (s := s.rootCleared) tableLog_erase

theorem pmtFormat_spec (hQ : Q .success s.pmtFormatted) : wp pmtFormat Q E s := by
  have hle := pmtClusterCount_le
  unfold pmtFormat
  rw [wp_bind, wp_assert, if_pos (by simp only [maxPmClusters]; omega), wp_bind]
  have hloop := pmtFormatClusters_spec (s := s) (n := pmtClusterCount) (i := 0) (E := E)
    (Q := fun r t => wp (do
      if r.1 = .success then
        modify fun s => { s with
          rootTable := { s.rootTable with
            pmtCurrentBlock := pmNodeSetBlockPage r.2.1 r.2.2
            pmtReclaimBlock := pmNodeSetBlockPage (r.2.1 + 1) 0 }
          blockDirtyTable := (s.blockDirtyTable.set r.2.1 0).set (r.2.1 + 1) 0 }
      pure r.1 : Ftl Status) Q E t) (by omega)
  apply hloop
  rw [Nat.zero_add, if_pos rfl, wp_bind, wp_modify, wp_pure]
  exact hQ

/-- Every page of the blanked flash is erased. -/
def Flash.Blank (f : Flash) (blocks : Nat → Prop) : Prop :=
  ∀ b, blocks b → ∀ p, f.page b p = .erased

omit [Platform] in
theorem erase_blank {blocks : Nat → Prop} (h : s.flash.Blank blocks) :
    (s.erase first).flash.Blank blocks := by
  intro b hb p
  change (s.flash.erase first).page b p = .erased
  rw [Flash.page_erase]
  split
  · rfl
  · exact h b hb p

omit [Platform] in
/-- The commit of a table that was just cleared. -/
theorem append_zero {b q : Nat} {data : Buffer} {spare : Spare} (hb : b ≠ first) :
    (s.append first 0 data spare).flash.page b q = s.flash.page b q := by
  rw [FtlState.append_of_ne s (by decide)]
  exact Flash.page_program_other fun heq => hb heq.1

/-- The tables that `PMT_Format` leaves. -/
theorem pmtFormatted_formatted (hblank : s.flash.Blank fun b => pmtStartBlock ≤ b)
    (hmeta : ∀ p, s.pmt.metaData p < pmtClusterCount)
    (hhot : s.rootTable.hotJournal = pmNodeSetBlockPage dataStartBlock 0)
    (hcold : s.rootTable.coldJournal = pmNodeSetBlockPage (dataStartBlock + 1) 0)
    (hreclaim : s.rootTable.reclaimJournal = pmNodeSetBlockPage (dataStartBlock + 2) 0)
    (hdirty : ∀ b, b < cfgLogBlockCount →
      s.blockDirtyTable b = if journalBlocks b then 0 else 63) : Formatted s.pmtFormatted := by
  have hempty : ClustersFormatted s 0 := by
    refine ⟨fun c hc => absurd hc (Nat.not_lt_zero c), fun c hc => absurd hc (Nat.not_lt_zero c),
      fun b hlow hhigh => ?_, fun p hp => absurd hp (Nat.not_lt_zero p), hmeta,
      fun b p hfree => ?_⟩
    · unfold formatBlock at hhigh
      omega
    · unfold formatBlock at hfree
      exact hblank b (by simp only [pmtStartBlock] at *; omega) p
  have hclusters := formatClusters_formatted hempty le_rfl
  have hdone := formatClusters_done (s := s) (n := pmtClusterCount)
  obtain ⟨nodes, hroot⟩ := hdone.rootTable
  obtain ⟨_, _, hlow⟩ := formatted_bounds
  refine ⟨⟨hclusters.node, hclusters.page, hclusters.table, hclusters.named, hclusters.meta_lt,
    hclusters.free⟩, ?_, ?_, ?_, rfl, rfl, fun b hb hb' => ?_⟩
  · exact (congrArg Root.hotJournal hroot).trans hhot
  · exact (congrArg Root.coldJournal hroot).trans hcold
  · exact (congrArg Root.reclaimJournal hroot).trans hreclaim
  · change (((s.formatClusters pmtClusterCount).blockDirtyTable.set _ 0).set _ 0) b = _
    rw [Ram.set_apply, Ram.set_apply, hdone.dirty, hdirty b hb']
    by_cases hj : journalBlocks b
    · simp [hj]
    · simp only [hj, or_false, if_false]
      split_ifs <;> first | rfl | omega

/-- The logs of the tables after `FTL_Format`. -/
structure FreshTables (s : FtlState) : Prop where
  retained : s.rootTable.backupBlockCount = 0
  root : RootLog s.flash rootBlock0 1 1
  last : RootAt s.flash rootBlock0 1 { s.rootTable with
    pageMappingNodes := .ofFn s.rootTable.pageMappingNodes }
  bdt : TableAt s.flash bdtBlock0 s.rootTable.bdtCurrentJournal 1 (.bytes s.blockDirtyTable)
  hdi : ∃ hash, TableAt s.flash hdiBlock0 s.rootTable.hdiCurrentJournal 1 hash

omit [Platform] in
/-- The first page of a table. -/
theorem tableAt_append {data : Buffer} {spare : Spare} (h : TableLog s.flash first first 0)
    (hfirst : first % 2 = 0) (hle : first ≤ 4) :
    TableAt (s.append first 0 data spare).flash first (pmNodeSetBlockPage first 0) 1 data := by
  have hb : pmNodeBlock (pmNodeSetBlockPage first 0) = first := pmNodeBlock_set (by omega) (by omega)
  have hp : pmNodePage (pmNodeSetBlockPage first 0) = 0 := pmNodePage_set (by omega)
  refine ⟨?_, ?_, spare, ?_⟩
  · rw [hb]
    exact h.append hfirst
  · rw [hp]
    exact Nat.one_pos
  · rw [hb, hp]
    exact h.append_page

/-- The state after `FTL_Format`. -/
def FtlState.ftlFormatted (s : FtlState) : FtlState :=
  s.blanked.dataFormatted.hdiCleared.hdiCommitted.pmtFormatted.bdtCleared.bdtCommitted.rootCleared
    |>.rootCommitted

theorem ftlFormat_spec (hQ : Q .success s.ftlFormatted) : wp ftlFormat Q E s := by
  have hlast : wp (do
      let ret ← bdtFormat
      if ret = .success then rootFormat else pure ret : Ftl Status) Q E
      s.blanked.dataFormatted.hdiCleared.hdiCommitted.pmtFormatted := by
    rw [wp_bind, wp_bdtFormat, if_pos rfl, wp_rootFormat]
    exact hQ
  have hpmt : wp (do
      let ret ← pmtFormat
      let ret ← if ret = .success then bdtFormat else pure ret
      if ret = .success then rootFormat else pure ret : Ftl Status) Q E
      s.blanked.dataFormatted.hdiCleared.hdiCommitted := by
    rw [wp_bind]
    apply pmtFormat_spec
    rw [if_pos rfl]
    exact hlast
  have hhdi : wp (do
      let ret ← hdiFormat
      let ret ← if ret = .success then pmtFormat else pure ret
      let ret ← if ret = .success then bdtFormat else pure ret
      if ret = .success then rootFormat else pure ret : Ftl Status) Q E
      s.blanked.dataFormatted := by
    rw [wp_bind, wp_hdiFormat, if_pos rfl]
    exact hpmt
  unfold ftlFormat ubiFormat ubiInit
  rw [wp_bind, wp_bind, wp_modify, wp_pure, if_pos rfl, wp_bind, wp_pure]
  beta_reduce
  rw [if_pos rfl, wp_bind, wp_dataFormat]
  beta_reduce
  rw [if_pos rfl]
  exact hhdi

omit [Platform] in
theorem hdiCommitted_first (hb : s.hdi.currentBlock = first) (hq : s.hdi.currentPage = 0) :
    s.hdiCommitted.flash = (s.append first 0 (.bytes s.hdi.hashTable) .null).flash ∧
      s.hdiCommitted.rootTable =
        { s.rootTable with hdiCurrentJournal := pmNodeSetBlockPage first 0 } := by
  unfold FtlState.hdiCommitted
  rw [hb, hq]
  exact ⟨rfl, rfl⟩

omit [Platform] in
theorem bdtCommitted_first (hb : s.bdt.currentBlock = first) (hq : s.bdt.currentPage = 0) :
    s.bdtCommitted.flash = (s.append first 0 (.bytes s.blockDirtyTable) .null).flash ∧
      s.bdtCommitted.rootTable =
        { s.rootTable with bdtCurrentJournal := pmNodeSetBlockPage first 0 } := by
  unfold FtlState.bdtCommitted
  rw [hb, hq]
  exact ⟨rfl, rfl⟩

/-- The state before the mapping table is formatted. -/
structure BeforePmt (s : FtlState) : Prop where
  blank : s.flash.Blank fun b => b ≠ hdiBlock0
  hdi : ∃ hash, TableAt s.flash hdiBlock0 s.rootTable.hdiCurrentJournal 1 hash
  hot : s.rootTable.hotJournal = pmNodeSetBlockPage dataStartBlock 0
  cold : s.rootTable.coldJournal = pmNodeSetBlockPage (dataStartBlock + 1) 0
  reclaim : s.rootTable.reclaimJournal = pmNodeSetBlockPage (dataStartBlock + 2) 0
  dirty : ∀ b, b < cfgLogBlockCount → s.blockDirtyTable b = if journalBlocks b then 0 else 63
  meta_lt : ∀ p, s.pmt.metaData p < pmtClusterCount

theorem beforePmt (hmeta : ∀ p, s.pmt.metaData p < pmtClusterCount) :
    BeforePmt s.blanked.dataFormatted.hdiCleared.hdiCommitted := by
  have hblank : s.blanked.flash.Blank fun _ => True := fun _ _ _ => rfl
  have hdata : s.blanked.dataFormatted.flash.Blank fun _ => True :=
    erase_blank (erase_blank (erase_blank hblank))
  have hcleared : s.blanked.dataFormatted.hdiCleared.flash.Blank fun _ => True := erase_blank hdata
  obtain ⟨hflash, hroot⟩ :=
    @hdiCommitted_first s.blanked.dataFormatted.hdiCleared hdiBlock0 rfl rfl
  have hlog : TableLog s.blanked.dataFormatted.hdiCleared.flash hdiBlock0 hdiBlock0 0 :=
    tableLog_erase
  refine ⟨fun b hb p => ?_, ?_, ?_, ?_, ?_, fun b hb => ?_, hmeta⟩
  · rw [hflash, append_zero hb]
    exact hcleared b trivial p
  · rw [hflash, hroot]
    exact ⟨_, tableAt_append hlog rfl le_rfl⟩
  · rw [hroot]
    rfl
  · rw [hroot]
    rfl
  · rw [hroot]
    rfl
  · change (((Ram.ofFn fun i => if i < cfgLogBlockCount then maxDirtyPages
      else s.blockDirtyTable i).set dataStartBlock 0).set (dataStartBlock + 1) 0).set
        (dataStartBlock + 2) 0 b = _
    rw [Ram.set_apply, Ram.set_apply, Ram.set_apply, Ram.ofFn_apply, if_pos hb]
    by_cases hj : journalBlocks b
    · rw [if_pos hj]
      unfold journalBlocks at hj
      split_ifs <;> first | rfl | omega
    · rw [if_neg hj]
      unfold journalBlocks at hj
      split_ifs <;> first | rfl | omega

theorem BeforePmt.formatted (h : BeforePmt s) : Formatted s.pmtFormatted := by
  refine pmtFormatted_formatted (fun b hb p => h.blank b ?_ p) h.meta_lt h.hot h.cold h.reclaim
    h.dirty
  simp only [pmtStartBlock, hdiBlock0] at *
  omega

omit [Platform] in
/-- The pages of the mapping and data blocks after a commit of a table. -/
theorem append_high {b q b' p : Nat} {data : Buffer} {spare : Spare}
    (h : TableLog s.flash first b q) (heven : first % 2 = 0) (hle : first ≤ 4)
    (hb : pmtStartBlock ≤ b') :
    (s.append b q data spare).flash.page b' p = s.flash.page b' p := by
  apply (h.append_ran heven).flash.page
  simp only [pmtStartBlock] at hb
  omega

theorem Formatted.bdtCommitted (h : Formatted s)
    (hlog : TableLog s.flash bdtBlock0 s.bdt.currentBlock s.bdt.currentPage) :
    Formatted s.bdtCommitted :=
  h.congr (fun _ hb _ => append_high hlog rfl (by decide) hb) (fun _ => rfl) rfl rfl rfl rfl rfl
    rfl fun _ _ _ => rfl

theorem Formatted.rootCommitted (h : Formatted s)
    (hlog : TableLog s.flash rootBlock0 s.root.currentBlock s.root.currentPage) :
    Formatted s.rootCommitted :=
  h.congr (fun _ hb _ => append_high hlog rfl (by decide) hb) (fun _ => rfl) rfl rfl rfl rfl rfl
    rfl fun _ _ _ => rfl

theorem Formatted.bdtCleared (h : Formatted s) : Formatted s.bdtCleared := by
  refine h.congr (fun b hb p => Flash.page_erase_other ?_) (fun _ => rfl) rfl rfl rfl rfl rfl rfl
    fun _ _ _ => rfl
  simp only [pmtStartBlock, bdtBlock0] at *
  omega

theorem Formatted.rootCleared (h : Formatted s) : Formatted s.rootCleared := by
  refine h.congr (fun b hb p => Flash.page_erase_other ?_) (fun _ => rfl) rfl rfl rfl rfl rfl rfl
    fun _ _ _ => rfl
  simp only [pmtStartBlock, rootBlock0] at *
  omega

/-- The state before the root table is formatted. -/
structure BeforeRoot (s : FtlState) : Prop where
  formatted : Formatted s
  blank : ∀ p, s.flash.page rootBlock1 p = .erased
  bdt : TableAt s.flash bdtBlock0 s.rootTable.bdtCurrentJournal 1 (.bytes s.blockDirtyTable)
  hdi : ∃ hash, TableAt s.flash hdiBlock0 s.rootTable.hdiCurrentJournal 1 hash

theorem BeforePmt.beforeRoot (h : BeforePmt s) :
    BeforeRoot s.pmtFormatted.bdtCleared.bdtCommitted := by
  have hformatted := h.formatted
  have hdone := formatClusters_done (s := s) (n := pmtClusterCount)
  have hpage : ∀ b, b < pmtStartBlock → ∀ p, s.pmtFormatted.flash.page b p = s.flash.page b p :=
    fun b hb => hdone.page b (.inl hb)
  have hword : s.pmtFormatted.rootTable.hdiCurrentJournal = s.rootTable.hdiCurrentJournal := by
    obtain ⟨nodes, hroot⟩ := hdone.rootTable
    exact (congrArg Root.hdiCurrentJournal hroot :)
  have hroot1 := h.blank rootBlock1 (by decide)
  obtain ⟨hash, hat⟩ := h.hdi
  generalize s.pmtFormatted = t at hformatted hpage hword
  have hlog : TableLog t.bdtCleared.flash bdtBlock0 bdtBlock0 0 := tableLog_erase
  obtain ⟨hflash, hroot⟩ := @bdtCommitted_first t.bdtCleared bdtBlock0 rfl rfl
  have hkept : ∀ b, b ≠ bdtBlock0 → ∀ p,
      t.bdtCleared.bdtCommitted.flash.page b p = t.flash.page b p := by
    intro b hb p
    rw [hflash, append_zero hb]
    exact Flash.page_erase_other hb
  refine ⟨hformatted.bdtCleared.bdtCommitted hlog, fun p => ?_, ?_, hash, ?_⟩
  · rw [hkept _ (by decide), hpage _ (by decide)]
    exact hroot1 p
  · rw [hflash, hroot]
    exact tableAt_append hlog rfl (by decide)
  · rw [hroot]
    change TableAt _ _ t.rootTable.hdiCurrentJournal _ _
    rw [hword]
    refine hat.congr fun b' hb' p => ?_
    rw [hkept _ (by simp only [hdiBlock0, bdtBlock0] at *; omega),
      hpage _ (by simp only [hdiBlock0, pmtStartBlock] at *; omega)]

omit [Platform] in
/-- A commit of the root table keeps the links to the other tables. -/
theorem rootCommitted_words (s : FtlState) :
    s.rootCommitted.rootTable.bdtCurrentJournal = s.rootTable.bdtCurrentJournal ∧
      s.rootCommitted.rootTable.hdiCurrentJournal = s.rootTable.hdiCurrentJournal :=
  ⟨rfl, rfl⟩

theorem BeforeRoot.fresh (h : BeforeRoot s) :
    Formatted s.rootCleared.rootCommitted ∧ FreshTables s.rootCleared.rootCommitted := by
  have hlog : TableLog s.rootCleared.flash rootBlock0 rootBlock0 0 := tableLog_erase
  have hflash : s.rootCleared.rootCommitted.flash = (s.rootCleared.append rootBlock0 0
    s.rootCleared.nextRoot.toBuffer (.footprint 0)).flash := rfl
  have hkept : ∀ b, b ≠ rootBlock0 → ∀ p,
      s.rootCleared.rootCommitted.flash.page b p = s.flash.page b p := by
    intro b hb p
    rw [hflash, append_zero hb]
    exact Flash.page_erase_other hb
  have hfirst : s.rootCleared.rootCommitted.flash.page rootBlock0 0 =
      .programmed s.rootCleared.nextRoot.toBuffer (.footprint 0) := by
    rw [hflash]
    exact hlog.append_page
  refine ⟨h.formatted.rootCleared.rootCommitted hlog,
    rfl, ⟨?_, Nat.one_pos, fun p hp => ?_, .inl ?_⟩, ⟨_, _, hfirst, rfl⟩, ?_, ?_⟩
  · rw [hflash]
    exact hlog.append rfl
  · obtain rfl : p = 0 := by omega
    exact ⟨_, _, hfirst, by simp [Spare.footprint], rfl⟩
  · exact (hkept _ (by decide) 0).trans (h.blank 0)
  · have hword : s.rootCleared.rootCommitted.rootTable.bdtCurrentJournal =
        s.rootTable.bdtCurrentJournal := (rootCommitted_words s.rootCleared).1
    have hdirty : s.rootCleared.rootCommitted.blockDirtyTable = s.blockDirtyTable := rfl
    rw [hword, hdirty]
    apply h.bdt.congr
    intro b' hb' p
    rw [hkept]
    simp only [bdtBlock0, rootBlock0] at *
    omega
  · obtain ⟨hash, hat⟩ := h.hdi
    have hword : s.rootCleared.rootCommitted.rootTable.hdiCurrentJournal =
        s.rootTable.hdiCurrentJournal := (rootCommitted_words s.rootCleared).2
    rw [hword]
    refine ⟨hash, ?_⟩
    apply hat.congr
    intro b' hb' p
    rw [hkept]
    simp only [hdiBlock0, rootBlock0] at *
    omega

/-- `FTL_Format` from any state leaves a formatted device. -/
theorem ftlFormatted_ok (hmeta : ∀ p, s.pmt.metaData p < pmtClusterCount) :
    Formatted s.ftlFormatted ∧ FreshTables s.ftlFormatted := by
  have hbefore := beforePmt hmeta
  unfold FtlState.ftlFormatted
  generalize s.blanked.dataFormatted.hdiCleared.hdiCommitted = t at hbefore ⊢
  have hroot := hbefore.beforeRoot
  generalize t.pmtFormatted.bdtCleared.bdtCommitted = u at hroot ⊢
  exact hroot.fresh

end

/-! ## The first mount -/

section

variable {s : FtlState} {E : Stop → Prop} {isHot : Bool}

/-- The state between two steps of the first mount. -/
structure Mounting (s : FtlState) : Prop where
  formatted : Formatted s
  retained : s.rootTable.backupBlockCount = 0
  root : TableLog s.flash rootBlock0 s.root.currentBlock s.root.currentPage
  bdt : TableAt s.flash bdtBlock0 s.rootTable.bdtCurrentJournal 1 (.bytes s.blockDirtyTable)
  hdi : ∃ hash, TableAt s.flash hdiBlock0 s.rootTable.hdiCurrentJournal 1 hash

theorem rootInit_fresh (h : Formatted s) (hf : FreshTables s) :
    wp rootInit (fun ret s' => ret = .success ∧ Mounting s' ∧ SameUnused s s') E s := by
  refine wp_mono_post (rootInit_spec hf.root hf.last (by decide)) ?_
  rintro ret s' ⟨hret, rfl⟩
  refine ⟨hret, ?_, fun c _ => Ram.ofFn_apply s.rootTable.pageMappingNodes c⟩
  have hloaded : Formatted (s.rootLoaded rootBlock0 1 1 { s.rootTable with
      pageMappingNodes := .ofFn s.rootTable.pageMappingNodes }) :=
    h.congr (fun _ _ _ => rfl) (fun _ => rfl) rfl rfl rfl rfl rfl rfl fun _ _ _ => rfl
  have hlog : TableLog (s.rootLoaded rootBlock0 1 1 { s.rootTable with
      pageMappingNodes := .ofFn s.rootTable.pageMappingNodes }).flash rootBlock0 rootBlock0 1 :=
    hf.root.log
  have hretained := hf.retained
  have hbdt := hf.bdt
  obtain ⟨hash, hhdi⟩ := hf.hdi
  generalize ht : s.rootLoaded rootBlock0 1 1 { s.rootTable with
    pageMappingNodes := .ofFn s.rootTable.pageMappingNodes } = t at hloaded hlog
  have hb : t.root.currentBlock = rootBlock0 := by rw [← ht]; rfl
  have hq : t.root.currentPage = 1 := by rw [← ht]; rfl
  have hflash : t.flash = s.flash := by rw [← ht]; rfl
  have hbdtword : t.rootTable.bdtCurrentJournal = s.rootTable.bdtCurrentJournal := by
    rw [← ht]
    rfl
  have hhdiword : t.rootTable.hdiCurrentJournal = s.rootTable.hdiCurrentJournal := by
    rw [← ht]
    rfl
  have hcount : t.rootTable.backupBlockCount = 0 := by
    rw [← ht]
    exact hretained
  have hdirty : t.blockDirtyTable = s.blockDirtyTable := by rw [← ht]; rfl
  clear ht
  have hlog : TableLog t.flash rootBlock0 t.root.currentBlock t.root.currentPage := by
    rw [hb, hq]
    exact hlog
  rw [← hflash] at hbdt hhdi
  have hran : Ran (fun b => b = rootBlock0 ∨ b = rootBlock0 + 1) t (t.append t.root.currentBlock
      t.root.currentPage t.nextRoot.toBuffer (.footprint 0)) := hlog.append_ran rfl
  have hkept : ∀ b, ¬ (b = rootBlock0 ∨ b = rootBlock0 + 1) → ∀ p,
      t.rootCommitted.flash.page b p = t.flash.page b p :=
    fun b hb p => hran.flash.page hb p
  obtain ⟨hword, hword'⟩ := rootCommitted_words t
  refine ⟨hloaded.rootCommitted hlog, hcount, hlog.append rfl, ?_, hash, ?_⟩
  · rw [hword, hbdtword]
    have hsame : t.rootCommitted.blockDirtyTable = s.blockDirtyTable := hdirty
    rw [hsame]
    apply hbdt.congr
    intro b' hb' p
    rw [hkept]
    simp only [bdtBlock0, rootBlock0] at *
    omega
  · rw [hword', hhdiword]
    apply hhdi.congr
    intro b' hb' p
    rw [hkept]
    simp only [hdiBlock0, rootBlock0] at *
    omega

/-- The cache that `PMT_Init` empties, and the tables that are mounted. -/
structure TablesMounted (s : FtlState) : Prop where
  formatted : Formatted s
  cache : EmptyCache s
  tables : TablesInv s

omit [Platform] in
theorem bdtCommitted_word (s : FtlState) : s.bdtCommitted.rootTable.hdiCurrentJournal =
    s.rootTable.hdiCurrentJournal ∧ s.bdtCommitted.root = s.root := ⟨rfl, rfl⟩

theorem bdtInit_fresh (h : Mounting s) :
    wp bdtInit (fun ret s' => ret = .success ∧ Formatted s' ∧
      TableLog s'.flash rootBlock0 s'.root.currentBlock s'.root.currentPage ∧
      TableLog s'.flash bdtBlock0 s'.bdt.currentBlock s'.bdt.currentPage ∧
      SameUnused s s' ∧
      ∃ hash, TableAt s'.flash hdiBlock0 s'.rootTable.hdiCurrentJournal 1 hash) E s := by
  have hcount : s.rootTable.backupBlockCount < threshold := by
    rw [h.retained]
    decide
  refine wp_mono_post (bdtInit_spec h.bdt hcount) ?_
  rintro ret s' ⟨hret, rfl⟩
  refine ⟨hret, ?_⟩
  obtain ⟨hash, hhdi⟩ := h.hdi
  have hlog : TableLog (s.bdtLoaded 1 (.bytes s.blockDirtyTable)).flash bdtBlock0
      (s.bdtLoaded 1 (.bytes s.blockDirtyTable)).bdt.currentBlock
      (s.bdtLoaded 1 (.bytes s.blockDirtyTable)).bdt.currentPage := h.bdt.log
  have hloaded : Formatted (s.bdtLoaded 1 (.bytes s.blockDirtyTable)) :=
    h.formatted.congr (fun _ _ _ => rfl) (fun _ => rfl) rfl rfl rfl rfl rfl rfl fun _ _ _ => rfl
  have hroot : TableLog (s.bdtLoaded 1 (.bytes s.blockDirtyTable)).flash rootBlock0
      (s.bdtLoaded 1 (.bytes s.blockDirtyTable)).root.currentBlock
      (s.bdtLoaded 1 (.bytes s.blockDirtyTable)).root.currentPage := h.root
  have hhdi' : TableAt (s.bdtLoaded 1 (.bytes s.blockDirtyTable)).flash hdiBlock0
      (s.bdtLoaded 1 (.bytes s.blockDirtyTable)).rootTable.hdiCurrentJournal 1 hash := hhdi
  have hunused : SameUnused s (s.bdtLoaded 1 (.bytes s.blockDirtyTable)).bdtCommitted :=
    fun _ _ => rfl
  generalize s.bdtLoaded 1 (.bytes s.blockDirtyTable) = t at hlog hloaded hroot hhdi' hunused
  have hkept : ∀ b, ¬ (b = bdtBlock0 ∨ b = bdtBlock0 + 1) → ∀ p,
      t.bdtCommitted.flash.page b p = t.flash.page b p :=
    fun b hb p => (hlog.append_ran rfl).flash.page hb p
  obtain ⟨hword, hsame⟩ := bdtCommitted_word t
  refine ⟨hloaded.bdtCommitted hlog, ?_, hlog.append rfl, hunused, hash, ?_⟩
  · rw [hsame]
    apply hroot.congr
    intro b' hb' p
    rw [hkept]
    simp only [bdtBlock0, rootBlock0] at *
    omega
  · rw [hword]
    apply hhdi'.congr
    intro b' hb' p
    rw [hkept]
    simp only [hdiBlock0, bdtBlock0] at *
    omega

/-- The state after `PMT_Init`. -/
def FtlState.cacheCleared (s : FtlState) : FtlState :=
  { s with pmt := { s.pmt with
      nodeCaches := .const (.const 0)
      cacheOrigin := .const invalidPmNode
      cacheCluster := .const invalidCluster } }

theorem hdiInit_fresh {hash : Buffer} (h : Formatted s) (hcache : EmptyCache s)
    (hroot : TableLog s.flash rootBlock0 s.root.currentBlock s.root.currentPage)
    (hbdt : TableLog s.flash bdtBlock0 s.bdt.currentBlock s.bdt.currentPage)
    (hhdi : TableAt s.flash hdiBlock0 s.rootTable.hdiCurrentJournal 1 hash) :
    wp hdiInit (fun ret s' => ret = .success ∧ TablesMounted s' ∧ SameUnused s s') E s := by
  refine wp_mono_post (hdiInit_spec hhdi hbdt) ?_
  rintro ret s' ⟨hret, rfl⟩
  refine ⟨hret, ?_, fun _ _ => rfl⟩
  have hloaded : Formatted (s.hdiLoaded 1 hash) :=
    h.congr (fun _ _ _ => rfl) (fun _ => rfl) rfl rfl rfl rfl rfl rfl fun _ _ _ => rfl
  have htables : TablesInv (s.hdiLoaded 1 hash) := ⟨hbdt, hroot, hhdi.log⟩
  have hcache' : EmptyCache (s.hdiLoaded 1 hash) := ⟨hcache.origin, hcache.cluster⟩
  exact ⟨hloaded.bdtCommitted htables.bdt, ⟨hcache'.origin, hcache'.cluster⟩,
    htables.bdtCommitted⟩

/-- The replay of an empty journal. -/
theorem dataReplay_fresh {fuel : Nat} (h : TablesMounted s) (hfuel : 2 ≤ fuel) :
    wp (dataReplay fuel isHot)
      (fun ret s' => ret = .success ∧ TablesMounted s' ∧ SameUnused s s') E s := by
  obtain ⟨fuel, rfl⟩ : ∃ n, fuel = n + 2 := ⟨fuel - 2, by omega⟩
  have hge := Platform.ubiCapacity_ge
  obtain ⟨hhot, hcold, _, _, hempty⟩ := h.formatted.journals
  have hspare := formatted_bounds.1
  have hblock : dataStartBlock ≤ pmNodeBlock (s.rootTable.journal isHot) ∧
      pmNodeBlock (s.rootTable.journal isHot) < ubiCapacity := by
    cases isHot
    · change dataStartBlock ≤ s.view.journalBlock false ∧ s.view.journalBlock false < ubiCapacity
      rw [hcold]
      simp only [dataStartBlock]
      omega
    · change dataStartBlock ≤ s.view.journalBlock true ∧ s.view.journalBlock true < ubiCapacity
      rw [hhot]
      simp only [dataStartBlock]
      omega
  have hpage : pmNodePage (s.rootTable.journal isHot) = 0 := by
    cases isHot
    · exact hempty false
    · exact hempty true
  have herased : s.flash.page (pmNodeBlock (s.rootTable.journal isHot)) 0 = .erased := by
    apply h.formatted.clusters.free
    simp only [dataStartBlock] at hblock
    omega
  unfold dataReplay
  rw [wp_bind]
  unfold dataReplayLoop
  rw [if_neg (by decide), wp_bind, wp_get]
  dsimp only
  rw [hpage, wp_bind, wp_ubiRead_erased hblock.2 (by decide) herased]
  simp only [reduceCtorEq, false_and, if_false, wp_bind, wp_pure, wp_modify]
  unfold dataReplayLoop
  rw [if_pos rfl, wp_pure]
  simp only [wp_get]
  unfold dataReplayMeta
  rw [wp_bind]
  refine Iff.mpr (wp_ubiRead_erased hblock.2 (by decide) herased) ?_
  dsimp only
  rw [if_neg (by decide), wp_pure]
  refine ⟨rfl, ⟨?_, ⟨h.cache.origin, h.cache.cluster⟩,
    h.tables.bdt, h.tables.root, h.tables.hdi⟩, .of_nodes rfl⟩
  exact h.formatted.congr (fun _ _ _ => rfl) (fun _ => rfl) rfl rfl rfl rfl rfl rfl
    fun _ _ _ => rfl

theorem TablesMounted.notFull (h : TablesMounted s) : dataIsFull s.rootTable isHot = false := by
  rw [dataIsFull_eq, h.formatted.journals.2.2.2.2 isHot]
  rfl

theorem ftlInit_fresh {fuel : Nat} (h : Formatted s) (hf : FreshTables s) (hfuel : 2 ≤ fuel) :
    wp (ftlInit fuel) (fun ret s' => ret = .success ∧ TablesMounted s' ∧ SameUnused s s') E s := by
  unfold ftlInit ubiInit
  simp only [wp_bind, wp_pure, if_true]
  refine wp_mono_post (rootInit_fresh h hf) ?_
  rintro _ s₁ ⟨rfl, h₁, hu₁⟩
  rw [if_pos rfl, wp_bind]
  refine wp_mono_post (bdtInit_fresh h₁) ?_
  rintro _ s₂ ⟨rfl, hformatted, hroot, hbdt, hu₂, hash, hhdi⟩
  rw [if_pos rfl, wp_bind]
  have hcleared : Formatted s₂.cacheCleared :=
    hformatted.congr (fun _ _ _ => rfl) (fun _ => rfl) rfl rfl rfl rfl rfl rfl fun _ _ _ => rfl
  have hcache : EmptyCache s₂.cacheCleared := ⟨fun _ => rfl, fun _ => rfl⟩
  unfold pmtInit
  rw [wp_bind, wp_modify, wp_pure, if_pos rfl, wp_bind]
  refine wp_mono_post (hdiInit_fresh hcleared hcache hroot hbdt hhdi) ?_
  rintro _ s₃ ⟨rfl, h₃, hu₃⟩
  rw [if_pos rfl, wp_bind]
  refine wp_mono_post (dataReplay_fresh h₃ hfuel) ?_
  rintro _ s₄ ⟨rfl, h₄, hu₄⟩
  rw [if_pos rfl, wp_bind]
  refine wp_mono_post (dataReplay_fresh h₄ hfuel) ?_
  rintro _ s₅ ⟨rfl, h₅, hu₅⟩
  rw [if_pos rfl]
  unfold ftlInitReclaim
  simp only [wp_bind, wp_get, h₅.notFull, Bool.false_eq_true, if_false, wp_pure]
  have hcache' : SameUnused s₂ s₂.cacheCleared := .of_nodes rfl
  exact ⟨trivial, h₅, (((hu₁.trans hu₂).trans (hcache'.trans hu₃)).trans hu₄).trans hu₅⟩

end

/-- `ONFM_Format` followed by `ONFM_Mount`, below the read and write buffers. -/
def ftlFormatAndMount (fuel : Nat) : Ftl Status := do
  let ret ← ftlFormat
  if ret = .success then ftlInit fuel else pure ret

/-- The state after the first mount: the invariant holds, both journals are
empty, and no page is mapped. -/
structure FirstMounted (s : FtlState) : Prop where
  inv : FtlInv s
  journals : ∀ isHot, s.view.journalPage isHot = 0
  unmapped : ∀ a, s.view.mapping a = invalidPmNode

theorem ftlFormatAndMount_spec {s : FtlState} {E : Stop → Prop} {fuel : Nat}
    (hmeta : ∀ p, s.pmt.metaData p < pmtClusterCount) (hfuel : 2 ≤ fuel) :
    wp (ftlFormatAndMount fuel) (fun ret s' => ret = .success ∧ FirstMounted s') E s := by
  obtain ⟨hformatted, hfresh⟩ := ftlFormatted_ok hmeta
  unfold ftlFormatAndMount
  rw [wp_bind]
  apply ftlFormat_spec
  rw [if_pos rfl]
  refine wp_mono_post (ftlInit_fresh hformatted hfresh hfuel) ?_
  rintro ret s' ⟨hret, h, _⟩
  exact ⟨hret, ⟨⟨h.tables, h.formatted.pmtOk h.cache⟩, h.formatted.dataInv⟩,
    h.formatted.journals.2.2.2.2, h.formatted.mapping⟩

end RansomTag

import RansomTag.Ftl.TableCommits
import RansomTag.Library.Occupancy

/-!
# Invariant of the page mapping table

Every cluster has a home, the page of the mapping blocks with its committed
copy, also while a cache slot holds it.  The dirty counts of the mapping blocks
count the pages that are no cluster's home.  A commit goes through the four
slots; `done` is the number of slots that it has behind it.
-/

namespace RansomTag

open Program

section

variable [Platform]

theorem pmtClusterCount_le : pmtClusterCount ≤ 119 := by
  have := Platform.ubiCapacity_le
  unfold pmtClusterCount ftlCapacity
  simp only [journalBlockCount, pmtBlockCount, overProvisionRate, pagePerPhyBlock, pmPerNode]
  omega

theorem pmtClusterCount_pos : 0 < pmtClusterCount := by
  have := Platform.ubiCapacity_ge
  unfold pmtClusterCount ftlCapacity
  simp only [journalBlockCount, pmtBlockCount, overProvisionRate, pagePerPhyBlock, pmPerNode]
  omega

theorem ftlCapacity_le : ftlCapacity ≤ pmtClusterCount * 1024 := by
  unfold pmtClusterCount
  simp only [pmPerNode]
  omega

theorem clusterIndex_lt {addr : Nat} (h : addr < ftlCapacity) :
    clusterIndex addr < pmtClusterCount := by
  have := ftlCapacity_le
  unfold clusterIndex
  omega

omit [Platform] in
theorem pageInCluster_lt (addr : Nat) : pageInCluster addr < 1024 :=
  Nat.mod_lt _ (by decide)

end

namespace FtlState

variable [Platform] (s : FtlState)

/-- The page with the committed copy of a cluster. -/
def home (c : Nat) : Nat :=
  if pmNodeIsCached (s.node c) then s.pmt.cacheOrigin (pmCacheSlot (s.node c)) else s.node c

def homeBlock (c : Nat) : Nat := pmNodeBlock (s.home c)

def homePage (c : Nat) : Nat := pmNodePage (s.home c)

/-- The cache slot of the cluster was changed since it was loaded. -/
def isDirty (c : Nat) : Bool := pmNodeIsCached (s.node c) && pmNodeIsDirty (s.node c)

/-- How many clusters have their home in block `b`. -/
def homes (b : Nat) : Nat := occupancy s.homeBlock pmtClusterCount b

def dirtyClusters : Nat := occupancy s.isDirty pmtClusterCount true

/-- The block of `pmt_reclaim_block`. -/
def pmtSpare : Nat := pmNodeBlock s.rootTable.pmtReclaimBlock

end FtlState

/-- Cache slots, root table and homes agree. -/
structure CacheInv [Platform] (s : FtlState) (done : Nat) : Prop where
  cached : ∀ c, c < pmtClusterCount → pmNodeIsCached (s.node c) = true →
    ∃ i, done ≤ i ∧ i < 4 ∧ s.pmt.cacheCluster i = c ∧
      (s.node c = pmCacheAddr i ∨ s.node c = pmCacheAddr i + 2)
  slot : ∀ i, i < 4 →
    (s.pmt.cacheCluster i = invalidCluster ∧ s.pmt.cacheOrigin i = invalidPmNode) ∨
    (s.pmt.cacheCluster i < pmtClusterCount ∧ s.pmt.cacheOrigin i ≠ invalidPmNode ∧
      (done ≤ i → s.node (s.pmt.cacheCluster i) = pmCacheAddr i ∨
        s.node (s.pmt.cacheCluster i) = pmCacheAddr i + 2) ∧
      (i < done → pmNodeIsCached (s.node (s.pmt.cacheCluster i)) = false))
  home : ∀ c, c < pmtClusterCount → ∃ b p, s.home c = pmNodeSetBlockPage b p ∧
    pmtStartBlock ≤ b ∧ b < dataStartBlock ∧ p < 63
  stored : ∀ c, c < pmtClusterCount → s.isDirty c = false →
    ∃ data spare, s.flash.page (s.homeBlock c) (s.homePage c) = .programmed data spare
  clean : ∀ c, c < pmtClusterCount → s.isDirty c = false → ∀ k, k < 1024 →
    s.cluster c k = s.flash.words (s.homeBlock c) (s.homePage c) k
  meta_lt : ∀ p, s.pmt.metaData p < pmtClusterCount

/-- The mapping blocks: one is written, one is spare, and the others are full. -/
structure PmtInv [Platform] (s : FtlState) (done : Nat) : Prop extends CacheInv s done where
  current_block : pmtStartBlock ≤ s.rootTable.pmtBlock ∧ s.rootTable.pmtBlock < dataStartBlock
  current_page : s.rootTable.pmtPage ≤ 63
  current_free : ∀ p, s.rootTable.pmtPage ≤ p → p < 64 →
    s.flash.page s.rootTable.pmtBlock p = .erased
  spare_block : pmtStartBlock ≤ s.pmtSpare ∧ s.pmtSpare < dataStartBlock ∧
    s.pmtSpare ≠ s.rootTable.pmtBlock
  spare_free : ∀ p, p < 64 → s.flash.page s.pmtSpare p = .erased
  /-- A reclaim does not copy what the running commit writes again. -/
  spare_homes : ∀ c, c < pmtClusterCount → s.homeBlock c = s.pmtSpare → s.isDirty c = true
  spare_count : s.blockDirtyTable s.pmtSpare + s.homes s.pmtSpare ≤ 4
  spare_room : s.homes s.pmtSpare = 0 ∨ (0 < done ∧ s.rootTable.pmtPage + 4 ≤ 20 + done)
  count : ∀ b, pmtStartBlock ≤ b → b < dataStartBlock → b ≠ s.pmtSpare →
    s.blockDirtyTable b + s.homes b =
      if b = s.rootTable.pmtBlock then s.rootTable.pmtPage else 63
  closed : ∀ b, pmtStartBlock ≤ b → b < dataStartBlock → b ≠ s.pmtSpare →
    b ≠ s.rootTable.pmtBlock → s.blockDirtyTable b ≠ 63 →
    ∃ data spare, s.flash.page b 63 = .programmed data spare ∧
      ∀ p, p < 63 → data.node p < pmtClusterCount

/-- The meta data of its block names every cluster at its home; in RAM for the
block `current`, and in the last page of the other blocks. -/
def Named [Platform] (s : FtlState) (current : Nat) : Prop :=
  ∀ c, c < pmtClusterCount → s.isDirty c = false →
    (if s.homeBlock c = current then s.pmt.metaData (s.homePage c)
      else s.flash.words (s.homeBlock c) 63 (s.homePage c)) = c

/-- Room for `k` more dirty clusters: either the meta data is complete, so that
reclaiming loses nothing, or the current block takes all of them. -/
def Budget [Platform] (s : FtlState) (k : Nat) : Prop :=
  Named s s.rootTable.pmtBlock ∨ s.rootTable.pmtPage + s.dirtyClusters + k ≤ 62

namespace Budget

variable [Platform] {s : FtlState} {k k' : Nat}

theorem mono (h : Budget s k) (hk : k' ≤ k) : Budget s k' := by
  rcases h with h | h
  · exact .inl h
  · right; omega

/-- A budget larger than a block is complete meta data. -/
theorem named (h : Budget s 63) : Named s s.rootTable.pmtBlock := by
  rcases h with h | h
  · exact h
  · omega

end Budget

/-- The root table has the same nodes behind the last cluster. -/
def SameUnused [Platform] (s s' : FtlState) : Prop :=
  ∀ c, pmtClusterCount ≤ c → s'.node c = s.node c

namespace SameUnused

variable [Platform] {s s' s'' : FtlState}

theorem refl : SameUnused s s := fun _ _ => rfl

theorem trans (h : SameUnused s s') (h' : SameUnused s' s'') : SameUnused s s'' :=
  fun c hc => (h' c hc).trans (h c hc)

theorem of_nodes (h : s'.rootTable.pageMappingNodes = s.rootTable.pageMappingNodes) :
    SameUnused s s' := by
  intro c _
  unfold FtlState.node
  rw [h]

theorem of_set {d w : Nat} (hd : d < pmtClusterCount)
    (h : s'.rootTable.pageMappingNodes = s.rootTable.pageMappingNodes.set d w) :
    SameUnused s s' := by
  intro c hc
  have hne : c ≠ d := by omega
  unfold FtlState.node
  rw [h, Ram.set_apply, if_neg hne]

end SameUnused

/-- The run from `s` to `s'` changed nothing but the page mapping table. -/
structure PmtFrame [Platform] (s s' : FtlState) : Prop where
  ran : Ran (fun b => pmtStartBlock ≤ b ∧ b < dataStartBlock) s s'
  dirty : ∀ b, b < pmtStartBlock ∨ dataStartBlock ≤ b →
    s'.blockDirtyTable b = s.blockDirtyTable b
  rootTable : ∃ nodes current reclaim, s'.rootTable =
    { s.rootTable with
      pageMappingNodes := nodes, pmtCurrentBlock := current, pmtReclaimBlock := reclaim }
  unused : SameUnused s s'
  bdt : s'.bdt = s.bdt
  root : s'.root = s.root
  hdi : s'.hdi = s.hdi
  data : s'.data = s.data
  api : s'.api = s.api

namespace PmtFrame

variable [Platform] {s s' s'' : FtlState}

theorem refl : PmtFrame s s :=
  ⟨.refl, fun _ _ => rfl, ⟨_, _, _, rfl⟩, .refl, rfl, rfl, rfl, rfl, rfl⟩

theorem trans (h : PmtFrame s s') (h' : PmtFrame s' s'') : PmtFrame s s'' := by
  obtain ⟨nodes, current, reclaim, hroot⟩ := h.rootTable
  obtain ⟨nodes', current', reclaim', hroot'⟩ := h'.rootTable
  refine ⟨h.ran.trans h'.ran, fun b hb => (h'.dirty b hb).trans (h.dirty b hb),
    ⟨nodes', current', reclaim', by rw [hroot', hroot]⟩, h.unused.trans h'.unused,
    ?_, ?_, ?_, ?_, ?_⟩
  · exact h'.bdt.trans h.bdt
  · exact h'.root.trans h.root
  · exact h'.hdi.trans h.hdi
  · exact h'.data.trans h.data
  · exact h'.api.trans h.api

end PmtFrame

/-! ## Cache slots -/

namespace CacheInv

variable [Platform] {s : FtlState} {done c i : Nat}

theorem home_range (h : CacheInv s done) (hc : c < pmtClusterCount) :
    pmtStartBlock ≤ s.homeBlock c ∧ s.homeBlock c < dataStartBlock ∧ s.homePage c < 63 := by
  obtain ⟨b, p, hhome, hb, hb', hp⟩ := h.home c hc
  simp only [dataStartBlock] at hb'
  unfold FtlState.homeBlock FtlState.homePage
  rw [hhome, pmNodeBlock_set (by omega) (by omega), pmNodePage_set (by omega)]
  exact ⟨hb, hb', hp⟩

theorem cached_at (h : CacheInv s done) (hc : c < pmtClusterCount)
    (hcached : pmNodeIsCached (s.node c) = true) :
    done ≤ pmCacheSlot (s.node c) ∧ pmCacheSlot (s.node c) < 4 ∧
      s.pmt.cacheCluster (pmCacheSlot (s.node c)) = c ∧
      (s.node c = pmCacheAddr (pmCacheSlot (s.node c)) ∨
        s.node c = pmCacheAddr (pmCacheSlot (s.node c)) + 2) := by
  obtain ⟨i, hdone, hi, hcluster, hnode⟩ := h.cached c hc hcached
  have hslot : pmCacheSlot (s.node c) = i := by
    rcases hnode with hnode | hnode
    · rw [hnode, pmCacheSlot_cacheAddr]
    · rw [hnode, pmCacheSlot_cacheAddr_dirty]
  rw [hslot]
  exact ⟨hdone, hi, hcluster, hnode⟩

/-- Only one slot holds a cached cluster. -/
theorem slot_unique (h : CacheInv s done) (hc : c < pmtClusterCount)
    (hcached : pmNodeIsCached (s.node c) = true) (hi : i < 4)
    (hcluster : s.pmt.cacheCluster i = c) : pmCacheSlot (s.node c) = i := by
  rcases h.slot i hi with ⟨hinvalid, _⟩ | ⟨_, _, hlive, hstale⟩
  · have := pmtClusterCount_le
    rw [hcluster] at hinvalid
    simp only [invalidCluster] at hinvalid
    omega
  · rw [hcluster] at hlive hstale
    by_cases hdone : done ≤ i
    · rcases hlive hdone with hnode | hnode
      · rw [hnode, pmCacheSlot_cacheAddr]
      · rw [hnode, pmCacheSlot_cacheAddr_dirty]
    · rw [hstale (by omega)] at hcached
      simp at hcached

theorem node_of_not_cached (hcached : pmNodeIsCached (s.node c) = false) :
    s.home c = s.node c ∧ s.isDirty c = false := by
  simp [FtlState.home, FtlState.isDirty, hcached]

end CacheInv

/-- Cluster `c` gets the page `b`, `p` as its home and leaves the cache, between
`s` with `done` slots passed and `s'` with `done'` slots passed. -/
structure MovesHome [Platform] (s s' : FtlState) (done done' c b p : Nat) : Prop where
  node : ∀ d, s'.node d = if d = c then pmNodeSetBlockPage b p else s.node d
  kept : ∀ i, i < 4 → s.pmt.cacheCluster i ≠ c →
    s'.pmt.cacheCluster i = s.pmt.cacheCluster i ∧
    s'.pmt.cacheOrigin i = s.pmt.cacheOrigin i ∧ s'.pmt.nodeCaches i = s.pmt.nodeCaches i
  left : ∀ i, i < 4 → s.pmt.cacheCluster i = c →
    (s'.pmt.cacheCluster i = invalidCluster ∧ s'.pmt.cacheOrigin i = invalidPmNode) ∨
    (i < done' ∧ s'.pmt.cacheCluster i = c ∧ s'.pmt.cacheOrigin i = s.pmt.cacheOrigin i)
  mono : done ≤ done'
  passed : ∀ i, i < 4 → done ≤ i → i < done' →
    s.pmt.cacheCluster i = c ∨ s.pmt.cacheCluster i = invalidCluster
  page : ∀ d, d < pmtClusterCount → d ≠ c → s.isDirty d = false →
    s'.flash.page (s.homeBlock d) (s.homePage d) = s.flash.page (s.homeBlock d) (s.homePage d)
  copy : ∃ data spare, s'.flash.page b p = .programmed data spare ∧
    ∀ k, k < 1024 → data.node k = s.cluster c k
  range : pmtStartBlock ≤ b ∧ b < dataStartBlock ∧ p < 63
  meta_lt : ∀ p, s'.pmt.metaData p < pmtClusterCount

namespace MovesHome

variable [Platform] {s s' : FtlState} {done done' c b p d : Nat}

theorem isCached (m : MovesHome s s' done done' c b p) :
    pmNodeIsCached (s'.node d) = if d = c then false else pmNodeIsCached (s.node d) := by
  rw [m.node]
  split
  · exact pmNodeIsCached_set
  · rfl

theorem isDirty (m : MovesHome s s' done done' c b p) :
    s'.isDirty d = if d = c then false else s.isDirty d := by
  unfold FtlState.isDirty
  rw [m.isCached, m.node]
  split <;> simp

/-- The slot of a cluster that does not move is kept. -/
theorem kept_slot (m : MovesHome s s' done done' c b p) (h : CacheInv s done)
    (hd : d < pmtClusterCount) (hdc : d ≠ c) (hcached : pmNodeIsCached (s.node d) = true) :
    s'.pmt.cacheCluster (pmCacheSlot (s.node d)) = d ∧
    s'.pmt.cacheOrigin (pmCacheSlot (s.node d)) = s.pmt.cacheOrigin (pmCacheSlot (s.node d)) ∧
    s'.pmt.nodeCaches (pmCacheSlot (s.node d)) = s.pmt.nodeCaches (pmCacheSlot (s.node d)) := by
  obtain ⟨_, hi, hcluster, _⟩ := h.cached_at hd hcached
  have hkept := m.kept _ hi (by rw [hcluster]; exact hdc)
  rw [hcluster] at hkept
  exact hkept

theorem home (m : MovesHome s s' done done' c b p) (h : CacheInv s done)
    (hd : d < pmtClusterCount) :
    s'.home d = if d = c then pmNodeSetBlockPage b p else s.home d := by
  unfold FtlState.home
  rw [m.isCached, m.node]
  by_cases hdc : d = c
  · simp [hdc]
  · simp only [hdc, if_false]
    split
    · next hcached => rw [(m.kept_slot h hd hdc hcached).2.1]
    · rfl

theorem home_self (m : MovesHome s s' done done' c b p) (h : CacheInv s done)
    (hc : c < pmtClusterCount) : s'.homeBlock c = b ∧ s'.homePage c = p := by
  have := m.range
  simp only [dataStartBlock] at this
  unfold FtlState.homeBlock FtlState.homePage
  rw [m.home h hc, if_pos rfl]
  exact ⟨pmNodeBlock_set (by omega) (by omega), pmNodePage_set (by omega)⟩

theorem home_other (m : MovesHome s s' done done' c b p) (h : CacheInv s done)
    (hd : d < pmtClusterCount) (hdc : d ≠ c) :
    s'.homeBlock d = s.homeBlock d ∧ s'.homePage d = s.homePage d := by
  unfold FtlState.homeBlock FtlState.homePage
  rw [m.home h hd, if_neg hdc]
  exact ⟨rfl, rfl⟩

theorem cluster (m : MovesHome s s' done done' c b p) (h : CacheInv s done)
    (hd : d < pmtClusterCount) {k : Nat} (hk : k < 1024) : s'.cluster d k = s.cluster d k := by
  by_cases hdc : d = c
  · subst hdc
    obtain ⟨data, spare, hpage, hcopy⟩ := m.copy
    have hr := m.range
    simp only [dataStartBlock] at hr
    have hwords : s'.cluster d k = s'.flash.words b p k := by
      unfold FtlState.cluster
      rw [m.isCached, m.node, if_pos rfl, if_pos rfl, pmNodeBlock_set (by omega) (by omega),
        pmNodePage_set (by omega)]
      rfl
    rw [hwords, Flash.words_of_page hpage]
    exact hcopy k hk
  · unfold FtlState.cluster
    rw [m.isCached, m.node, if_neg hdc, if_neg hdc]
    by_cases hcached : pmNodeIsCached (s.node d) = true
    · rw [if_pos hcached, if_pos hcached, (m.kept_slot h hd hdc hcached).2.2]
    · obtain ⟨hhome, hdirty⟩ :=
        CacheInv.node_of_not_cached (s := s) (c := d) (by simpa using hcached)
      have hpage := m.page d hd hdc hdirty
      unfold FtlState.homeBlock FtlState.homePage at hpage
      rw [hhome] at hpage
      rw [if_neg hcached, if_neg hcached, Flash.words_congr hpage]

theorem cacheInv (m : MovesHome s s' done done' c b p) (h : CacheInv s done)
    (hc : c < pmtClusterCount) : CacheInv s' done' := by
  have hinvalid : c ≠ invalidCluster := by
    have := pmtClusterCount_le
    simp only [invalidCluster]
    omega
  constructor
  case cached =>
    intro d hd hcached
    rw [m.isCached] at hcached
    by_cases hdc : d = c
    · simp [hdc] at hcached
    · rw [if_neg hdc] at hcached
      obtain ⟨hdone, hi, hcluster, hnode⟩ := h.cached_at hd hcached
      refine ⟨pmCacheSlot (s.node d), ?_, hi, (m.kept_slot h hd hdc hcached).1, ?_⟩
      · by_contra hlt
        have hdi : d ≠ invalidCluster := by
          have := pmtClusterCount_le
          simp only [invalidCluster]
          omega
        rcases m.passed _ hi hdone (by omega) with hp | hp
        · exact hdc (hcluster.symm.trans hp)
        · exact hdi (hcluster.symm.trans hp)
      · rw [m.node, if_neg hdc]
        exact hnode
  case slot =>
    intro i hi
    by_cases hic : s.pmt.cacheCluster i = c
    · rcases m.left i hi hic with hclear | ⟨hdone, hcluster, horigin⟩
      · exact .inl hclear
      · right
        rcases h.slot i hi with ⟨hno, _⟩ | ⟨_, hvalid, _⟩
        · exact absurd (hic.symm.trans hno) hinvalid
        · rw [hcluster, horigin]
          refine ⟨hc, hvalid, by omega, fun _ => ?_⟩
          rw [m.isCached, if_pos rfl]
    · obtain ⟨hcluster, horigin, _⟩ := m.kept i hi hic
      rw [hcluster, horigin]
      rcases h.slot i hi with hno | ⟨hlt, hvalid, hlive, hstale⟩
      · exact .inl hno
      · right
        refine ⟨hlt, hvalid, ?_, ?_⟩
        · intro hdone
          rw [m.node, if_neg hic]
          exact hlive (le_trans m.mono hdone)
        · intro hlt'
          rw [m.isCached, if_neg hic]
          by_cases hdone : done ≤ i
          · rcases m.passed i hi hdone hlt' with hp | hp
            · exact absurd hp hic
            · have := pmtClusterCount_le
              simp only [invalidCluster] at hp
              omega
          · exact hstale (by omega)
  case home =>
    intro d hd
    rw [m.home h hd]
    by_cases hdc : d = c
    · rw [if_pos hdc]
      exact ⟨b, p, rfl, m.range⟩
    · rw [if_neg hdc]
      exact h.home d hd
  case stored =>
    intro d hd hdirty
    by_cases hdc : d = c
    · subst hdc
      obtain ⟨data, spare, hpage, _⟩ := m.copy
      obtain ⟨hb, hp⟩ := m.home_self h hc
      rw [hb, hp]
      exact ⟨data, spare, hpage⟩
    · rw [m.isDirty, if_neg hdc] at hdirty
      obtain ⟨hb, hp⟩ := m.home_other h hd hdc
      rw [hb, hp, m.page d hd hdc hdirty]
      exact h.stored d hd hdirty
  case clean =>
    intro d hd hdirty k hk
    rw [m.cluster h hd hk]
    by_cases hdc : d = c
    · subst hdc
      obtain ⟨data, spare, hpage, hcopy⟩ := m.copy
      obtain ⟨hb, hp⟩ := m.home_self h hc
      rw [hb, hp, Flash.words_of_page hpage]
      exact (hcopy k hk).symm
    · rw [m.isDirty, if_neg hdc] at hdirty
      obtain ⟨hb, hp⟩ := m.home_other h hd hdc
      rw [hb, hp, Flash.words_congr (m.page d hd hdc hdirty)]
      exact h.clean d hd hdirty k hk
  case meta_lt => exact m.meta_lt

/-- The homes of a block after the move. -/
theorem homes (m : MovesHome s s' done done' c b p) (h : CacheInv s done)
    (hc : c < pmtClusterCount) (x : Nat) :
    s'.homes x + (if s.homeBlock c = x then 1 else 0) =
      s.homes x + (if b = x then 1 else 0) := by
  have hmove := Occupancy.move (f := s.homeBlock) (g := s'.homeBlock) (b := x) hc
    fun d hd hdc => (m.home_other h hd hdc).1
  rw [(m.home_self h hc).1] at hmove
  exact hmove

theorem dirtyClusters (m : MovesHome s s' done done' c b p) (hc : c < pmtClusterCount) :
    s'.dirtyClusters + (if s.isDirty c = true then 1 else 0) = s.dirtyClusters := by
  have hmove := Occupancy.move (f := s.isDirty) (g := s'.isDirty) (b := true) hc
    fun d _ hdc => by rw [m.isDirty, if_neg hdc]
  rw [m.isDirty, if_pos rfl] at hmove
  unfold FtlState.dirtyClusters
  simpa using hmove

end MovesHome

/-- No cluster's words change. -/
def SameClusters [Platform] (s s' : FtlState) : Prop :=
  ∀ c, c < pmtClusterCount → ∀ k, k < 1024 → s'.cluster c k = s.cluster c k

theorem SameClusters.trans [Platform] {s s' s'' : FtlState} (h : SameClusters s s')
    (h' : SameClusters s' s'') : SameClusters s s'' :=
  fun c hc k hk => (h' c hc k hk).trans (h c hc k hk)

/-! ## States with the same root table entries and slots -/

/-- The states have the same mapping nodes and cache slots. -/
structure SameNodes (s s' : FtlState) : Prop where
  nodes : s'.rootTable.pageMappingNodes = s.rootTable.pageMappingNodes
  pmt : s'.pmt = s.pmt

namespace SameNodes

variable [Platform] {s s' : FtlState} {done : Nat}

omit [Platform] in
theorem node (h : SameNodes s s') : s'.node = s.node := by
  funext c
  unfold FtlState.node
  rw [h.nodes]

theorem home (h : SameNodes s s') : s'.home = s.home := by
  funext c
  unfold FtlState.home
  rw [h.node, h.pmt]

theorem homeBlock (h : SameNodes s s') : s'.homeBlock = s.homeBlock := by
  funext c
  unfold FtlState.homeBlock
  rw [h.home]

theorem homePage (h : SameNodes s s') : s'.homePage = s.homePage := by
  funext c
  unfold FtlState.homePage
  rw [h.home]

theorem homes (h : SameNodes s s') : s'.homes = s.homes := by
  funext b
  unfold FtlState.homes
  rw [h.homeBlock]

omit [Platform] in
theorem isDirty (h : SameNodes s s') : s'.isDirty = s.isDirty := by
  funext c
  unfold FtlState.isDirty
  rw [h.node]

theorem dirtyClusters (h : SameNodes s s') : s'.dirtyClusters = s.dirtyClusters := by
  unfold FtlState.dirtyClusters
  rw [h.isDirty]

/-- The clusters are the same when their pages are. -/
theorem clusters (h : SameNodes s s')
    (hpage : ∀ c, c < pmtClusterCount → s.isDirty c = false →
      s'.flash.page (s.homeBlock c) (s.homePage c) =
        s.flash.page (s.homeBlock c) (s.homePage c)) : SameClusters s s' := by
  intro c hc k _
  unfold FtlState.cluster
  rw [h.node, h.pmt]
  split
  · rfl
  · next hcached =>
      obtain ⟨hhome, hd⟩ :=
        CacheInv.node_of_not_cached (s := s) (c := c) (by simpa using hcached)
      have hsame := hpage c hc hd
      unfold FtlState.homeBlock FtlState.homePage at hsame
      rw [hhome] at hsame
      exact congrFun (Flash.words_congr hsame) k

theorem cacheInv (h : SameNodes s s') (hs : CacheInv s done)
    (hpage : ∀ c, c < pmtClusterCount → s.isDirty c = false →
      s'.flash.page (s.homeBlock c) (s.homePage c) =
        s.flash.page (s.homeBlock c) (s.homePage c)) : CacheInv s' done := by
  constructor
  case cached =>
    rw [h.node, h.pmt]
    exact hs.cached
  case slot =>
    rw [h.node, h.pmt]
    exact hs.slot
  case home =>
    rw [h.home]
    exact hs.home
  case stored =>
    rw [h.isDirty, h.homeBlock, h.homePage]
    intro c hc hd
    rw [hpage c hc hd]
    exact hs.stored c hc hd
  case clean =>
    rw [h.isDirty, h.homeBlock, h.homePage]
    intro c hc hd k hk
    rw [h.clusters hpage c hc k hk, hs.clean c hc hd k hk, Flash.words_congr (hpage c hc hd)]
  case meta_lt =>
    rw [h.pmt]
    exact hs.meta_lt

end SameNodes

/-- The data layer sees no change of the page mapping table alone. -/
theorem PmtFrame.view_eq [Platform] {s s' : FtlState} (h : PmtFrame s s')
    (hcluster : SameClusters s s') : s'.view = s.view := by
  obtain ⟨nodes, current, reclaim, hroot⟩ := h.rootTable
  unfold FtlState.view
  rw [hroot, h.data, h.api]
  congr 1
  · funext addr
    split
    · next haddr => exact hcluster _ (clusterIndex_lt haddr) _ (pageInCluster_lt addr)
    · rfl
  · funext b p
    split
    · next hb => exact h.ran.flash.page (by omega) p
    · rfl
  · funext b
    split
    · next hb => exact h.dirty b (.inr hb)
    · rfl
  · exact h.ran.flash.log_filter fun op hop => decide_eq_false (by omega)

end RansomTag

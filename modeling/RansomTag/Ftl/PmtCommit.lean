import RansomTag.Ftl.PmtReclaim

/-!
# Commits of the page mapping table

`PMT_Commit` passes the four cache slots.  A clean cluster goes back to its
home, and a dirty one gets the next page of the current mapping block, which is
closed and replaced when it is full.
-/

namespace RansomTag

open Program

variable [Platform]

/-- The mapping table between two calls, with a budget of `k` dirty clusters. -/
structure PmtOk (s : FtlState) (done k : Nat) : Prop where
  inv : PmtInv s done
  page : s.rootTable.pmtPage < 63
  budget : Budget s k

theorem PmtOk.mono {s : FtlState} {done k k' : Nat} (h : PmtOk s done k) (hk : k' ≤ k) :
    PmtOk s done k' :=
  ⟨h.inv, h.page, h.budget.mono hk⟩

/-- No cluster is in the cache. -/
def Uncached (s : FtlState) : Prop :=
  ∀ c, c < pmtClusterCount → pmNodeIsCached (s.node c) = false

/-! ## States with the same homes -/

/-- The homes stay where they are, and no dirty cluster becomes clean. -/
structure SameHomes (s s' : FtlState) : Prop where
  block : ∀ c, c < pmtClusterCount → s'.homeBlock c = s.homeBlock c
  homePage : ∀ c, c < pmtClusterCount → s'.homePage c = s.homePage c
  isDirty : ∀ c, c < pmtClusterCount → s.isDirty c = true → s'.isDirty c = true
  current : s'.rootTable.pmtCurrentBlock = s.rootTable.pmtCurrentBlock
  spare : s'.rootTable.pmtReclaimBlock = s.rootTable.pmtReclaimBlock
  metaData : s'.pmt.metaData = s.pmt.metaData
  dirty : ∀ b, b < dataStartBlock → s'.blockDirtyTable b = s.blockDirtyTable b
  page : ∀ b, pmtStartBlock ≤ b → b < dataStartBlock → ∀ p,
    s'.flash.page b p = s.flash.page b p

namespace SameHomes

variable {s s' s'' : FtlState} {done done' k j : Nat}

theorem trans (h : SameHomes s s') (h' : SameHomes s' s'') : SameHomes s s'' where
  block c hc := (h'.block c hc).trans (h.block c hc)
  homePage c hc := (h'.homePage c hc).trans (h.homePage c hc)
  isDirty c hc hd := h'.isDirty c hc (h.isDirty c hc hd)
  current := h'.current.trans h.current
  spare := h'.spare.trans h.spare
  metaData := h'.metaData.trans h.metaData
  dirty b hb := (h'.dirty b hb).trans (h.dirty b hb)
  page b hb hb' p := (h'.page b hb hb' p).trans (h.page b hb hb' p)

theorem homes (h : SameHomes s s') (b : Nat) : s'.homes b = s.homes b :=
  Occupancy.congr h.block

theorem pmtBlock (h : SameHomes s s') : s'.rootTable.pmtBlock = s.rootTable.pmtBlock := by
  unfold Root.pmtBlock
  rw [h.current]

theorem pmtPage (h : SameHomes s s') : s'.rootTable.pmtPage = s.rootTable.pmtPage := by
  unfold Root.pmtPage
  rw [h.current]

theorem pmtSpare (h : SameHomes s s') : s'.pmtSpare = s.pmtSpare := by
  unfold FtlState.pmtSpare
  rw [h.spare]

theorem pmtInv (h : SameHomes s s') (hs : PmtInv s done) (hcache : CacheInv s' done')
    (hroom : s.homes s.pmtSpare = 0 ∨ (0 < done' ∧ s.rootTable.pmtPage + 4 ≤ 20 + done')) :
    PmtInv s' done' := by
  refine { hcache with
    current_block := ?current_block
    current_page := ?current_page
    current_free := ?current_free
    spare_block := ?spare_block
    spare_free := ?spare_free
    spare_homes := ?spare_homes
    spare_count := ?spare_count
    spare_room := ?spare_room
    count := ?count
    closed := ?closed }
  case current_block => rw [h.pmtBlock]; exact hs.current_block
  case current_page => rw [h.pmtPage]; exact hs.current_page
  case current_free =>
    rw [h.pmtBlock, h.pmtPage]
    intro p hp hp'
    rw [h.page _ hs.current_block.1 hs.current_block.2]
    exact hs.current_free p hp hp'
  case spare_block => rw [h.pmtSpare, h.pmtBlock]; exact hs.spare_block
  case spare_free =>
    rw [h.pmtSpare]
    intro p hp
    rw [h.page _ hs.spare_block.1 hs.spare_block.2.1]
    exact hs.spare_free p hp
  case spare_homes =>
    rw [h.pmtSpare]
    intro c hc hb
    rw [h.block c hc] at hb
    exact h.isDirty c hc (hs.spare_homes c hc hb)
  case spare_count =>
    rw [h.pmtSpare, h.homes, h.dirty _ hs.spare_block.2.1]
    exact hs.spare_count
  case spare_room => rw [h.pmtSpare, h.homes, h.pmtPage]; exact hroom
  case count =>
    rw [h.pmtSpare, h.pmtBlock, h.pmtPage]
    intro b hb hb' hne
    rw [h.dirty b hb', h.homes]
    exact hs.count b hb hb' hne
  case closed =>
    rw [h.pmtSpare, h.pmtBlock]
    intro b hb hb' hne hne' hd
    rw [h.dirty b hb'] at hd
    rw [h.page b hb hb']
    exact hs.closed b hb hb' hne hne' hd

theorem named (h : SameHomes s s') (hs : CacheInv s done) {b : Nat} (hn : Named s b) :
    Named s' b := by
  intro c hc hd
  have hd' : s.isDirty c = false := by
    by_contra hdirty
    rw [h.isDirty c hc (by simpa using hdirty)] at hd
    simp at hd
  obtain ⟨hb, hb', _⟩ := hs.home_range hc
  rw [h.block c hc, h.homePage c hc, h.metaData, Flash.words_congr (h.page _ hb hb' 63)]
  exact hn c hc hd'

theorem budget (h : SameHomes s s') (hs : CacheInv s done)
    (hdirty : s'.dirtyClusters ≤ s.dirtyClusters + j) (hb : Budget s (k + j)) : Budget s' k := by
  rcases hb with hb | hb
  · left
    rw [h.pmtBlock]
    exact h.named hs hb
  · right
    rw [h.pmtPage]
    omega

/-- Between two calls no slot is passed. -/
theorem pmtOk (h : SameHomes s s') (hs : PmtOk s 0 (k + j)) (hcache : CacheInv s' 0)
    (hdirty : s'.dirtyClusters ≤ s.dirtyClusters + j) : PmtOk s' 0 k := by
  refine ⟨h.pmtInv hs.inv hcache hs.inv.spare_room, ?_, ?_⟩
  · rw [h.pmtPage]
    exact hs.page
  · exact h.budget hs.inv.toCacheInv hdirty hs.budget

end SameHomes

/-- The states agree on all that the mapping table consists of. -/
structure SamePmt (s s' : FtlState) : Prop extends SameNodes s s' where
  current : s'.rootTable.pmtCurrentBlock = s.rootTable.pmtCurrentBlock
  spare : s'.rootTable.pmtReclaimBlock = s.rootTable.pmtReclaimBlock
  dirty : ∀ b, b < dataStartBlock → s'.blockDirtyTable b = s.blockDirtyTable b
  page : ∀ b, pmtStartBlock ≤ b → b < dataStartBlock → ∀ p,
    s'.flash.page b p = s.flash.page b p

namespace SamePmt

variable {s s' s'' : FtlState} {done k : Nat}

omit [Platform] in
theorem refl : SamePmt s s :=
  ⟨⟨rfl, rfl⟩, rfl, rfl, fun _ _ => rfl, fun _ _ _ _ => rfl⟩

omit [Platform] in
theorem trans (h : SamePmt s s') (h' : SamePmt s' s'') : SamePmt s s'' :=
  ⟨⟨h'.nodes.trans h.nodes, h'.pmt.trans h.pmt⟩, h'.current.trans h.current,
    h'.spare.trans h.spare, fun b hb => (h'.dirty b hb).trans (h.dirty b hb),
    fun b hb hb' p => (h'.page b hb hb' p).trans (h.page b hb hb' p)⟩

theorem sameHomes (h : SamePmt s s') : SameHomes s s' where
  block c _ := congrFun h.homeBlock c
  homePage c _ := congrFun h.homePage c
  isDirty c _ hd := (congrFun h.isDirty c).trans hd
  current := h.current
  spare := h.spare
  metaData := by rw [h.pmt]
  dirty := h.dirty
  page := h.page

theorem home_page (h : SamePmt s s') (hs : CacheInv s done) {c : Nat}
    (hc : c < pmtClusterCount) (p : Nat) :
    s'.flash.page (s.homeBlock c) p = s.flash.page (s.homeBlock c) p := by
  obtain ⟨hb, hb', _⟩ := hs.home_range hc
  exact h.page _ hb hb' p

theorem clusters (h : SamePmt s s') (hs : CacheInv s done) : SameClusters s s' :=
  h.toSameNodes.clusters fun _ hc _ => h.home_page hs hc _

theorem cacheInv (h : SamePmt s s') (hs : CacheInv s done) : CacheInv s' done :=
  h.toSameNodes.cacheInv hs fun _ hc _ => h.home_page hs hc _

theorem pmtOk (h : SamePmt s s') (hs : PmtOk s 0 k) : PmtOk s' 0 k :=
  h.sameHomes.pmtOk (j := 0) hs (h.cacheInv hs.inv.toCacheInv) h.dirtyClusters.le

theorem uncached (h : SamePmt s s') (hs : Uncached s) : Uncached s' := by
  unfold Uncached
  rw [h.node]
  exact hs

end SamePmt

/-! ## One slot of the commit -/

/-- What a slot of the commit leaves. -/
structure SlotPassed (s s' : FtlState) (done k : Nat) : Prop where
  ok : PmtOk s' done k
  frame : PmtFrame s s'
  clusters : SameClusters s s'

section

variable {s : FtlState} {i k c : Nat}

/-- An empty slot is passed without a step. -/
theorem PmtOk.pass (h : PmtOk s i k) (hi : i < 4)
    (hempty : s.pmt.cacheCluster i = invalidCluster) : PmtOk s (i + 1) k := by
  refine ⟨?_, h.page, h.budget⟩
  refine { h.inv with cached := ?cached, slot := ?slot, spare_room := ?room }
  case cached =>
    intro c hc hcached
    obtain ⟨j, hdone, hj, hcluster, hnode⟩ := h.inv.cached c hc hcached
    refine ⟨j, ?_, hj, hcluster, hnode⟩
    by_contra hlt
    obtain rfl : j = i := by omega
    have := pmtClusterCount_le
    rw [hempty] at hcluster
    simp only [invalidCluster] at hcluster
    omega
  case slot =>
    intro j hj
    rcases h.inv.slot j hj with hno | ⟨hlt, hvalid, hlive, hstale⟩
    · exact .inl hno
    · right
      refine ⟨hlt, hvalid, fun hdone => hlive (by omega), fun hlt' => ?_⟩
      by_cases hji : j = i
      · subst hji
        have := pmtClusterCount_le
        rw [hempty] at hlt
        simp only [invalidCluster] at hlt
        omega
      · exact hstale (by omega)
  case room =>
    rcases h.inv.spare_room with hroom | hroom
    · exact .inl hroom
    · right; omega

/-- The cluster of a slot that is still to be passed. -/
theorem CacheInv.slot_cluster (h : CacheInv s i) (hi : i < 4)
    (hne : s.pmt.cacheCluster i ≠ invalidCluster) :
    s.pmt.cacheCluster i < pmtClusterCount ∧
      pmNodeIsCached (s.node (s.pmt.cacheCluster i)) = true ∧
      pmCacheSlot (s.node (s.pmt.cacheCluster i)) = i ∧
      s.home (s.pmt.cacheCluster i) = s.pmt.cacheOrigin i := by
  rcases h.slot i hi with ⟨hno, _⟩ | ⟨hc, _, hlive, _⟩
  · exact absurd hno hne
  · have hcached : pmNodeIsCached (s.node (s.pmt.cacheCluster i)) = true := by
      rcases hlive le_rfl with hnode | hnode
      · exact hnode ▸ pmNodeIsCached_cacheAddr i
      · exact hnode ▸ pmNodeIsCached_cacheAddr_dirty i
    have hslot := h.slot_unique hc hcached hi rfl
    refine ⟨hc, hcached, hslot, ?_⟩
    unfold FtlState.home
    rw [if_pos hcached, hslot]

/-- The state after a clean cluster went back to its home. -/
def FtlState.released (s : FtlState) (i : Nat) : FtlState :=
  { s with rootTable := { s.rootTable with
    pageMappingNodes :=
      s.rootTable.pageMappingNodes.set (s.pmt.cacheCluster i) (s.pmt.cacheOrigin i) } }

theorem CacheInv.released_moves (h : CacheInv s i) (hi : i < 4)
    (hne : s.pmt.cacheCluster i ≠ invalidCluster)
    (hclean : s.isDirty (s.pmt.cacheCluster i) = false) :
    MovesHome s (s.released i) i (i + 1) (s.pmt.cacheCluster i)
      (s.homeBlock (s.pmt.cacheCluster i)) (s.homePage (s.pmt.cacheCluster i)) := by
  obtain ⟨hc, hcached, hslot, hhome⟩ := h.slot_cluster hi hne
  obtain ⟨b, p, hword, hb, hb', hp⟩ := h.home _ hc
  obtain ⟨data, spare, hpage⟩ := h.stored _ hc hclean
  constructor
  case node =>
    intro d
    have horigin : s.pmt.cacheOrigin i = pmNodeSetBlockPage
        (s.homeBlock (s.pmt.cacheCluster i)) (s.homePage (s.pmt.cacheCluster i)) := by
      simp only [dataStartBlock] at hb'
      unfold FtlState.homeBlock FtlState.homePage
      rw [← hhome, hword, pmNodeBlock_set (by omega) (by omega), pmNodePage_set (by omega)]
    rw [← horigin]
    exact Ram.set_apply _ _ _ _
  case kept => exact fun _ _ _ => ⟨rfl, rfl, rfl⟩
  case left =>
    intro j hj hjc
    right
    have hji : pmCacheSlot (s.node (s.pmt.cacheCluster i)) = j := h.slot_unique hc hcached hj hjc
    exact ⟨by omega, hjc, rfl⟩
  case mono => exact Nat.le_succ i
  case passed =>
    intro j _ hdone hlt
    obtain rfl : j = i := by omega
    exact .inl rfl
  case page => exact fun _ _ _ _ => rfl
  case copy =>
    refine ⟨data, spare, hpage, fun k hk => ?_⟩
    rw [h.clean _ hc hclean k hk, Flash.words_of_page hpage]
  case range => exact h.home_range hc
  case meta_lt => exact h.meta_lt

theorem PmtOk.released (h : PmtOk s i k) (hi : i < 4)
    (hne : s.pmt.cacheCluster i ≠ invalidCluster)
    (hclean : s.isDirty (s.pmt.cacheCluster i) = false) :
    SlotPassed s (s.released i) (i + 1) k := by
  obtain ⟨hc, hcached, hslot, hhome⟩ := h.inv.slot_cluster hi hne
  have m := h.inv.toCacheInv.released_moves hi hne hclean
  have hcache := h.inv.toCacheInv
  have hdirty : ∀ d, (s.released i).isDirty d = s.isDirty d := by
    intro d
    rw [m.isDirty]
    split
    · next hdc => rw [hdc, hclean]
    · rfl
  have hblock : ∀ d, d < pmtClusterCount → (s.released i).homeBlock d = s.homeBlock d ∧
      (s.released i).homePage d = s.homePage d := by
    intro d hd
    by_cases hdc : d = s.pmt.cacheCluster i
    · rw [hdc]
      exact m.home_self hcache hc
    · exact m.home_other hcache hd hdc
  have same : SameHomes s (s.released i) :=
    ⟨fun d hd => (hblock d hd).1, fun d hd => (hblock d hd).2, fun d _ hd => (hdirty d).trans hd,
      rfl, rfl, rfl, fun _ _ => rfl, fun _ _ _ _ => rfl⟩
  refine ⟨⟨same.pmtInv h.inv (m.cacheInv hcache hc) ?_, h.page, ?_⟩, ?_,
    fun d hd j hj => m.cluster hcache hd hj⟩
  · rcases h.inv.spare_room with hroom | hroom
    · exact .inl hroom
    · right; omega
  · refine same.budget (j := 0) hcache ?_ h.budget
    exact (Occupancy.congr fun d _ => hdirty d).le
  · exact ⟨.of_eq rfl rfl, fun _ _ => rfl, ⟨_, _, _, rfl⟩, .of_set hc rfl, rfl, rfl, rfl, rfl, rfl⟩

/-- The state after the node of slot `i` was appended to the current block. -/
def FtlState.appended (s : FtlState) (i : Nat) : FtlState :=
  { s.program s.rootTable.pmtBlock s.rootTable.pmtPage (.words (s.pmt.nodeCaches i))
      (.footprint (s.pmt.cacheCluster i)) with
    pmt := { s.pmt with
      metaData := s.pmt.metaData.set s.rootTable.pmtPage (s.pmt.cacheCluster i) }
    rootTable := { s.rootTable with
      pageMappingNodes := s.rootTable.pageMappingNodes.set (s.pmt.cacheCluster i)
        (pmNodeSetBlockPage s.rootTable.pmtBlock s.rootTable.pmtPage)
      pmtCurrentBlock := pmNodeSetBlockPage s.rootTable.pmtBlock (s.rootTable.pmtPage + 1) }
    blockDirtyTable := s.blockDirtyTable.set (pmNodeBlock (s.pmt.cacheOrigin i))
      ((s.blockDirtyTable (pmNodeBlock (s.pmt.cacheOrigin i)) + 1) % 256) }

theorem CacheInv.appended_moves (h : PmtInv s i) (hi : i < 4)
    (hpage : s.rootTable.pmtPage < 63) (hne : s.pmt.cacheCluster i ≠ invalidCluster) :
    MovesHome s (s.appended i) i (i + 1) (s.pmt.cacheCluster i)
      s.rootTable.pmtBlock s.rootTable.pmtPage := by
  obtain ⟨hc, hcached, hslot, hhome⟩ := h.slot_cluster hi hne
  have hfree := h.current_free s.rootTable.pmtPage le_rfl (by omega)
  constructor
  case node => exact fun d => Ram.set_apply _ _ _ _
  case kept => exact fun _ _ _ => ⟨rfl, rfl, rfl⟩
  case left =>
    intro j hj hjc
    right
    have hji : pmCacheSlot (s.node (s.pmt.cacheCluster i)) = j := h.slot_unique hc hcached hj hjc
    exact ⟨by omega, hjc, rfl⟩
  case mono => exact Nat.le_succ i
  case passed =>
    intro j _ hdone hlt
    obtain rfl : j = i := by omega
    exact .inl rfl
  case page =>
    intro d hd _ hclean
    refine Flash.page_program_other ?_
    rintro ⟨hb, hp⟩
    obtain ⟨data, spare, hstored⟩ := h.stored d hd hclean
    rw [hb, hp, hfree] at hstored
    simp at hstored
  case copy =>
    refine ⟨_, _, Flash.page_program_erased hfree, fun k _ => ?_⟩
    unfold FtlState.cluster
    rw [if_pos hcached, hslot]
    rfl
  case range => exact ⟨h.current_block.1, h.current_block.2, hpage⟩
  case meta_lt =>
    intro p
    refine Eq.trans_lt (Ram.set_apply _ _ _ _) ?_
    split
    · exact hc
    · exact h.meta_lt p

/-- The dirty count of the block with the old copy stays below a full block. -/
theorem PmtInv.old_dirty (h : PmtInv s i) (hc : c < pmtClusterCount) :
    s.blockDirtyTable (s.homeBlock c) + 1 ≤ 63 := by
  have hpos : 0 < s.homes (s.homeBlock c) := Occupancy.pos_of_mem hc rfl
  obtain ⟨hb, hb', _⟩ := h.home_range hc
  by_cases hspare : s.homeBlock c = s.pmtSpare
  · have := h.spare_count
    rw [← hspare] at this
    omega
  · have hcount := h.count _ hb hb' hspare
    have := h.current_page
    split at hcount <;> omega

/-- The table after a dirty cluster was appended; its current block may be full. -/
structure Appended (s s' : FtlState) (done : Nat) : Prop where
  inv : PmtInv s' done
  block : s'.rootTable.pmtBlock = s.rootTable.pmtBlock
  page : s'.rootTable.pmtPage = s.rootTable.pmtPage + 1
  named : Named s s.rootTable.pmtBlock → Named s' s.rootTable.pmtBlock
  dirty : s'.dirtyClusters + 1 = s.dirtyClusters
  frame : PmtFrame s s'
  clusters : SameClusters s s'

theorem PmtInv.appended (h : PmtInv s i) (hi : i < 4) (hpage : s.rootTable.pmtPage < 63)
    (hne : s.pmt.cacheCluster i ≠ invalidCluster)
    (hdirty : s.isDirty (s.pmt.cacheCluster i) = true) :
    Appended s (s.appended i) (i + 1) := by
  obtain ⟨hc, hcached, hslot, hhome⟩ := h.slot_cluster hi hne
  have m := CacheInv.appended_moves h hi hpage hne
  have hcache := h.toCacheInv
  obtain ⟨hcur, hcur'⟩ := h.current_block
  have hblock : (s.appended i).rootTable.pmtBlock = s.rootTable.pmtBlock := by
    simp only [dataStartBlock] at hcur'
    exact pmNodeBlock_set (by omega) (by omega)
  have hnext : (s.appended i).rootTable.pmtPage = s.rootTable.pmtPage + 1 :=
    pmNodePage_set (by omega)
  have hspare : (s.appended i).pmtSpare = s.pmtSpare := rfl
  have hself := m.home_self hcache hc
  have hold := h.old_dirty hc
  -- one page more is stale in the old block, and one home more in the current block
  have htable : ∀ b, (s.appended i).blockDirtyTable b =
      s.blockDirtyTable b + if s.homeBlock (s.pmt.cacheCluster i) = b then 1 else 0 := by
    intro b
    have holdBlock : pmNodeBlock (s.pmt.cacheOrigin i) =
        s.homeBlock (s.pmt.cacheCluster i) := by
      unfold FtlState.homeBlock
      rw [hhome]
    refine (Ram.set_apply _ _ _ _).trans ?_
    rw [holdBlock]
    by_cases hb : b = s.homeBlock (s.pmt.cacheCluster i)
    · rw [if_pos hb, if_pos hb.symm, hb]
      omega
    · rw [if_neg hb, if_neg (Ne.symm hb), Nat.add_zero]
  have hsum : ∀ b, (s.appended i).blockDirtyTable b + (s.appended i).homes b =
      s.blockDirtyTable b + s.homes b + if s.rootTable.pmtBlock = b then 1 else 0 := by
    intro b
    have := m.homes hcache hc b
    rw [htable]
    omega
  have hflash : ∀ b p, ¬ (b = s.rootTable.pmtBlock ∧ p = s.rootTable.pmtPage) →
      (s.appended i).flash.page b p = s.flash.page b p := fun b p hne =>
    Flash.page_program_other hne
  have hcurspare := h.spare_block.2.2
  constructor
  case inv =>
    refine { m.cacheInv hcache hc with
      current_block := by rw [hblock]; exact h.current_block
      current_page := by rw [hnext]; omega
      current_free := ?current_free
      spare_block := by rw [hblock]; exact h.spare_block
      spare_free := ?spare_free
      spare_homes := ?spare_homes
      spare_count := ?spare_count
      spare_room := ?spare_room
      count := ?count
      closed := ?closed }
    case current_free =>
      intro p hp hp'
      rw [hnext] at hp
      rw [hblock, hflash _ _ (by omega)]
      exact h.current_free p (by omega) hp'
    case spare_free =>
      intro p hp
      rw [hspare, hflash _ _ (by omega)]
      exact h.spare_free p hp
    case spare_homes =>
      intro d hd hb
      rw [hspare] at hb
      by_cases hdc : d = s.pmt.cacheCluster i
      · rw [hdc, hself.1] at hb
        exact absurd hb.symm hcurspare
      · rw [(m.home_other hcache hd hdc).1] at hb
        rw [m.isDirty, if_neg hdc]
        exact h.spare_homes d hd hb
    case spare_count =>
      have := hsum s.pmtSpare
      rw [if_neg (Ne.symm hcurspare)] at this
      rw [hspare]
      have := h.spare_count
      omega
    case spare_room =>
      rw [hspare, hnext]
      rcases h.spare_room with hroom | hroom
      · left
        have := m.homes hcache hc s.pmtSpare
        rw [if_neg (Ne.symm hcurspare)] at this
        omega
      · right; omega
    case count =>
      intro b hb hb' hbs
      rw [hspare] at hbs
      have hcount := h.count b hb hb' hbs
      rw [hsum, hblock, hnext, hcount]
      by_cases hbc : b = s.rootTable.pmtBlock
      · rw [if_pos hbc, if_pos hbc.symm, if_pos hbc]
      · rw [if_neg hbc, if_neg (Ne.symm hbc), if_neg hbc]
    case closed =>
      intro b hb hb' hbs hbc hne63
      rw [hspare] at hbs
      rw [hblock] at hbc
      have hcount := h.count b hb hb' hbs
      rw [if_neg hbc] at hcount
      have hne' : s.blockDirtyTable b ≠ 63 := by
        intro heq
        apply hne63
        rw [htable, heq]
        have hnone : s.homes b = 0 := by omega
        rw [if_neg (Occupancy.eq_zero_iff.mp hnone _ hc)]
      rw [hflash b 63 (by omega)]
      exact h.closed b hb hb' hbs hbc hne'
  case block => exact hblock
  case page => exact hnext
  case named =>
    intro hnamed d hd hd'
    by_cases hdc : d = s.pmt.cacheCluster i
    · rw [hdc, hself.1, hself.2, if_pos rfl]
      exact Ram.set_same _ _ _
    · obtain ⟨hb, hp⟩ := m.home_other hcache hd hdc
      rw [m.isDirty, if_neg hdc] at hd'
      have hname := hnamed d hd hd'
      rw [hb, hp]
      by_cases hdb : s.homeBlock d = s.rootTable.pmtBlock
      · rw [if_pos hdb] at hname ⊢
        have hne' : s.homePage d ≠ s.rootTable.pmtPage := by
          intro heq
          obtain ⟨data, spare, hstored⟩ := hcache.stored d hd hd'
          rw [hdb, heq, h.current_free _ le_rfl (by omega)] at hstored
          simp at hstored
        exact (Ram.set_other _ _ hne').trans hname
      · rw [if_neg hdb] at hname ⊢
        rw [Flash.words_congr (hflash (s.homeBlock d) 63 (by omega))]
        exact hname
  case dirty =>
    have := m.dirtyClusters hc
    rw [if_pos hdirty] at this
    exact this
  case frame =>
    refine ⟨(Ran.program (s := s) ⟨hcur, hcur'⟩).trans (.of_eq rfl rfl), ?_, ⟨_, _, _, rfl⟩,
      .of_set hc rfl, rfl,
      rfl, rfl, rfl, rfl⟩
    intro b hb
    obtain ⟨hlo, hhi, _⟩ := hcache.home_range hc
    rw [htable, if_neg (by omega), Nat.add_zero]
  case clusters => exact fun d hd j hj => m.cluster hcache hd hj

/-- The full current block with its meta data in the last page. -/
def FtlState.closedBlock (s : FtlState) : FtlState :=
  s.program s.rootTable.pmtBlock 63 (.words s.pmt.metaData) .null

theorem PmtInv.closedBlock (h : PmtInv s i) (hi : i ≤ 4) (hpage : s.rootTable.pmtPage = 63)
    (hnamed : Named s s.rootTable.pmtBlock) :
    ReclaimReady s.closedBlock i ∧ PmtFrame s s.closedBlock ∧ SameClusters s s.closedBlock := by
  have hcur := h.current_block
  have hfree := h.current_free 63 (by omega) (by omega)
  have hflash : ∀ b p, ¬ (b = s.rootTable.pmtBlock ∧ p = 63) →
      s.closedBlock.flash.page b p = s.flash.page b p := fun b p hne =>
    Flash.page_program_other hne
  have hlast : s.closedBlock.flash.page s.rootTable.pmtBlock 63 =
      .programmed (.words s.pmt.metaData) .null := Flash.page_program_erased hfree
  have hhome : ∀ c, c < pmtClusterCount →
      s.closedBlock.flash.page (s.homeBlock c) (s.homePage c) =
        s.flash.page (s.homeBlock c) (s.homePage c) := by
    intro c hc
    have := (h.home_range hc).2.2
    exact hflash _ _ (by omega)
  have same : SameNodes s s.closedBlock := ⟨rfl, rfl⟩
  have hspareHomes : s.homes s.pmtSpare = 0 := by
    rcases h.spare_room with hroom | hroom
    · exact hroom
    · omega
  refine ⟨?_,
    ⟨Ran.program hcur, fun _ _ => rfl, ⟨_, _, _, rfl⟩, .of_nodes rfl, rfl, rfl, rfl, rfl, rfl⟩,
    same.clusters fun c hc _ => hhome c hc⟩
  constructor
  case toCacheInv => exact same.cacheInv h.toCacheInv fun c hc _ => hhome c hc
  case spare_block => exact ⟨h.spare_block.1, h.spare_block.2.1⟩
  case spare_free =>
    intro p hp
    exact (hflash _ _ fun heq => h.spare_block.2.2 heq.1).trans (h.spare_free p hp)
  case spare_dirty =>
    have := h.spare_count
    exact Nat.le_trans (Nat.le_add_right _ _) this
  case spare_homes => exact hspareHomes
  case count =>
    intro b hb hb' hbs
    have hcount := h.count b hb hb' hbs
    rw [hpage, ite_self] at hcount
    exact hcount
  case closed =>
    intro b hb hb' hbs hne
    by_cases hbc : b = s.rootTable.pmtBlock
    · rw [hbc]
      exact ⟨_, _, hlast, fun p _ => h.meta_lt p⟩
    · obtain ⟨data, spare, hp, hentries⟩ := h.closed b hb hb' hbs hbc hne
      exact ⟨data, spare, (hflash b 63 fun heq => hbc heq.1).trans hp, hentries⟩
  case named =>
    intro c hc hd
    have hname := hnamed c hc hd
    have hzero : s.homeBlock c ≠ 0 := by
      have := (h.home_range hc).1
      simp only [pmtStartBlock] at this
      omega
    change (if s.homeBlock c = 0 then _ else _) = c
    rw [if_neg hzero]
    by_cases hcb : s.homeBlock c = s.rootTable.pmtBlock
    · rw [if_pos hcb] at hname
      change s.closedBlock.flash.words (s.homeBlock c) 63 (s.homePage c) = c
      rw [hcb, Flash.words_of_page hlast]
      exact hname
    · rw [if_neg hcb] at hname
      change s.closedBlock.flash.words (s.homeBlock c) 63 (s.homePage c) = c
      rw [Flash.words_congr (hflash _ 63 fun heq => hcb heq.1)]
      exact hname

variable {E : Stop → Prop}

theorem wp_pmtAppendNode {Q : Status → FtlState → Prop} (h : PmtInv s i) (hi : i < 4)
    (hpage : s.rootTable.pmtPage < 63) (hne : s.pmt.cacheCluster i ≠ invalidCluster) :
    wp (pmtAppendNode i .success) Q E s ↔ Q .success (s.appended i) := by
  have hcap := Platform.ubiCapacity_ge
  obtain ⟨hc, hcached, hslot, hhome⟩ := h.slot_cluster hi hne
  have hcur := h.current_block
  have hcurlt : s.rootTable.pmtBlock < ubiCapacity := by
    simp only [dataStartBlock] at hcur
    omega
  have hassert : (s.appended i).blockDirtyTable (pmNodeBlock (s.pmt.cacheOrigin i)) ≤ 63 := by
    have hold := h.old_dirty hc
    unfold FtlState.homeBlock at hold
    rw [hhome] at hold
    refine (Ram.set_same _ _ _).trans_le ?_
    omega
  have hne64 : s.rootTable.pmtPage ≠ pagePerPhyBlock := by
    simp only [pagePerPhyBlock]
    omega
  have hne63 : s.rootTable.pmtPage ≠ pagePerPhyBlock - 1 := by
    simp only [pagePerPhyBlock]
    omega
  unfold pmtAppendNode
  simp only [wp_bind, wp_get, hne64, ne_eq, not_false_eq_true, if_true, wp_assert, hne63,
    wp_ubiWrite hcurlt, wp_modify, wp_pure, maxDirtyPages]
  exact iff_of_eq (if_pos hassert)

theorem pmtCloseBlock_spec (h : PmtInv s i) (hi : 0 < i) (hi' : i ≤ 4) (hbudget : Budget s k)
    (hpos : s.rootTable.pmtPage = 63 → Named s s.rootTable.pmtBlock) :
    wp (pmtCloseBlock .success) (fun ret s' => ret = .success ∧ SlotPassed s s' i k) E s := by
  have hcap := Platform.ubiCapacity_ge
  have hcur := h.current_block
  have hcurlt : s.rootTable.pmtBlock < ubiCapacity := by
    simp only [dataStartBlock] at hcur
    omega
  unfold pmtCloseBlock
  rw [wp_bind, wp_get]
  by_cases hfull : s.rootTable.pmtPage = 63
  · obtain ⟨hready, hframe, hclusters⟩ := h.closedBlock hi' hfull (hpos hfull)
    simp only [hfull, pagePerPhyBlock, Nat.reduceSub, if_true, wp_bind, wp_ubiWrite hcurlt,
      wp_ubiFlush]
    refine wp_mono_post (pmtReclaimBlocks_spec hready hi) ?_
    rintro ret s' ⟨hret, hdone⟩
    have hpage := hdone.page
    exact ⟨hret, ⟨hdone.inv, by omega, .inl hdone.named⟩, hframe.trans hdone.frame,
      hclusters.trans hdone.clusters⟩
  · have hpage := h.current_page
    simp only [pagePerPhyBlock, Nat.reduceSub, hfull, if_false, wp_pure, true_and]
    exact ⟨⟨h, by omega, hbudget⟩, .refl, fun _ _ _ _ => rfl⟩

theorem pmtCommitDirty_spec (h : PmtOk s i k) (hi : i < 4)
    (hne : s.pmt.cacheCluster i ≠ invalidCluster)
    (hdirty : s.isDirty (s.pmt.cacheCluster i) = true) :
    wp (pmtCommitDirty i .success)
      (fun ret s' => ret = .success ∧ SlotPassed s s' (i + 1) k) E s := by
  have happ := h.inv.appended hi h.page hne hdirty
  unfold pmtCommitDirty
  rw [wp_bind, wp_pmtAppendNode h.inv hi h.page hne]
  have hcount := happ.dirty
  have hpage := happ.page
  have hbudget : Budget (s.appended i) k := by
    rcases h.budget with hnamed | hroom
    · left
      rw [happ.block]
      exact happ.named hnamed
    · right; omega
  refine wp_mono_post (pmtCloseBlock_spec happ.inv (Nat.succ_pos i) hi hbudget ?_) ?_
  · intro hfull
    rcases h.budget with hnamed | hroom
    · rw [happ.block]
      exact happ.named hnamed
    · omega
  · rintro ret s' ⟨hret, hdone⟩
    exact ⟨hret, hdone.ok, happ.frame.trans hdone.frame, happ.clusters.trans hdone.clusters⟩

theorem pmtCommitSlot_spec (h : PmtOk s i k) (hi : i < 4) :
    wp (pmtCommitSlot i .success)
      (fun ret s' => ret = .success ∧ SlotPassed s s' (i + 1) k) E s := by
  unfold pmtCommitSlot
  rw [wp_bind, wp_get]
  by_cases hne : s.pmt.cacheCluster i = invalidCluster
  · rw [if_pos hne]
    exact ⟨rfl, h.pass hi hne, .refl, fun _ _ _ _ => rfl⟩
  · obtain ⟨hc, hcached, _, _⟩ := h.inv.slot_cluster hi hne
    rw [if_neg hne]
    simp only [wp_bind, wp_assert]
    refine (if_pos hcached).mpr ?_
    by_cases hclean : pmNodeIsDirty (s.node (s.pmt.cacheCluster i)) = false
    · have hdirty : s.isDirty (s.pmt.cacheCluster i) = false := by
        simp [FtlState.isDirty, hclean]
      have hpassed := h.released hi hne hdirty
      unfold FtlState.node at hclean
      simp only [hclean, if_true, wp_bind, wp_modify, wp_pure, true_and]
      exact hpassed
    · have hdirty : s.isDirty (s.pmt.cacheCluster i) = true := by
        simp only [Bool.not_eq_false] at hclean
        simp [FtlState.isDirty, hcached, hclean]
      unfold FtlState.node at hclean
      rw [if_neg hclean]
      exact pmtCommitDirty_spec h hi hne hdirty

/-! ## The whole commit -/

/-- The state after `PMT_Init`. -/
def FtlState.pmtInited (s : FtlState) : FtlState :=
  { s with pmt := { s.pmt with
    nodeCaches := .const (.const 0)
    cacheOrigin := .const invalidPmNode
    cacheCluster := .const invalidCluster } }

omit [Platform] in
@[simp] theorem wp_pmtInit {Q : Status → FtlState → Prop} :
    wp pmtInit Q E s ↔ Q .success s.pmtInited := Iff.rfl

/-- After all four slots nothing is cached, and the slots can be emptied. -/
theorem PmtOk.pmtInited (h : PmtOk s 4 k) :
    PmtOk s.pmtInited 0 k ∧ Uncached s.pmtInited ∧ PmtFrame s s.pmtInited ∧
      SameClusters s s.pmtInited := by
  have hcache := h.inv.toCacheInv
  have hno : Uncached s := by
    intro c hc
    by_contra hcached
    obtain ⟨i, hdone, hi, _⟩ := hcache.cached c hc (by simpa using hcached)
    omega
  have hhome : ∀ c, c < pmtClusterCount → s.pmtInited.home c = s.home c := by
    intro c hc
    unfold FtlState.home
    change (if pmNodeIsCached (s.node c) = true then s.pmtInited.pmt.cacheOrigin _
      else s.node c) = if pmNodeIsCached (s.node c) = true then _ else s.node c
    simp only [hno c hc, Bool.false_eq_true, if_false]
  have same : SameHomes s s.pmtInited := by
    refine ⟨?_, ?_, fun _ _ hd => hd, rfl, rfl, rfl, fun _ _ => rfl, fun _ _ _ _ => rfl⟩
    · intro c hc
      unfold FtlState.homeBlock
      rw [hhome c hc]
    · intro c hc
      unfold FtlState.homePage
      rw [hhome c hc]
  have hclusters : SameClusters s s.pmtInited := by
    intro c hc j _
    unfold FtlState.cluster
    change (if pmNodeIsCached (s.node c) = true then _ else s.flash.words _ _) j =
      (if pmNodeIsCached (s.node c) = true then _ else s.flash.words _ _) j
    simp only [hno c hc, Bool.false_eq_true, if_false]
    rfl
  have hnone : s.homes s.pmtSpare = 0 := by
    rw [FtlState.homes, Occupancy.eq_zero_iff]
    intro c hc hb
    have hd := h.inv.spare_homes c hc hb
    unfold FtlState.isDirty at hd
    rw [hno c hc] at hd
    simp at hd
  have hcache' : CacheInv s.pmtInited 0 := by
    constructor
    case cached =>
      intro c hc hcached
      exact absurd ((hno c hc).symm.trans hcached) (by simp)
    case slot => exact fun _ _ => .inl ⟨rfl, rfl⟩
    case home =>
      intro c hc
      rw [hhome c hc]
      exact hcache.home c hc
    case stored =>
      intro c hc hd
      rw [same.block c hc, same.homePage c hc]
      exact hcache.stored c hc hd
    case clean =>
      intro c hc hd j hj
      rw [hclusters c hc j hj, same.block c hc, same.homePage c hc]
      exact hcache.clean c hc hd j hj
    case meta_lt => exact h.inv.meta_lt
  refine ⟨⟨same.pmtInv h.inv hcache' (.inl hnone), h.page, ?_⟩, hno, ?_, hclusters⟩
  · exact same.budget (j := 0) hcache (Nat.le_refl _) h.budget
  · exact ⟨.of_eq rfl rfl, fun _ _ => rfl, ⟨_, _, _, rfl⟩, .of_nodes rfl, rfl, rfl, rfl, rfl, rfl⟩

/-- What `PMT_Commit` leaves. -/
structure PmtCommitted (s s' : FtlState) (k : Nat) : Prop where
  ok : PmtOk s' 0 k
  uncached : Uncached s'
  frame : PmtFrame s s'
  clusters : SameClusters s s'

/-- At the start of a commit all slots are still to be passed. -/
theorem pmtCommit_spec (h : PmtOk s 0 k) :
    wp pmtCommit (fun ret s' => ret = .success ∧ PmtCommitted s s' k) E s := by
  unfold pmtCommit
  rw [wp_bind]
  refine wp_mono_post (pmtCommitSlot_spec h (by decide)) ?_
  rintro _ s₁ ⟨rfl, h₁⟩
  rw [wp_bind]
  refine wp_mono_post (pmtCommitSlot_spec h₁.ok (by decide)) ?_
  rintro _ s₂ ⟨rfl, h₂⟩
  rw [wp_bind]
  refine wp_mono_post (pmtCommitSlot_spec h₂.ok (by decide)) ?_
  rintro _ s₃ ⟨rfl, h₃⟩
  rw [wp_bind]
  refine wp_mono_post (pmtCommitSlot_spec h₃.ok (by decide)) ?_
  rintro _ s₄ ⟨rfl, h₄⟩
  obtain ⟨hok, huncached, hframe, hclusters⟩ := h₄.ok.pmtInited
  rw [if_pos rfl, wp_pmtInit]
  refine ⟨rfl, hok, huncached, ?_, ?_⟩
  · exact (((h₁.frame.trans h₂.frame).trans h₃.frame).trans h₄.frame).trans hframe
  · exact (((h₁.clusters.trans h₂.clusters).trans h₃.clusters).trans h₄.clusters).trans hclusters

end

end RansomTag

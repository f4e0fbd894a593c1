import RansomTag.Ftl.DataLayer
import RansomTag.Ftl.Store

/-!
# The mapping table over a whole mount

What the mapping table needs of the layers above is little: logical pages map to
data blocks, and the journals are data blocks.  This holds in every state of a
mount, also after a journal ran past its last page, so that every `PMT_Commit`
finds the table in order.
-/

namespace RansomTag

open Program

section

variable [Platform]

/-- What the mapping table relies on in any state of a mount. -/
structure MountInv (s : FtlState) : Prop where
  base : BaseOk s 63
  mapping : ∀ a, clusterIndex a < pmtClusterCount → s.mapping a = invalidPmNode ∨
    a < ftlCapacity ∧ dataStartBlock ≤ pmNodeBlock (s.mapping a)
  journal : ∀ isHot, dataStartBlock ≤ pmNodeBlock (s.rootTable.journal isHot)
  reclaim : dataStartBlock ≤ pmNodeBlock s.rootTable.reclaimJournal
  /-- A node that no cluster has is never set. -/
  unused : ∀ c, pmtClusterCount ≤ c → s.node c = 0

/-- A step of the data layer between its calls of the mapping table: it stays in
the data blocks. -/
structure DataStep (s s' : FtlState) : Prop extends SamePmt s s' where
  tablePage : ∀ b, b < pmtStartBlock → ∀ p, s'.flash.page b p = s.flash.page b p
  bdt : s'.bdt = s.bdt
  root : s'.root = s.root
  hdi : s'.hdi = s.hdi
  journal : ∀ isHot, dataStartBlock ≤ pmNodeBlock (s'.rootTable.journal isHot)
  reclaim : dataStartBlock ≤ pmNodeBlock s'.rootTable.reclaimJournal

/-! ## Steps -/

section

variable {s s' t : FtlState} {k c b p : Nat} {E : Stop → Prop}

namespace MountInv

theorem dataStep (h : MountInv s) (hstep : DataStep s s') : MountInv s' := by
  have hclusters := hstep.clusters h.base.pmt.inv.toCacheInv
  refine ⟨⟨?_, hstep.pmtOk h.base.pmt⟩, fun a hc => ?_, hstep.journal, hstep.reclaim,
    fun c hc => ?_⟩
  · exact h.base.tables.congr hstep.tablePage hstep.bdt hstep.root hstep.hdi
  · rw [hclusters.mapping hc]
    exact h.mapping a hc
  · rw [hstep.node]
    exact h.unused c hc

theorem committed (h : MountInv s) (hc : DataCommitted s s' 63) : MountInv s' := by
  have hclusters := hc.clusters h.base.tables h.base.pmt
  obtain ⟨hhot, hcold, hreclaim, _⟩ := hc.rootTable
  refine ⟨hc.ok h.base.tables, fun a ha => ?_, fun isHot => ?_, ?_, fun c hlast => ?_⟩
  · rw [hclusters.mapping ha]
    exact h.mapping a ha
  · have hsame : s'.rootTable.journal isHot = s.rootTable.journal isHot := by
      cases isHot
      · exact hcold
      · exact hhot
    rw [hsame]
    exact h.journal isHot
  · rw [hreclaim]
    exact h.reclaim
  · obtain ⟨t, hpmt, rfl⟩ := hc
    exact (hpmt.frame.unused c hlast).trans (h.unused c hlast)

theorem onlyCache (h : MountInv s) (honly : OnlyCache s s') (hok : BaseOk s' 63)
    (hclusters : SameClusters s s') : MountInv s' := by
  obtain ⟨nodes, hroot⟩ := honly.rootTable
  refine ⟨hok, fun a ha => ?_, fun isHot => ?_, ?_, fun c hc => ?_⟩
  · rw [hclusters.mapping ha]
    exact h.mapping a ha
  · rw [hroot]
    exact h.journal isHot
  · rw [hroot]
    exact h.reclaim
  · exact (honly.unused c hc).trans (h.unused c hc)

theorem accessed (h : MountInv s) (hk : 63 ≤ k) (ha : Accessed s s' k c) : MountInv s' := by
  have hok : BaseOk s' 63 := ha.ok.mono hk
  obtain ⟨u, hu, honly⟩ := ha.start
  rcases hu with rfl | ⟨t, hpmt, rfl⟩
  · exact h.onlyCache honly hok ha.clusters
  · have hcommit : DataCommitted s t.committed 63 :=
      ⟨t, ⟨hpmt.ok.mono hk, hpmt.uncached, hpmt.frame, hpmt.clusters⟩, rfl⟩
    refine (h.committed hcommit).onlyCache honly hok ?_
    intro d hd j hj
    rw [ha.clusters d hd j hj, hcommit.clusters h.base.tables h.base.pmt d hd j hj]

theorem touched (h : MountInv s) (addr : Nat) : MountInv (s.touched addr) := by
  have hflash : (s.touched addr).flash = s.flash := FtlState.touched_same.2.1
  have hroot : (s.touched addr).rootTable = s.rootTable := FtlState.touched_same.2.2.2.2.1
  have hpmt : (s.touched addr).pmt = s.pmt := by
    unfold FtlState.touched
    split <;> rfl
  have hsame : SameNodes s (s.touched addr) := ⟨congrArg Root.pageMappingNodes hroot, hpmt⟩
  have hclusters : SameClusters s (s.touched addr) :=
    hsame.clusters fun _ _ _ => by rw [hflash]
  refine ⟨h.base.touched, fun a ha => ?_, ?_, ?_, fun c hc => ?_⟩
  · rw [hclusters.mapping ha]
    exact h.mapping a ha
  · rw [hroot]
    exact h.journal
  · rw [hroot]
    exact h.reclaim
  · rw [hsame.node]
    exact h.unused c hc

end MountInv

end

/-! ## Calls of the mapping table -/

section

variable {s : FtlState} {addr block page : Nat} {flag mft isHot isBackup : Bool}

theorem pmtSearch_keeps (h : MountInv s) :
    wp (pmtSearch addr) (fun r t => MountInv t ∧
      ∀ location, r.2 = some location → location.1 ≠ invalidBlock → addr < ftlCapacity)
      (fun _ => True) s := by
  by_cases hc : clusterIndex addr < pmtClusterCount
  · refine wp_mono_post (pmtSearch_spec h.base hc) ?_
    rintro _ t ⟨rfl, ht⟩
    refine ⟨h.accessed le_rfl ht, fun location hfound hne => ?_⟩
    obtain rfl : wordLocation (s.mapping addr) = location := Option.some.inj hfound
    rcases h.mapping addr hc with hnone | hin
    · unfold wordLocation at hne
      rw [hnone, if_neg (by simp)] at hne
      exact absurd rfl hne
    · exact hin.1
  · -- the null node of a cluster that does not exist stops the firmware
    have hnode : s.rootTable.pageMappingNodes (clusterIndex addr) = 0 := h.unused _ (by omega)
    have hcached : pmNodeIsCached (s.rootTable.pageMappingNodes (clusterIndex addr)) = true := by
      rw [hnode]
      rfl
    have hvalid : s.rootTable.pageMappingNodes (clusterIndex addr) ≠ invalidPmNode := by
      rw [hnode]
      decide
    have hnull : pmNodeAddress (s.rootTable.pageMappingNodes (clusterIndex addr)) = 0 := by
      rw [hnode]
      rfl
    unfold pmtSearch pmtEnsureCached
    simp only [wp_bind, wp_get, hcached, Bool.true_eq_false, if_false, wp_pure, if_true, wp_assert,
      hvalid, hnull, ne_eq, not_true_eq_false, not_false_eq_true]

theorem pmtUpdate_keeps (h : MountInv s) (haddr : addr < ftlCapacity)
    (hword : updateWord block page = invalidPmNode ∨
      dataStartBlock ≤ pmNodeBlock (updateWord block page))
    (hpage : block = invalidBlock ↔ page = invalidPage) :
    wp (pmtUpdate addr block page isBackup) (fun _ t => MountInv t) (fun _ => True) s := by
  have hold : s.mapping addr = invalidPmNode ∨ dataStartBlock ≤ pmNodeBlock (s.mapping addr) := by
    rcases h.mapping addr (clusterIndex_lt haddr) with hnone | hin
    · exact .inl hnone
    · exact .inr hin.2
  refine wp_mono_post (pmtUpdate_spec (h.base.complete 64) haddr hold hpage) ?_
  rintro _ s' ⟨-, hok, -, t, ht, rfl⟩
  have hmount := h.accessed (by decide) ht
  have hold' : t.mapping addr = invalidPmNode ∨ dataStartBlock ≤ pmNodeBlock (t.mapping addr) := by
    rw [ht.clusters.mapping (clusterIndex_lt haddr)]
    exact hold
  have hmapping := (ht.ok.pmt.updated (updateWord block page) isBackup haddr ht.cached hold').2
  refine ⟨hok, fun a ha => ?_, hmount.journal, hmount.reclaim, fun c hc => ?_⟩
  · rw [hmapping a ha]
    by_cases heq : a = addr
    · rw [if_pos heq]
      rcases hword with hword | hword
      · exact .inl hword
      · exact .inr ⟨heq ▸ haddr, hword⟩
    · rw [if_neg heq]
      exact hmount.mapping a ha
  · have hne : c ≠ clusterIndex addr := by
      have := clusterIndex_lt haddr
      omega
    rw [FtlState.updated_node, if_neg hne]
    exact hmount.unused c hc

theorem dataCommit_keeps (h : MountInv s) :
    wp dataCommit (fun _ t => MountInv t) (fun _ => True) s :=
  wp_mono_post (dataCommit_spec h.base) fun _ _ ht => h.committed ht.2

omit [Platform] in
theorem DataLayerStep.dataStep {s s' : FtlState} (h : DataLayerStep s s') : DataStep s s' where
  toSamePmt := ⟨h.toSameNodes, h.current, h.spare, h.dirty, fun _ _ hlt p =>
    h.ran.flash.page (Nat.not_le.mpr hlt) p⟩
  tablePage b hb p := by
    have hlt : b < dataStartBlock := lt_trans hb (by decide)
    exact h.ran.flash.page (Nat.not_le.mpr hlt) p
  bdt := h.bdt
  root := h.root
  hdi := h.hdi
  journal := h.journal
  reclaim := h.reclaim

/-- The data layer may rely on it. -/
theorem mountInv_dataLayer : DataLayerInv MountInv fun addr => addr < ftlCapacity where
  journal := MountInv.journal
  reclaim := MountInv.reclaim
  step h hstep := h.dataStep hstep.dataStep
  touched := MountInv.touched
  search := pmtSearch_keeps
  update := pmtUpdate_keeps
  commit := dataCommit_keeps

end

/-! ## The first mount -/

section

variable {s : FtlState} {E : Stop → Prop}

theorem formatClusters_unused {n : Nat} (hn : n ≤ pmtClusterCount) :
    SameUnused s (s.formatClusters n) := by
  induction n with
  | zero => exact .refl
  | succ n ih =>
      have hround : SameUnused (s.formatClusters n) ((s.formatClusters n).formatRound n) := by
        unfold FtlState.formatRound
        split
        · exact .of_set (by omega) rfl
        · exact .of_set (by omega) rfl
      exact (ih (by omega)).trans hround

theorem ftlFormatted_unused : SameUnused s s.ftlFormatted := by
  have hbefore : SameUnused s s.blanked.dataFormatted.hdiCleared.hdiCommitted := .of_nodes rfl
  have hpmt : ∀ t : FtlState, SameUnused t t.pmtFormatted := fun t =>
    formatClusters_unused le_rfl
  have hbdt : ∀ t : FtlState, SameUnused t t.bdtCleared.bdtCommitted := by
    intro t
    have hcleared : SameUnused t t.bdtCleared := .of_nodes rfl
    exact hcleared.trans (.of_nodes rfl)
  have hroot : ∀ t : FtlState, SameUnused t t.rootCleared.rootCommitted := by
    intro t
    have hcleared : SameUnused t t.rootCleared := .of_nodes rfl
    exact hcleared.trans (.of_nodes rfl)
  exact ((hbefore.trans (hpmt _)).trans (hbdt _)).trans (hroot _)

/-- The first mount establishes what the mapping table relies on. -/
theorem ftlFormatAndMount_inv {fuel : Nat} (hmeta : ∀ p, s.pmt.metaData p < pmtClusterCount)
    (hunused : ∀ c, pmtClusterCount ≤ c → s.node c = 0) (hfuel : 2 ≤ fuel) :
    wp (ftlFormatAndMount fuel) (fun ret s' => ret = .success ∧ MountInv s') E s := by
  obtain ⟨hformatted, hfresh⟩ := ftlFormatted_ok hmeta
  unfold ftlFormatAndMount
  rw [wp_bind]
  apply ftlFormat_spec
  rw [if_pos rfl]
  refine wp_mono_post (ftlInit_fresh hformatted hfresh hfuel) ?_
  rintro ret s' ⟨hret, h, hsame⟩
  obtain ⟨hhot, hcold, hreclaim, _, _⟩ := h.formatted.journals
  refine ⟨hret, ⟨h.tables, h.formatted.pmtOk h.cache⟩, fun a ha => .inl ?_, fun isHot => ?_, ?_,
    fun c hc => ?_⟩
  · exact h.formatted.mapping_word ha
  · cases isHot
    · exact (Nat.le_succ dataStartBlock).trans_eq hcold.symm
    · exact hhot.ge
  · exact (Nat.le_add_right dataStartBlock 2).trans_eq hreclaim.symm
  · exact (hsame c hc).trans ((ftlFormatted_unused c hc).trans (hunused c hc))

end

/-! ## Runs -/

/-- The states of one mount, from the format on.  Between two calls of the
interface the data layer calls the mapping table; `search`, `update`,
`hdiCommit`, `commit` and `data` lead to every state in which it does. -/
inductive InMount : FtlState → Prop where
  | mounted {flash : Flash} {unset : Nat → Nat} {fuel : Nat} {s : FtlState}
      (hfuel : 2 ≤ fuel)
      (hrun : ftlFormatAndMount fuel (.powerOn flash unset) = .ok (.success, s)) : InMount s
  | write {s s' : FtlState} {addr : Nat} {buffer : Option Buffer} {flag mft : Bool} {ret : Status}
      (h : InMount s) (haddr : addr < ftlCapacity)
      (hrun : ftlWrite addr buffer flag mft s = .ok (ret, s')) : InMount s'
  | trim {s s' : FtlState} {start last : Nat} {ret : Status} (h : InMount s)
      (hlast : last < ftlCapacity) (hrun : ftlTrim start last s = .ok (ret, s')) : InMount s'
  | flush {s s' : FtlState} {ret : Status} (h : InMount s)
      (hrun : ftlFlush s = .ok (ret, s')) : InMount s'
  | read {s s' : FtlState} {addr : Nat} {flag mft : Bool} {r : Status × Option Buffer}
      (h : InMount s) (hrun : ftlRead addr flag mft s = .ok (r, s')) : InMount s'
  | hotData {s s' : FtlState} {addr : Nat} {isHot : Bool} (h : InMount s)
      (hrun : hdiIsHotPage addr s = .ok (isHot, s')) : InMount s'
  | search {s s' : FtlState} {addr : Nat} {r : SearchResult} (h : InMount s)
      (hrun : pmtSearch addr s = .ok (r, s')) : InMount s'
  | update {s s' : FtlState} {addr block page : Nat} {isBackup : Bool} {ret : Status}
      (h : InMount s) (haddr : addr < ftlCapacity)
      (hplace : block = invalidBlock ∧ page = invalidPage ∨
        dataStartBlock ≤ block ∧ block < ubiCapacity ∧ page < pagePerPhyBlock)
      (hrun : pmtUpdate addr block page isBackup s = .ok (ret, s')) : InMount s'
  | hdiCommit {s s' : FtlState} {ret : Status} (h : InMount s)
      (hrun : hdiCommit s = .ok (ret, s')) : InMount s'
  | commit {s s' : FtlState} {ret : Status} (h : InMount s)
      (hrun : dataCommit s = .ok (ret, s')) : InMount s'
  | data {s s' : FtlState} (h : InMount s) (hstep : DataStep s s') : InMount s'

theorem InMount.call {s s' : FtlState} {c : StoreCall} {ret : Status} (h : InMount s)
    (hrange : c.InRange) (hrun : c.exec s = .ok (ret, s')) : InMount s' := by
  cases c with
  | write addr buffer flag mft => exact h.write hrange hrun
  | trim start last => exact h.trim hrange hrun
  | flush => exact h.flush hrun
  | read addr flag mft =>
      obtain ⟨r, hread⟩ := StoreCall.exec_read hrun
      exact h.read hread

theorem MountInv.hdiCommitted {s : FtlState} (h : MountInv s) : MountInv s.hdiCommitted := by
  have hsame := s.hdiCommitted_same h.base.tables
  have hclusters := hsame.clusters h.base.pmt.inv.toCacheInv
  refine ⟨⟨h.base.tables.hdiCommitted, hsame.pmtOk h.base.pmt⟩, fun a ha => ?_, h.journal,
    h.reclaim, h.unused⟩
  rw [hclusters.mapping ha]
  exact h.mapping a ha

theorem MountInv.of_run {α : Type} {m : Ftl α} {s s' : FtlState} {a : α}
    (h : wp m (fun _ t => MountInv t) (fun _ => True) s) (hrun : m s = .ok (a, s')) :
    MountInv s' := by
  rw [wp_iff_of_ok hrun] at h
  exact h

/-- Every state of a mount keeps what the mapping table relies on. -/
theorem InMount.inv {s : FtlState} (h : InMount s) : MountInv s := by
  induction h with
  | @mounted flash unset fuel s hfuel hrun =>
      have hwp : wp (ftlFormatAndMount fuel) (fun ret s' => ret = .success ∧ MountInv s')
          (fun _ => True) (.powerOn flash unset) :=
        ftlFormatAndMount_inv (fun _ => pmtClusterCount_pos) (fun _ _ => rfl) hfuel
      rw [wp_iff_of_ok hrun] at hwp
      exact hwp.2
  | write _ haddr hrun ih => exact .of_run (mountInv_dataLayer.ftlWrite_keeps ih haddr) hrun
  | @trim s s' start last ret _ hlast hrun ih =>
      by_cases hrange : start ≤ last
      · exact .of_run (mountInv_dataLayer.ftlTrimFrom_keeps ih fun a _ hlt => by omega) hrun
      · have hnone : last + 1 - start = 0 := by omega
        unfold ftlTrim at hrun
        rw [hnone] at hrun
        exact .of_run (m := ftlTrimFrom 0 start) ih hrun
  | flush _ hrun ih => exact .of_run (mountInv_dataLayer.ftlFlush_keeps ih) hrun
  | read _ hrun ih => exact .of_run (mountInv_dataLayer.ftlRead_keeps ih) hrun
  | hotData _ hrun ih => exact .of_run (wp_hdiIsHotPage.mpr (ih.touched _)) hrun
  | search _ hrun ih =>
      exact .of_run (wp_mono_post (pmtSearch_keeps ih) fun _ _ ht => ht.1) hrun
  | @update s s' addr block page isBackup ret _ haddr hplace hrun ih =>
      rcases hplace with ⟨rfl, rfl⟩ | ⟨hge, hlt, hpage⟩
      · exact .of_run (pmtUpdate_keeps ih haddr (.inl rfl) Iff.rfl) hrun
      · simp only [pagePerPhyBlock] at hpage
        exact .of_run (pmtUpdate_keeps ih haddr (updateWord_ge hge hlt (by omega))
          (validPlace hlt (by omega))) hrun
  | hdiCommit _ hrun ih =>
      exact .of_run ((wp_hdiCommit ih.base.tables.hdi).mpr ih.hdiCommitted) hrun
  | commit _ hrun ih => exact .of_run (dataCommit_keeps ih) hrun
  | data _ hstep ih => exact ih.dataStep hstep

/-- What `PMT_Commit` promises: every cluster's node names a programmed mapping
page with the words that the cluster had last, no slot is in use, and the
current block has a page to offer below the reserved one. -/
structure ClustersStored (s s' : FtlState) : Prop where
  stored : ∀ c, c < pmtClusterCount → ∃ b p data spare,
    s'.node c = pmNodeSetBlockPage b p ∧ pmtStartBlock ≤ b ∧ b < dataStartBlock ∧
    p < pagePerPhyBlock - 1 ∧ s'.flash.page b p = .programmed data spare ∧
    ∀ k, k < pmPerNode → data.node k = s.cluster c k
  empty : ∀ i, i < pmtCacheCount →
    s'.pmt.cacheCluster i = invalidCluster ∧ s'.pmt.cacheOrigin i = invalidPmNode
  page : s'.rootTable.pmtPage < pagePerPhyBlock - 1

theorem CacheInv.empty {s : FtlState} {i : Nat} (h : CacheInv s 0) (huncached : Uncached s)
    (hi : i < 4) : s.pmt.cacheCluster i = invalidCluster ∧ s.pmt.cacheOrigin i = invalidPmNode := by
  rcases h.slot i hi with hempty | ⟨hc, _, hlive, _⟩
  · exact hempty
  · have hno := huncached _ hc
    rcases hlive (Nat.zero_le i) with hnode | hnode
    · rw [hnode, pmNodeIsCached_cacheAddr] at hno
      cases hno
    · rw [hnode, pmNodeIsCached_cacheAddr_dirty] at hno
      cases hno

theorem PmtCommitted.stored {s s' : FtlState} {k : Nat} (h : PmtCommitted s s' k) :
    ClustersStored s s' := by
  have hcache := h.ok.inv.toCacheInv
  refine ⟨fun c hc => ?_, fun i hi => hcache.empty h.uncached hi, h.ok.page⟩
  have hno := h.uncached c hc
  obtain ⟨hhome, hclean⟩ := CacheInv.node_of_not_cached hno
  obtain ⟨b, p, hword, hb, hb', hp⟩ := hcache.home c hc
  obtain ⟨hword', _, _, data, spare, hpage⟩ := hcache.node_word hc hno
  rw [hhome] at hword
  have hlt := hb'
  simp only [dataStartBlock] at hlt
  have hblock : pmNodeBlock (s'.node c) = b := by
    rw [hword, pmNodeBlock_set (by omega) (by omega)]
  have hpageEq : pmNodePage (s'.node c) = p := by
    rw [hword, pmNodePage_set (by omega)]
  rw [hblock, hpageEq] at hpage
  refine ⟨b, p, data, spare, hword, hb, hb', hp, hpage, fun j hj => ?_⟩
  rw [← h.clusters c hc j hj]
  unfold FtlState.cluster
  rw [if_neg (by simp [hno]), hblock, hpageEq, Flash.words_of_page hpage]

/-- `PMT_Commit` keeps its promise in every state of a mount. -/
theorem InMount.pmtCommit_stored {s : FtlState} (h : InMount s) :
    wp pmtCommit (fun ret s' => ret = .success ∧ ClustersStored s s') (fun _ => False) s :=
  wp_mono_post (pmtCommit_spec h.inv.base.pmt) fun _ _ hs => ⟨hs.1, hs.2.stored⟩

end

section

attribute [local instance] k9wag08

/-- Two dirty clusters and a clean one are cached, and the block of the mapping fills
between the two. -/
theorem pmtCommit_stored_fills : ∃ s, InMount s ∧
    (s.rootTable.pmtPage + 2 = pagePerPhyBlock ∧
      s.node 0 = pmNodeSetDirty (pmCacheAddr 0) ∧ s.node 2 = pmNodeSetDirty (pmCacheAddr 1) ∧
      s.node 4 = pmCacheAddr 2) ∧
    wp pmtCommit (fun ret s' => ret = .success ∧ ClustersStored s s') (fun _ => False) s := by
  obtain ⟨s, hs, hcached⟩ := ftlMappingFills_cached
  obtain ⟨s₀, hmount, hafter⟩ := Option.bind_eq_some_iff.mp hs
  have hstart : InMount s₀ := .mounted le_rfl (ftlSucceeded_eq_some hmount)
  have h : InMount s := FtlState.afterCalls_keeps
    (fun c hc _ _ _ ht hrun => ht.call (mappingFills_inRange c hc) hrun) hstart hafter
  exact ⟨s, h, hcached, h.pmtCommit_stored⟩

end

end RansomTag

import RansomTag.Ftl.NodeCommits
import RansomTag.Ftl.Store

/-!
# Runs of a device

A device is formatted, mounted and used, and loses power between any two
operations on its flash.  In all of its states the root pages on flash name
mapping pages only, so that every mount starts from such a table.
-/

namespace RansomTag

open Program

section

variable [Platform]

/-! ## Lookup and update -/

section

variable {s t : FtlState} {i block page cluster addr : Nat} {isBackup : Bool}

/-- A cluster is read into a slot that no cluster of the table has. -/
theorem NodesNamed.load (h : NodesNamed s 0) (hi : i < pmtCacheCount)
    (hfree : pmtClusterCount ≤ s.pmt.cacheCluster i)
    (hplace : cluster < pmtClusterCount → NandLocation (pmNodeSetBlockPage block page))
    (data : Buffer) : NodesNamed (s.loaded i cluster block page data) 0 := by
  have hother : ∀ j, j ≠ i →
      (s.loaded i cluster block page data).pmt.cacheCluster j = s.pmt.cacheCluster j ∧
        (s.loaded i cluster block page data).pmt.cacheOrigin j = s.pmt.cacheOrigin j :=
    fun j hj => ⟨Ram.set_other _ _ hj, Ram.set_other _ _ hj⟩
  have hslot : (s.loaded i cluster block page data).pmt.cacheCluster i = cluster :=
    Ram.set_same _ _ _
  refine ⟨fun d hd => ?_, fun j hj hd => ?_⟩
  · by_cases heq : d = cluster
    · subst heq
      refine .inr ⟨?_, i, Nat.zero_le i, hi, hslot⟩
      change pmNodeIsCached (s.rootTable.pageMappingNodes.set d (pmCacheAddr i) d) = true
      rw [Ram.set_same]
      exact pmNodeIsCached_cacheAddr i
    · have hnode : (s.loaded i cluster block page data).node d = s.node d :=
        Ram.set_other _ _ heq
      rw [hnode]
      rcases h.node d hd with hnand | ⟨hcached, j, hle, hj, hd'⟩
      · exact .inl hnand
      · have hne : j ≠ i := by
          rintro rfl
          omega
        exact .inr ⟨hcached, j, hle, hj, (hother j hne).1.trans hd'⟩
  · by_cases heq : j = i
    · subst heq
      rw [hslot] at hd
      change NandLocation (s.pmt.cacheOrigin.set j (pmNodeSetBlockPage block page) j)
      rw [Ram.set_same]
      exact hplace hd
    · rw [(hother j heq).1] at hd
      rw [(hother j heq).2]
      exact h.slot j hj hd

/-- Only the RAM below the root cursor changes. -/
theorem DeviceInv.ram (h : DeviceInv s) (hflash : t.flash = s.flash) (hpast : t.past = s.past)
    (hroot : t.root = s.root) (htables : TablesPlaced t 0) : DeviceInv t :=
  h.offRoot (.of_eq hflash hpast) hroot htables

theorem pmtLoadSlot_device (h : DeviceInv s) (hi : i < pmtCacheCount)
    (hfree : pmtClusterCount ≤ s.pmt.cacheCluster i)
    (hplace : cluster < pmtClusterCount → NandLocation (pmNodeSetBlockPage block page)) :
    wp (pmtLoadSlot i block page cluster) (fun ret t => DeviceInv t ∧ DataKept s t ∧
      (ret = .success → pmNodeIsCached (t.node cluster) = true)) (fun _ => True) s := by
  unfold pmtLoadSlot
  rw [wp_bind]
  refine wp_ubiRead_any fun r => ?_
  by_cases hread : r.status = .success
  · simp only [hread, if_true, wp_bind, wp_modify, wp_pure]
    obtain ⟨hjournal, hreclaim, hcurrent, hspare, hbdt, hhdi⟩ := h.tables.placed
    refine ⟨h.ram rfl rfl rfl ⟨⟨hjournal, hreclaim, hcurrent, hspare, hbdt, hhdi⟩, h.tables.bdt,
      h.tables.hdi, h.tables.nodes.load hi hfree hplace (r.data.getD .zeros)⟩,
      ⟨fun _ _ _ => rfl, fun isHot => ?_⟩, fun _ => ?_⟩
    · cases isHot
      all_goals rfl
    change pmNodeIsCached (s.rootTable.pageMappingNodes.set cluster (pmCacheAddr i) cluster) = true
    rw [Ram.set_same]
    exact pmNodeIsCached_cacheAddr i
  · simp only [hread, if_false, wp_pure]
    exact ⟨h, .refl, False.elim⟩

theorem pmtLoad_device (h : DeviceInv s)
    (hplace : cluster < pmtClusterCount → NandLocation (pmNodeSetBlockPage block page)) :
    wp (pmtLoad block page cluster) (fun ret t => DeviceInv t ∧ DataKept s t ∧
      (ret = .success → pmNodeIsCached (t.node cluster) = true)) (fun _ => True) s := by
  have hle := pmtClusterCount_le
  unfold pmtLoad
  rw [wp_bind, wp_get]
  rcases emptySlot_spec s.pmt pmtCacheCount 0 with hfull | ⟨-, hlt, hempty⟩
  · have hnone : emptySlot s.pmt pmtCacheCount 0 = pmtCacheCount := hfull.trans (Nat.zero_add _)
    simp only [if_pos hnone]
    rw [wp_bind]
    refine wp_mono_post (dataCommit_device h) fun ret t ht => ?_
    obtain ⟨hdevice, -, hkept, hdone⟩ := ht
    by_cases hret : ret = .success
    · obtain ⟨hnodes, hslots⟩ := hdone hret
      rw [if_pos hret, wp_bind, wp_get]
      refine wp_mono_post (pmtLoadSlot_device hdevice (by decide) ?_ fun hc => ?_)
        fun ret' u hu => ⟨hu.1, hkept.trans hu.2.1, hu.2.2⟩
      · rw [hslots]
        simp only [invalidCluster]
        omega
      · have hnand : NandLocation (t.rootTable.pageMappingNodes cluster) := hnodes cluster hc
        rw [hnand.set_eq]
        exact hnand
    · rw [if_neg hret]
      exact ⟨hdevice, hkept, fun hsuccess => absurd hsuccess hret⟩
  · have hlt' : emptySlot s.pmt pmtCacheCount 0 < pmtCacheCount := by omega
    simp only [if_neg (Nat.ne_of_lt hlt')]
    refine pmtLoadSlot_device h hlt' (Nat.not_lt.mp fun hc => ?_) hplace
    exact (h.tables.nodes.slot _ hlt' hc).ne_invalid hempty

theorem pmtEnsureCached_device (h : DeviceInv s) :
    wp (pmtEnsureCached cluster) (fun ret t => DeviceInv t ∧ DataKept s t ∧
      (ret = .success → pmNodeIsCached (t.node cluster) = true)) (fun _ => True) s := by
  unfold pmtEnsureCached
  rw [wp_bind, wp_get]
  by_cases hcached : pmNodeIsCached (s.rootTable.pageMappingNodes cluster) = true
  · have hnot : ¬ pmNodeIsCached (s.rootTable.pageMappingNodes cluster) = false := by
      rw [hcached]
      exact Bool.noConfusion
    simp only [if_neg hnot]
    exact ⟨h, .refl, fun _ => hcached⟩
  · have hnot : pmNodeIsCached (s.rootTable.pageMappingNodes cluster) = false :=
      Bool.not_eq_true _ ▸ hcached
    simp only [if_pos hnot]
    refine pmtLoad_device h fun hc => ?_
    rcases h.tables.nodes.node cluster hc with hnand | ⟨hyes, -⟩
    · have hnand' : NandLocation (s.rootTable.pageMappingNodes cluster) := hnand
      rw [hnand'.set_eq]
      exact hnand
    · exact absurd hyes hcached

omit [Platform] in
theorem pmNodeIsCached_setDirty {w : Nat} (h : pmNodeIsCached w = true) :
    pmNodeIsCached (pmNodeSetDirty w) = true := by
  unfold pmNodeSetDirty
  simp only [pmNodeIsCached, beq_iff_eq] at *
  split
  · exact h
  · omega

/-- A dirty node is still the address of its slot. -/
theorem DeviceInv.updated (h : DeviceInv s) (w : Nat) (isBackup : Bool)
    (hcached : pmNodeIsCached (s.node (clusterIndex addr)) = true) :
    DeviceInv (s.updated addr w isBackup) := by
  obtain ⟨hjournal, hreclaim, hcurrent, hspare, hbdt, hhdi⟩ := h.tables.placed
  refine h.ram rfl rfl rfl ⟨⟨hjournal, hreclaim, hcurrent, hspare, hbdt, hhdi⟩, h.tables.bdt,
    h.tables.hdi, fun c hc => ?_, h.tables.nodes.slot⟩
  rw [FtlState.updated_node]
  by_cases heq : c = clusterIndex addr
  · rw [if_pos heq]
    rcases h.tables.nodes.node c hc with hnand | ⟨-, hslot⟩
    · rw [heq] at hnand
      rw [hnand.not_cached] at hcached
      cases hcached
    · exact .inr ⟨pmNodeIsCached_setDirty hcached, hslot⟩
  · rw [if_neg heq]
    exact h.tables.nodes.node c hc

theorem pmtUpdate_device (h : DeviceInv s) (hplace : block = invalidBlock ↔ page = invalidPage) :
    wp (pmtUpdate addr block page isBackup) (fun _ t => DeviceInv t ∧ DataKept s t)
      (fun _ => True) s := by
  unfold pmtUpdate
  rw [wp_bind]
  refine wp_mono_post (pmtEnsureCached_device h) fun ret t ht => ?_
  obtain ⟨hdevice, hkept, hcached⟩ := ht
  by_cases hret : ret = .success
  · simp only [hret, if_true, wp_bind, wp_pmtSetWord (hcached hret) hplace, wp_pure]
    refine ⟨hdevice.updated _ _ (hcached hret), hkept.trans ⟨fun _ _ _ => rfl, fun isHot => ?_⟩⟩
    cases isHot
    all_goals rfl
  · simp only [hret, if_false]
    exact ⟨hdevice, hkept⟩

theorem pmtSearch_device (h : DeviceInv s) :
    wp (pmtSearch addr) (fun _ t => DeviceInv t) (fun _ => True) s := by
  unfold pmtSearch
  rw [wp_bind]
  refine wp_mono_post (pmtEnsureCached_device h) fun ret t ht => ?_
  by_cases hret : ret = .success
  · simp only [hret, if_true, wp_bind, wp_get, wp_assert]
    split
    · split
      · split
        · exact ht.1
        · exact ht.1
      · trivial
    · trivial
  · simp only [hret, if_false]
    exact ht.1

end

/-! ## The data layer -/

section

variable {s s' : FtlState}

theorem DeviceInv.dataStep (h : DeviceInv s) (hstep : DataLayerStep s s') : DeviceInv s' := by
  obtain ⟨-, -, hcurrent, hspare, hbdt, hhdi⟩ := h.tables.placed
  have hoff : ∀ b, dataStartBlock ≤ b → ¬ IsRootBlock b := fun b hb =>
    not_isRootBlock (le_trans (by decide) hb)
  refine h.offRoot (hstep.ran.mono hoff) hstep.root
    ⟨⟨hstep.journal, hstep.reclaim, ?_, ?_, ?_, ?_⟩, ?_, ?_, h.tables.nodes.of_same (fun c => ?_) (fun j => ?_) fun j => ?_⟩
  · rw [hstep.current]
    exact hcurrent
  · rw [hstep.spare]
    exact hspare
  · rw [hstep.bdtWord]
    exact hbdt
  · rw [hstep.hdiWord]
    exact hhdi
  · rw [hstep.bdt]
    exact h.tables.bdt
  · rw [hstep.hdi]
    exact h.tables.hdi
  · exact congrFun hstep.node c
  · rw [hstep.pmt]
  · rw [hstep.pmt]

theorem DeviceInv.touched (h : DeviceInv s) (addr : Nat) : DeviceInv (s.touched addr) := by
  unfold FtlState.touched
  split
  all_goals exact h.ram rfl rfl rfl ⟨h.tables.placed, h.tables.bdt, h.tables.hdi,
    h.tables.nodes.of_same (fun _ => rfl) (fun _ => rfl) fun _ => rfl⟩

theorem deviceInv_dataLayer : DataLayerInv DeviceInv fun _ => True where
  journal h := h.tables.placed.journal
  reclaim h := h.tables.placed.reclaim
  step := DeviceInv.dataStep
  touched := DeviceInv.touched
  search h := wp_mono_post (pmtSearch_device h) fun _ _ ht => ⟨ht, fun _ _ _ => trivial⟩
  update h _ _ hplace := wp_mono_post (pmtUpdate_device h hplace) fun _ _ ht => ht.1
  commit h := wp_mono_post (dataCommit_device h) fun _ _ ht => ht.1

end

/-! ## Mount -/

section

variable {s : FtlState} {b p n i : Nat}

theorem wp_rootRead_any {Q : ReadResult → FtlState → Prop} (hb : IsRootBlock b)
    (hprogrammed : p ≠ invalidPage → ∀ data spare, s.flash.page b p = .programmed data spare →
      Q ⟨.success, some data, some spare⟩ { s with rootTable := .ofBuffer data })
    (hother : p ≠ invalidPage → (∀ data spare, s.flash.page b p ≠ .programmed data spare) →
      Q ⟨.failure, none, none⟩ s) : wp (rootRead b p) Q (fun _ => True) s := by
  have hvalid : b ≠ invalidBlock := by
    unfold IsRootBlock at hb
    simp only [rootBlock0, invalidBlock] at *
    omega
  unfold rootRead ubiRead
  rw [wp_bind]
  split
  · next hplace =>
      rw [wp_bind, wp_assert]
      split
      · rw [wp_bind, wp_get]
        cases hpage : s.flash.page b p with
        | programmed data spare => exact hprogrammed hplace.2 data spare hpage
        | erased => exact hother hplace.2 fun data spare h => by cases hpage.symm.trans h
        | torn => exact hother hplace.2 fun data spare h => by cases hpage.symm.trans h
      · trivial
  · rw [wp_bind, wp_assert, if_neg fun h => hvalid h.1]
    trivial

/-- The scan passes programmed pages only, and stops at one that is not. -/
theorem rootScan_any (hb : IsRootBlock b) :
    wp (rootScan b n i) (fun res t => (∃ r, t = { s with rootTable := r }) ∧ i ≤ res.1 ∧
      res.1 ≤ i + n ∧
      (∀ p, i ≤ p → p < res.1 → ∃ data spare, s.flash.page b p = .programmed data spare) ∧
      (res.2 ≠ .success → ∀ data spare, s.flash.page b res.1 ≠ .programmed data spare))
      (fun _ => True) s := by
  induction n generalizing i s with
  | zero =>
      exact ⟨⟨s.rootTable, rfl⟩, le_rfl, le_rfl, fun p hle hlt => absurd hlt (Nat.not_lt.mpr hle),
        fun hne => absurd rfl hne⟩
  | succ n ih =>
      unfold rootScan
      rw [wp_bind]
      refine wp_rootRead_any hb (fun _ data spare hprog => ?_) fun _ hnone => ?_
      · simp only [ne_eq, not_true_eq_false, false_or, Option.getD_some]
        split
        · exact ⟨⟨_, rfl⟩, le_rfl, Nat.le_add_right i _,
            fun p hle hlt => absurd hlt (Nat.not_lt.mpr hle), fun hne => absurd rfl hne⟩
        · refine wp_mono_post ih ?_
          rintro res t ⟨⟨r, rfl⟩, hle, hle', hpassed, hstop⟩
          refine ⟨⟨r, rfl⟩, by omega, by omega, fun p hip hp => ?_, hstop⟩
          rcases Nat.eq_or_lt_of_le hip with rfl | hlt
          · exact ⟨data, spare, hprog⟩
          · exact hpassed p hlt hp
      · simp only [ne_eq, reduceCtorEq, not_false_eq_true, true_or, if_true, wp_pure]
        exact ⟨⟨s.rootTable, rfl⟩, le_rfl, Nat.le_add_right i _,
          fun p hle hlt => absurd hlt (Nat.not_lt.mpr hle), fun _ => hnone⟩

/-- The root table is in RAM as it stands on flash. -/
structure RootMounted (s : FtlState) : Prop where
  kept : RootsKept s
  log : TableLog s.flash rootBlock0 s.root.currentBlock s.root.currentPage
  root : s.rootTable.OnFlash

/-- Operations outside the root blocks leave a mounted root table as it is. -/
theorem RootMounted.ran {t : FtlState} (h : RootMounted s)
    (hran : Ran (fun b => ¬ IsRootBlock b) s t) (hroot : t.root = s.root)
    (htable : t.rootTable.OnFlash) : RootMounted t := by
  refine ⟨h.kept.ran hran fun b hb hoff => hoff hb, ?_, htable⟩
  rw [hroot]
  exact h.log.congr fun b hb p => hran.flash.page (fun hoff => hoff hb) p

/-- `ROOT_Commit` of a mounted root table. -/
theorem RootMounted.committed (h : RootMounted s) : RootMounted s.rootCommitted := by
  obtain ⟨hjournal, hreclaim, hcurrent, hspare, hbdt, hhdi⟩ := h.root.toPlaced
  exact ⟨h.kept.rootCommitted h.log h.root, h.log.append rfl,
    ⟨hjournal, hreclaim, hcurrent, hspare, hbdt, hhdi⟩, h.root.nodes⟩

/-- The end of `ROOT_Init`: the last page of the block is taken. -/
theorem rootInit_last {q : Nat} (h : RootsKept s) (hb : IsRootBlock s.root.currentBlock)
    (hblock : RootBlock s.flash s.root.currentBlock q) :
    wp (do
      let r ← rootRead s.root.currentBlock ((q + maxUint32) % 4294967296)
      if r.status = .success then
        modify fun s => { s with root := { s.root with
          currentPage := q, edition := (s.rootTable.rootEdition + 1) % 4294967296 } }
        let _ ← rootCommit
      pure r.status : Ftl Status)
      (fun ret t => ret = .success ∧ RootMounted t) (fun _ => True) s := by
  have hq := hblock.page_le
  have hlast : (q + maxUint32) % 4294967296 ≠ invalidPage →
      (q + maxUint32) % 4294967296 = q - 1 ∧ 0 < q := by
    simp only [maxUint32, invalidPage]
    omega
  rw [wp_bind]
  refine wp_rootRead_any hb (fun hvalid data spare hprog => ?_) fun hvalid hnone => ?_
  · obtain ⟨heq, hpos⟩ := hlast hvalid
    rw [heq] at hprog
    have hmounted : RootMounted { s with
        rootTable := .ofBuffer data
        root := ⟨s.root.currentBlock, q, ((Root.ofBuffer data).rootEdition + 1) % 4294967296⟩ } :=
      ⟨h, ⟨hb, hq, hblock.filled⟩, hblock.tables _ data spare (by omega) hprog⟩
    simp only [if_true, wp_bind, wp_modify]
    rw [wp_rootCommit_of_block hmounted.log.block]
    exact ⟨rfl, hmounted.committed⟩
  · obtain ⟨heq, hpos⟩ := hlast hvalid
    obtain ⟨data, spare, hprog⟩ := hblock.filled.programmed (q - 1) (by omega)
    rw [heq] at hnone
    exact absurd hprog (hnone data spare)

/-- The scan of a block of root tables ends behind the last one. -/
theorem RootBlock.scanned {q : Nat} {ret : Status} (h : RootBlock s.flash b q) (hi : i ≤ 64)
    (hpassed : ∀ p, p < i → ∃ data spare, s.flash.page b p = .programmed data spare)
    (hstop : ret ≠ .success → ∀ data spare, s.flash.page b i ≠ .programmed data spare)
    (hret : i ≠ 64 → ret ≠ .success) : i = q := by
  have hq := h.page_le
  rcases Nat.lt_trichotomy i q with hlt | heq | hgt
  · obtain ⟨data, spare, hprog⟩ := h.filled.programmed i hlt
    exact absurd hprog (hstop (hret (by omega)) data spare)
  · exact heq
  · obtain ⟨data, spare, hprog⟩ := hpassed q hgt
    rw [h.filled.erased q le_rfl (by omega)] at hprog
    cases hprog

/-- `ROOT_Init` finds a root table of the flash, and commits it once more. -/
theorem rootInit_device (h : RootsKept s) :
    wp rootInit (fun ret t => ret = .success ∧ RootMounted t) (fun _ => True) s := by
  have hrest : ∀ (r' : Root) (root : RootRam), IsRootBlock root.currentBlock →
      wp rootInitScan (fun ret t => ret = .success ∧ RootMounted t) (fun _ => True)
        { s with rootTable := r', root := root } := by
    intro r' root hroot
    obtain ⟨q, hblock⟩ := h.flash _ hroot
    unfold rootInitScan
    rw [wp_bind, wp_get, wp_bind]
    refine wp_mono_post (rootScan_any hroot) ?_
    rintro ⟨i, ret⟩ t ⟨⟨r'', rfl⟩, -, hle, hpassed, hstop⟩
    have hpassed' : ∀ p, p < i → ∃ data spare,
        s.flash.page root.currentBlock p = .programmed data spare :=
      fun p hp => hpassed p (Nat.zero_le p) hp
    have hle' : i ≤ 64 := by
      simpa using hle
    have hkept : RootsKept { s with rootTable := r'', root := root } := h
    by_cases hfull : i = pagePerPhyBlock
    · simp only [hfull, if_true, wp_bind, wp_assert]
      split
      swap
      · trivial
      have hend : i = q := hblock.scanned hle' hpassed' hstop fun hne => absurd hfull hne
      have hlast := rootInit_last hkept hroot hblock
      rw [wp_bind] at hlast
      rw [← hfull, hend]
      exact hlast
    · simp only [hfull, if_false, wp_bind, wp_assert]
      split
      swap
      · trivial
      next hnot =>
      have hend : i = q := hblock.scanned hle' hpassed' hstop fun _ => hnot
      have hlast := rootInit_last hkept hroot hblock
      rw [wp_bind] at hlast
      rw [hend]
      exact hlast
  unfold rootInitScan at hrest
  unfold rootInit
  rw [wp_bind]
  refine wp_rootRead_any (.inl rfl) (fun _ data spare _ => ?_) fun _ _ => ?_
  · simp only [if_true, wp_bind, wp_modify] at hrest ⊢
    refine wp_rootRead_any (.inr rfl) (fun _ data' spare' _ => ?_) fun _ _ => ?_
    · refine hrest _ _ ?_
      simp only [if_true]
      split
      · exact .inl rfl
      · exact .inr rfl
    · exact hrest _ _ (.inl rfl)
  · simp only [reduceCtorEq, if_false, wp_bind, wp_modify] at hrest ⊢
    exact hrest _ _ (.inr rfl)

theorem firstUnreadable_any :
    wp (firstUnreadable b n p) (fun q t => q ≤ p + n ∧ t = s) (fun _ => True) s := by
  induction n generalizing p with
  | zero => exact ⟨le_rfl, rfl⟩
  | succ n ih =>
      unfold firstUnreadable
      rw [wp_bind]
      refine wp_ubiRead_any fun r => ?_
      split
      · refine wp_mono_post ih ?_
        rintro q t ⟨hq, rfl⟩
        exact ⟨by omega, rfl⟩
      · exact ⟨Nat.le_add_right p _, rfl⟩

/-- The commit of the dirty table at a mount. -/
theorem bdtCommit_mounted (h : RootMounted s)
    (hbdt : InTable bdtBlock0 s.bdt.currentBlock s.bdt.currentPage) :
    wp bdtCommit (fun _ t => RootMounted t ∧
      InTable bdtBlock0 t.bdt.currentBlock t.bdt.currentPage ∧ t.hdi = s.hdi ∧ t.pmt = s.pmt)
      (fun _ => True) s := by
  obtain ⟨hcursor, hword⟩ := hbdt.next rfl (by decide)
  obtain ⟨hjournal, hreclaim, hcurrent, hspare, -, hhdi⟩ := h.root.toPlaced
  refine (wp_bdtCommit_of_block hbdt.1).mpr ⟨?_, hcursor, rfl, rfl⟩
  exact h.ran ((bdtCommitted_tables hbdt.1).mono fun _ hb => hb.1) rfl
    ⟨⟨hjournal, hreclaim, hcurrent, hspare, hword, hhdi⟩, h.root.nodes⟩

/-- The end of `BDT_Init`. -/
theorem bdtInit_last (h : RootMounted s)
    (hblock : s.bdt.currentBlock = bdtBlock0 ∨ s.bdt.currentBlock = bdtBlock0 + 1)
    (hpage : s.bdt.currentPage < 64) :
    wp (do
      let s ← get
      let page ← firstUnreadable s.bdt.currentBlock
        (pagePerPhyBlock - (s.bdt.currentPage + 1)) (s.bdt.currentPage + 1)
      modify fun s => { s with bdt := { s.bdt with currentPage := page } }
      let _ ← bdtCommit
      pure .success : Ftl Status)
      (fun ret t => ret = .success ∧ RootMounted t ∧
        InTable bdtBlock0 t.bdt.currentBlock t.bdt.currentPage) (fun _ => True) s := by
  rw [wp_bind, wp_get, wp_bind]
  refine wp_mono_post firstUnreadable_any ?_
  rintro q t ⟨hq, rfl⟩
  have hbound : t.bdt.currentPage + 1 + (64 - (t.bdt.currentPage + 1)) = 64 := by omega
  rw [show pagePerPhyBlock = 64 from rfl, hbound] at hq
  have hcursor : InTable bdtBlock0 t.bdt.currentBlock q := ⟨hblock, hq⟩
  have hmounted : RootMounted { t with bdt := { t.bdt with currentPage := q } } :=
    ⟨h.kept, h.log, h.root⟩
  rw [wp_bind, wp_modify, wp_bind]
  exact wp_mono_post (bdtCommit_mounted hmounted hcursor) fun _ _ ht => ⟨rfl, ht.1, ht.2.1⟩

theorem bdtInit_device (h : RootMounted s) :
    wp bdtInit (fun ret t => ret = .success ∧ RootMounted t ∧
      InTable bdtBlock0 t.bdt.currentBlock t.bdt.currentPage) (fun _ => True) s := by
  have hpage : pmNodePage s.rootTable.bdtCurrentJournal < 64 := Nat.mod_lt _ (by decide)
  obtain ⟨⟨hjournal, hreclaim, hcurrent, hspare, hbdt, hhdi⟩, hnodes⟩ := h.root
  unfold bdtInit
  rw [wp_bind, wp_modify, wp_bind, wp_get, wp_bind]
  refine wp_ubiRead_any fun r => ?_
  rw [wp_bind, wp_assert]
  split
  swap
  · trivial
  rw [wp_bind, wp_modify, wp_bind, wp_modify]
  by_cases hmany : threshold ≤ s.rootTable.backupBlockCount
  · rw [if_pos hmany]
    exact bdtInit_last ⟨h.kept, h.log,
      ⟨⟨hjournal, hreclaim, hcurrent, hspare, hbdt, hhdi⟩, hnodes⟩⟩ hbdt hpage
  · rw [if_neg hmany]
    exact bdtInit_last ⟨h.kept, h.log, h.root⟩ hbdt hpage

/-- Nothing is cached after `PMT_Init`. -/
theorem RootMounted.deviceInv (h : RootMounted s)
    (hbdt : InTable bdtBlock0 s.bdt.currentBlock s.bdt.currentPage)
    (hhdi : InTable hdiBlock0 s.hdi.currentBlock s.hdi.currentPage)
    (hslots : ∀ j, s.pmt.cacheCluster j = invalidCluster) : DeviceInv s := by
  have hle := pmtClusterCount_le
  refine ⟨h.kept, h.log, h.root.toPlaced, hbdt, hhdi, fun c hc => .inl (h.root.nodes c hc),
    fun j _ hc => ?_⟩
  rw [hslots] at hc
  simp only [invalidCluster] at hc
  omega

theorem hdiInit_device (h : RootMounted s)
    (hbdt : InTable bdtBlock0 s.bdt.currentBlock s.bdt.currentPage)
    (hslots : ∀ j, s.pmt.cacheCluster j = invalidCluster) :
    wp hdiInit (fun ret t => ret = .success ∧ DeviceInv t) (fun _ => True) s := by
  have hpage : pmNodePage s.rootTable.hdiCurrentJournal < 64 := Nat.mod_lt _ (by decide)
  have hblock := h.root.hdi
  unfold hdiInit
  rw [wp_bind, wp_modify, wp_bind, wp_get, wp_bind]
  refine wp_ubiRead_any fun r => ?_
  rw [wp_bind, wp_modify, wp_bind, wp_assert]
  split
  swap
  · trivial
  rw [wp_bind, wp_get, wp_bind]
  refine wp_mono_post firstUnreadable_any ?_
  rintro q t ⟨hq, rfl⟩
  have hbound : pmNodePage s.rootTable.hdiCurrentJournal + 1 +
      (64 - (pmNodePage s.rootTable.hdiCurrentJournal + 1)) = 64 := by omega
  have hcursor : InTable hdiBlock0 (pmNodeBlock s.rootTable.hdiCurrentJournal) q :=
    ⟨hblock, hq.trans_eq hbound⟩
  rw [wp_bind, wp_modify, wp_bind]
  refine wp_mono_post (bdtCommit_mounted ⟨h.kept, h.log, h.root⟩ hbdt) ?_
  rintro - t ⟨hmounted, hbdt', hhdi, hpmt⟩
  refine ⟨rfl, hmounted.deviceInv hbdt' ?_ fun j => ?_⟩
  · rw [hhdi]
    exact hcursor
  · rw [hpmt]
    exact hslots j

/-- The part of `FTL_Init` before the journals are replayed. -/
def ftlInitTables : Ftl Status := do
  let ret ← ubiInit
  let ret ← if ret = .success then rootInit else pure ret
  let ret ← if ret = .success then bdtInit else pure ret
  let ret ← if ret = .success then pmtInit else pure ret
  if ret = .success then hdiInit else pure ret

/-- The part of `FTL_Init` behind the tables. -/
def ftlInitData (fuel : Nat) (ret : Status) : Ftl Status := do
  let ret ← if ret = .success then dataReplay fuel true else pure ret
  let ret ← if ret = .success then dataReplay fuel false else pure ret
  if ret = .success then do
    let ret ← ftlInitReclaim true
    let s ← get
    if dataIsFull s.rootTable false then ftlInitReclaim false else pure ret
  else pure ret

theorem wp_ftlInit {fuel : Nat} {Q : Status → FtlState → Prop} {E : Stop → Prop} :
    wp (ftlInit fuel) Q E s ↔ wp ftlInitTables (fun ret t => wp (ftlInitData fuel ret) Q E t) E s := by
  unfold ftlInit ftlInitTables ftlInitData
  simp only [wp_bind, wp_ite, wp_pure]

theorem ftlInitTables_device (h : RootsKept s) :
    wp ftlInitTables (fun ret t => ret = .success ∧ DeviceInv t) (fun _ => True) s := by
  unfold ftlInitTables ubiInit
  simp only [wp_bind, wp_pure, if_true]
  refine wp_mono_post (rootInit_device h) ?_
  rintro _ t ⟨rfl, ht⟩
  rw [if_pos rfl, wp_bind]
  refine wp_mono_post (bdtInit_device ht) ?_
  rintro _ u ⟨rfl, hu, hbdt⟩
  rw [if_pos rfl, wp_bind]
  unfold pmtInit
  rw [wp_bind, wp_modify, wp_pure, if_pos rfl]
  exact hdiInit_device ⟨hu.kept, hu.log, hu.root⟩ hbdt fun _ => rfl

theorem ftlInitData_device {fuel : Nat} {ret : Status} (h : DeviceInv s) :
    wp (ftlInitData fuel ret) (fun _ t => DeviceInv t) (fun _ => True) s := by
  have D := deviceInv_dataLayer
  have hreclaimed : ∀ ret u, DeviceInv u → wp (do
      if ret = .success then do
        let ret ← ftlInitReclaim true
        let s ← get
        if dataIsFull s.rootTable false then ftlInitReclaim false else pure ret
      else pure ret : Ftl Status) (fun _ t => DeviceInv t) (fun _ => True) u := by
    intro ret u hu
    split
    · rw [wp_bind]
      refine wp_mono_post (D.ftlInitReclaim_keeps hu) fun ret' v hv => ?_
      rw [wp_bind, wp_get]
      split
      · exact D.ftlInitReclaim_keeps hv
      · exact hv
    · exact hu
  unfold ftlInitData
  by_cases hhot : ret = .success
  · simp only [if_pos hhot, wp_bind]
    refine wp_mono_post (D.dataReplay_keeps h fun _ => trivial) fun ret t ht => ?_
    by_cases hcold : ret = .success
    · simp only [if_pos hcold, wp_bind]
      exact wp_mono_post (D.dataReplay_keeps ht fun _ => trivial) hreclaimed
    · simp only [if_neg hcold, wp_bind, wp_pure]
      exact ht
  · simp only [if_neg hhot, wp_bind, wp_pure]
    exact h

theorem ftlInit_device {fuel : Nat} (h : RootsKept s) :
    wp (ftlInit fuel) (fun _ t => DeviceInv t) (fun _ => True) s :=
  wp_ftlInit.mpr (wp_mono_post (ftlInitTables_device h) fun _ _ ht => ftlInitData_device ht.2)

end

/-! ## Format -/

section

variable {s : FtlState} {n c : Nat}

omit [Platform] in
theorem formatClusters_ran : Ran (pmtStartBlock ≤ ·) s (s.formatClusters n) := by
  induction n with
  | zero => exact .refl
  | succ n ih =>
      have hlow : pmtStartBlock ≤ formatBlock n := Nat.le_add_right _ _
      have hcluster : Ran (pmtStartBlock ≤ ·) (s.formatClusters n)
          ((s.formatClusters n).formatCluster n) := (Ran.program hlow).trans (.of_eq rfl rfl)
      have hround : s.formatClusters (n + 1) = (s.formatClusters n).formatRound n := rfl
      rw [hround]
      refine ih.trans ?_
      unfold FtlState.formatRound
      split
      · exact hcluster.trans ((Ran.program hlow).trans (.of_eq rfl rfl))
      · exact hcluster

omit [Platform] in
theorem formatClusters_node (hc : c < n) : (s.formatClusters n).node c =
    pmNodeSetBlockPage (formatBlock c) (formatPage c) := by
  induction n with
  | zero => exact absurd hc (Nat.not_lt_zero c)
  | succ n ih =>
      have hround : (s.formatClusters (n + 1)).rootTable.pageMappingNodes =
          (s.formatClusters n).rootTable.pageMappingNodes.set n
            (pmNodeSetBlockPage (formatBlock n) (formatPage n)) := by
        change ((s.formatClusters n).formatRound n).rootTable.pageMappingNodes = _
        unfold FtlState.formatRound
        split
        all_goals rfl
      unfold FtlState.node at ih ⊢
      rw [hround, Ram.set_apply]
      split
      · next heq => rw [heq]
      · exact ih (by omega)

theorem RootsKept.blanked (h : RootsKept s) : RootsKept s.blanked := by
  intro f hf
  have hf' : f = { Flash.blank with log := s.flash.log } ∨ f ∈ s.flash :: s.past := hf
  rcases hf' with rfl | hf'
  · exact fun b _ => ⟨0, .of_erased fun _ => rfl⟩
  · rcases List.mem_cons.mp hf' with rfl | hpast
    · exact h.flash
    · exact h f (.inr hpast)

/-- The words of the root table before the mapping table is formatted. -/
structure WordsFormatted (r : Root) : Prop where
  journal : ∀ isHot, dataStartBlock ≤ pmNodeBlock (r.journal isHot)
  reclaim : dataStartBlock ≤ pmNodeBlock r.reclaimJournal
  hdi : pmNodeBlock r.hdiCurrentJournal = hdiBlock0

omit [Platform] in
theorem wordsFormatted (s : FtlState) :
    WordsFormatted s.dataFormatted.hdiCleared.hdiCommitted.rootTable := by
  have hword : ∀ k, k < 3 → dataStartBlock ≤ pmNodeBlock (pmNodeSetBlockPage (dataStartBlock + k) 0) := by
    intro k hk
    rw [pmNodeBlock_set (by simp only [dataStartBlock]; omega) (by omega)]
    exact Nat.le_add_right _ _
  refine ⟨fun isHot => ?_, hword 2 (by decide), ?_⟩
  · cases isHot
    · exact hword 1 (by decide)
    · exact hword 0 (by decide)
  · rw [(@hdiCommitted_first s.dataFormatted.hdiCleared hdiBlock0 rfl rfl).2]
    exact pmNodeBlock_set (by decide) (by decide)

theorem WordsFormatted.onFlash (h : WordsFormatted s.rootTable) :
    s.pmtFormatted.bdtCleared.bdtCommitted.rootCleared.rootTable.OnFlash := by
  obtain ⟨nodes, hroot⟩ := (formatClusters_done (s := s) (n := pmtClusterCount)).rootTable
  obtain ⟨hblock, hpage, hlow⟩ := formatted_bounds
  have hbdt := (@bdtCommitted_first s.pmtFormatted.bdtCleared bdtBlock0 rfl rfl).2
  have hfinal : s.pmtFormatted.bdtCleared.bdtCommitted.rootCleared.rootTable = { s.rootTable with
      pageMappingNodes := nodes
      pmtCurrentBlock :=
        pmNodeSetBlockPage (formatBlock pmtClusterCount) (formatPage pmtClusterCount)
      pmtReclaimBlock := pmNodeSetBlockPage (formatBlock pmtClusterCount + 1) 0
      bdtCurrentJournal := pmNodeSetBlockPage bdtBlock0 0
      backupBlockCount := 0 } := by
    change { s.pmtFormatted.bdtCleared.bdtCommitted.rootTable with backupBlockCount := 0 } = _
    rw [hbdt]
    change { (s.formatClusters pmtClusterCount).rootTable with
      pmtCurrentBlock :=
        pmNodeSetBlockPage (formatBlock pmtClusterCount) (formatPage pmtClusterCount)
      pmtReclaimBlock := pmNodeSetBlockPage (formatBlock pmtClusterCount + 1) 0
      bdtCurrentJournal := pmNodeSetBlockPage bdtBlock0 0
      backupBlockCount := 0 } = _
    rw [hroot]
  have hmapping : ∀ b p, pmtStartBlock ≤ b → b ≤ 8 → p < 63 →
      pmtStartBlock ≤ pmNodeBlock (pmNodeSetBlockPage b p) ∧
        pmNodeBlock (pmNodeSetBlockPage b p) < dataStartBlock := by
    intro b p hb hb' hp
    rw [pmNodeBlock_set (by omega) (by omega)]
    exact ⟨hb, Nat.lt_of_le_of_lt hb' (by decide)⟩
  rw [hfinal]
  refine ⟨⟨fun isHot => ?_, h.reclaim, hmapping _ _ hlow (by omega) hpage,
    hmapping _ _ (by omega) (by omega) (by decide), .inl ?_, .inl h.hdi⟩, fun c hc => ?_⟩
  · have hjournal := h.journal isHot
    cases isHot
    all_goals exact hjournal
  · exact pmNodeBlock_set (by decide) (by decide)
  · have hnode := formatClusters_node (s := s) hc
    unfold FtlState.node at hnode
    rw [hroot] at hnode
    have hle : formatBlock c ≤ formatBlock pmtClusterCount :=
      Nat.add_le_add_left (Nat.div_le_div_right hc.le) _
    exact ⟨formatBlock c, formatPage c, hnode, Nat.le_add_right _ _,
      Nat.lt_of_le_of_lt (hle.trans hblock) (by decide), Nat.mod_lt _ (by decide)⟩

theorem RootsKept.erase (h : RootsKept s) (b : Nat) : RootsKept (s.erase b) := by
  intro f hf
  have hf' : f = s.flash.erase b ∨ f ∈ s.flash :: s.past := hf
  rcases hf' with rfl | hf'
  · exact h.flash.erase b
  · exact h f (List.mem_cons.mp hf')

/-- `FTL_Format` leaves one root table, of the clusters that it wrote. -/
theorem RootsKept.ftlFormatted (h : RootsKept s) : RootsKept s.ftlFormatted := by
  have hkept : ∀ {t u : FtlState}, RootsKept t → Ran (fun b => ¬ IsRootBlock b) t u →
      RootsKept u := fun ht hran => ht.ran hran fun _ hb hoff => hoff hb
  have hwords := wordsFormatted s.blanked
  have hdata : RootsKept s.blanked.dataFormatted := by
    refine hkept h.blanked (((Ran.erase ?_).trans ((Ran.erase ?_).trans (.erase ?_))).trans
      (.of_eq rfl rfl))
    all_goals exact not_isRootBlock (by decide)
  unfold FtlState.ftlFormatted
  generalize s.blanked.dataFormatted = t at hdata hwords ⊢
  have hhdi : RootsKept t.hdiCleared.hdiCommitted := by
    have hcleared : Ran (fun b => ¬ IsRootBlock b) t t.hdiCleared :=
      (Ran.erase (not_isRootBlock le_rfl)).trans (.of_eq rfl rfl)
    exact hkept hdata (hcleared.trans ((hdiCommitted_tables (.inl rfl)).mono fun _ hb => hb.1))
  generalize t.hdiCleared.hdiCommitted = u at hhdi hwords ⊢
  have honFlash := hwords.onFlash
  have hpmt : RootsKept u.pmtFormatted :=
    hkept hhdi ((formatClusters_ran.mono fun b hb =>
      not_isRootBlock (le_trans (by decide) hb)).trans (.of_eq rfl rfl))
  generalize u.pmtFormatted = v at hpmt honFlash ⊢
  have hbdt : RootsKept v.bdtCleared.bdtCommitted := by
    have hcleared : Ran (fun b => ¬ IsRootBlock b) v v.bdtCleared :=
      (Ran.erase (by unfold IsRootBlock; decide)).trans (.of_eq rfl rfl)
    exact hkept hpmt (hcleared.trans ((bdtCommitted_tables (.inl rfl)).mono fun _ hb => hb.1))
  generalize v.bdtCleared.bdtCommitted = w at hbdt honFlash ⊢
  have hroot : RootsKept w.rootCleared := hbdt.erase rootBlock0
  exact hroot.rootCommitted tableLog_erase honFlash

end

/-! ## Runs -/

/-- The states of a device, with the tables mounted or not, from the first power-on
of a blank flash on.  A call that never returns is in a state that `root`,
`tables`, `search`, `update`, `commit` and `data` lead to, up to what it wrote
outside the root blocks since then. -/
inductive DeviceRun : Bool → FtlState → Prop where
  | blank {flash : Flash} {unset : Nat → Nat} (hblank : flash.Blank fun _ => True) :
      DeviceRun false (.powerOn flash unset)
  | powerLoss {on : Bool} {s : FtlState} {point flash : Flash} {unset : Nat → Nat}
      (h : DeviceRun on s) (hpoint : point = s.flash ∨ point ∈ s.past)
      (hlost : point.Within (fun b => ¬ IsRootBlock b) flash) :
      DeviceRun false (.powerOn flash unset)
  /-- The power fails while `UBI_Format` erases one block after the other. -/
  | formatLoss {on : Bool} {s : FtlState} {flash : Flash} {unset : Nat → Nat}
      (h : DeviceRun on s)
      (hlost : ∀ b, (∀ p, flash.page b p = s.flash.page b p) ∨ ∀ p, flash.page b p = .erased) :
      DeviceRun false (.powerOn flash unset)
  | format {on : Bool} {s s' : FtlState} {ret : Status} (h : DeviceRun on s)
      (hrun : ftlFormat s = .ok (ret, s')) : DeviceRun false s'
  | root {on : Bool} {s s' : FtlState} {ret : Status} (h : DeviceRun on s)
      (hrun : rootInit s = .ok (ret, s')) : DeviceRun false s'
  | tables {on : Bool} {s s' : FtlState} {ret : Status} (h : DeviceRun on s)
      (hrun : ftlInitTables s = .ok (ret, s')) : DeviceRun true s'
  | mount {on : Bool} {s s' : FtlState} {fuel : Nat} {ret : Status} (h : DeviceRun on s)
      (hrun : ftlInit fuel s = .ok (ret, s')) : DeviceRun true s'
  | write {s s' : FtlState} {addr : Nat} {buffer : Option Buffer} {flag mft : Bool} {ret : Status}
      (h : DeviceRun true s) (hrun : ftlWrite addr buffer flag mft s = .ok (ret, s')) :
      DeviceRun true s'
  | trim {s s' : FtlState} {start last : Nat} {ret : Status} (h : DeviceRun true s)
      (hrun : ftlTrim start last s = .ok (ret, s')) : DeviceRun true s'
  | flush {s s' : FtlState} {ret : Status} (h : DeviceRun true s)
      (hrun : ftlFlush s = .ok (ret, s')) : DeviceRun true s'
  | read {s s' : FtlState} {addr : Nat} {flag mft : Bool} {r : Status × Option Buffer}
      (h : DeviceRun true s) (hrun : ftlRead addr flag mft s = .ok (r, s')) : DeviceRun true s'
  | hotData {s s' : FtlState} {addr : Nat} {isHot : Bool} (h : DeviceRun true s)
      (hrun : hdiIsHotPage addr s = .ok (isHot, s')) : DeviceRun true s'
  | search {s s' : FtlState} {addr : Nat} {r : SearchResult} (h : DeviceRun true s)
      (hrun : pmtSearch addr s = .ok (r, s')) : DeviceRun true s'
  | update {s s' : FtlState} {addr block page : Nat} {isBackup : Bool} {ret : Status}
      (h : DeviceRun true s) (hplace : block = invalidBlock ↔ page = invalidPage)
      (hrun : pmtUpdate addr block page isBackup s = .ok (ret, s')) : DeviceRun true s'
  | commit {s s' : FtlState} {ret : Status} (h : DeviceRun true s)
      (hrun : dataCommit s = .ok (ret, s')) : DeviceRun true s'
  | data {s s' : FtlState} (h : DeviceRun true s) (hstep : DataLayerStep s s') :
      DeviceRun true s'

section

variable {s s' : FtlState} {on : Bool}

/-- After a power-on the flash is all there is. -/
theorem RootsKept.powerOn {flash : Flash} {unset : Nat → Nat} (h : RootPages flash) :
    RootsKept (.powerOn flash unset) := by
  rintro f (rfl | hf)
  · exact h
  · exact absurd hf List.not_mem_nil

theorem DeviceInv.of_run {α : Type} {m : Ftl α} {a : α}
    (h : wp m (fun _ t => DeviceInv t) (fun _ => True) s) (hrun : m s = .ok (a, s')) :
    DeviceInv s' :=
  (wp_iff_of_ok hrun).mp h

/-- Every state of a device has root tables of mapping pages only, and with the
tables mounted it keeps the invariant of the commits. -/
theorem DeviceRun.kept (h : DeviceRun on s) : RootsKept s ∧ (on = true → DeviceInv s) := by
  have D := deviceInv_dataLayer
  -- a step that leaves the tables mounted
  have hmounted : ∀ {t}, DeviceInv t → RootsKept t ∧ (true = true → DeviceInv t) :=
    fun ht => ⟨ht.kept, fun _ => ht⟩
  induction h with
  | blank hblank =>
      exact ⟨.powerOn fun b _ => ⟨0, .of_erased (hblank b trivial)⟩, Bool.noConfusion⟩
  | powerLoss _ hpoint hlost ih =>
      refine ⟨.powerOn ((ih.1 _ hpoint).congr fun b hb => ?_), Bool.noConfusion⟩
      exact hlost.page fun hoff => hoff hb
  | formatLoss _ hlost ih =>
      refine ⟨.powerOn fun b hb => ?_, Bool.noConfusion⟩
      rcases hlost b with hsame | herased
      · obtain ⟨q, hq⟩ := ih.1.flash b hb
        exact ⟨q, hq.congr hsame⟩
      · exact ⟨0, .of_erased herased⟩
  | format _ hrun ih =>
      have hwp := ftlFormat_spec (E := fun _ => True) (Q := fun _ t => RootsKept t)
        ih.1.ftlFormatted
      exact ⟨(wp_iff_of_ok hrun).mp hwp, Bool.noConfusion⟩
  | root _ hrun ih =>
      exact ⟨((wp_iff_of_ok hrun).mp (rootInit_device ih.1)).2.kept, Bool.noConfusion⟩
  | tables _ hrun ih => exact hmounted ((wp_iff_of_ok hrun).mp (ftlInitTables_device ih.1)).2
  | mount _ hrun ih => exact hmounted (.of_run (ftlInit_device ih.1) hrun)
  | write _ hrun ih => exact hmounted (.of_run (D.ftlWrite_keeps (ih.2 rfl) trivial) hrun)
  | trim _ hrun ih =>
      exact hmounted (.of_run (D.ftlTrimFrom_keeps (ih.2 rfl) fun _ _ _ => trivial) hrun)
  | flush _ hrun ih => exact hmounted (.of_run (D.ftlFlush_keeps (ih.2 rfl)) hrun)
  | read _ hrun ih => exact hmounted (.of_run (D.ftlRead_keeps (ih.2 rfl)) hrun)
  | hotData _ hrun ih =>
      exact hmounted (.of_run (wp_hdiIsHotPage.mpr ((ih.2 rfl).touched _)) hrun)
  | search _ hrun ih => exact hmounted (.of_run (pmtSearch_device (ih.2 rfl)) hrun)
  | update _ hplace hrun ih =>
      exact hmounted ((wp_iff_of_ok hrun).mp (pmtUpdate_device (ih.2 rfl) hplace)).1
  | commit _ hrun ih =>
      exact hmounted ((wp_iff_of_ok hrun).mp (dataCommit_device (ih.2 rfl))).1
  | data _ hstep ih => exact hmounted ((ih.2 rfl).dataStep hstep)

/-- Each cluster of the root table is in a mapping page; none is in a cache slot. -/
def Root.OnNand (r : Root) : Prop :=
  ∀ c, c < pmtClusterCount → NandLocation (r.pageMappingNodes c) ∧
    pmNodeIsCached (r.pageMappingNodes c) = false

theorem Root.OnFlash.onNand {r : Root} (h : r.OnFlash) : r.OnNand :=
  fun c hc => ⟨h.nodes c hc, (h.nodes c hc).not_cached⟩

/-- No root page of a device names a cache slot, wherever its power may fail, and
`DATA_Commit` programs none that does, from any state of the cache.  A commit that
stops does so before `ROOT_Commit`. -/
theorem DeviceRun.root_onNand (h : DeviceRun on s) :
    (∀ f, f = s.flash ∨ f ∈ s.past → ∀ b p data spare, IsRootBlock b → p < pagePerPhyBlock →
      f.page b p = .programmed data spare → (Root.ofBuffer data).OnNand) ∧
    (on = true → wp dataCommit (fun _ s' => ∃ ops, s'.flash.log = ops ++ s.flash.log ∧
      ∀ b p, .program b p ∈ ops → IsRootBlock b → ∃ data spare,
        s'.flash.page b p = .programmed data spare ∧ (Root.ofBuffer data).OnNand)
      (fun _ => True) s) := by
  obtain ⟨hkept, hdevice⟩ := h.kept
  refine ⟨fun f hf b p data spare hb hp hprog => ?_, fun hon => ?_⟩
  · obtain ⟨q, hq⟩ := hkept f hf b hb
    by_cases hlt : p < q
    · exact (hq.tables p data spare hlt hprog).onNand
    · rw [hq.filled.erased p (Nat.not_lt.mp hlt) hp] at hprog
      cases hprog
  · refine wp_mono_post (dataCommit_device (hdevice hon)) fun ret t ht => ?_
    obtain ⟨-, ⟨ops, hlog, hroots⟩, -⟩ := ht
    refine ⟨ops, hlog, fun b p hop hb => ?_⟩
    obtain ⟨data, spare, hpage, hroot⟩ := hroots b p hop hb
    exact ⟨data, spare, hpage, hroot.onNand⟩

theorem DeviceRun.call {c : StoreCall} {ret : Status} (h : DeviceRun true s)
    (hrun : c.exec s = .ok (ret, s')) : DeviceRun true s' := by
  cases c with
  | write addr buffer flag mft => exact h.write hrun
  | trim start last => exact h.trim hrun
  | flush => exact h.flush hrun
  | read addr flag mft =>
      obtain ⟨r, hread⟩ := StoreCall.exec_read hrun
      exact h.read hread

/-- A blank device that is formatted and mounted. -/
theorem DeviceRun.first {unset : Nat → Nat} {fuel : Nat}
    (hrun : ftlFormatAndMount fuel (.powerOn .blank unset) = .ok (.success, s)) :
    DeviceRun true s := by
  have hblank : DeviceRun false (.powerOn .blank unset) := .blank fun _ _ _ => rfl
  have hformat : wp ftlFormat (fun ret t => ret = .success ∧ t = (FtlState.powerOn .blank
      unset).ftlFormatted) (fun _ => False) (.powerOn .blank unset) := ftlFormat_spec ⟨rfl, rfl⟩
  obtain ⟨_, t, hformatted, rfl, rfl⟩ := exists_ok_of_wp hformat
  unfold ftlFormatAndMount at hrun
  rw [bind_of_ok hformatted, if_pos rfl] at hrun
  exact (hblank.format hformatted).mount hrun

end

end

section

attribute [local instance] k9wag08

/-- When this commit begins, two dirty clusters and a clean one are in the cache. -/
theorem root_onNand_fills : ∃ s, DeviceRun true s ∧
    (s.node 0 = pmNodeSetDirty (pmCacheAddr 0) ∧ s.node 2 = pmNodeSetDirty (pmCacheAddr 1) ∧
      s.node 4 = pmCacheAddr 2) ∧
    wp dataCommit (fun _ s' => ∃ ops, s'.flash.log = ops ++ s.flash.log ∧
      ∀ b p, .program b p ∈ ops → IsRootBlock b → ∃ data spare,
        s'.flash.page b p = .programmed data spare ∧ (Root.ofBuffer data).OnNand)
      (fun _ => True) s := by
  obtain ⟨s, hs, -, hcached⟩ := ftlMappingFills_cached
  obtain ⟨s₀, hmount, hafter⟩ := Option.bind_eq_some_iff.mp hs
  have h : DeviceRun true s := FtlState.afterCalls_keeps
    (fun c _ _ _ _ ht hrun => ht.call hrun) (DeviceRun.first (ftlSucceeded_eq_some hmount)) hafter
  exact ⟨s, h, hcached, h.root_onNand.2 rfl⟩

end

end RansomTag

import RansomTag.Ftl.RootPages

/-!
# Mapping nodes through a commit

A cluster whose node is an address of RAM has a cache slot that `PMT_Commit`
will come to.  This is all it takes for no such node to be left when the loop
over the slots is done, also where a reclaim in the middle of the loop moves
clean clusters and empties their slots.
-/

namespace RansomTag

open Program

section

variable [Platform]

/-- A cluster is on flash, or in a slot from `i` on. -/
structure NodesNamed (s : FtlState) (i : Nat) : Prop where
  node : ∀ c, c < pmtClusterCount → NandLocation (s.node c) ∨
    pmNodeIsCached (s.node c) = true ∧ ∃ j, i ≤ j ∧ j < pmtCacheCount ∧ s.pmt.cacheCluster j = c
  slot : ∀ j, j < pmtCacheCount → s.pmt.cacheCluster j < pmtClusterCount →
    NandLocation (s.pmt.cacheOrigin j)

/-- The cursor of a table is in its blocks. -/
def InTable (first block page : Nat) : Prop :=
  (block = first ∨ block = first + 1) ∧ page ≤ 64

structure TablesPlaced (s : FtlState) (i : Nat) : Prop where
  placed : s.rootTable.Placed
  bdt : InTable bdtBlock0 s.bdt.currentBlock s.bdt.currentPage
  hdi : InTable hdiBlock0 s.hdi.currentBlock s.hdi.currentPage
  nodes : NodesNamed s i

/-- The blocks of the tables below the root table. -/
def IsTableBlock (b : Nat) : Prop := ¬ IsRootBlock b ∧ b < dataStartBlock

/-- A commit that began in `s₀` has done the slots before `i`. -/
structure CommitRound (s₀ s : FtlState) (i : Nat) : Prop where
  ran : Ran IsTableBlock s₀ s
  root : s.root = s₀.root
  journal : ∀ isHot, s.rootTable.journal isHot = s₀.rootTable.journal isHot
  tables : TablesPlaced s i

/-- The slots that are done when the loop has come to slot `i` with `ret`. -/
def doneSlots (ret : Status) (i : Nat) : Nat := if ret = .success then i else 0

/-! ## Nodes and slots -/

section

omit [Platform]

theorem NandLocation.not_cached {w : Nat} (h : NandLocation w) : pmNodeIsCached w = false := by
  obtain ⟨block, page, rfl, -⟩ := h
  exact pmNodeIsCached_set

/-- The word is made of its block and page. -/
theorem NandLocation.set_eq {w : Nat} (h : NandLocation w) :
    pmNodeSetBlockPage (pmNodeBlock w) (pmNodePage w) = w := by
  obtain ⟨block, page, rfl, -, hlt, hpage⟩ := h
  simp only [dataStartBlock, pagePerPhyBlock] at hlt hpage
  rw [pmNodeBlock_set (by omega) (by omega), pmNodePage_set (by omega)]

theorem NandLocation.ne_invalid {w : Nat} (h : NandLocation w) : w ≠ invalidPmNode := by
  obtain ⟨block, page, rfl, -⟩ := h
  exact pmNodeSetBlockPage_ne_invalid

theorem not_isRootBlock {b : Nat} (hb : hdiBlock0 ≤ b) : ¬ IsRootBlock b := by
  unfold IsRootBlock
  simp only [hdiBlock0, rootBlock0] at *
  omega

theorem isTableBlock_of_mapping {b : Nat} (hb : pmtStartBlock ≤ b ∧ b < dataStartBlock) :
    IsTableBlock b :=
  ⟨not_isRootBlock (le_trans (by decide) hb.1), hb.2⟩

end

namespace NodesNamed

variable {s s' : FtlState} {i j c w : Nat}

theorem mono (h : NodesNamed s j) (hle : i ≤ j) : NodesNamed s i := by
  refine ⟨fun c hc => ?_, h.slot⟩
  rcases h.node c hc with hnand | ⟨hcached, k, hk, hk', heq⟩
  · exact .inl hnand
  · exact .inr ⟨hcached, k, hle.trans hk, hk', heq⟩

theorem of_same (h : NodesNamed s i) (hnode : ∀ c, s'.node c = s.node c)
    (hcluster : ∀ j, s'.pmt.cacheCluster j = s.pmt.cacheCluster j)
    (horigin : ∀ j, s'.pmt.cacheOrigin j = s.pmt.cacheOrigin j) : NodesNamed s' i := by
  refine ⟨fun c hc => ?_, fun j hj hc => ?_⟩
  · simp only [hnode, hcluster]
    exact h.node c hc
  · rw [hcluster] at hc
    rw [horigin]
    exact h.slot j hj hc

/-- A cluster gets a place on flash. -/
theorem setNode (h : NodesNamed s i) (c : Nat) (hw : c < pmtClusterCount → NandLocation w) :
    NodesNamed { s with rootTable := { s.rootTable with
      pageMappingNodes := s.rootTable.pageMappingNodes.set c w } } i := by
  refine ⟨fun d hd => ?_, h.slot⟩
  unfold FtlState.node
  by_cases heq : d = c
  · subst heq
    rw [Ram.set_same]
    exact .inl (hw hd)
  · rw [Ram.set_other _ _ heq]
    exact h.node d hd

/-- The slot of a cluster that has a place on flash is emptied. -/
theorem clearSlot (h : NodesNamed s i) (hnand : NandLocation (s.node (s.pmt.cacheCluster j)))
    (caches : Ram (Ram Nat)) (origin : Nat) :
    NodesNamed { s with pmt := { s.pmt with
      nodeCaches := caches
      cacheOrigin := s.pmt.cacheOrigin.set j origin
      cacheCluster := s.pmt.cacheCluster.set j invalidCluster } } i := by
  have hle := pmtClusterCount_le
  refine ⟨fun d hd => ?_, fun k hk hd => ?_⟩
  · rcases h.node d hd with hd' | ⟨hcached, k, hik, hk, hslot⟩
    · exact .inl hd'
    · refine .inr ⟨hcached, k, hik, hk, ?_⟩
      have hne : k ≠ j := by
        rintro rfl
        rw [hslot] at hnand
        rw [hnand.not_cached] at hcached
        cases hcached
      exact (Ram.set_other _ _ hne).trans hslot
  · by_cases heq : k = j
    · subst heq
      change s.pmt.cacheCluster.set k invalidCluster k < pmtClusterCount at hd
      rw [Ram.set_same] at hd
      simp only [invalidCluster] at hd
      omega
    · change s.pmt.cacheCluster.set j invalidCluster k < pmtClusterCount at hd
      rw [Ram.set_other _ _ heq] at hd
      exact (Ram.set_other _ _ heq).symm ▸ h.slot k hk hd

/-- The loop goes on behind a slot whose cluster has a place on flash, or that has none. -/
theorem succ (h : NodesNamed s i) (hdone : s.pmt.cacheCluster i < pmtClusterCount →
    NandLocation (s.node (s.pmt.cacheCluster i))) : NodesNamed s (i + 1) := by
  refine ⟨fun d hd => ?_, h.slot⟩
  rcases h.node d hd with hd' | ⟨hcached, k, hik, hk, hslot⟩
  · exact .inl hd'
  · refine .inr ⟨hcached, k, ?_, hk, hslot⟩
    have hne : k ≠ i := by
      rintro rfl
      rw [hslot] at hdone
      rw [(hdone hd).not_cached] at hcached
      cases hcached
    omega

/-- Behind the last slot nothing is cached. -/
theorem on_flash (h : NodesNamed s pmtCacheCount) (hc : c < pmtClusterCount) :
    NandLocation (s.node c) := by
  rcases h.node c hc with hnand | ⟨-, j, hle, hlt, -⟩
  · exact hnand
  · omega

theorem pmtInited (h : NodesNamed s pmtCacheCount) : NodesNamed s.pmtInited 0 := by
  have hle := pmtClusterCount_le
  refine ⟨fun c hc => .inl (h.on_flash hc), fun j _ hc => ?_⟩
  change invalidCluster < pmtClusterCount at hc
  simp only [invalidCluster] at hc
  omega

end NodesNamed

/-! ## Steps of a commit -/

namespace CommitRound

variable {s₀ s s' : FtlState} {i j b p c w : Nat}

/-- Only the RAM below the root cursor changes. -/
theorem ram (h : CommitRound s₀ s i) (hflash : s'.flash = s.flash) (hpast : s'.past = s.past)
    (hroot : s'.root = s.root)
    (hjournal : ∀ isHot, s'.rootTable.journal isHot = s.rootTable.journal isHot)
    (htables : TablesPlaced s' j) : CommitRound s₀ s' j :=
  ⟨h.ran.trans (.of_eq hflash hpast), hroot.trans h.root,
    fun isHot => (hjournal isHot).trans (h.journal isHot), htables⟩

theorem mono (h : CommitRound s₀ s j) (hle : i ≤ j) : CommitRound s₀ s i :=
  h.ram rfl rfl rfl (fun _ => rfl)
    ⟨h.tables.placed, h.tables.bdt, h.tables.hdi, h.tables.nodes.mono hle⟩

theorem program (h : CommitRound s₀ s i) (hb : pmtStartBlock ≤ b ∧ b < dataStartBlock) (p : Nat)
    (data : Buffer) (spare : Spare) : CommitRound s₀ (s.program b p data spare) i :=
  ⟨h.ran.trans (.program (isTableBlock_of_mapping hb)), h.root, h.journal, h.tables.placed,
    h.tables.bdt, h.tables.hdi,
    h.tables.nodes.of_same (fun _ => rfl) (fun _ => rfl) fun _ => rfl⟩

theorem erase (h : CommitRound s₀ s i) (hb : pmtStartBlock ≤ b ∧ b < dataStartBlock) :
    CommitRound s₀ (s.erase b) i :=
  ⟨h.ran.trans (.erase (isTableBlock_of_mapping hb)), h.root, h.journal, h.tables.placed,
    h.tables.bdt, h.tables.hdi,
    h.tables.nodes.of_same (fun _ => rfl) (fun _ => rfl) fun _ => rfl⟩

theorem setNode (h : CommitRound s₀ s i) (c : Nat) (hw : c < pmtClusterCount → NandLocation w) :
    CommitRound s₀ { s with rootTable := { s.rootTable with
      pageMappingNodes := s.rootTable.pageMappingNodes.set c w } } i := by
  obtain ⟨hjournal, hreclaim, hcurrent, hspare, hbdt, hhdi⟩ := h.tables.placed
  refine h.ram rfl rfl rfl (fun isHot => ?_)
    ⟨⟨hjournal, hreclaim, hcurrent, hspare, hbdt, hhdi⟩, h.tables.bdt, h.tables.hdi,
      h.tables.nodes.setNode c hw⟩
  cases isHot
  all_goals rfl

theorem succ (h : CommitRound s₀ s i) (hdone : s.pmt.cacheCluster i < pmtClusterCount →
    NandLocation (s.node (s.pmt.cacheCluster i))) : CommitRound s₀ s (i + 1) :=
  h.ram rfl rfl rfl (fun _ => rfl) ⟨h.tables.placed, h.tables.bdt, h.tables.hdi, h.tables.nodes.succ hdone⟩

theorem clearSlot (h : CommitRound s₀ s i)
    (hnand : NandLocation (s.node (s.pmt.cacheCluster j))) (caches : Ram (Ram Nat))
    (origin : Nat) :
    CommitRound s₀ { s with pmt := { s.pmt with
      nodeCaches := caches
      cacheOrigin := s.pmt.cacheOrigin.set j origin
      cacheCluster := s.pmt.cacheCluster.set j invalidCluster } } i :=
  h.ram rfl rfl rfl (fun _ => rfl) ⟨h.tables.placed, h.tables.bdt, h.tables.hdi,
    h.tables.nodes.clearSlot hnand caches origin⟩

theorem withMeta (h : CommitRound s₀ s i) (m : Ram Nat) :
    CommitRound s₀ { s with pmt := { s.pmt with metaData := m } } i :=
  h.ram rfl rfl rfl (fun _ => rfl) ⟨h.tables.placed, h.tables.bdt, h.tables.hdi,
    h.tables.nodes.of_same (fun _ => rfl) (fun _ => rfl) fun _ => rfl⟩

theorem withDirty (h : CommitRound s₀ s i) (table : Ram Nat) :
    CommitRound s₀ { s with blockDirtyTable := table } i :=
  h.ram rfl rfl rfl (fun _ => rfl) ⟨h.tables.placed, h.tables.bdt, h.tables.hdi,
    h.tables.nodes.of_same (fun _ => rfl) (fun _ => rfl) fun _ => rfl⟩

/-- The mapping blocks in use change. -/
theorem withBlocks (h : CommitRound s₀ s i) {current spare : Nat}
    (hcurrent : pmtStartBlock ≤ pmNodeBlock current ∧ pmNodeBlock current < dataStartBlock)
    (hspare : pmtStartBlock ≤ pmNodeBlock spare ∧ pmNodeBlock spare < dataStartBlock) :
    CommitRound s₀ { s with rootTable := { s.rootTable with
      pmtCurrentBlock := current, pmtReclaimBlock := spare } } i := by
  obtain ⟨hjournal, hreclaim, -, -, hbdt, hhdi⟩ := h.tables.placed
  refine h.ram rfl rfl rfl (fun isHot => ?_)
    ⟨⟨hjournal, hreclaim, hcurrent, hspare, hbdt, hhdi⟩, h.tables.bdt, h.tables.hdi,
      h.tables.nodes.of_same (fun _ => rfl) (fun _ => rfl) fun _ => rfl⟩
  cases isHot
  all_goals rfl

end CommitRound

/-! ## Reclaim of a mapping block -/

section

variable {s₀ s : FtlState} {i k v r page : Nat} {ret : Status} {clusters : Buffer}

omit [Platform] in
theorem cachedSlot_spec (pmt : PmtRam) (c n start : Nat) :
    cachedSlot pmt c n start = start + n ∨
      cachedSlot pmt c n start < start + n ∧ pmt.cacheCluster (cachedSlot pmt c n start) = c := by
  induction n generalizing start with
  | zero => exact .inl rfl
  | succ n ih =>
      unfold cachedSlot
      by_cases hfound : pmt.cacheCluster start = c
      · rw [if_pos hfound]
        exact .inr ⟨by omega, hfound⟩
      · rw [if_neg hfound]
        rcases ih (start + 1) with heq | ⟨hlt, heq⟩
        · left
          omega
        · right
          exact ⟨by omega, heq⟩

omit [Platform] in
theorem pmNodeBlock_mapping {b : Nat} (hb : pmtStartBlock ≤ b ∧ b < dataStartBlock) {q : Nat}
    (hq : q < 64) : pmtStartBlock ≤ pmNodeBlock (pmNodeSetBlockPage b q) ∧
      pmNodeBlock (pmNodeSetBlockPage b q) < dataStartBlock := by
  have hlt := hb.2
  simp only [dataStartBlock] at hlt
  rw [pmNodeBlock_set (by omega) hq]
  exact hb

/-- The place of a cluster on flash, and the slot to empty once the cluster is moved. -/
def pmtPlace (s : FtlState) (cluster : Nat) : Ftl (Nat × Nat) :=
  let pmNode := s.rootTable.pageMappingNodes cluster
  if pmNodeIsCached pmNode then
    if pmNodeIsDirty pmNode then pure (invalidPmNode, invalidIndex)
    else do
      assert (cachedSlot s.pmt cluster pmtCacheCount 0 ≠ pmtCacheCount)
      pure (s.pmt.cacheOrigin (cachedSlot s.pmt cluster pmtCacheCount 0),
        cachedSlot s.pmt cluster pmtCacheCount 0)
  else pure (pmNode, invalidIndex)

/-- The copy of a page that is the place of the cluster. -/
def pmtMovePage (v r page cluster : Nat) (ret : Status) (k : Nat) (place : Nat × Nat) :
    Ftl (Status × Nat) :=
  if place.1 ≠ invalidPmNode ∧ pmNodeBlock place.1 = v ∧ pmNodePage place.1 = page then do
    let res ← ubiRead v page
    let ret ←
      if res.status = .success then ubiWrite r k (res.data.getD .zeros) .null
      else pure res.status
    if ret = .success then
      modify fun s => { s with
        rootTable := { s.rootTable with pageMappingNodes :=
          s.rootTable.pageMappingNodes.set cluster (pmNodeSetBlockPage r k) }
        pmt := { s.pmt with metaData := s.pmt.metaData.set k cluster } }
      if place.2 ≠ invalidIndex then
        modify fun s => { s with pmt := { s.pmt with
          nodeCaches := s.pmt.nodeCaches.set place.2 (.const 0)
          cacheOrigin := s.pmt.cacheOrigin.set place.2 invalidPmNode
          cacheCluster := s.pmt.cacheCluster.set place.2 invalidCluster } }
      pure (ret, k + 1)
    else pure (ret, k)
  else pure (ret, k)

theorem pmtReclaimPage_eq : pmtReclaimPage v r clusters page ret k = (do
    let s ← get
    let place ← pmtPlace s (clusters.node page)
    pmtMovePage v r page (clusters.node page) ret k place) := by
  unfold pmtReclaimPage pmtPlace
  congr 1
  funext s
  dsimp only
  split
  · split
    · rfl
    · rw [bind_assoc]
      rfl
  · rfl

omit [Platform] in
/-- A slot to be emptied is a slot of the cluster. -/
theorem pmtPlace_spec (c : Nat) :
    wp (pmtPlace s c) (fun place t => t = s ∧ (place.2 ≠ invalidIndex →
      s.pmt.cacheCluster place.2 = c)) (fun _ => True) s := by
  unfold pmtPlace
  dsimp only
  split
  · split
    · exact ⟨rfl, fun hne => absurd rfl hne⟩
    · rw [wp_bind, wp_assert]
      split
      · next hslot =>
          refine ⟨rfl, fun _ => ?_⟩
          rcases cachedSlot_spec s.pmt c pmtCacheCount 0 with heq | ⟨-, heq⟩
          · exact absurd (heq.trans (Nat.zero_add _)) hslot
          · exact heq
      · trivial
  · exact ⟨rfl, fun hne => absurd rfl hne⟩

theorem pmtReclaimPage_round (h : CommitRound s₀ s i) (hr : pmtStartBlock ≤ r ∧ r < dataStartBlock)
    (hk : k < 63) :
    wp (pmtReclaimPage v r clusters page ret k) (fun res t => CommitRound s₀ t i ∧ res.2 ≤ k + 1)
      (fun _ => True) s := by
  have hnand : NandLocation (pmNodeSetBlockPage r k) := ⟨r, k, rfl, hr.1, hr.2, hk⟩
  rw [pmtReclaimPage_eq, wp_bind, wp_get, wp_bind]
  refine wp_mono_post (pmtPlace_spec _) ?_
  rintro ⟨pmNode, cleared⟩ t ⟨rfl, hcleared⟩
  unfold pmtMovePage
  split
  swap
  · exact ⟨h, Nat.le_succ k⟩
  rw [wp_bind]
  refine wp_ubiRead_any fun res => ?_
  by_cases hread : res.status = .success
  swap
  · simp only [hread, if_false, wp_bind, wp_pure]
    exact ⟨h, Nat.le_succ k⟩
  simp only [hread, if_true, wp_bind]
  refine wp_ubiWrite_keeps fun _ => ?_
  have hmoved := ((h.program hr k (res.data.getD .zeros) .null).setNode
    (clusters.node page) fun _ => hnand).withMeta (t.pmt.metaData.set k (clusters.node page))
  simp only [if_true]
  split
  · next hslot =>
      refine ⟨hmoved.clearSlot ?_ _ _, le_rfl⟩
      change NandLocation (t.rootTable.pageMappingNodes.set (clusters.node page) _
        (t.pmt.cacheCluster cleared))
      rw [hcleared hslot, Ram.set_same]
      exact hnand
  · exact ⟨hmoved, le_rfl⟩

theorem pmtReclaimPages_round {pages : List Nat} (h : CommitRound s₀ s i)
    (hr : pmtStartBlock ≤ r ∧ r < dataStartBlock) (hk : k + pages.length ≤ 63) :
    wp (pmtReclaimPages v r clusters pages ret k) (fun res t => CommitRound s₀ t i ∧ res.2 ≤ 63)
      (fun _ => True) s := by
  induction pages generalizing s ret k with
  | nil => exact ⟨h, hk⟩
  | cons page pages ih =>
      simp only [List.length_cons] at hk
      unfold pmtReclaimPages
      rw [wp_bind]
      refine wp_mono_post (pmtReclaimPage_round h hr (by omega)) ?_
      rintro ⟨ret', k'⟩ t ⟨ht, hk'⟩
      simp only at hk'
      exact ih ht (by omega)

omit [Platform] in
theorem pmtVictim_range {dirty : Ram Nat} (h : pmtVictim dirty = some v) :
    pmtStartBlock ≤ v ∧ v < dataStartBlock := by
  have hmem : v ∈ List.range' pmtStartBlock pmtBlockCount := by
    unfold pmtVictim at h
    dsimp only at h
    split at h
    · next hpass =>
        cases h
        exact (VictimPass.found hpass).1
    · exact (VictimPass.found (Prod.ext h rfl)).1
  simpa [List.mem_range'_1] using hmem

theorem pmtReclaimBlocks_round (h : CommitRound s₀ s i) :
    wp pmtReclaimBlocks (fun _ t => CommitRound s₀ t i) (fun _ => True) s := by
  unfold pmtReclaimBlocks
  rw [wp_bind, wp_get]
  cases hvictim : pmtVictim s.blockDirtyTable with
  | none => trivial
  | some v =>
      have hv := pmtVictim_range hvictim
      simp only []
      by_cases hsome : maxDirtyPages - s.blockDirtyTable v ≠ 0
      · simp only [if_pos hsome]
        rw [wp_bind]
        refine wp_ubiRead_any fun res => ?_
        by_cases hread : res.status = .success
        · simp only [hread, if_true, wp_bind]
          refine wp_mono_post (pmtReclaimPages_round h h.tables.placed.spare (by simp)) ?_
          rintro ⟨ret, k⟩ t ⟨ht, hk⟩
          simp only at hk
          by_cases hret : ret = .success
          · have hcurrent := pmNodeBlock_mapping h.tables.placed.spare
              (Nat.lt_succ_of_le hk : k < 64)
            simp only [hret, if_true, wp_bind, wp_ubiErase, wp_modify, wp_pure]
            exact ((ht.erase hv).withBlocks hcurrent
              (pmNodeBlock_mapping hv (by decide : 0 < 64))).withDirty _
          · simp only [hret, if_false, wp_bind, wp_pure]
            exact ht
        · simp only [hread, if_false, wp_bind, wp_pure]
          exact h
      · simp only [if_neg hsome]
        rw [wp_bind, wp_ubiErase]
        simp only [if_true, wp_bind, wp_modify, wp_pure]
        exact ((h.erase hv).withBlocks (pmNodeBlock_mapping hv (by decide : 0 < 64))
          h.tables.placed.spare).withDirty _

end

/-! ## The loop over the slots -/

section

variable {s₀ s : FtlState} {i : Nat} {ret : Status}

theorem CommitRound.done (h : CommitRound s₀ s (doneSlots ret i)) : CommitRound s₀ s 0 :=
  h.mono (Nat.zero_le _)

/-- The block of mapping pages that is written to. -/
theorem CommitRound.current_range (h : CommitRound s₀ s i) :
    pmtStartBlock ≤ s.rootTable.pmtBlock ∧ s.rootTable.pmtBlock < dataStartBlock :=
  h.tables.placed.current

omit [Platform] in
theorem Root.pmtPage_lt (r : Root) : r.pmtPage < 64 := Nat.mod_lt _ (by decide)

theorem pmtAppendNode_round (h : CommitRound s₀ s (doneSlots ret i)) :
    wp (pmtAppendNode i ret) (fun ret' t => CommitRound s₀ t (doneSlots ret' (i + 1)))
      (fun _ => True) s := by
  have hrange := h.current_range
  have hlt := s.rootTable.pmtPage_lt
  unfold pmtAppendNode
  rw [wp_bind, wp_get]
  by_cases hroom : s.rootTable.pmtPage ≠ pagePerPhyBlock
  swap
  · simp only [pagePerPhyBlock] at hroom
    omega
  simp only [if_pos hroom]
  rw [wp_bind, wp_assert]
  split
  swap
  · trivial
  next hnotLast =>
  by_cases hret : ret = .success
  swap
  · simp only [hret, if_false, wp_bind, wp_pure]
    unfold doneSlots
    rw [if_neg hret]
    exact h.done
  subst hret
  simp only [if_true, wp_bind]
  refine wp_ubiWrite_keeps fun _ => ?_
  simp only [if_true, wp_bind, wp_modify, wp_pure, wp_get, wp_assert]
  split
  swap
  · trivial
  have hnand : NandLocation (pmNodeSetBlockPage s.rootTable.pmtBlock s.rootTable.pmtPage) := by
    refine ⟨_, _, rfl, hrange.1, hrange.2, ?_⟩
    simp only [pagePerPhyBlock] at hnotLast ⊢
    omega
  have hcurrent := pmNodeBlock_mapping hrange
    (by simp only [pagePerPhyBlock] at hnotLast; omega : s.rootTable.pmtPage + 1 < 64)
  have hwritten := (CommitRound.program h hrange s.rootTable.pmtPage
    (.words (s.pmt.nodeCaches i)) (.footprint (s.pmt.cacheCluster i))).withMeta
      (s.pmt.metaData.set s.rootTable.pmtPage (s.pmt.cacheCluster i))
  have hset := ((hwritten.setNode (s.pmt.cacheCluster i) fun _ => hnand).withBlocks hcurrent
    h.tables.placed.spare).withDirty (s.blockDirtyTable.set (pmNodeBlock (s.pmt.cacheOrigin i))
      ((s.blockDirtyTable (pmNodeBlock (s.pmt.cacheOrigin i)) + 1) % 256))
  refine hset.succ fun _ => ?_
  change NandLocation (s.rootTable.pageMappingNodes.set (s.pmt.cacheCluster i) _
    (s.pmt.cacheCluster i))
  rw [Ram.set_same]
  exact hnand

theorem pmtCloseBlock_round (h : CommitRound s₀ s (doneSlots ret i)) :
    wp (pmtCloseBlock ret) (fun ret' t => CommitRound s₀ t (doneSlots ret' i)) (fun _ => True)
      s := by
  unfold pmtCloseBlock
  rw [wp_bind, wp_get]
  by_cases hlast : s.rootTable.pmtPage = pagePerPhyBlock - 1
  swap
  · rw [if_neg hlast]
    exact h
  simp only [if_pos hlast]
  by_cases hret : ret = .success
  · subst hret
    simp only [if_true, wp_bind]
    refine wp_ubiWrite_keeps fun _ => ?_
    simp only [if_true, wp_bind, wp_ubiFlush]
    refine wp_mono_post (pmtReclaimBlocks_round (CommitRound.program h h.current_range _ _ _))
      fun ret' t ht => ?_
    refine ht.mono ?_
    unfold doneSlots
    split
    · exact le_rfl
    · exact Nat.zero_le _
  · simp only [hret, if_false, wp_bind, wp_pure]
    exact h

theorem pmtCommitSlot_round (h : CommitRound s₀ s (doneSlots ret i)) (hi : i < pmtCacheCount) :
    wp (pmtCommitSlot i ret) (fun ret' t => CommitRound s₀ t (doneSlots ret' (i + 1)))
      (fun _ => True) s := by
  have hle := pmtClusterCount_le
  have hnext : ∀ t, CommitRound s₀ t (doneSlots ret i) →
      (t.pmt.cacheCluster i < pmtClusterCount →
        NandLocation (t.node (t.pmt.cacheCluster i))) →
      CommitRound s₀ t (doneSlots ret (i + 1)) := by
    intro t ht hdone
    unfold doneSlots at ht ⊢
    by_cases hret : ret = .success
    · rw [if_pos hret] at ht ⊢
      exact ht.succ hdone
    · rw [if_neg hret] at ht ⊢
      exact ht
  unfold pmtCommitSlot
  rw [wp_bind, wp_get]
  by_cases hnone : s.pmt.cacheCluster i = invalidCluster
  · simp only [if_pos hnone]
    refine hnext s h fun hlt => ?_
    rw [hnone] at hlt
    simp only [invalidCluster] at hlt
    omega
  simp only [if_neg hnone]
  rw [wp_bind, wp_assert]
  split
  swap
  · trivial
  split
  · rw [wp_bind, wp_modify]
    have hclean := h.setNode (s.pmt.cacheCluster i) (h.tables.nodes.slot i hi)
    refine hnext _ hclean fun hlt => ?_
    change NandLocation (s.rootTable.pageMappingNodes.set (s.pmt.cacheCluster i) _
      (s.pmt.cacheCluster i))
    rw [Ram.set_same]
    exact h.tables.nodes.slot i hi hlt
  · unfold pmtCommitDirty
    rw [wp_bind]
    exact wp_mono_post (pmtAppendNode_round h) fun ret' t ht => pmtCloseBlock_round ht

theorem pmtCommit_round (h : CommitRound s₀ s 0) :
    wp pmtCommit (fun ret t => CommitRound s₀ t 0 ∧ (ret = .success →
      (∀ c, c < pmtClusterCount → NandLocation (t.node c)) ∧
        ∀ j, t.pmt.cacheCluster j = invalidCluster)) (fun _ => True) s := by
  unfold pmtCommit
  rw [wp_bind]
  have hfirst : CommitRound s₀ s (doneSlots .success 0) := h
  refine wp_mono_post (pmtCommitSlot_round hfirst (by decide)) ?_
  intro ret₀ t₀ h₀
  rw [wp_bind]
  refine wp_mono_post (pmtCommitSlot_round h₀ (by decide)) fun ret₁ t₁ h₁ => ?_
  rw [wp_bind]
  refine wp_mono_post (pmtCommitSlot_round h₁ (by decide)) fun ret₂ t₂ h₂ => ?_
  rw [wp_bind]
  refine wp_mono_post (pmtCommitSlot_round h₂ (by decide)) fun ret t ht => ?_
  by_cases hret : ret = .success
  · unfold doneSlots at ht
    rw [if_pos hret] at ht
    rw [if_pos hret, wp_pmtInit]
    have hnodes := ht.tables.nodes
    exact ⟨ht.ram rfl rfl rfl (fun _ => rfl) ⟨ht.tables.placed, ht.tables.bdt, ht.tables.hdi, hnodes.pmtInited⟩,
      fun _ => ⟨fun c hc => hnodes.on_flash hc, fun _ => rfl⟩⟩
  · rw [if_neg hret]
    exact ⟨ht.done, fun hsuccess => absurd hsuccess hret⟩

end

/-! ## The commits of the tables -/

section

variable {s₀ s : FtlState} {i first b q : Nat}

omit [Platform] in
/-- The page that a table takes next, and the cursor behind it. -/
theorem InTable.next (h : InTable first b q) (heven : first % 2 = 0) (hfirst : first ≤ hdiBlock0) :
    InTable first (logSlot b q).1 ((logSlot b q).2 + 1) ∧
      (pmNodeBlock (pmNodeSetBlockPage (logSlot b q).1 (logSlot b q).2) = first ∨
        pmNodeBlock (pmNodeSetBlockPage (logSlot b q).1 (logSlot b q).2) = first + 1) := by
  obtain ⟨hb, hq⟩ := h
  have hother := xor_block_of hb heven
  simp only [hdiBlock0] at hfirst
  have hslot : ((logSlot b q).1 = first ∨ (logSlot b q).1 = first + 1) ∧ (logSlot b q).2 < 64 := by
    unfold logSlot
    split
    · exact ⟨by omega, Nat.zero_lt_succ 63⟩
    · exact ⟨hb, by omega⟩
  refine ⟨⟨hslot.1, hslot.2⟩, ?_⟩
  rw [pmNodeBlock_set (by omega) hslot.2]
  exact hslot.1

omit [Platform] in
theorem hdiCommitted_tables
    (hb : s.hdi.currentBlock = hdiBlock0 ∨ s.hdi.currentBlock = hdiBlock0 + 1) :
    Ran IsTableBlock s s.hdiCommitted := by
  refine ((s.append_ran_of_block hb rfl).mono fun b hb' => ?_).trans (.of_eq rfl rfl)
  refine ⟨not_isRootBlock (by omega), ?_⟩
  simp only [hdiBlock0, dataStartBlock] at *
  omega

omit [Platform] in
theorem bdtCommitted_tables
    (hb : s.bdt.currentBlock = bdtBlock0 ∨ s.bdt.currentBlock = bdtBlock0 + 1) :
    Ran IsTableBlock s s.bdtCommitted := by
  refine ((s.append_ran_of_block hb rfl).mono fun b hb' => ?_).trans (.of_eq rfl rfl)
  unfold IsTableBlock IsRootBlock
  simp only [bdtBlock0, rootBlock0, dataStartBlock] at *
  omega

theorem CommitRound.hdiCommitted (h : CommitRound s₀ s i) : CommitRound s₀ s.hdiCommitted i := by
  obtain ⟨hcursor, hword⟩ := h.tables.hdi.next rfl le_rfl
  obtain ⟨hjournal, hreclaim, hcurrent, hspare, hbdt, -⟩ := h.tables.placed
  refine ⟨h.ran.trans (hdiCommitted_tables h.tables.hdi.1), h.root,
    fun isHot => Eq.trans ?_ (h.journal isHot),
    ⟨hjournal, hreclaim, hcurrent, hspare, hbdt, hword⟩, h.tables.bdt, hcursor,
    h.tables.nodes.of_same (fun _ => rfl) (fun _ => rfl) fun _ => rfl⟩
  cases isHot
  all_goals rfl

theorem CommitRound.bdtCommitted (h : CommitRound s₀ s i) : CommitRound s₀ s.bdtCommitted i := by
  obtain ⟨hcursor, hword⟩ := h.tables.bdt.next rfl (by decide)
  obtain ⟨hjournal, hreclaim, hcurrent, hspare, -, hhdi⟩ := h.tables.placed
  refine ⟨h.ran.trans (bdtCommitted_tables h.tables.bdt.1), h.root,
    fun isHot => Eq.trans ?_ (h.journal isHot),
    ⟨hjournal, hreclaim, hcurrent, hspare, hword, hhdi⟩, hcursor, h.tables.hdi,
    h.tables.nodes.of_same (fun _ => rfl) (fun _ => rfl) fun _ => rfl⟩
  cases isHot
  all_goals rfl

end

/-! ## The whole commit -/

/-- What holds of a device whose tables are mounted, between any two steps of the data layer. -/
structure DeviceInv (s : FtlState) : Prop where
  kept : RootsKept s
  log : TableLog s.flash rootBlock0 s.root.currentBlock s.root.currentPage
  tables : TablesPlaced s 0

/-- The data blocks and the journals are as they were. -/
structure DataKept (s t : FtlState) : Prop where
  page : ∀ b, dataStartBlock ≤ b → ∀ p, t.flash.page b p = s.flash.page b p
  journal : ∀ isHot, t.rootTable.journal isHot = s.rootTable.journal isHot

/-- Every root table programmed on the way from `f` to `f'` names mapping pages. -/
def RootWrites (f f' : Flash) : Prop :=
  ∃ ops, f'.log = ops ++ f.log ∧ ∀ b p, .program b p ∈ ops → IsRootBlock b →
    ∃ data spare, f'.page b p = .programmed data spare ∧ (Root.ofBuffer data).OnFlash

section

variable {s₀ s : FtlState}

theorem DeviceInv.offRoot (h : DeviceInv s₀) (hran : Ran (fun b => ¬ IsRootBlock b) s₀ s)
    (hroot : s.root = s₀.root) (htables : TablesPlaced s 0) : DeviceInv s := by
  refine ⟨h.kept.ran hran fun b hb hoff => hoff hb, ?_, htables⟩
  rw [hroot]
  exact h.log.congr fun b hb p => hran.flash.page (fun hoff => hoff hb) p

theorem DeviceInv.round (h : DeviceInv s₀) (hround : CommitRound s₀ s 0) : DeviceInv s :=
  h.offRoot (hround.ran.mono fun _ hb => hb.1) hround.root hround.tables

theorem DeviceInv.refl (h : DeviceInv s) : CommitRound s s 0 :=
  ⟨.refl, rfl, fun _ => rfl, h.tables⟩

omit [Platform] in
theorem DataKept.refl : DataKept s s := ⟨fun _ _ _ => rfl, fun _ => rfl⟩

omit [Platform] in
theorem DataKept.trans {t : FtlState} (h : DataKept s₀ s) (h' : DataKept s t) : DataKept s₀ t :=
  ⟨fun b hb p => (h'.page b hb p).trans (h.page b hb p),
    fun isHot => (h'.journal isHot).trans (h.journal isHot)⟩

theorem CommitRound.dataKept {i : Nat} (h : CommitRound s₀ s i) : DataKept s₀ s :=
  ⟨fun _ hb => h.ran.flash.page fun htable => Nat.not_lt.mpr hb htable.2, h.journal⟩

omit [Platform] in
theorem DataKept.rootCommitted
    (hlog : TableLog s.flash rootBlock0 s.root.currentBlock s.root.currentPage) :
    DataKept s s.rootCommitted := by
  refine ⟨fun b hb => (hlog.append_ran rfl).flash.page ?_, fun isHot => ?_⟩
  · simp only [dataStartBlock, rootBlock0] at *
    omega
  · cases isHot
    all_goals rfl

theorem CommitRound.rootWrites {i : Nat} (h : CommitRound s₀ s i) :
    RootWrites s₀.flash s.flash := by
  obtain ⟨ops, hdid, hin⟩ := h.ran.flash
  exact ⟨ops, hdid.log, fun b p hop hb => absurd hb (hin _ hop).1⟩

theorem DeviceInv.rootCommitted (h : DeviceInv s)
    (hnodes : ∀ c, c < pmtClusterCount → NandLocation (s.node c)) :
    DeviceInv s.rootCommitted := by
  obtain ⟨hjournal, hreclaim, hcurrent, hspare, hbdt, hhdi⟩ := h.tables.placed
  exact ⟨h.kept.rootCommitted h.log ⟨h.tables.placed, hnodes⟩, h.log.append rfl,
    ⟨hjournal, hreclaim, hcurrent, hspare, hbdt, hhdi⟩, h.tables.bdt, h.tables.hdi,
    h.tables.nodes.of_same (fun _ => rfl) (fun _ => rfl) fun _ => rfl⟩

/-- The root table that a commit programs is the one root page of the commit. -/
theorem RootWrites.rootCommitted {f : Flash} (h : DeviceInv s)
    (hnodes : ∀ c, c < pmtClusterCount → NandLocation (s.node c))
    (hbefore : ∃ ops, s.flash.log = ops ++ f.log ∧
      ∀ op ∈ ops, ¬ IsRootBlock op.block) : RootWrites f s.rootCommitted.flash := by
  obtain ⟨ops, hlog, hin⟩ := hbefore
  have hdata : (Root.ofBuffer s.nextRoot.toBuffer).OnFlash := by
    obtain ⟨hjournal, hreclaim, hcurrent, hspare, hbdt, hhdi⟩ := h.tables.placed
    exact ⟨⟨hjournal, hreclaim, hcurrent, hspare, hbdt, hhdi⟩, hnodes⟩
  have hpage : s.rootCommitted.flash.page (logSlot s.root.currentBlock s.root.currentPage).1
      (logSlot s.root.currentBlock s.root.currentPage).2 =
        .programmed s.nextRoot.toBuffer (.footprint 0) := h.log.append_page
  obtain ⟨erases, happend, herases⟩ : ∃ erases, s.rootCommitted.flash.log =
      .program (logSlot s.root.currentBlock s.root.currentPage).1
        (logSlot s.root.currentBlock s.root.currentPage).2 :: erases ++ s.flash.log ∧
      ∀ b p, NandOp.program b p ∉ erases := by
    change ∃ erases, (s.append s.root.currentBlock s.root.currentPage s.nextRoot.toBuffer
      (.footprint 0)).flash.log = _ ∧ _
    unfold logSlot
    by_cases hfull : s.root.currentPage = 64
    · refine ⟨[.erase (s.root.currentBlock ^^^ 1)], ?_, fun b p hmem => ?_⟩
      · rw [hfull]
        rfl
      · cases List.mem_singleton.mp hmem
    · refine ⟨[], ?_, fun b p hmem => List.not_mem_nil hmem⟩
      rw [FtlState.append_of_ne s hfull, if_neg hfull]
      rfl
  refine ⟨.program (logSlot s.root.currentBlock s.root.currentPage).1
    (logSlot s.root.currentBlock s.root.currentPage).2 :: erases ++ ops, ?_, fun b p hop hb => ?_⟩
  · rw [happend, hlog, List.append_assoc]
  · rcases List.mem_append.mp hop with hop | hop
    · rcases List.mem_cons.mp hop with heq | hop
      · obtain ⟨rfl, rfl⟩ := NandOp.program.inj heq
        exact ⟨_, _, hpage, hdata⟩
      · exact absurd hop (herases b p)
    · exact absurd hb (hin _ hop)

theorem dataCommit_device (h : DeviceInv s) :
    wp dataCommit (fun ret t => DeviceInv t ∧ RootWrites s.flash t.flash ∧ DataKept s t ∧
      (ret = .success → (∀ c, c < pmtClusterCount → NandLocation (t.node c)) ∧
        ∀ j, t.pmt.cacheCluster j = invalidCluster)) (fun _ => True) s := by
  unfold dataCommit
  rw [wp_bind, wp_hdiCommit_of_block h.tables.hdi.1]
  simp only [if_true, wp_bind]
  refine wp_mono_post (pmtCommit_round h.refl.hdiCommitted) fun ret t ht => ?_
  obtain ⟨hround, hdone⟩ := ht
  by_cases hret : ret = .success
  swap
  · simp only [hret, if_false, wp_bind, wp_pure]
    exact ⟨h.round hround, hround.rootWrites, hround.dataKept, False.elim⟩
  obtain ⟨hnodes, hslots⟩ := hdone hret
  have hbdt := hround.bdtCommitted
  have hdevice := h.round hbdt
  obtain ⟨ops, hdid, hin⟩ := hbdt.ran.flash
  have hcommitted := hdevice.rootCommitted hnodes
  simp only [hret, if_true, wp_bind, wp_bdtCommit_of_block hround.tables.bdt.1,
    wp_rootCommit_of_block hdevice.log.block, wp_modify, wp_pure]
  have hkept := hbdt.dataKept.trans (DataKept.rootCommitted hdevice.log)
  refine ⟨⟨hcommitted.kept, hcommitted.log, hcommitted.tables.placed, hcommitted.tables.bdt,
    hcommitted.tables.hdi, hcommitted.tables.nodes.of_same (fun _ => rfl) (fun _ => rfl)
      fun _ => rfl⟩, ?_, ⟨hkept.page, hkept.journal⟩, fun _ => ⟨hnodes, hslots⟩⟩
  exact RootWrites.rootCommitted hdevice hnodes ⟨ops, hdid.log, fun op hop => (hin op hop).1⟩

end

end

end RansomTag

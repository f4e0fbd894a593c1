import Mathlib.Order.Interval.Finset.Nat
import RansomTag.Ftl.PmtInvariant

/-!
# Reclaiming a mapping block

`pmt_reclaim_blocks` runs when the current mapping block is full.  The counts
leave some block with at least 50 stale pages, so that its other pages and the
rest of the running commit fit into the spare block.
-/

namespace RansomTag

open Program

variable [Platform]

/-! ## The victim -/

omit [Platform] in
theorem pmtVictim_spec {dirty : Ram Nat}
    (hle : ∀ b, pmtStartBlock ≤ b → b < dataStartBlock → dirty b ≤ 63) :
    ∃ i, pmtVictim dirty = some i ∧ pmtStartBlock ≤ i ∧ i < dataStartBlock ∧
      ∀ b, pmtStartBlock ≤ b → b < dataStartBlock → dirty b ≤ dirty i := by
  have hmem (b : Nat) : b ∈ List.range' pmtStartBlock pmtBlockCount ↔
      pmtStartBlock ≤ b ∧ b < dataStartBlock := by
    simp only [List.mem_range'_1, pmtStartBlock, pmtBlockCount, dataStartBlock]
  unfold pmtVictim
  rcases hpass : victimPass dirty (fun _ => false) maxDirtyPages
      (List.range' pmtStartBlock pmtBlockCount) 0 with ⟨_ | i, next⟩
  case some =>
    obtain ⟨hi, _, hdirty⟩ := VictimPass.found hpass
    rw [hmem] at hi
    refine ⟨i, by simp only [hpass], hi.1, hi.2, fun b hb hb' => ?_⟩
    rw [hdirty]
    exact hle b hb hb'
  case none =>
    obtain ⟨hne, _, hlt, hlast⟩ := VictimPass.not_found hpass
    have hmax : ∀ b, pmtStartBlock ≤ b → b < dataStartBlock → dirty b ≤ next := by
      intro b hb hb'
      have hb63 := hle b hb hb'
      have hbne := hne b ((hmem b).mpr ⟨hb, hb'⟩) rfl
      have hbmax : dirty b < maxDirtyPages := by
        simp only [maxDirtyPages] at hbne ⊢
        omega
      exact hlt b ((hmem b).mpr ⟨hb, hb'⟩) rfl hbmax
    -- the greatest count is attained, so that the second pass finds a block
    have hattained : ∃ b, pmtStartBlock ≤ b ∧ b < dataStartBlock ∧ dirty b = next := by
      rcases hlast with hzero | ⟨b, hb, _, hdirty, _⟩
      · have hfirst := hmax pmtStartBlock le_rfl (by decide)
        exact ⟨pmtStartBlock, le_rfl, by decide, by omega⟩
      · rw [hmem] at hb
        exact ⟨b, hb.1, hb.2, hdirty⟩
    rcases hsecond : victimPass dirty (fun _ => false) next
        (List.range' pmtStartBlock pmtBlockCount) next with ⟨_ | i, last⟩
    case none =>
      obtain ⟨b, hb, hb', hdirty⟩ := hattained
      exact absurd hdirty
        ((VictimPass.not_found hsecond).1 b ((hmem b).mpr ⟨hb, hb'⟩) rfl)
    case some =>
      obtain ⟨hi, _, hdirty⟩ := VictimPass.found hsecond
      rw [hmem] at hi
      refine ⟨i, by simp only [hpass, hsecond], hi.1, hi.2, fun b hb hb' => ?_⟩
      rw [hdirty]
      exact hmax b hb hb'

/-- The state in which a mapping block is reclaimed: every block but the spare
one is full and names its clusters in its last page. -/
structure ReclaimReady (s : FtlState) (done : Nat) : Prop extends CacheInv s done where
  spare_block : pmtStartBlock ≤ s.pmtSpare ∧ s.pmtSpare < dataStartBlock
  spare_free : ∀ p, p < 64 → s.flash.page s.pmtSpare p = .erased
  spare_dirty : s.blockDirtyTable s.pmtSpare ≤ 4
  spare_homes : s.homes s.pmtSpare = 0
  count : ∀ b, pmtStartBlock ≤ b → b < dataStartBlock → b ≠ s.pmtSpare →
    s.blockDirtyTable b + s.homes b = 63
  closed : ∀ b, pmtStartBlock ≤ b → b < dataStartBlock → b ≠ s.pmtSpare →
    s.blockDirtyTable b ≠ 63 →
    ∃ data spare, s.flash.page b 63 = .programmed data spare ∧
      ∀ p, p < 63 → data.node p < pmtClusterCount
  named : Named s 0

/-- Some block has at least 50 stale pages: 119 clusters in nine blocks of 63. -/
theorem ReclaimReady.victim {s : FtlState} {done : Nat} (h : ReclaimReady s done) :
    ∃ v, pmtVictim s.blockDirtyTable = some v ∧ pmtStartBlock ≤ v ∧ v < dataStartBlock ∧
      v ≠ s.pmtSpare ∧ 50 ≤ s.blockDirtyTable v ∧ s.blockDirtyTable v ≤ 63 := by
  have hle : ∀ b, pmtStartBlock ≤ b → b < dataStartBlock → s.blockDirtyTable b ≤ 63 := by
    intro b hb hb'
    by_cases hspare : b = s.pmtSpare
    · have := h.spare_dirty
      rw [hspare]
      omega
    · have := h.count b hb hb' hspare
      omega
  obtain ⟨v, hv, hstart, hend, hmax⟩ := pmtVictim_spec hle
  have hblock := h.spare_block
  let places := (Finset.Ico pmtStartBlock dataStartBlock).erase s.pmtSpare
  have hcard : places.card = 9 := by
    rw [Finset.card_erase_of_mem (Finset.mem_Ico.mpr hblock)]
    rfl
  obtain ⟨b, hb, hdead⟩ := Occupancy.exists_dead_ge (f := s.homeBlock) (n := pmtClusterCount)
    places s.blockDirtyTable 63 50
    (by
      intro b hb
      obtain ⟨hne, hb⟩ := Finset.mem_erase.mp hb
      obtain ⟨hb, hb'⟩ := Finset.mem_Ico.mp hb
      exact h.count b hb hb' hne)
    (by
      have := pmtClusterCount_le
      rw [hcard]
      omega)
  obtain ⟨hb, hb'⟩ := Finset.mem_Ico.mp (Finset.mem_of_mem_erase hb)
  have hge : 50 ≤ s.blockDirtyTable v := le_trans hdead (hmax b hb hb')
  refine ⟨v, hv, hstart, hend, ?_, hge, hle v hstart hend⟩
  rintro rfl
  have := h.spare_dirty
  omega

/-! ## Copying the valid pages -/

omit [Platform] in
theorem cachedSlot_eq {pmt : PmtRam} {c i : Nat} (n start : Nat) (hstart : start ≤ i)
    (hi : i < start + n) (hfound : pmt.cacheCluster i = c)
    (hfirst : ∀ j, start ≤ j → j < i → pmt.cacheCluster j ≠ c) :
    cachedSlot pmt c n start = i := by
  induction n generalizing start with
  | zero => omega
  | succ n ih =>
      unfold cachedSlot
      by_cases heq : start = i
      · subst heq
        rw [if_pos hfound]
      · rw [if_neg (hfirst start le_rfl (by omega))]
        exact ih (start + 1) (by omega) (by omega) fun j hj => hfirst j (by omega)

theorem CacheInv.cachedSlot {s : FtlState} {done c : Nat} (h : CacheInv s done)
    (hc : c < pmtClusterCount) (hcached : pmNodeIsCached (s.node c) = true) :
    cachedSlot s.pmt c pmtCacheCount 0 = pmCacheSlot (s.node c) := by
  obtain ⟨_, hi, hcluster, _⟩ := h.cached_at hc hcached
  apply cachedSlot_eq _ _ (Nat.zero_le _) (by simpa using hi) hcluster
  intro j _ hj hjc
  have := h.slot_unique hc hcached (by omega) hjc
  omega

/-- The loop before page `page`, with `k` pages copied from `v` to the spare block. -/
structure ReclaimLoop (s : FtlState) (done v k page : Nat) (clusters : Buffer) : Prop
    extends CacheInv s done where
  victim_block : pmtStartBlock ≤ v ∧ v < dataStartBlock
  spare_block : pmtStartBlock ≤ s.pmtSpare ∧ s.pmtSpare < dataStartBlock ∧ s.pmtSpare ≠ v
  copied : k ≤ page
  entries : ∀ p, p < 63 → clusters.node p < pmtClusterCount
  spare_free : ∀ p, k ≤ p → p < 64 → s.flash.page s.pmtSpare p = .erased
  spare_homes : s.homes s.pmtSpare = k
  victim_count : s.blockDirtyTable v + s.homes v + k = 63
  count : ∀ b, pmtStartBlock ≤ b → b < dataStartBlock → b ≠ s.pmtSpare → b ≠ v →
    s.blockDirtyTable b + s.homes b = 63
  closed : ∀ b, pmtStartBlock ≤ b → b < dataStartBlock → b ≠ s.pmtSpare → b ≠ v →
    s.blockDirtyTable b ≠ 63 →
    ∃ data spare, s.flash.page b 63 = .programmed data spare ∧
      ∀ p, p < 63 → data.node p < pmtClusterCount
  remaining : ∀ c, c < pmtClusterCount → s.isDirty c = false → s.homeBlock c = v →
    page ≤ s.homePage c ∧ clusters.node (s.homePage c) = c
  named : ∀ c, c < pmtClusterCount → s.isDirty c = false → s.homeBlock c ≠ v →
    (if s.homeBlock c = s.pmtSpare then s.pmt.metaData (s.homePage c)
      else s.flash.words (s.homeBlock c) 63 (s.homePage c)) = c
  below : ∀ c, c < pmtClusterCount → s.homeBlock c = s.pmtSpare →
    s.isDirty c = false ∧ s.homePage c < k

/-- What one round of the loop leaves alone. -/
structure ReclaimFrame (s s' : FtlState) : Prop extends PmtFrame s s' where
  table : s'.blockDirtyTable = s.blockDirtyTable
  current : s'.rootTable.pmtCurrentBlock = s.rootTable.pmtCurrentBlock
  spare : s'.rootTable.pmtReclaimBlock = s.rootTable.pmtReclaimBlock
  clusters : SameClusters s s'
  isDirty : ∀ c, c < pmtClusterCount → s'.isDirty c = s.isDirty c

theorem ReclaimFrame.refl {s : FtlState} : ReclaimFrame s s :=
  ⟨.refl, rfl, rfl, rfl, fun _ _ _ _ => rfl, fun _ _ => rfl⟩

theorem ReclaimFrame.trans {s s' s'' : FtlState} (h : ReclaimFrame s s')
    (h' : ReclaimFrame s' s'') : ReclaimFrame s s'' :=
  ⟨h.toPmtFrame.trans h'.toPmtFrame, h'.table.trans h.table, h'.current.trans h.current,
    h'.spare.trans h.spare, h.clusters.trans h'.clusters,
    fun c hc => (h'.isDirty c hc).trans (h.isDirty c hc)⟩

/-- The state after page `k` of block `r` became the home of cluster `c`. -/
def FtlState.moveCluster (s : FtlState) (r k c : Nat) (data : Buffer) : FtlState :=
  { s.program r k data .null with
    rootTable := { s.rootTable with
      pageMappingNodes := s.rootTable.pageMappingNodes.set c (pmNodeSetBlockPage r k) }
    pmt := { s.pmt with metaData := s.pmt.metaData.set k c } }

def FtlState.clearSlot (s : FtlState) (i : Nat) : FtlState :=
  { s with pmt := { s.pmt with
    nodeCaches := s.pmt.nodeCaches.set i (.const 0)
    cacheOrigin := s.pmt.cacheOrigin.set i invalidPmNode
    cacheCluster := s.pmt.cacheCluster.set i invalidCluster } }

/-- The state after cluster `c` was copied, out of the cache if it was there. -/
def FtlState.copyCluster (s : FtlState) (r k c : Nat) (data : Buffer) : FtlState :=
  if pmNodeIsCached (s.node c) then
    (s.moveCluster r k c data).clearSlot (pmCacheSlot (s.node c))
  else s.moveCluster r k c data

section

variable {s : FtlState} {done v k page : Nat} {clusters : Buffer} {E : Stop → Prop}
  {Q : Status × Nat → FtlState → Prop}

theorem wp_pmtReclaimPage_valid (h : CacheInv s done) (hc : clusters.node page < pmtClusterCount)
    (hdirty : s.isDirty (clusters.node page) = false)
    (hblock : s.homeBlock (clusters.node page) = v)
    (hpage : s.homePage (clusters.node page) = page)
    {r : Nat} {data : Buffer} {spare : Spare} (hr : r < ubiCapacity)
    (hdata : s.flash.page v page = .programmed data spare) :
    wp (pmtReclaimPage v r clusters page .success k) Q E s ↔
      Q (.success, k + 1) (s.copyCluster r k (clusters.node page) data) := by
  obtain ⟨b, p, hhome, hb, hb', hp⟩ := h.home _ hc
  have hcap := Platform.ubiCapacity_ge
  simp only [dataStartBlock] at hb'
  have hv : v < ubiCapacity := by
    rw [← hblock, FtlState.homeBlock, hhome, pmNodeBlock_set (by omega) (by omega)]
    omega
  have hpage64 : page < 64 := by
    rw [← hpage]
    exact Nat.mod_lt _ (by decide)
  have hvalid : s.home (clusters.node page) ≠ invalidPmNode := by
    rw [hhome]
    exact pmNodeSetBlockPage_ne_invalid
  unfold pmtReclaimPage FtlState.copyCluster
  unfold FtlState.homeBlock at hblock
  unfold FtlState.homePage at hpage
  by_cases hcached : pmNodeIsCached (s.node (clusters.node page)) = true
  · have hclean : pmNodeIsDirty (s.node (clusters.node page)) = false := by
      simpa [FtlState.isDirty, hcached] using hdirty
    have hhomeEq : s.home (clusters.node page) =
        s.pmt.cacheOrigin (pmCacheSlot (s.node (clusters.node page))) := by
      simp [FtlState.home, hcached]
    have hslot := (h.cached_at hc hcached).2.1
    rw [hhomeEq] at hblock hpage hvalid
    have hslotEq := h.cachedSlot hc hcached
    have hslot4 : pmCacheSlot (s.node (clusters.node page)) ≠ pmtCacheCount := by
      simp only [pmtCacheCount]; omega
    have hslotValid : pmCacheSlot (s.node (clusters.node page)) ≠ invalidIndex := by
      simp only [invalidIndex]; omega
    unfold FtlState.node at hcached hclean hslotEq hslot4 hslotValid hblock hpage hvalid ⊢
    simp only [wp_bind, wp_get, wp_ite, hcached, hclean, if_true, Bool.false_eq_true, if_false,
      wp_assert, hslotEq, ne_eq, hslot4, not_false_eq_true, wp_pure, hblock, hpage, hvalid,
      and_self, wp_ubiRead_programmed hv hpage64 hdata, wp_ubiWrite hr, wp_modify,
      hslotValid, Option.getD_some]
    rfl
  · have hnot : pmNodeIsCached (s.node (clusters.node page)) = false := by simpa using hcached
    rw [(CacheInv.node_of_not_cached hnot).1] at hblock hpage hvalid
    unfold FtlState.node at hnot hblock hpage hvalid ⊢
    simp only [wp_bind, wp_get, wp_ite, hnot, Bool.false_eq_true, if_false, ne_eq,
      not_false_eq_true, wp_pure, hblock, hpage, hvalid, and_self, if_true,
      wp_ubiRead_programmed hv hpage64 hdata, wp_ubiWrite hr, wp_modify, not_true_eq_false,
      Option.getD_some]
    rfl

theorem wp_pmtReclaimPage_stale (h : CacheInv s done) (hc : clusters.node page < pmtClusterCount)
    {r : Nat} (hstale : s.isDirty (clusters.node page) = true ∨
      ¬ (s.homeBlock (clusters.node page) = v ∧ s.homePage (clusters.node page) = page)) :
    wp (pmtReclaimPage v r clusters page .success k) Q E s ↔ Q (.success, k) s := by
  unfold pmtReclaimPage
  by_cases hcached : pmNodeIsCached (s.node (clusters.node page)) = true
  · by_cases hdirty : pmNodeIsDirty (s.node (clusters.node page)) = true
    · unfold FtlState.node at hcached hdirty
      simp only [wp_bind, wp_get, wp_ite, hcached, hdirty, if_true, wp_pure, ne_eq,
        not_true_eq_false, false_and, if_false]
    · have hnot : ¬ (s.homeBlock (clusters.node page) = v ∧
          s.homePage (clusters.node page) = page) := by
        rcases hstale with hstale | hstale
        · simp [FtlState.isDirty, hdirty] at hstale
        · exact hstale
      have hslot := (h.cached_at hc hcached).2.1
      have hslotEq := h.cachedSlot hc hcached
      have hslot4 : pmCacheSlot (s.node (clusters.node page)) ≠ pmtCacheCount := by
        simp only [pmtCacheCount]; omega
      have hcond : ¬ (s.pmt.cacheOrigin (pmCacheSlot (s.node (clusters.node page))) ≠
          invalidPmNode ∧
          pmNodeBlock (s.pmt.cacheOrigin (pmCacheSlot (s.node (clusters.node page)))) = v ∧
          pmNodePage (s.pmt.cacheOrigin (pmCacheSlot (s.node (clusters.node page)))) = page) := by
        intro hall
        apply hnot
        simp only [FtlState.homeBlock, FtlState.homePage, FtlState.home, hcached, if_true]
        exact hall.2
      unfold FtlState.node at hcached hdirty hslotEq hslot4 hcond
      simp only [wp_bind, wp_get, wp_ite, hcached, hdirty, if_true, if_false, wp_assert,
        hslotEq, hslot4, ne_eq, not_false_eq_true, wp_pure, Bool.false_eq_true] at hcond ⊢
      rw [if_neg hcond]
  · have hnot : pmNodeIsCached (s.node (clusters.node page)) = false := by simpa using hcached
    obtain ⟨hhome, hclean⟩ := CacheInv.node_of_not_cached hnot
    have hcond : ¬ (s.node (clusters.node page) ≠ invalidPmNode ∧
        pmNodeBlock (s.node (clusters.node page)) = v ∧
        pmNodePage (s.node (clusters.node page)) = page) := by
      intro hall
      rcases hstale with hstale | hstale
      · rw [hclean] at hstale
        simp at hstale
      · apply hstale
        simp only [FtlState.homeBlock, FtlState.homePage, hhome]
        exact hall.2
    unfold FtlState.node at hnot hcond
    simp only [wp_bind, wp_get, wp_ite, hnot, Bool.false_eq_true, if_false, wp_pure, ne_eq]
      at hcond ⊢
    rw [if_neg hcond]

end

/-! ## One round of the loop -/

section

variable {s : FtlState} {r k c : Nat} {data : Buffer}

theorem FtlState.copyCluster_flash :
    (s.copyCluster r k c data).flash = s.flash.program r k data .null := by
  unfold copyCluster
  split <;> rfl

theorem FtlState.copyCluster_past : (s.copyCluster r k c data).past = s.flash :: s.past := by
  unfold copyCluster
  split <;> rfl

theorem FtlState.copyCluster_rootTable : (s.copyCluster r k c data).rootTable =
    { s.rootTable with
      pageMappingNodes := s.rootTable.pageMappingNodes.set c (pmNodeSetBlockPage r k) } := by
  unfold copyCluster
  split <;> rfl

theorem FtlState.copyCluster_metaData :
    (s.copyCluster r k c data).pmt.metaData = s.pmt.metaData.set k c := by
  unfold copyCluster
  split <;> rfl

theorem FtlState.copyCluster_blockDirtyTable :
    (s.copyCluster r k c data).blockDirtyTable = s.blockDirtyTable := by
  unfold copyCluster
  split <;> rfl

theorem FtlState.copyCluster_frame
    (hr : pmtStartBlock ≤ r ∧ r < dataStartBlock) (hc : c < pmtClusterCount) :
    PmtFrame s (s.copyCluster r k c data) := by
  have hran : Ran (fun b => pmtStartBlock ≤ b ∧ b < dataStartBlock) s
      (s.copyCluster r k c data) :=
    (show Ran _ s (s.program r k data .null) from .program hr).trans
      (.of_eq s.copyCluster_flash s.copyCluster_past)
  have hunused : SameUnused s (s.copyCluster r k c data) :=
    .of_set hc (congrArg Root.pageMappingNodes s.copyCluster_rootTable)
  refine ⟨hran, ?_, ⟨_, _, _, s.copyCluster_rootTable⟩, hunused, ?_, ?_, ?_, ?_, ?_⟩
  · intro b _
    rw [s.copyCluster_blockDirtyTable]
  all_goals
    unfold FtlState.copyCluster
    split <;> rfl

theorem FtlState.copyCluster_moves {done : Nat} (h : CacheInv s done) (hc : c < pmtClusterCount)
    (hdirty : s.isDirty c = false) {spare : Spare}
    (hdata : s.flash.page (s.homeBlock c) (s.homePage c) = .programmed data spare)
    (hr : pmtStartBlock ≤ r ∧ r < dataStartBlock ∧ k < 63)
    (hfree : s.flash.page r k = .erased) :
    MovesHome s (s.copyCluster r k c data) done done c r k := by
  constructor
  case node =>
    intro d
    unfold FtlState.node
    rw [s.copyCluster_rootTable, Ram.set_apply]
  case kept =>
    intro i hi hic
    unfold FtlState.copyCluster
    split
    · next hcached =>
        have hne : i ≠ pmCacheSlot (s.node c) := by
          rintro rfl
          exact hic (h.cached_at hc hcached).2.2.1
        refine ⟨Ram.set_other _ _ hne, Ram.set_other _ _ hne, Ram.set_other _ _ hne⟩
    · exact ⟨rfl, rfl, rfl⟩
  case left =>
    intro i hi hic
    unfold FtlState.copyCluster
    split
    · next hcached =>
        left
        rw [h.slot_unique hc hcached hi hic]
        exact ⟨Ram.set_same _ _ _, Ram.set_same _ _ _⟩
    · next hcached =>
        right
        refine ⟨?_, hic, rfl⟩
        by_contra hdone
        rcases h.slot i hi with ⟨hno, _⟩ | ⟨_, _, hlive, _⟩
        · have := pmtClusterCount_le
          rw [hic] at hno
          simp only [invalidCluster] at hno
          omega
        · rw [hic] at hlive
          rcases hlive (by omega) with hnode | hnode
          · exact hcached (hnode ▸ pmNodeIsCached_cacheAddr i)
          · exact hcached (hnode ▸ pmNodeIsCached_cacheAddr_dirty i)
  case mono => exact le_rfl
  case passed => intro i _ hdone hlt; omega
  case page =>
    intro d hd hdc hclean
    rw [s.copyCluster_flash, Flash.page_program_other]
    rintro ⟨hb, hp⟩
    obtain ⟨data', spare', hstored⟩ := h.stored d hd hclean
    rw [hb, hp, hfree] at hstored
    exact absurd hstored (by simp)
  case copy =>
    refine ⟨data, .null, ?_, ?_⟩
    · rw [s.copyCluster_flash]
      exact Flash.page_program_erased hfree
    · intro i hi
      rw [h.clean c hc hdirty i hi, Flash.words_of_page hdata]
  case range => exact hr
  case meta_lt =>
    intro p
    rw [s.copyCluster_metaData, Ram.set_apply]
    split
    · exact hc
    · exact h.meta_lt p

end

section

variable {s : FtlState} {done v k page : Nat} {clusters : Buffer}

/-- The page at `page` is no valid copy: the loop goes on. -/
theorem ReclaimLoop.skip (h : ReclaimLoop s done v k page clusters)
    (hstale : s.isDirty (clusters.node page) = true ∨
      ¬ (s.homeBlock (clusters.node page) = v ∧ s.homePage (clusters.node page) = page)) :
    ReclaimLoop s done v k (page + 1) clusters := by
  refine { h with copied := Nat.le_succ_of_le h.copied, remaining := ?_ }
  intro c hc hdirty hblock
  obtain ⟨hle, hname⟩ := h.remaining c hc hdirty hblock
  refine ⟨?_, hname⟩
  by_contra hlt
  have hpage : s.homePage c = page := by omega
  rw [hpage] at hname
  rw [hname] at hstale
  rcases hstale with hstale | hstale
  · rw [hdirty] at hstale
    simp at hstale
  · exact hstale ⟨hblock, hpage⟩

/-- The page at `page` is the valid copy of its cluster and moves. -/
theorem ReclaimLoop.copy (h : ReclaimLoop s done v k page clusters) (hpage : page < 63)
    (hdirty : s.isDirty (clusters.node page) = false)
    (hblock : s.homeBlock (clusters.node page) = v)
    (hhome : s.homePage (clusters.node page) = page) {data : Buffer} {spare : Spare}
    (hdata : s.flash.page v page = .programmed data spare) :
    ReclaimLoop (s.copyCluster s.pmtSpare k (clusters.node page) data) done v (k + 1) (page + 1)
        clusters ∧
      ReclaimFrame s (s.copyCluster s.pmtSpare k (clusters.node page) data) := by
  set c := clusters.node page with hcdef
  set s' := s.copyCluster s.pmtSpare k c data with hs'
  have hc : c < pmtClusterCount := h.entries page hpage
  obtain ⟨hr, hr', hrv⟩ := h.spare_block
  have hk : k < 63 := by
    have := h.copied
    omega
  have m : MovesHome s s' done done c s.pmtSpare k :=
    s.copyCluster_moves h.toCacheInv hc hdirty (by rw [hblock, hhome]; exact hdata)
      ⟨hr, hr', hk⟩ (h.spare_free k le_rfl (by omega))
  have hspare : s'.pmtSpare = s.pmtSpare := by
    unfold FtlState.pmtSpare
    rw [hs', FtlState.copyCluster_rootTable]
  have hself := m.home_self h.toCacheInv hc
  have hdirtyOther : ∀ d, d < pmtClusterCount → s'.isDirty d = s.isDirty d := by
    intro d _
    rw [m.isDirty]
    split
    · next hdc => rw [hdc, hdirty]
    · rfl
  have hflash : ∀ b, b ≠ s.pmtSpare → ∀ p, s'.flash.page b p = s.flash.page b p := by
    intro b hb p
    rw [hs', FtlState.copyCluster_flash, Flash.page_program_other]
    exact fun heq => hb heq.1
  have hhomes := m.homes h.toCacheInv hc
  rw [hblock] at hhomes
  refine ⟨?_, ?_⟩
  · refine { m.cacheInv h.toCacheInv hc with
      victim_block := h.victim_block
      spare_block := hspare ▸ h.spare_block
      copied := Nat.succ_le_succ h.copied
      entries := h.entries
      spare_free := ?spare_free
      spare_homes := ?spare_homes
      victim_count := ?victim_count
      count := ?count
      closed := ?closed
      remaining := ?remaining
      named := ?named
      below := ?below }
    case spare_free =>
      intro p hp hp'
      rw [hspare, hs', FtlState.copyCluster_flash, Flash.page_program_other (by omega)]
      exact h.spare_free p (by omega) hp'
    case spare_homes =>
      have := hhomes s.pmtSpare
      rw [hspare]
      rw [if_neg (Ne.symm hrv), if_pos rfl, h.spare_homes] at this
      omega
    case victim_count =>
      have hv := hhomes v
      have hcount := h.victim_count
      rw [if_pos rfl, if_neg hrv] at hv
      rw [hs', FtlState.copyCluster_blockDirtyTable, ← hs']
      omega
    case count =>
      intro b hb hb' hbr hbv
      have hsame := hhomes b
      rw [hspare] at hbr
      rw [if_neg (Ne.symm hbv), if_neg (Ne.symm hbr)] at hsame
      have hcount := h.count b hb hb' hbr hbv
      rw [hs', FtlState.copyCluster_blockDirtyTable, ← hs']
      omega
    case closed =>
      intro b hb hb' hbr hbv hne
      rw [hspare] at hbr
      rw [hs', FtlState.copyCluster_blockDirtyTable] at hne
      rw [hflash b hbr]
      exact h.closed b hb hb' hbr hbv hne
    case remaining =>
      intro d hd hd' hdblock
      have hdc : d ≠ c := by
        rintro rfl
        exact hrv (hself.1.symm.trans hdblock)
      obtain ⟨hb, hp⟩ := m.home_other h.toCacheInv hd hdc
      rw [hb] at hdblock
      rw [hdirtyOther d hd] at hd'
      obtain ⟨hle, hname⟩ := h.remaining d hd hd' hdblock
      rw [hp]
      refine ⟨?_, hname⟩
      by_contra hlt
      have heq : s.homePage d = page := by omega
      rw [heq] at hname
      exact hdc hname.symm
    case named =>
      intro d hd hd' hdv
      rw [hspare]
      by_cases hdc : d = c
      · rw [hdc, hself.1, hself.2, if_pos rfl, hs', FtlState.copyCluster_metaData, Ram.set_same]
      · obtain ⟨hb, hp⟩ := m.home_other h.toCacheInv hd hdc
        rw [hb] at hdv ⊢
        rw [hp]
        rw [hdirtyOther d hd] at hd'
        have hname := h.named d hd hd' hdv
        by_cases hdr : s.homeBlock d = s.pmtSpare
        · have hbelow := (h.below d hd hdr).2
          rw [if_pos hdr] at hname ⊢
          rw [hs', FtlState.copyCluster_metaData, Ram.set_other _ _ (by omega)]
          exact hname
        · rw [if_neg hdr] at hname ⊢
          rw [Flash.words_congr (hflash _ hdr 63)]
          exact hname
    case below =>
      intro d hd hdr
      rw [hspare] at hdr
      rw [hdirtyOther d hd]
      by_cases hdc : d = c
      · rw [hdc, hself.2]
        exact ⟨hdirty, by omega⟩
      · obtain ⟨hb, hp⟩ := m.home_other h.toCacheInv hd hdc
        rw [hb] at hdr
        rw [hp]
        have := h.below d hd hdr
        exact ⟨this.1, by omega⟩
  · refine ⟨s.copyCluster_frame ⟨hr, hr'⟩ hc, s.copyCluster_blockDirtyTable, ?_, ?_, ?_, hdirtyOther⟩
    · rw [hs', FtlState.copyCluster_rootTable]
    · rw [hs', FtlState.copyCluster_rootTable]
    · exact fun d hd i hi => m.cluster h.toCacheInv hd hi

theorem ReclaimFrame.pmtSpare {s' : FtlState} (h : ReclaimFrame s s') :
    s'.pmtSpare = s.pmtSpare := by
  unfold FtlState.pmtSpare
  rw [h.spare]

/-- The whole loop. -/
theorem pmtReclaimPages_spec {E : Stop → Prop} (n : Nat) {r : Nat}
    (h : ReclaimLoop s done v k page clusters) (hr : r = s.pmtSpare) (hn : page + n = 63) :
    wp (pmtReclaimPages v r clusters (List.range' page n) .success k)
      (fun x s' => x.1 = .success ∧ ReclaimLoop s' done v x.2 63 clusters ∧ ReclaimFrame s s')
      E s := by
  induction n generalizing s k page with
  | zero =>
      obtain rfl : page = 63 := by omega
      exact ⟨rfl, h, .refl⟩
  | succ n ih =>
      have hpage : page < 63 := by omega
      have hc := h.entries page hpage
      rw [List.range'_succ]
      unfold pmtReclaimPages
      rw [wp_bind]
      by_cases hvalid : s.isDirty (clusters.node page) = false ∧
          s.homeBlock (clusters.node page) = v ∧ s.homePage (clusters.node page) = page
      · obtain ⟨hdirty, hblock, hhome⟩ := hvalid
        obtain ⟨data, spare, hdata⟩ := h.stored _ hc hdirty
        rw [hblock, hhome] at hdata
        have hcap := Platform.ubiCapacity_ge
        have hspare := h.spare_block
        simp only [dataStartBlock] at hspare
        rw [wp_pmtReclaimPage_valid h.toCacheInv hc hdirty hblock hhome (by omega) hdata]
        have hcopy := h.copy hpage hdirty hblock hhome hdata
        rw [← hr] at hcopy
        obtain ⟨hnext, hframe⟩ := hcopy
        refine wp_mono_post (ih hnext (hr.trans hframe.pmtSpare.symm) (by omega)) ?_
        rintro x s' ⟨hret, hloop, hframe'⟩
        exact ⟨hret, hloop, hframe.trans hframe'⟩
      · have hstale : s.isDirty (clusters.node page) = true ∨
            ¬ (s.homeBlock (clusters.node page) = v ∧
              s.homePage (clusters.node page) = page) := by
          by_cases hdirty : s.isDirty (clusters.node page) = true
          · exact .inl hdirty
          · right
            intro hboth
            exact hvalid ⟨by simpa using hdirty, hboth⟩
        rw [wp_pmtReclaimPage_stale h.toCacheInv hc hstale]
        exact ih (h.skip hstale) hr (by omega)

end

/-! ## The whole reclaim -/

/-- What a reclaim leaves: the block `cur` is written from page `cp` on. -/
structure Reclaimed (s s' : FtlState) (done : Nat) : Prop where
  inv : PmtInv s' done
  page : s'.rootTable.pmtPage ≤ 13
  named : Named s' s'.rootTable.pmtBlock
  frame : PmtFrame s s'
  clusters : SameClusters s s'
  isDirty : ∀ c, c < pmtClusterCount → s'.isDirty c = s.isDirty c

/-- The end of the reclaim of a block without valid pages. -/
def FtlState.erasedVictim (s : FtlState) (v : Nat) : FtlState :=
  { s.erase v with
    rootTable := { s.rootTable with pmtCurrentBlock := pmNodeSetBlockPage v 0 }
    blockDirtyTable := s.blockDirtyTable.set v 0 }

/-- The end of the reclaim of a block whose `k` valid pages were copied. -/
def FtlState.movedVictim (s : FtlState) (v k : Nat) : FtlState :=
  { s.erase v with
    rootTable := { s.rootTable with
      pmtCurrentBlock := pmNodeSetBlockPage s.pmtSpare k
      pmtReclaimBlock := pmNodeSetBlockPage v 0 }
    blockDirtyTable := (s.blockDirtyTable.set s.pmtSpare 0).set v 0 }

theorem ReclaimReady.erasedVictim {s : FtlState} {done v : Nat} (h : ReclaimReady s done)
    (hv : pmtStartBlock ≤ v ∧ v < dataStartBlock) (hvs : v ≠ s.pmtSpare)
    (hdirty : s.blockDirtyTable v = 63) : Reclaimed s (s.erasedVictim v) done := by
  have hnone : s.homes v = 0 := by
    have := h.count v hv.1 hv.2 hvs
    omega
  have hhomes : ∀ c, c < pmtClusterCount → s.homeBlock c ≠ v :=
    Occupancy.eq_zero_iff.mp hnone
  have same : SameNodes s (s.erasedVictim v) := ⟨rfl, rfl⟩
  have hkept : ∀ c, c < pmtClusterCount → s.isDirty c = false →
      (s.erasedVictim v).flash.page (s.homeBlock c) (s.homePage c) =
        s.flash.page (s.homeBlock c) (s.homePage c) := fun c hc _ =>
    Flash.page_erase_other (hhomes c hc)
  have hcache := same.cacheInv h.toCacheInv hkept
  have hhomesEq := same.homes
  have hcur : (s.erasedVictim v).rootTable.pmtBlock = v := by
    simp only [dataStartBlock] at hv
    exact pmNodeBlock_set (by omega) (by omega)
  have hcurPage : (s.erasedVictim v).rootTable.pmtPage = 0 := pmNodePage_set (by omega)
  have hspare : (s.erasedVictim v).pmtSpare = s.pmtSpare := rfl
  have hspareDirty : (s.erasedVictim v).blockDirtyTable s.pmtSpare =
      s.blockDirtyTable s.pmtSpare := Ram.set_other _ _ (Ne.symm hvs)
  have hspareHomes := h.spare_homes
  refine ⟨?_, by rw [hcurPage]; omega, ?_, ?_, same.clusters hkept,
    fun c _ => congrFun same.isDirty c⟩
  · refine { hcache with
      current_block := by rw [hcur]; exact hv
      current_page := by rw [hcurPage]; omega
      current_free := ?free
      spare_block := by rw [hcur, hspare]; exact ⟨h.spare_block.1, h.spare_block.2, Ne.symm hvs⟩
      spare_free := ?sparefree
      spare_homes := ?sparehomes
      spare_count := ?sparecount
      spare_room := by rw [hspare, hhomesEq]; exact .inl hspareHomes
      count := ?count
      closed := ?closed }
    case free =>
      intro p _ _
      rw [hcur]
      exact Flash.page_erase_same
    case sparefree =>
      intro p hp
      rw [hspare]
      exact (Flash.page_erase_other (Ne.symm hvs)).trans (h.spare_free p hp)
    case sparehomes =>
      intro c hc hblock
      rw [hspare, same.homeBlock] at hblock
      exact absurd hblock (Occupancy.eq_zero_iff.mp hspareHomes c hc)
    case sparecount =>
      rw [hspare, hhomesEq, hspareDirty, hspareHomes]
      exact h.spare_dirty
    case count =>
      intro b hb hb' hbs
      rw [hcur, hcurPage, hhomesEq]
      by_cases hbv : b = v
      · rw [if_pos hbv, hbv, hnone]
        exact Ram.set_same _ _ _
      · rw [if_neg hbv]
        exact (congrArg (· + s.homes b) (Ram.set_other _ _ hbv)).trans (h.count b hb hb' hbs)
    case closed =>
      intro b hb hb' hbs hbv hne
      rw [hcur] at hbv
      have hne' : s.blockDirtyTable b ≠ 63 := fun heq => hne ((Ram.set_other _ _ hbv).trans heq)
      obtain ⟨data, spare, hpage, hentries⟩ := h.closed b hb hb' hbs hne'
      exact ⟨data, spare, (Flash.page_erase_other hbv).trans hpage, hentries⟩
  · intro c hc hd
    rw [same.isDirty] at hd
    have hcv := hhomes c hc
    have hname := h.named c hc hd
    obtain ⟨b, p, hb, hlo, hhi, hp⟩ := h.home c hc
    have hzero : s.homeBlock c ≠ 0 := by
      simp only [pmtStartBlock] at hlo
      simp only [dataStartBlock] at hhi
      unfold FtlState.homeBlock
      rw [hb, pmNodeBlock_set (by omega) (by omega)]
      omega
    rw [if_neg hzero] at hname
    rw [hcur, same.homeBlock, same.homePage, if_neg hcv, Flash.words_congr
      (show (s.erasedVictim v).flash.page (s.homeBlock c) 63 = s.flash.page (s.homeBlock c) 63
        from Flash.page_erase_other hcv)]
    exact hname
  · refine ⟨(Ran.erase (s := s) hv).trans (.of_eq rfl rfl), ?_, ⟨_, _, _, rfl⟩, .of_nodes rfl,
      rfl, rfl, rfl, rfl,
      rfl⟩
    intro b hb
    exact Ram.set_other _ _ (by rintro rfl; omega)

/-- At most the four cached clusters are dirty. -/
theorem CacheInv.homes_le {s : FtlState} {done v : Nat} (h : CacheInv s done)
    (hdirty : ∀ c, c < pmtClusterCount → s.homeBlock c = v → s.isDirty c = true) :
    s.homes v ≤ 4 := by
  have hcached : ∀ c, c < pmtClusterCount → s.homeBlock c = v →
      pmNodeIsCached (s.node c) = true := by
    intro c hc hb
    have := hdirty c hc hb
    unfold FtlState.isDirty at this
    exact (Bool.and_eq_true_iff.mp this).1
  calc
    s.homes v ≤ (Finset.range 4).card := by
      unfold FtlState.homes occupancy
      apply Finset.card_le_card_of_injOn fun c => pmCacheSlot (s.node c)
      · intro c hc
        obtain ⟨hc, hb⟩ := Finset.mem_filter.mp hc
        have hc := Finset.mem_range.mp hc
        exact Finset.mem_coe.mpr
          (Finset.mem_range.mpr (h.cached_at hc (hcached c hc hb)).2.1)
      · intro c hc d hd heq
        obtain ⟨hc, hb⟩ := Finset.mem_filter.mp hc
        obtain ⟨hd, hb'⟩ := Finset.mem_filter.mp hd
        have hc := Finset.mem_range.mp hc
        have hd := Finset.mem_range.mp hd
        have hslot := (h.cached_at hc (hcached c hc hb)).2.2.1
        have hslot' := (h.cached_at hd (hcached d hd hb')).2.2.1
        simp only at heq
        rw [heq] at hslot
        exact hslot.symm.trans hslot'
    _ = 4 := Finset.card_range 4

theorem ReclaimLoop.movedVictim {s : FtlState} {done v k : Nat} {clusters : Buffer}
    (h : ReclaimLoop s done v k 63 clusters) (hdone : 0 < done) (hk : k ≤ 13) :
    Reclaimed s (s.movedVictim v k) done := by
  obtain ⟨hr, hr', hrv⟩ := h.spare_block
  have hv := h.victim_block
  -- all that is left in the victim will be written again by the commit
  have hleft : ∀ c, c < pmtClusterCount → s.homeBlock c = v → s.isDirty c = true := by
    intro c hc hb
    by_contra hd
    have hge := (h.remaining c hc (by simpa using hd) hb).1
    obtain ⟨b, p, hhome, _, _, hp⟩ := h.home c hc
    unfold FtlState.homePage at hge
    rw [hhome, pmNodePage_set (by omega)] at hge
    omega
  have same : SameNodes s (s.movedVictim v k) := ⟨rfl, rfl⟩
  have hkept : ∀ c, c < pmtClusterCount → s.isDirty c = false →
      (s.movedVictim v k).flash.page (s.homeBlock c) (s.homePage c) =
        s.flash.page (s.homeBlock c) (s.homePage c) := by
    intro c hc hd
    refine Flash.page_erase_other fun hb => ?_
    rw [hleft c hc hb] at hd
    simp at hd
  have hcache := same.cacheInv h.toCacheInv hkept
  have hhomesEq := same.homes
  have hcur : (s.movedVictim v k).rootTable.pmtBlock = s.pmtSpare := by
    simp only [dataStartBlock] at hr'
    exact pmNodeBlock_set (by omega) (by omega)
  have hcurPage : (s.movedVictim v k).rootTable.pmtPage = k := pmNodePage_set (by omega)
  have hspare : (s.movedVictim v k).pmtSpare = v := by
    simp only [dataStartBlock] at hv
    exact pmNodeBlock_set (by omega) (by omega)
  have hdirtyVictim : (s.movedVictim v k).blockDirtyTable v = 0 := Ram.set_same _ _ _
  have hdirtyCur : (s.movedVictim v k).blockDirtyTable s.pmtSpare = 0 :=
    (Ram.set_other _ _ hrv).trans (Ram.set_same _ _ _)
  have hdirtyOther : ∀ b, b ≠ v → b ≠ s.pmtSpare →
      (s.movedVictim v k).blockDirtyTable b = s.blockDirtyTable b := fun b hbv hbr =>
    (Ram.set_other _ _ hbv).trans (Ram.set_other _ _ hbr)
  have hpage : ∀ b, b ≠ v → ∀ p, (s.movedVictim v k).flash.page b p = s.flash.page b p :=
    fun b hb p => Flash.page_erase_other hb
  refine ⟨?_, by rw [hcurPage]; omega, ?_, ?_, same.clusters hkept,
    fun c _ => congrFun same.isDirty c⟩
  · refine { hcache with
      current_block := by rw [hcur]; exact ⟨hr, hr'⟩
      current_page := by rw [hcurPage]; omega
      current_free := ?free
      spare_block := by rw [hcur, hspare]; exact ⟨hv.1, hv.2, Ne.symm hrv⟩
      spare_free := ?sparefree
      spare_homes := ?sparehomes
      spare_count := ?sparecount
      spare_room := by rw [hcurPage]; right; omega
      count := ?count
      closed := ?closed }
    case free =>
      intro p hp hp'
      rw [hcurPage] at hp
      rw [hcur, hpage _ hrv]
      exact h.spare_free p hp hp'
    case sparefree =>
      intro p _
      rw [hspare]
      exact Flash.page_erase_same
    case sparehomes =>
      intro c hc hb
      rw [hspare, same.homeBlock] at hb
      rw [same.isDirty]
      exact hleft c hc hb
    case sparecount =>
      rw [hspare, hhomesEq, hdirtyVictim, Nat.zero_add]
      exact h.toCacheInv.homes_le hleft
    case count =>
      intro b hb hb' hbv
      rw [hspare] at hbv
      rw [hcur, hcurPage, hhomesEq]
      by_cases hbr : b = s.pmtSpare
      · rw [if_pos hbr, hbr, hdirtyCur, h.spare_homes, Nat.zero_add]
      · rw [if_neg hbr, hdirtyOther b hbv hbr]
        exact h.count b hb hb' hbr hbv
    case closed =>
      intro b hb hb' hbv hbr hne
      rw [hspare] at hbv
      rw [hcur] at hbr
      rw [hdirtyOther b hbv hbr] at hne
      rw [hpage b hbv]
      exact h.closed b hb hb' hbr hbv hne
  · intro c hc hd
    rw [same.isDirty] at hd
    have hcv : s.homeBlock c ≠ v := by
      intro hb
      rw [hleft c hc hb] at hd
      simp at hd
    rw [hcur, same.homeBlock, same.homePage, Flash.words_congr (hpage _ hcv 63)]
    exact h.named c hc hd hcv
  · refine ⟨(Ran.erase (s := s) hv).trans (.of_eq rfl rfl), ?_, ⟨_, _, _, rfl⟩, .of_nodes rfl,
      rfl, rfl, rfl, rfl,
      rfl⟩
    intro b hb
    exact hdirtyOther b (by rintro rfl; omega) (by rintro rfl; omega)

/-- The loop starts with no page copied. -/
theorem ReclaimReady.loop {s : FtlState} {done v : Nat} (h : ReclaimReady s done)
    (hv : pmtStartBlock ≤ v ∧ v < dataStartBlock) (hvs : v ≠ s.pmtSpare)
    {clusters : Buffer} {spare : Spare} (hpage : s.flash.page v 63 = .programmed clusters spare)
    (hentries : ∀ p, p < 63 → clusters.node p < pmtClusterCount) :
    ReclaimLoop s done v 0 0 clusters := by
  have hnone : ∀ c, c < pmtClusterCount → s.homeBlock c ≠ s.pmtSpare :=
    Occupancy.eq_zero_iff.mp h.spare_homes
  have hzero : ∀ c, c < pmtClusterCount → s.homeBlock c ≠ 0 := by
    intro c hc
    obtain ⟨b, p, hb, hlo, hhi, hp⟩ := h.home c hc
    simp only [pmtStartBlock] at hlo
    simp only [dataStartBlock] at hhi
    unfold FtlState.homeBlock
    rw [hb, pmNodeBlock_set (by omega) (by omega)]
    omega
  refine { h.toCacheInv with
    victim_block := hv
    spare_block := ⟨h.spare_block.1, h.spare_block.2, Ne.symm hvs⟩
    copied := le_rfl
    entries := hentries
    spare_free := fun p _ hp => h.spare_free p hp
    spare_homes := h.spare_homes
    victim_count := by simpa using h.count v hv.1 hv.2 hvs
    count := fun b hb hb' hbs _ => h.count b hb hb' hbs
    closed := fun b hb hb' hbs _ hne => h.closed b hb hb' hbs hne
    remaining := ?remaining
    named := ?named
    below := fun c hc hb => absurd hb (hnone c hc) }
  case remaining =>
    intro c hc hd hb
    have hname := h.named c hc hd
    rw [if_neg (hzero c hc), hb, Flash.words_of_page hpage] at hname
    exact ⟨Nat.zero_le _, hname⟩
  case named =>
    intro c hc hd _
    have hname := h.named c hc hd
    rw [if_neg (hzero c hc)] at hname
    rw [if_neg (hnone c hc)]
    exact hname

/-- `pmt_reclaim_blocks` always finds a block and keeps every cluster. -/
theorem pmtReclaimBlocks_spec {s : FtlState} {done : Nat} {E : Stop → Prop}
    (h : ReclaimReady s done) (hdone : 0 < done) :
    wp pmtReclaimBlocks (fun ret s' => ret = .success ∧ Reclaimed s s' done) E s := by
  obtain ⟨v, hvictim, hv, hv', hvs, hge, hle⟩ := h.victim
  have hcap := Platform.ubiCapacity_ge
  unfold pmtReclaimBlocks
  rw [wp_bind, wp_get, hvictim]
  by_cases hfull : s.blockDirtyTable v = 63
  · simp only [hfull, maxDirtyPages, Nat.sub_self, ne_eq, not_true_eq_false, if_false, wp_bind,
      wp_ubiErase, wp_ite, if_true, wp_modify, wp_pure, true_and]
    exact h.erasedVictim ⟨hv, hv'⟩ hvs hfull
  · obtain ⟨clusters, spare, hpage, hentries⟩ := h.closed v hv hv' hvs hfull
    have hvalid : maxDirtyPages - s.blockDirtyTable v ≠ 0 := by
      simp only [maxDirtyPages]
      omega
    have hvcap : v < ubiCapacity := by
      simp only [dataStartBlock] at hv'
      omega
    have hloop := h.loop ⟨hv, hv'⟩ hvs hpage hentries
    simp only [hvalid, ne_eq, not_false_eq_true, if_true, wp_bind, pagePerPhyBlock,
      Nat.reduceSub, wp_ubiRead_programmed hvcap (by decide : 63 < 64) hpage, Option.getD_some]
    rw [List.range_eq_range']
    refine wp_mono_post (pmtReclaimPages_spec 63 hloop rfl rfl) ?_
    rintro ⟨ret, k⟩ s' ⟨hret, hend, hframe⟩
    simp only at hret hend
    obtain rfl : ret = .success := hret
    have hspare : s'.pmtSpare = s.pmtSpare := hframe.pmtSpare
    have hk : k ≤ 13 := by
      have hcount := hend.victim_count
      rw [hframe.table] at hcount
      omega
    have hend' := hend.movedVictim hdone hk
    simp only [if_true, wp_ubiErase, wp_bind, wp_modify, wp_pure, true_and]
    have hstate : s'.movedVictim v k =
        { s'.erase v with
          rootTable := { s'.rootTable with
            pmtCurrentBlock :=
              pmNodeSetBlockPage (pmNodeBlock s.rootTable.pmtReclaimBlock) k
            pmtReclaimBlock := pmNodeSetBlockPage v 0 }
          blockDirtyTable :=
            (s'.blockDirtyTable.set (pmNodeBlock s.rootTable.pmtReclaimBlock) 0).set v 0 } := by
      unfold FtlState.movedVictim
      rw [hspare]
      rfl
    rw [hstate] at hend'
    exact ⟨hend'.inv, hend'.page, hend'.named, hframe.toPmtFrame.trans hend'.frame,
      hframe.clusters.trans hend'.clusters,
      fun c hc => (hend'.isDirty c hc).trans (hframe.isDirty c hc)⟩

end RansomTag

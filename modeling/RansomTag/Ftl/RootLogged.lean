import RansomTag.Ftl.PmtRuns
import RansomTag.Ftl.Store

/-!
# The root log of a mount

Every commit of a mount appends to the log of root tables.  The editions count
the commits, so they do not wrap around before `2^32 - 1` operations of the flash.
-/

namespace RansomTag

open Program

/-- What the root blocks are in any state of a mount. -/
structure RootLogged (s : FtlState) : Prop where
  bound : s.root.edition ≤ s.flash.log.length
  logged : s.flash.log.length < maxUint32 →
    RootLog s.flash s.root.currentBlock s.root.currentPage s.root.edition

theorem Flash.Within.length_le {blocks : Nat → Prop} {f f' : Flash} (h : f.Within blocks f') :
    f.log.length ≤ f'.log.length := by
  obtain ⟨ops, hops, _⟩ := h
  rw [hops.log, List.length_append]
  exact Nat.le_add_left _ _

theorem FtlState.append_length (s : FtlState) (b q : Nat) (data : Buffer) (spare : Spare) :
    s.flash.log.length < (s.append b q data spare).flash.log.length := by
  rw [FtlState.append_flash]
  split
  · exact Nat.lt_succ_of_lt (Nat.lt_succ_self _)
  · exact Nat.lt_succ_self _

namespace RootLogged

variable {s s' : FtlState}

/-- Operations on other blocks leave the log alone. -/
theorem offRoot {blocks : Nat → Prop} (h : RootLogged s) (hran : s.flash.Within blocks s'.flash)
    (hoff : ∀ b, blocks b → ¬ (b = rootBlock0 ∨ b = rootBlock0 + 1)) (hroot : s'.root = s.root) :
    RootLogged s' := by
  have hlength := hran.length_le
  constructor
  · rw [hroot]
    exact h.bound.trans hlength
  · intro hlt
    rw [hroot]
    apply (h.logged (by omega)).congr
    intro b hb p
    exact hran.page (fun hin => hoff b hin hb) p

theorem of_eq (h : RootLogged s) (hflash : s'.flash = s.flash) (hroot : s'.root = s.root) :
    RootLogged s' := by
  have hran : s.flash.Within (fun _ => False) s'.flash := by
    rw [hflash]
    exact .refl
  exact h.offRoot hran (fun _ hno => hno.elim) hroot

theorem rootCommitted (h : RootLogged s) : RootLogged s.rootCommitted := by
  have hlength : s.flash.log.length < s.rootCommitted.flash.log.length :=
    s.append_length _ _ _ _
  have hbound := h.bound
  constructor
  · have hedition : s.rootCommitted.root.edition ≤ s.root.edition + 1 := Nat.mod_le _ _
    omega
  · intro hlt
    simp only [maxUint32] at hlt
    have hlog := h.logged (by simp only [maxUint32]; omega)
    exact (hlog.committed (by omega)).1

theorem hdiCommitted (h : RootLogged s) (ht : TablesInv s) : RootLogged s.hdiCommitted := by
  apply h.offRoot (s.hdiCommitted_ran ht).flash _ rfl
  simp only [rootBlock0]
  omega

theorem bdtCommitted (h : RootLogged s) (ht : TablesInv s) : RootLogged s.bdtCommitted := by
  apply h.offRoot (s.bdtCommitted_ran ht).flash _ rfl
  simp only [rootBlock0]
  omega

section

variable [Platform] {t : FtlState} {k : Nat}

theorem pmtFrame (h : RootLogged s) (hframe : PmtFrame s s') : RootLogged s' := by
  apply h.offRoot hframe.ran.flash _ hframe.root
  simp only [pmtStartBlock, rootBlock0]
  omega

omit [Platform] in
theorem dataStep (h : RootLogged s) (hstep : DataLayerStep s s') : RootLogged s' := by
  apply h.offRoot hstep.ran.flash _ hstep.root
  simp only [dataStartBlock, rootBlock0]
  omega

omit [Platform] in
theorem committed (h : RootLogged s) (ht : TablesInv s) : RootLogged s.committed := by
  have hroot := (h.bdtCommitted ht).rootCommitted
  exact ⟨hroot.bound, hroot.logged⟩

theorem dataCommitted (h : RootLogged s) (ht : TablesInv s) (hc : DataCommitted s s' k) :
    RootLogged s' := by
  obtain ⟨t, hpmt, rfl⟩ := hc
  exact ((h.hdiCommitted ht).pmtFrame hpmt.frame).committed (hpmt.frame.tables ht.hdiCommitted)

theorem onlyCache (h : RootLogged s) (honly : OnlyCache s s') : RootLogged s' :=
  h.pmtFrame honly.frame

theorem accessed {c : Nat} (h : RootLogged s) (ht : TablesInv s) (ha : Accessed s s' k c) :
    RootLogged s' := by
  obtain ⟨u, hu, honly⟩ := ha.start
  rcases hu with rfl | hcommit
  · exact h.onlyCache honly
  · exact (h.dataCommitted ht hcommit).onlyCache honly

end

end RootLogged

section

variable [Platform] {s s' : FtlState} {addr block page : Nat} {isBackup : Bool}

/-- A search of a page that no cluster holds does not return. -/
theorem pmtSearch_outside {Q : Status × Option (Nat × Nat) → FtlState → Prop} (h : MountInv s)
    (hc : ¬ clusterIndex addr < pmtClusterCount) : wp (pmtSearch addr) Q (fun _ => True) s := by
  have hnode : s.rootTable.pageMappingNodes (clusterIndex addr) = 0 := h.unused _ (by omega)
  have hcached : pmNodeIsCached 0 = true := rfl
  have hnull : pmNodeAddress 0 = 0 := rfl
  have hvalid : 0 ≠ invalidPmNode := by decide
  unfold pmtSearch pmtEnsureCached
  simp only [wp_bind, wp_get, hnode, hcached, Bool.true_eq_false, if_false, wp_pure, if_true,
    wp_assert, hvalid, hnull, ne_eq, not_true_eq_false, not_false_eq_true]

/-- Whatever a mount does, its root tables are a log. -/
theorem rootLogged_dataLayer :
    DataLayerInv (fun s => MountInv s ∧ RootLogged s) fun addr => addr < ftlCapacity where
  journal h := h.1.journal
  reclaim h := h.1.reclaim
  step h hstep := ⟨h.1.dataStep hstep.dataStep, h.2.dataStep hstep⟩
  touched {s} h addr := by
    obtain ⟨_, hflash, _, hroot, _⟩ := @FtlState.touched_same _ s addr
    exact ⟨h.1.touched addr, h.2.of_eq hflash hroot⟩
  search {s addr} h := by
    by_cases hc : clusterIndex addr < pmtClusterCount
    · apply wp_of_ok_imp
      intro r t hrun
      have hsearch : wp (pmtSearch addr) _ (fun _ => True) s := pmtSearch_keeps h.1
      have hkeeps := of_wp_ok hsearch hrun
      have hfound := of_wp_ok (pmtSearch_spec (E := fun _ => True) h.1.base hc) hrun
      exact ⟨⟨hkeeps.1, h.2.accessed h.1.base.tables hfound.2⟩, hkeeps.2⟩
    · exact pmtSearch_outside h.1 hc
  update {s addr block page isBackup} h haddr hword hpage := by
    have hold : s.mapping addr = invalidPmNode ∨
        dataStartBlock ≤ pmNodeBlock (s.mapping addr) :=
      (h.1.mapping addr (clusterIndex_lt haddr)).imp_right And.right
    have hbase : BaseOk s (63 + 1) := h.1.base.complete 64
    apply wp_of_ok_imp
    intro ret t hrun
    have hkeeps := of_wp_ok (pmtUpdate_keeps h.1 haddr hword hpage) hrun
    have hupdated := of_wp_ok (pmtUpdate_spec (E := fun _ => True) hbase haddr hold hpage) hrun
    obtain ⟨_, _, _, u, hu, rfl⟩ := hupdated
    exact ⟨hkeeps, (h.2.accessed h.1.base.tables hu).of_eq rfl rfl⟩
  commit {s} h := by
    apply wp_mono_post (dataCommit_spec h.1.base)
    rintro _ t ⟨_, hcommit⟩
    exact ⟨h.1.committed hcommit, h.2.dataCommitted h.1.base.tables hcommit⟩

end

end RansomTag

import Mathlib.Logic.Relation
import RansomTag.Ftl.Store

/-!
# The order of the programmed pages

The pages of a NAND block are programmed once between two erases, and in ascending
order.  The requests of the translation layer keep to this, from `FTL_Format` on and
over every run of its calls.
-/

namespace RansomTag

open Program Relation

/-- A request that changes the flash, with what is programmed. -/
inductive FlashOp where
  | program (block page : Nat) (data : Buffer) (spare : Spare)
  | erase (block : Nat)

namespace FlashOp

def apply (f : Flash) : FlashOp → Flash
  | program b p data spare => f.program b p data spare
  | erase b => f.erase b

/-- The block exists; a page is programmed while it and those behind it are erased. -/
def Fits [Platform] (f : Flash) : FlashOp → Prop
  | program b p _ _ =>
      b < ubiCapacity ∧ p < 64 ∧ ∀ p', p ≤ p' → p' < 64 → f.page b p' = .erased
  | erase b => b < ubiCapacity

end FlashOp

section

variable [Platform]

def Flash.Step (f f' : Flash) : Prop := ∃ op : FlashOp, op.Fits f ∧ f' = op.apply f

/-- Any number of requests that fit, one after the other. -/
abbrev Flash.Course : Flash → Flash → Prop := ReflTransGen Flash.Step

section

variable {f : Flash} {b p : Nat} {data : Buffer} {spare : Spare}

theorem Flash.Course.program (hb : b < ubiCapacity) (hp : p < 64)
    (h : ∀ p', p ≤ p' → p' < 64 → f.page b p' = .erased) :
    Flash.Course f (f.program b p data spare) :=
  .single ⟨.program b p data spare, ⟨hb, hp, h⟩, rfl⟩

theorem Flash.Course.erase (hb : b < ubiCapacity) : Flash.Course f (f.erase b) :=
  .single ⟨.erase b, hb, rfl⟩

end

/-! ## The log of a course -/

/-- Of two programmed pages of a block with no erase between them, the later one stands
behind the earlier one.  The latest operation is the first of the list. -/
def InPageOrder (ops : List NandOp) : Prop :=
  ∀ b p p' later between earlier,
    ops = later ++ .program b p' :: (between ++ .program b p :: earlier) →
    .erase b ∉ between → p < p'

def NandOp.InRange : NandOp → Prop
  | program b p => b < ubiCapacity ∧ p < 64
  | erase b => b < ubiCapacity

/-- The operations of a course, and the pages that they left. -/
structure Flash.Logged (f : Flash) (ops : List NandOp) : Prop where
  inRange : ∀ op ∈ ops, op.InRange
  inOrder : InPageOrder ops
  taken : ∀ b p between earlier, ops = between ++ .program b p :: earlier →
    .erase b ∉ between → f.page b p ≠ .erased

namespace Flash.Logged

variable {f : Flash} {ops : List NandOp} {b p : Nat} {data : Buffer} {spare : Spare}

theorem program (h : f.Logged ops) (hb : b < ubiCapacity) (hp : p < 64)
    (hfree : ∀ p', p ≤ p' → p' < 64 → f.page b p' = .erased) :
    (f.program b p data spare).Logged (.program b p :: ops) := by
  constructor
  · intro op hop
    rcases List.mem_cons.mp hop with rfl | hop
    · exact ⟨hb, hp⟩
    · exact h.inRange op hop
  · intro b₁ p₁ p₂ later between earlier heq hno
    cases later with
    | nil =>
        rw [List.nil_append, List.cons.injEq, NandOp.program.injEq] at heq
        obtain ⟨⟨rfl, rfl⟩, hops⟩ := heq
        by_contra hle
        have hmem : NandOp.program b p₁ ∈ ops := by
          rw [hops]
          simp
        have hp₁ : p₁ < 64 := (h.inRange _ hmem).2
        exact h.taken b p₁ between earlier hops hno (hfree p₁ (by omega) hp₁)
    | cons op later =>
        rw [List.cons_append, List.cons.injEq] at heq
        exact h.inOrder b₁ p₁ p₂ later between earlier heq.2 hno
  · intro b₁ p₁ between earlier heq hno
    rw [Flash.page_program]
    split_ifs with hsame
    · rw [hfree p le_rfl hp]
      simp [PageState.program]
    · cases between with
      | nil =>
          rw [List.nil_append, List.cons.injEq, NandOp.program.injEq] at heq
          exact absurd ⟨heq.1.1.symm, heq.1.2.symm⟩ hsame
      | cons op between =>
          rw [List.cons_append, List.cons.injEq] at heq
          apply h.taken b₁ p₁ between earlier heq.2
          intro herase
          exact hno (List.mem_cons_of_mem op herase)

theorem erase (h : f.Logged ops) (hb : b < ubiCapacity) :
    (f.erase b).Logged (.erase b :: ops) := by
  constructor
  · intro op hop
    rcases List.mem_cons.mp hop with rfl | hop
    · exact hb
    · exact h.inRange op hop
  · intro b₁ p₁ p₂ later between earlier heq hno
    cases later with
    | nil => simp at heq
    | cons op later =>
        rw [List.cons_append, List.cons.injEq] at heq
        exact h.inOrder b₁ p₁ p₂ later between earlier heq.2 hno
  · intro b₁ p₁ between earlier heq hno
    cases between with
    | nil => simp at heq
    | cons op between =>
        rw [List.cons_append, List.cons.injEq] at heq
        obtain ⟨rfl, hops⟩ := heq
        have hne : b₁ ≠ b := by
          rintro rfl
          exact hno List.mem_cons_self
        rw [Flash.page_erase, if_neg hne]
        apply h.taken b₁ p₁ between earlier hops
        intro herase
        exact hno (List.mem_cons_of_mem _ herase)

end Flash.Logged

theorem Flash.Course.logged {f f' : Flash} (h : Flash.Course f f') :
    ∃ ops, f'.log = ops ++ f.log ∧ f'.Logged ops := by
  induction h with
  | refl =>
      refine ⟨[], rfl, fun op hop => ?_, fun b p p' later between earlier heq => ?_,
        fun b p between earlier heq => ?_⟩
      · simp at hop
      · simp at heq
      · simp at heq
  | tail _ hstep ih =>
      obtain ⟨ops, hlog, hlogged⟩ := ih
      obtain ⟨op, hfits, rfl⟩ := hstep
      cases op with
      | program b p data spare =>
          obtain ⟨hb, hp, hfree⟩ := hfits
          exact ⟨.program b p :: ops, congrArg (List.cons _) hlog, hlogged.program hb hp hfree⟩
      | erase b => exact ⟨.erase b :: ops, congrArg (List.cons _) hlog, hlogged.erase hfits⟩

/-! ## Programs -/

/-- If `m` returns, its requests fit. -/
def InOrder {α : Type} (m : Ftl α) (s : FtlState) : Prop :=
  wp m (fun _ s' => Flash.Course s.flash s'.flash) (fun _ => True) s

namespace InOrder

variable {α β : Type} {m : Ftl α} {next : α → Ftl β} {s t : FtlState}
  {Q R : α → FtlState → Prop}

/-- What is known behind `m` from its specification and its requests. -/
theorem follow (h : InOrder m s) (hspec : wp m Q (fun _ => True) s)
    (hnext : ∀ a s', Q a s' → Flash.Course s.flash s'.flash → R a s') :
    wp m R (fun _ => True) s := by
  unfold InOrder at h
  unfold wp at h hspec ⊢
  cases hm : m s with
  | error e => trivial
  | ok r =>
      rw [hm] at h hspec
      exact hnext r.1 r.2 hspec h

theorem bind (h : InOrder m s) (hspec : wp m Q (fun _ => True) s)
    (hnext : ∀ a s', Q a s' → InOrder (next a) s') : InOrder (m >>= next) s := by
  unfold InOrder
  rw [wp_bind]
  apply h.follow hspec
  intro a s' hQ hcourse
  exact wp_mono_post (hnext a s' hQ) fun _ _ => hcourse.trans

/-- The requests of `m` come behind others. -/
theorem behind (h : InOrder m t) (hcourse : Flash.Course s.flash t.flash) :
    wp m (fun _ s' => Flash.Course s.flash s'.flash) (fun _ => True) t :=
  wp_mono_post h fun _ _ => hcourse.trans

theorem of_flash (h : wp m (fun _ s' => s'.flash = s.flash) (fun _ => True) s) :
    InOrder m s := by
  apply wp_mono_post h
  intro _ s' hflash
  rw [hflash]

end InOrder

/-! ## Tables -/

section

variable {s : FtlState} {first b q : Nat}

theorem TableLog.append_course (h : TableLog s.flash first b q) (heven : first % 2 = 0)
    (hfirst : first ≤ 4) (data : Buffer) (spare : Spare) :
    Flash.Course s.flash (s.append b q data spare).flash := by
  have hcap := Platform.ubiCapacity_ge
  have hq := h.page
  have hblock := h.block
  by_cases hfull : q = 64
  · subst hfull
    rw [FtlState.append_full]
    have hother : b ^^^ 1 < ubiCapacity := by
      rcases h.xor_block heven with ⟨_, hother⟩ | ⟨_, hother⟩
      · omega
      · omega
    have herased : ∀ p, 0 ≤ p → p < 64 →
        (s.flash.erase (b ^^^ 1)).page (b ^^^ 1) p = .erased :=
      fun _ _ _ => Flash.page_erase_same
    exact (Flash.Course.erase hother).trans (Flash.Course.program hother (by decide) herased)
  · rw [FtlState.append_of_ne s hfull]
    exact Flash.Course.program (by omega) (by omega) h.filled.erased

theorem TablesInv.hdiCommitted_course (h : TablesInv s) :
    Flash.Course s.flash s.hdiCommitted.flash :=
  h.hdi.append_course rfl (by decide) _ _

theorem TablesInv.bdtCommitted_course (h : TablesInv s) :
    Flash.Course s.flash s.bdtCommitted.flash :=
  h.bdt.append_course rfl (by decide) _ _

theorem TablesInv.rootCommitted_course (h : TablesInv s) :
    Flash.Course s.flash s.rootCommitted.flash :=
  h.root.append_course rfl (by decide) _ _

end

/-! ## Mapping blocks -/

section

variable {s : FtlState} {done i k v c : Nat}

theorem pmtReclaimPages_inOrder {clusters : Buffer} {page r : Nat} (n : Nat)
    (h : ReclaimLoop s done v k page clusters) (hr : r = s.pmtSpare) (hn : page + n = 63) :
    InOrder (pmtReclaimPages v r clusters (List.range' page n) .success k) s := by
  induction n generalizing s k page with
  | zero => exact ReflTransGen.refl
  | succ n ih =>
      have hpage : page < 63 := by omega
      have hc := h.entries page hpage
      rw [List.range'_succ]
      unfold pmtReclaimPages InOrder
      rw [wp_bind]
      by_cases hvalid : s.isDirty (clusters.node page) = false ∧
          s.homeBlock (clusters.node page) = v ∧ s.homePage (clusters.node page) = page
      · obtain ⟨hdirty, hblock, hhome⟩ := hvalid
        obtain ⟨data, spare, hdata⟩ := h.stored _ hc hdirty
        rw [hblock, hhome] at hdata
        have hcap := Platform.ubiCapacity_ge
        have hspare := h.spare_block
        have hcopied := h.copied
        simp only [dataStartBlock] at hspare
        rw [wp_pmtReclaimPage_valid h.toCacheInv hc hdirty hblock hhome (by omega) hdata]
        have hcopy := h.copy hpage hdirty hblock hhome hdata
        rw [← hr] at hcopy
        obtain ⟨hnext, hframe⟩ := hcopy
        apply (ih hnext (hr.trans hframe.pmtSpare.symm) (by omega)).behind
        rw [FtlState.copyCluster_flash, hr]
        exact Flash.Course.program (by omega) (by omega) h.spare_free
      · have hstale : s.isDirty (clusters.node page) = true ∨
            ¬ (s.homeBlock (clusters.node page) = v ∧
              s.homePage (clusters.node page) = page) := by
          by_cases hdirty : s.isDirty (clusters.node page) = true
          · exact .inl hdirty
          · right
            intro hboth
            exact hvalid ⟨by simpa using hdirty, hboth⟩
        rw [wp_pmtReclaimPage_stale h.toCacheInv hc hstale]
        exact ih (h.skip hstale) hr (by omega)

theorem pmtReclaimBlocks_inOrder (h : ReclaimReady s done) : InOrder pmtReclaimBlocks s := by
  obtain ⟨v, hvictim, hv, hv', hvs, hge, hle⟩ := h.victim
  have hcap := Platform.ubiCapacity_ge
  have hvcap : v < ubiCapacity := by
    simp only [dataStartBlock] at hv'
    omega
  unfold pmtReclaimBlocks InOrder
  rw [wp_bind, wp_get, hvictim]
  by_cases hfull : s.blockDirtyTable v = 63
  · simp only [hfull, maxDirtyPages, Nat.sub_self, ne_eq, not_true_eq_false, if_false, wp_bind,
      wp_ubiErase, if_true, wp_modify, wp_pure]
    exact Flash.Course.erase hvcap
  · obtain ⟨clusters, spare, hpage, hentries⟩ := h.closed v hv hv' hvs hfull
    have hvalid : maxDirtyPages - s.blockDirtyTable v ≠ 0 := by
      simp only [maxDirtyPages]
      omega
    have hloop := h.loop ⟨hv, hv'⟩ hvs hpage hentries
    simp only [hvalid, ne_eq, not_false_eq_true, if_true, wp_bind, pagePerPhyBlock,
      Nat.reduceSub, wp_ubiRead_programmed hvcap (by decide : 63 < 64) hpage, Option.getD_some]
    rw [List.range_eq_range']
    apply (pmtReclaimPages_inOrder 63 hloop rfl rfl).follow (pmtReclaimPages_spec 63 hloop rfl rfl)
    rintro ⟨ret, last⟩ t ⟨hret, _, _⟩ hcourse
    simp only at hret
    obtain rfl : ret = .success := hret
    simp only [if_true, wp_ubiErase, wp_bind, wp_modify, wp_pure]
    exact hcourse.trans (Flash.Course.erase hvcap)

theorem pmtCloseBlock_inOrder (h : PmtInv s i) (hi : i ≤ 4)
    (hnamed : s.rootTable.pmtPage = 63 → Named s s.rootTable.pmtBlock) :
    InOrder (pmtCloseBlock .success) s := by
  have hcap := Platform.ubiCapacity_ge
  have hcur := h.current_block
  have hcurlt : s.rootTable.pmtBlock < ubiCapacity := by
    simp only [dataStartBlock] at hcur
    omega
  unfold pmtCloseBlock InOrder
  rw [wp_bind, wp_get]
  by_cases hfull : s.rootTable.pmtPage = 63
  · obtain ⟨hready, _, _⟩ := h.closedBlock hi hfull (hnamed hfull)
    have hfree : ∀ p, 63 ≤ p → p < 64 → s.flash.page s.rootTable.pmtBlock p = .erased := by
      rw [← hfull]
      exact h.current_free
    simp only [hfull, pagePerPhyBlock, Nat.reduceSub, if_true, wp_bind, wp_ubiWrite hcurlt,
      wp_ubiFlush]
    exact (pmtReclaimBlocks_inOrder hready).behind
      (Flash.Course.program hcurlt (by decide) hfree)
  · simp only [pagePerPhyBlock, Nat.reduceSub, hfull, if_false, wp_pure]
    exact ReflTransGen.refl

theorem pmtCommitDirty_inOrder (h : PmtOk s i k) (hi : i < 4)
    (hne : s.pmt.cacheCluster i ≠ invalidCluster)
    (hdirty : s.isDirty (s.pmt.cacheCluster i) = true) :
    InOrder (pmtCommitDirty i .success) s := by
  have hcap := Platform.ubiCapacity_ge
  have hpage := h.page
  have hcur := h.inv.current_block
  have hcurlt : s.rootTable.pmtBlock < ubiCapacity := by
    simp only [dataStartBlock] at hcur
    omega
  have happ := h.inv.appended hi hpage hne hdirty
  unfold pmtCommitDirty InOrder
  rw [wp_bind, wp_pmtAppendNode h.inv hi hpage hne]
  have hclose : InOrder (pmtCloseBlock .success) (s.appended i) := by
    apply pmtCloseBlock_inOrder happ.inv hi
    intro hfull
    have hcount := happ.page
    have hdirtyCount := happ.dirty
    rcases h.budget with hnamed | hroom
    · rw [happ.block]
      exact happ.named hnamed
    · omega
  exact hclose.behind
    (Flash.Course.program hcurlt (by omega) h.inv.current_free)

theorem pmtCommitSlot_inOrder (h : PmtOk s i k) (hi : i < 4) :
    InOrder (pmtCommitSlot i .success) s := by
  unfold pmtCommitSlot InOrder
  rw [wp_bind, wp_get]
  by_cases hne : s.pmt.cacheCluster i = invalidCluster
  · rw [if_pos hne]
    exact ReflTransGen.refl
  · obtain ⟨_, hcached, _, _⟩ := h.inv.slot_cluster hi hne
    rw [if_neg hne]
    simp only [wp_bind, wp_assert]
    refine (if_pos hcached).mpr ?_
    by_cases hclean : pmNodeIsDirty (s.node (s.pmt.cacheCluster i)) = false
    · unfold FtlState.node at hclean
      simp only [hclean, if_true, wp_bind, wp_modify, wp_pure]
      exact ReflTransGen.refl
    · have hdirty : s.isDirty (s.pmt.cacheCluster i) = true := by
        simp only [Bool.not_eq_false] at hclean
        simp [FtlState.isDirty, hcached, hclean]
      unfold FtlState.node at hclean
      rw [if_neg hclean]
      exact pmtCommitDirty_inOrder h hi hne hdirty

theorem pmtCommit_inOrder (h : PmtOk s 0 k) : InOrder pmtCommit s := by
  unfold pmtCommit
  apply (pmtCommitSlot_inOrder h (by decide)).bind (pmtCommitSlot_spec h (by decide))
  rintro _ s₁ ⟨rfl, h₁⟩
  apply (pmtCommitSlot_inOrder h₁.ok (by decide)).bind (pmtCommitSlot_spec h₁.ok (by decide))
  rintro _ s₂ ⟨rfl, h₂⟩
  apply (pmtCommitSlot_inOrder h₂.ok (by decide)).bind (pmtCommitSlot_spec h₂.ok (by decide))
  rintro _ s₃ ⟨rfl, h₃⟩
  apply (pmtCommitSlot_inOrder h₃.ok (by decide)).bind (pmtCommitSlot_spec h₃.ok (by decide))
  rintro _ s₄ ⟨rfl, h₄⟩
  rw [if_pos rfl]
  exact ReflTransGen.refl

end

/-! ## Commits and accesses -/

section

variable {s : FtlState} {k c addr : Nat}

theorem dataCommit_inOrder (h : BaseOk s k) : InOrder dataCommit s := by
  have hsame := FtlState.hdiCommitted_same h.tables
  have hpmt : PmtOk s.hdiCommitted 0 k := hsame.pmtOk h.pmt
  unfold dataCommit InOrder
  rw [wp_bind, wp_hdiCommit h.tables.hdi]
  simp only [if_true, wp_bind]
  apply (pmtCommit_inOrder hpmt).follow (pmtCommit_spec hpmt)
  rintro _ t ⟨rfl, ht⟩ hcourse
  have htables : TablesInv t := ht.frame.tables h.tables.hdiCommitted
  simp only [if_true, wp_bdtCommit htables.bdt, wp_rootCommit htables.bdtCommitted.root,
    wp_modify, wp_pure, wp_bind]
  have hbehind := htables.bdtCommitted_course.trans htables.bdtCommitted.rootCommitted_course
  exact (h.tables.hdiCommitted_course.trans hcourse).trans hbehind

theorem pmtLoad_inOrder (h : BaseOk s k) (hc : c < pmtClusterCount)
    (hcached : pmNodeIsCached (s.node c) = false) :
    InOrder (pmtLoad (pmNodeBlock (s.node c)) (pmNodePage (s.node c)) c) s := by
  unfold pmtLoad InOrder
  rw [wp_bind, wp_get]
  by_cases hfull : emptySlot s.pmt pmtCacheCount 0 = pmtCacheCount
  · rw [if_pos hfull, wp_bind]
    apply (dataCommit_inOrder h).follow (dataCommit_spec h)
    rintro _ u ⟨rfl, hu⟩ hcourse
    have hok := hu.ok h.tables
    have hno := hu.uncached h.tables c hc
    obtain ⟨_, hb, hp, data, spare, hpage⟩ := hok.pmt.inv.toCacheInv.node_word hc hno
    rw [if_pos rfl, wp_bind, wp_get]
    exact (wp_pmtLoadSlot hb hp hpage).mpr hcourse
  · obtain ⟨_, hb, hp, data, spare, hpage⟩ := h.pmt.inv.toCacheInv.node_word hc hcached
    rw [if_neg hfull]
    exact (wp_pmtLoadSlot hb hp hpage).mpr ReflTransGen.refl

theorem pmtEnsureCached_inOrder (h : BaseOk s k) (hc : c < pmtClusterCount) :
    InOrder (pmtEnsureCached c) s := by
  unfold pmtEnsureCached InOrder
  rw [wp_bind, wp_get]
  by_cases hcached : pmNodeIsCached (s.node c) = false
  · exact (iff_of_eq (congrArg (fun m => wp m _ _ s) (if_pos hcached))).mpr
      (pmtLoad_inOrder h hc hcached)
  · exact (iff_of_eq (congrArg (fun m => wp m _ _ s) (if_neg hcached))).mpr ReflTransGen.refl

/-- Behind the load, `PMT_Search` reads RAM alone. -/
theorem pmtSearch_inOrder (h : BaseOk s k) (hc : clusterIndex addr < pmtClusterCount) :
    InOrder (pmtSearch addr) s := by
  unfold pmtSearch
  apply (pmtEnsureCached_inOrder h hc).bind (pmtEnsureCached_spec h hc)
  rintro _ t ⟨rfl, _⟩
  apply InOrder.of_flash
  simp only [if_true, wp_bind, wp_get, wp_assert]
  split_ifs <;> trivial

theorem pmtUpdate_inOrder {block page : Nat} {isBackup : Bool} (h : BaseOk s k)
    (haddr : addr < ftlCapacity) (hpage : block = invalidBlock ↔ page = invalidPage) :
    InOrder (pmtUpdate addr block page isBackup) s := by
  have hc := clusterIndex_lt haddr
  unfold pmtUpdate
  apply (pmtEnsureCached_inOrder h hc).bind (pmtEnsureCached_spec h hc)
  rintro _ t ⟨rfl, ht⟩
  unfold InOrder
  simp only [if_true, wp_bind, wp_pmtSetWord ht.cached hpage, wp_pure]
  exact ReflTransGen.refl

end

/-! ## Writes to the journals -/

section

variable {s : FtlState} {k addr : Nat} {isHot flag mft : Bool} {buffer : Buffer}

theorem dataOldVersion_inOrder (h : BaseOk s k) (haddr : addr < ftlCapacity) :
    InOrder (dataOldVersion addr flag mft) s := by
  unfold dataOldVersion
  by_cases htag : flag ∨ mft
  · rw [if_pos htag]
    have hc := clusterIndex_lt haddr
    apply (pmtSearch_inOrder h hc).bind (pmtSearch_spec h hc)
    rintro _ t ⟨rfl, _⟩
    apply InOrder.of_flash
    simp only [wp_bind, wp_pure]
    by_cases hmapped : (wordLocation (s.mapping addr)).1 ≠ invalidBlock ∧
        (wordLocation (s.mapping addr)).2 ≠ invalidPage
    · rw [if_pos hmapped, wp_bind]
      apply wp_ubiRead_any
      intro r
      cases r.spare with
      | none => exact rfl
      | some spare =>
          simp only
          split_ifs <;> exact rfl
    · rw [if_neg hmapped]
      exact rfl
  · rw [if_neg htag]
    exact ReflTransGen.refl

theorem dataWrite_inOrder (h : BaseOk s (k + 1)) (hd : DataInv s.view none)
    (haddr : addr < ftlCapacity) (hq : s.view.journalPage isHot < 63) :
    InOrder (dataWrite addr (some buffer) isHot flag mft) s := by
  have hcap := Platform.ubiCapacity_le
  obtain ⟨hb, hb'⟩ := hd.range isHot
  unfold dataWrite
  apply (dataOldVersion_inOrder h haddr).bind (dataOldVersion_spec h hd.core haddr)
  rintro ⟨isBackup, old, _⟩ t ⟨hlook, _, rfl⟩
  have hview := hlook.view h
  have hjournal : t.rootTable.journal isHot = s.view.journal isHot := by
    rw [← hview]
    rfl
  have hblock : pmNodeBlock (t.rootTable.journal isHot) = s.view.journalBlock isHot := by
    rw [hjournal]
    rfl
  have hpage : pmNodePage (t.rootTable.journal isHot) = s.view.journalPage isHot := by
    rw [hjournal]
    rfl
  have hnotfull : s.view.journalPage isHot < pagePerPhyBlock - 1 := by
    simp only [pagePerPhyBlock]
    omega
  unfold InOrder
  simp only [wp_bind, wp_get, hblock, hpage, hnotfull, if_true, wp_ubiReadStatus hb', wp_assert,
    wp_modify, wp_ubiWrite hb']
  have hopened := hd.opened_journal isHot (by simp)
  have hfree : ∀ p, s.view.journalPage isHot ≤ p → p < 64 →
      t.flash.page (s.view.journalBlock isHot) p = .erased := by
    intro p hp hp'
    rw [← FtlState.view_page_eq hb, hview]
    exact hd.core.free _ _ hopened p hp hp'
  set b := s.view.journalBlock isHot with hbdef
  set q := s.view.journalPage isHot with hqdef
  set t₁ := t.journaled isHot b q addr buffer (newLink isBackup mft old) with ht₁
  obtain ⟨hok₁, hview₁⟩ := t.journaled_view isHot addr buffer (newLink isBackup mft old)
    (hlook.ok h) hb (by rw [FtlState.view_page_eq hb]; exact hfree q le_rfl (by omega))
  rw [← ht₁, hview] at hview₁
  have hmapping : t₁.mapping addr = s.view.mapping addr := by
    rw [← FtlState.view_mapping_eq haddr, hview₁]
    cases isHot <;> rfl
  have hword : b = invalidBlock ↔ q = invalidPage := by
    simp only [invalidBlock, invalidPage]
    omega
  have hold₁ : t₁.mapping addr = invalidPmNode ∨
      dataStartBlock ≤ pmNodeBlock (t₁.mapping addr) := by
    rw [hmapping]
    exact hd.core.mapped_block haddr
  have hcourse₁ : Flash.Course t.flash t₁.flash := .program hb' (by omega) hfree
  have hlast₁ : t₁.view.page b 63 = .erased := by
    have hne : ¬ (b = b ∧ 63 = q) := fun heq => by omega
    rw [FtlState.view_page_eq hb, ← hfree 63 (by omega) (by decide)]
    exact Flash.page_program_other hne
  have hupdate : InOrder (pmtUpdate addr b q (newBackup isBackup mft old)) t₁ :=
    pmtUpdate_inOrder hok₁ haddr hword
  apply hupdate.follow (pmtUpdate_spec hok₁ haddr hold₁ hword)
  rintro _ w ⟨rfl, _, hview₂, _⟩ hcourse₂
  have hlast₂ : ∀ p, 63 ≤ p → p < 64 → w.flash.page b p = .erased := by
    intro p hp hp'
    obtain rfl : p = 63 := by omega
    rw [← FtlState.view_page_eq hb, hview₂]
    exact hlast₁
  have hdone := hcourse₁.trans hcourse₂
  rw [if_pos rfl, wp_bind, wp_modify, wp_bind, wp_get, wp_ite]
  split_ifs
  · rw [wp_ubiWrite hb']
    exact hdone.trans (Flash.Course.program hb' (by decide) hlast₂)
  · exact hdone

theorem dataTrim_inOrder (h : BaseOk s k) (hd : DataInv s.view none)
    (haddr : addr < ftlCapacity) : InOrder (dataWrite addr none isHot flag mft) s := by
  unfold dataWrite
  apply (dataOldVersion_inOrder h haddr).bind (dataOldVersion_spec h hd.core haddr)
  rintro ⟨isBackup, old, _⟩ t ⟨hlook, _, rfl⟩
  have hupdate : InOrder (pmtUpdate addr invalidBlock invalidPage isBackup) t :=
    pmtUpdate_inOrder (hlook.ok h) haddr (by simp)
  obtain ⟨_, hb'⟩ := hd.range isHot
  have hview := hlook.view h
  have hblock : pmNodeBlock (t.rootTable.journal isHot) = s.view.journalBlock isHot := by
    rw [← hview]
    rfl
  unfold InOrder
  simp only [wp_bind, wp_get, hblock, wp_ite, wp_ubiReadStatus hb', wp_assert, wp_pure, if_true]
  split_ifs
  · exact hupdate
  · exact hupdate

end

/-! ## Reclaims -/

section

variable {v₀ : DataView} {s : FtlState} {isHot : Bool} {db rb r done : Nat} {buffer : Buffer}

theorem dataReclaimPage_inOrder (h : BaseOk s 63) (c : Copying v₀ s.view isHot db rb r done)
    (hv : Victim v₀ isHot db) (hne : db ≠ rb) (hrb : dataStartBlock ≤ rb ∧ rb < ubiCapacity)
    (hdone : done < 63) {data : Buffer} {spare : Spare}
    (hpage : v₀.page db done = .programmed data spare) (haddr : spare.w0 = buffer.spareAddr done)
    (hcapacity : spare.w0 < ftlCapacity) :
    InOrder (dataReclaimPage isHot db rb buffer done .success r) s := by
  have hcap := Platform.ubiCapacity_le
  have hrange := hv.range
  unfold dataReclaimPage
  rw [if_pos rfl, ← haddr]
  apply (pmtSearch_inOrder h (clusterIndex_lt hcapacity)).bind
    (pmtSearch_spec h (clusterIndex_lt hcapacity))
  rintro _ t ⟨rfl, ht⟩
  have hview := ht.view h
  simp only [true_and]
  by_cases hfound : wordLocation (s.mapping spare.w0) = (db, done)
  · have hvalid : s.mapping spare.w0 ≠ invalidPmNode := by
      intro hinvalid
      unfold wordLocation at hfound
      rw [if_neg (by simp [hinvalid])] at hfound
      simp only [invalidBlock, Prod.mk.injEq] at hfound
      omega
    have hblock : pmNodeBlock (s.mapping spare.w0) = db := by
      unfold wordLocation at hfound
      rw [if_pos hvalid] at hfound
      exact (Prod.mk.inj hfound).1
    have hmapping := FtlState.view_mapping_eq (s := s) hcapacity
    have hr := c.room hv hne hcapacity (by rw [hmapping]; exact hblock)
    have hfree : ∀ p, r ≤ p → p < 64 → t.flash.page rb p = .erased := by
      intro p hp hp'
      rw [← FtlState.view_page_eq hrb.1, hview]
      exact c.core.free rb r (Function.update_self _ _ _) p hp hp'
    have hread : t.flash.page db done = .programmed data spare := by
      rw [← FtlState.view_page_eq hrange.1, hview, c.page _ _ hne]
      exact hpage
    have hok₁ : BaseOk (t.program rb r data { spare with w1 := r }) 64 :=
      ((FtlState.program_base hrb.1).ok ht.ok).complete 64
    have hupdate : InOrder (pmtUpdate spare.w0 rb r false)
        (t.program rb r data { spare with w1 := r }) :=
      pmtUpdate_inOrder hok₁ hcapacity (by simp only [invalidBlock, invalidPage]; omega)
    unfold InOrder
    rw [if_pos (congrArg some hfound)]
    simp only [wp_bind, wp_ubiRead_programmed hrange.2 (by omega : done < 64) hread, if_true,
      Option.getD_some, wp_ubiWrite hrb.2, wp_assert]
    apply wp_mono_post (hupdate.behind (Flash.Course.program hrb.2 (by omega) hfree))
    intro ret u hcourse
    cases ret with
    | success => exact hcourse
    | failure => exact hcourse
  · rw [if_neg fun heq => hfound (Option.some_inj.mp heq)]
    exact ReflTransGen.refl

theorem dataReclaimPages_inOrder (n : Nat) (h : BaseOk s 63)
    (c : Copying v₀ s.view isHot db rb r done) (hv : Victim v₀ isHot db) (hne : db ≠ rb)
    (hrb : dataStartBlock ≤ rb ∧ rb < ubiCapacity) (hdone : done + n = 63)
    (hpages : ∀ p, p < 63 → ∃ data spare, v₀.page db p = .programmed data spare ∧
      spare.w0 = buffer.spareAddr p ∧ spare.w0 < ftlCapacity) :
    InOrder (dataReclaimPages isHot db rb buffer (List.range' done n) .success r) s := by
  induction n generalizing done r s with
  | zero => exact ReflTransGen.refl
  | succ n ih =>
      obtain ⟨data, spare, hpage, haddr, hcapacity⟩ := hpages done (by omega)
      rw [List.range'_succ]
      unfold dataReclaimPages
      apply (dataReclaimPage_inOrder h c hv hne hrb (by omega) hpage haddr hcapacity).bind
        (dataReclaimPage_spec h c hv hne hrb (by omega) hpage haddr hcapacity)
      rintro ⟨_, r'⟩ t ⟨rfl, ht, _, c'⟩
      exact ih ht c' (by omega)

theorem dataReclaim_inOrder (h : BaseOk s 63) (hd : DataInv s.view (some isHot)) :
    InOrder (dataReclaim isHot) s := by
  have hcap := Platform.ubiCapacity_le
  obtain ⟨i, hvictim, hi, hi', hother, _, _⟩ := dataVictim_ends hd
  have hdirty : ∀ b, dataStartBlock ≤ b → s.blockDirtyTable b = s.view.dirty b :=
    fun b hb => blockDirtyTable_eq hb
  unfold dataReclaim InOrder
  by_cases hfull : s.view.dirty i = 63
  · simp only [wp_bind, wp_ubiFlush, wp_get, hvictim, hdirty i hi, hfull, maxDirtyPages,
      Nat.sub_self, ne_eq, not_true_eq_false, if_false, wp_ubiErase, if_true, wp_modify, wp_pure]
    exact Flash.Course.erase hi'
  · have htotal : maxDirtyPages - s.view.dirty i ≠ 0 := by
      simp only [maxDirtyPages]
      omega
    simp only [wp_bind, wp_ubiFlush, wp_get, hvictim, hdirty i hi, htotal, ne_eq,
      not_false_eq_true, if_true]
    have hreclaimBlock : pmNodeBlock s.rootTable.reclaimJournal = s.view.reclaimBlock := rfl
    by_cases hself : i = s.view.reclaimBlock
    · -- without the meta data of a closed block the reclaim stops
      have hfree := hd.core.free _ 0 DataInv.opened_reclaim 63 (Nat.zero_le _) (by decide)
      rw [← hself, FtlState.view_page_eq hi] at hfree
      apply (wp_ubiRead_erased hi' (by decide) hfree).mpr
      simp only [reduceCtorEq, if_false, wp_pure, wp_bind, wp_assert, hdirty i hi, htotal]
    · have hv : Victim s.view isHot i := by
        refine ⟨⟨hi, hi'⟩, ?_, hself, by omega⟩
        unfold DataView.opened
        rw [if_neg hself]
        cases isHot
        · rw [if_neg fun heq => hother heq.2, if_neg (by simp)]
        · rw [if_neg (by simp), if_neg fun heq => hother heq.2]
      obtain ⟨table, spare, hlast, hpages⟩ := hd.core.closed i hi hi' hv.closed hfull
      rw [FtlState.view_page_eq hi] at hlast
      apply (wp_ubiRead_programmed hi' (by decide) hlast).mpr
      simp only [if_true, wp_bind, Option.getD_some, hreclaimBlock, pagePerPhyBlock]
      rw [List.range_eq_range']
      have hstart : Copying s.view s.view isHot i s.view.reclaimBlock 0 0 := Copying.start hd
      have hcopied := dataReclaimPages_inOrder 63 h hstart hv hself hd.reclaim_range rfl hpages
      apply hcopied.follow
        (dataReclaimPages_spec 63 h hstart hv hself hd.reclaim_range rfl hpages)
      rintro ⟨_, r⟩ t ⟨rfl, _⟩ hcourse
      simp only [hdirty i hi, wp_assert, if_true, wp_ubiErase, wp_modify, wp_pure, wp_bind]
      split_ifs
      exact hcourse.trans (Flash.Course.erase hi')

end

/-! ## Calls -/

section

variable {s : FtlState} {isHot flag mft : Bool} {addr n k : Nat} {buffer : Option Buffer}

theorem ftlWriteStream_inOrder (h : FtlInv s) (haddr : addr < ftlCapacity)
    (hq : s.view.journalPage isHot < 63) :
    InOrder (ftlWriteStream addr buffer isHot flag mft) s := by
  unfold ftlWriteStream
  cases buffer with
  | none =>
      apply (dataTrim_inOrder h.base h.data haddr).bind
        (dataTrim_spec (h.base.complete 64) h.data haddr)
      rintro _ t ⟨rfl, _, _, _, htrim⟩
      have hpage : t.view.journalPage isHot = s.view.journalPage isHot := by
        rw [htrim.view]
        rfl
      unfold InOrder
      rw [if_pos rfl, wp_bind, wp_get, dataIsFull_eq, hpage]
      have hfalse : ¬ (!decide (s.view.journalPage isHot < 63)) = true := by simp [hq]
      rw [if_neg hfalse]
      exact ReflTransGen.refl
  | some buffer =>
      apply (dataWrite_inOrder (h.base.complete 64) h.data haddr hq).bind
        (dataWrite_spec (h.base.complete 64) h.data haddr hq)
      rintro _ t ⟨rfl, isBackup, old, _, hwrite⟩
      have hinv := hwrite.inv h.data haddr hq
      obtain ⟨spare, _, _, hview⟩ := hwrite.view
      have hpage : t.view.journalPage isHot = s.view.journalPage isHot + 1 := by
        rw [hview]
        exact DataView.journalPage_wroteFull h.data hq
      unfold InOrder
      rw [if_pos rfl, wp_bind, wp_get, dataIsFull_eq, hpage]
      unfold DataView.shutBy at hinv
      by_cases hfull : s.view.journalPage isHot + 1 = 63
      · rw [if_pos hfull] at hinv
        have htrue : (!decide (s.view.journalPage isHot + 1 < 63)) = true := by simp; omega
        rw [if_pos htrue]
        apply (dataReclaim_inOrder hwrite.ok hinv).bind
          (dataReclaim_spec hwrite.ok hinv fun _ _ => trivial)
        rintro _ u ⟨rfl, hreclaim⟩
        rw [if_pos rfl]
        exact dataCommit_inOrder hreclaim.ok
      · have hfalse : ¬ (!decide (s.view.journalPage isHot + 1 < 63)) = true := by simp; omega
        rw [if_neg hfalse]
        exact ReflTransGen.refl

theorem ftlWrite_inOrder (h : FtlInv s) (haddr : addr < ftlCapacity) (hq : StartsNonFull s addr) :
    InOrder (ftlWrite addr buffer flag mft) s := by
  obtain ⟨hview, hflash, _⟩ := @FtlState.touched_same _ s addr
  have hq' : (s.touched addr).view.journalPage (s.isHot addr) < 63 := by
    rw [hview]
    exact startsNonFull_iff.mp hq
  unfold ftlWrite InOrder
  rw [wp_bind, wp_hdiIsHotPage, ← hflash]
  exact ftlWriteStream_inOrder h.touched haddr hq'

theorem ftlTrimFrom_inOrder (h : FtlInv s) (haddr : addr + n ≤ ftlCapacity)
    (hq : TrimsNonFull n addr s) : InOrder (ftlTrimFrom n addr) s := by
  induction n generalizing addr s with
  | zero => exact ReflTransGen.refl
  | succ n ih =>
      obtain ⟨hstart, hnext⟩ := hq
      have hwrite : wp (ftlWrite addr none false false) _ (fun _ => False) s :=
        ftlWrite_spec h (by omega) hstart fun hno => absurd findsVictim_trim hno
      obtain ⟨_, t, hok, rfl, hwritten⟩ := exists_ok_of_wp hwrite
      have ht := hwritten.inv h (by omega) hstart
      have hcourse := of_wp_ok (ftlWrite_inOrder h (by omega) hstart) hok
      unfold ftlTrimFrom InOrder
      rw [wp_bind, wp_iff_of_ok hok, if_pos rfl]
      exact (ih ht (by omega) (hnext t hok)).behind hcourse

theorem ftlFlush_inOrder (h : BaseOk s k) : InOrder ftlFlush s := by
  unfold ftlFlush
  apply (dataCommit_inOrder h).bind (dataCommit_spec h)
  rintro _ t ⟨rfl, _⟩
  exact ReflTransGen.refl

theorem ftlRead_inOrder (h : BaseOk s k) (haddr : addr < ftlCapacity) :
    InOrder (ftlRead addr flag mft) s := by
  have hc := clusterIndex_lt haddr
  have hmoved : ∀ {α : Type} (t : FtlState) (x : α) (u : FtlState), CursorMoved t u →
      u.flash = t.flash := by
    rintro _ _ _ _ ⟨_, _, rfl⟩
    rfl
  unfold ftlRead
  apply (pmtSearch_inOrder h hc).bind (pmtSearch_spec h hc)
  rintro _ t ⟨rfl, _⟩
  apply InOrder.of_flash
  simp only [wp_bind, wp_pure]
  split_ifs
  · rw [wp_bind]
    exact wp_ubiRead_any fun _ => rfl
  · exact wp_mono_post (ftlReadMft_any _ _) (hmoved t)
  · exact wp_mono_post (ftlReadBackup_any _ _ _) (hmoved t)

end

/-! ## Format and the first mount -/

section

variable {s : FtlState} {b q e n fuel : Nat} {r : Root} {table hash : Buffer} {isHot : Bool}

theorem rootInit_inOrder (h : RootLog s.flash b q e) (hat : RootAt s.flash b q r)
    (he : e < 4294967296) : InOrder rootInit s := by
  apply wp_mono_post (rootInit_spec h hat he)
  rintro _ _ ⟨_, rfl⟩
  have hlog : TableLog (s.rootLoaded b q e r).flash rootBlock0 b q := h.log
  exact hlog.append_course rfl (by decide) _ _

theorem bdtInit_inOrder (h : TableAt s.flash bdtBlock0 s.rootTable.bdtCurrentJournal q table)
    (hcount : s.rootTable.backupBlockCount < threshold) : InOrder bdtInit s := by
  apply wp_mono_post (bdtInit_spec h hcount)
  rintro _ _ ⟨_, rfl⟩
  have hlog : TableLog (s.bdtLoaded q table).flash bdtBlock0
      (pmNodeBlock s.rootTable.bdtCurrentJournal) q := h.log
  exact hlog.append_course rfl (by decide) _ _

theorem hdiInit_inOrder (h : TableAt s.flash hdiBlock0 s.rootTable.hdiCurrentJournal q hash)
    (hbdt : TableLog s.flash bdtBlock0 s.bdt.currentBlock s.bdt.currentPage) :
    InOrder hdiInit s := by
  apply wp_mono_post (hdiInit_spec h hbdt)
  rintro _ _ ⟨_, rfl⟩
  have hlog : TableLog (s.hdiLoaded q hash).flash bdtBlock0 s.bdt.currentBlock
      s.bdt.currentPage := hbdt
  exact hlog.append_course rfl (by decide) _ _

theorem formatClusters_course (h : ClustersFormatted s 0) (hn : n ≤ pmtClusterCount) :
    Flash.Course s.flash (s.formatClusters n).flash := by
  have hcap := Platform.ubiCapacity_ge
  have hle := pmtClusterCount_le
  induction n with
  | zero => exact ReflTransGen.refl
  | succ n ih =>
      have hformatted := formatClusters_formatted h (n := n) (by omega)
      have hpage : formatPage n < 63 := Nat.mod_lt n (by decide)
      have hblock : formatBlock n < ubiCapacity := by
        unfold formatBlock
        simp only [pmtStartBlock]
        omega
      have hfree : ∀ p, formatPage n ≤ p → p < 64 →
          (s.formatClusters n).flash.page (formatBlock n) p = .erased :=
        fun p hp _ => hformatted.free (formatBlock n) p (.inr ⟨rfl, hp⟩)
      have hcluster : Flash.Course s.flash ((s.formatClusters n).formatCluster n).flash :=
        (ih (by omega)).trans (Flash.Course.program hblock (by omega) hfree)
      have hround : s.formatClusters (n + 1) = (s.formatClusters n).formatRound n := rfl
      rw [hround]
      unfold FtlState.formatRound
      split_ifs with hfull
      · have hlast : ∀ p, 63 ≤ p → p < 64 →
            ((s.formatClusters n).formatCluster n).flash.page (formatBlock n) p = .erased := by
          intro p hp hp'
          have hne : ¬ (formatBlock n = formatBlock n ∧ p = formatPage n) := by omega
          exact (Flash.page_program_other hne).trans (hfree p (by omega) hp')
        exact hcluster.trans (Flash.Course.program hblock (by decide) hlast)
      · exact hcluster

theorem BeforePmt.clusters (h : BeforePmt s) : ClustersFormatted s 0 := by
  refine ⟨fun c hc => absurd hc (Nat.not_lt_zero c), fun c hc => absurd hc (Nat.not_lt_zero c),
    fun b hlow hhigh => ?_, fun p hp => absurd hp (Nat.not_lt_zero p), h.meta_lt,
    fun b p hfree => ?_⟩
  · unfold formatBlock at hhigh
    omega
  · unfold formatBlock at hfree
    exact h.blank b (by simp only [pmtStartBlock, hdiBlock0] at *; omega) p

theorem ftlFormatted_course (hmeta : ∀ p, s.pmt.metaData p < pmtClusterCount) :
    Flash.Course s.blanked.flash s.ftlFormatted.flash := by
  have hcap := Platform.ubiCapacity_ge
  have herase : ∀ b, b < 20 → ∀ f : Flash, Flash.Course f (f.erase b) :=
    fun b hb f => Flash.Course.erase (by omega)
  -- the first page of a table goes to its block, which was erased before
  have hfirst : ∀ (t : FtlState) (first : Nat), first % 2 = 0 → first ≤ 4 → ∀ data spare,
      Flash.Course t.flash ((t.erase first).append first 0 data spare).flash := by
    intro t first heven hle data spare
    have hlog : TableLog (t.erase first).flash first first 0 := tableLog_erase
    exact (herase first (by omega) t.flash).trans (hlog.append_course heven hle data spare)
  have hdata : Flash.Course s.blanked.flash s.blanked.dataFormatted.flash :=
    ((herase _ (by decide) _).trans (herase _ (by decide) _)).trans (herase _ (by decide) _)
  have hhdi := hdata.trans (hfirst s.blanked.dataFormatted hdiBlock0 rfl (by decide)
    (.bytes (.const 0)) .null)
  have hbefore := beforePmt hmeta
  unfold FtlState.ftlFormatted
  have hsame : Flash.Course s.blanked.flash
      s.blanked.dataFormatted.hdiCleared.hdiCommitted.flash := hhdi
  generalize s.blanked.dataFormatted.hdiCleared.hdiCommitted = t at hbefore hsame ⊢
  have hpmt : Flash.Course s.blanked.flash t.pmtFormatted.flash :=
    hsame.trans (formatClusters_course hbefore.clusters le_rfl)
  generalize t.pmtFormatted = u at hpmt ⊢
  have hbdt : Flash.Course s.blanked.flash u.bdtCleared.bdtCommitted.flash :=
    hpmt.trans (hfirst u bdtBlock0 rfl (by decide) (.bytes u.blockDirtyTable) .null)
  generalize u.bdtCleared.bdtCommitted = v at hbdt ⊢
  exact hbdt.trans (hfirst v rootBlock0 rfl (by decide) v.rootCleared.nextRoot.toBuffer
    (.footprint 0))

/-- The replay of an empty journal reads its first page alone. -/
theorem dataReplay_inOrder (h : TablesMounted s) (hfuel : 2 ≤ fuel) :
    InOrder (dataReplay fuel isHot) s := by
  obtain ⟨fuel, rfl⟩ : ∃ n, fuel = n + 2 := ⟨fuel - 2, by omega⟩
  have hd := h.formatted.dataInv
  obtain ⟨hb, hb'⟩ := hd.range isHot
  have hpage : pmNodePage (s.rootTable.journal isHot) = 0 := h.formatted.journals.2.2.2.2 isHot
  have herased := hd.core.free _ _ (hd.opened_journal isHot (by simp)) 0 hpage.le (by decide)
  rw [FtlState.view_page_eq hb] at herased
  have hread : ∀ (t : FtlState) (Q : ReadResult → FtlState → Prop), t.flash = s.flash →
      (wp (ubiRead (pmNodeBlock (s.rootTable.journal isHot)) 0) Q (fun _ => True) t ↔
        Q ⟨.failure, none, none⟩ t) := by
    intro t Q hflash
    exact wp_ubiRead_erased hb' (by decide) (by rw [hflash]; exact herased)
  apply InOrder.of_flash
  unfold dataReplay
  rw [wp_bind]
  unfold dataReplayLoop
  rw [if_neg (by decide), wp_bind, wp_get]
  dsimp only
  rw [hpage, wp_bind, hread s _ rfl]
  simp only [reduceCtorEq, false_and, if_false, wp_bind, wp_pure, wp_modify]
  unfold dataReplayLoop
  rw [if_pos rfl, wp_pure]
  simp only [wp_get]
  unfold dataReplayMeta
  rw [wp_bind]
  apply (hread { s with data := s.data.setEdition isHot 0 } _ rfl).mpr
  dsimp only
  rw [if_neg (by decide), wp_pure]

theorem ftlInit_inOrder (h : Formatted s) (hf : FreshTables s) (hfuel : 2 ≤ fuel) :
    InOrder (ftlInit fuel) s := by
  unfold ftlInit ubiInit InOrder
  simp only [wp_bind, wp_pure, if_true]
  apply (rootInit_inOrder hf.root hf.last (by decide)).follow (rootInit_fresh h hf)
  rintro _ s₁ ⟨rfl, h₁, _⟩ hcourse₁
  have hcount : s₁.rootTable.backupBlockCount < threshold := by
    rw [h₁.retained]
    decide
  rw [if_pos rfl, wp_bind]
  apply (bdtInit_inOrder h₁.bdt hcount).follow (bdtInit_fresh h₁)
  rintro _ s₂ ⟨rfl, hformatted, hroot, hbdt, _, hash, hhdi⟩ hcourse₂
  have hcleared : Formatted s₂.cacheCleared :=
    hformatted.congr (fun _ _ _ => rfl) (fun _ => rfl) rfl rfl rfl rfl rfl rfl fun _ _ _ => rfl
  have hcache : EmptyCache s₂.cacheCleared := ⟨fun _ => rfl, fun _ => rfl⟩
  rw [if_pos rfl, wp_bind]
  unfold pmtInit
  rw [wp_bind, wp_modify, wp_pure, if_pos rfl, wp_bind]
  have hinit : InOrder hdiInit s₂.cacheCleared := hdiInit_inOrder hhdi hbdt
  apply hinit.follow (hdiInit_fresh hcleared hcache hroot hbdt hhdi)
  rintro _ s₃ ⟨rfl, h₃, _⟩ hcourse₃
  rw [if_pos rfl, wp_bind]
  apply (dataReplay_inOrder h₃ hfuel).follow (dataReplay_fresh h₃ hfuel)
  rintro _ s₄ ⟨rfl, h₄, _⟩ hcourse₄
  rw [if_pos rfl, wp_bind]
  apply (dataReplay_inOrder h₄ hfuel).follow (dataReplay_fresh h₄ hfuel)
  rintro _ s₅ ⟨rfl, h₅, _⟩ hcourse₅
  rw [if_pos rfl]
  unfold ftlInitReclaim
  simp only [wp_bind, wp_get, h₅.notFull, Bool.false_eq_true, if_false, wp_pure]
  exact (((hcourse₁.trans hcourse₂).trans hcourse₃).trans hcourse₄).trans hcourse₅

end

/-! ## Runs -/

/-- The first mount of a device, with the flash that it found. -/
structure MountedFrom (flash : Flash) (s : FtlState) (store : PageStore) : Prop where
  start : ∃ unset fuel, 2 ≤ fuel ∧
    ftlFormatAndMount fuel (.powerOn flash unset) = .ok (.success, s)
  empty : store = fun _ => none

section

variable {s : FtlState} {store : PageStore} {fuel : Nat} {flash : Flash}

theorem MountedFrom.firstMount (h : MountedFrom flash s store) : FirstMount s store := by
  obtain ⟨unset, fuel, hfuel, hrun⟩ := h.start
  exact ⟨⟨flash, unset, fuel, hfuel, hrun⟩, h.empty⟩

theorem ftlFormatAndMount_inOrder (hmeta : ∀ p, s.pmt.metaData p < pmtClusterCount)
    (hfuel : 2 ≤ fuel) :
    wp (ftlFormatAndMount fuel) (fun _ s' => Flash.Course s.blanked.flash s'.flash)
      (fun _ => True) s := by
  obtain ⟨hformatted, hfresh⟩ := ftlFormatted_ok hmeta
  have hcourse := ftlFormatted_course hmeta
  unfold ftlFormatAndMount
  rw [wp_bind]
  apply ftlFormat_spec
  rw [if_pos rfl]
  exact wp_mono_post (ftlInit_inOrder hformatted hfresh hfuel) fun _ _ => hcourse.trans

theorem storeCall_inOrder (c : StoreCall) (h : FtlInv s) (hallowed : c.Allowed s) :
    InOrder c.exec s := by
  cases c with
  | write addr buffer flag mft => exact ftlWrite_inOrder h hallowed.1 hallowed.2
  | trim start last =>
      obtain ⟨hlast, hq⟩ := hallowed
      by_cases hrange : start ≤ last
      · exact ftlTrimFrom_inOrder h (by omega) hq
      · have hnone : last + 1 - start = 0 := by omega
        have hexec : StoreCall.exec (.trim start last) = ftlTrimFrom 0 start := by
          rw [← hnone]
          rfl
        rw [hexec]
        exact ReflTransGen.refl
  | flush => exact ftlFlush_inOrder h.base
  | read addr flag mft =>
      unfold StoreCall.exec
      apply (ftlRead_inOrder h.base hallowed).bind (ftlRead_any h.base hallowed)
      intro _ _ _
      exact ReflTransGen.refl

/-- The course of a run starts from the erased flash that `UBI_Format` leaves. -/
theorem storeCalls_course (h : storeCalls.Run (MountedFrom flash) s store) :
    Flash.Course { Flash.blank with log := flash.log } s.flash := by
  have hkept : Stores s store ∧ Flash.Course { Flash.blank with log := flash.log } s.flash := by
    apply h.keeps
    · intro s store hfirst
      obtain ⟨unset, fuel, hfuel, hrun⟩ := hfirst.start
      have hmeta : ∀ p, (FtlState.powerOn flash unset).pmt.metaData p < pmtClusterCount :=
        fun _ => pmtClusterCount_pos
      have hcourse := of_wp_ok (ftlFormatAndMount_inOrder hmeta hfuel) hrun
      exact ⟨hfirst.firstMount.stores, hcourse⟩
    · rintro c s store ⟨hstores, hcourse⟩ hallowed
      apply (storeCall_inOrder c hstores.inv hallowed).follow
        (storeCalls_keeps c s store hstores hallowed)
      intro _ s' hstores' hnext
      exact ⟨hstores', hcourse.trans hnext⟩
  exact hkept.2

theorem storeCalls_afterWrite {Start : FtlState → PageStore → Prop} {s' : FtlState} {addr : Nat}
    {buffer : Buffer} {flag : Bool} (h : storeCalls.Run Start s store)
    (hafter : s.afterWrite addr buffer flag = some s') :
    storeCalls.Run Start s' (Function.update store addr (some buffer)) := by
  obtain ⟨hallowed, hwrite⟩ := FtlState.afterWrite_eq_some hafter
  have hwriteAllowed : storeCalls.Allowed (.write addr (some buffer) flag false) s := hallowed
  exact .step h hwriteAllowed hwrite

/-- Over a mount, from the format on, the pages of a block are programmed in ascending
order between two erases of the block. -/
theorem storeCalls_inPageOrder (h : storeCalls.Run (MountedFrom flash) s store) :
    ∃ ops, s.flash.log = ops ++ flash.log ∧ (∀ op ∈ ops, op.InRange) ∧
      InPageOrder ops := by
  obtain ⟨ops, hlog, hlogged⟩ := (storeCalls_course h).logged
  exact ⟨ops, hlog, hlogged.inRange, hlogged.inOrder⟩

end

end

section

attribute [local instance] k9wag08

/-- The log of the first mount and of two writes of page 5. -/
theorem storeCalls_inPageOrder_rewritten : ∃ s ops, ftlRewritten = some s ∧
    s.flash.log = ops ++ [] ∧ (∀ op ∈ ops, op.InRange) ∧ InPageOrder ops := by
  obtain ⟨s, hs⟩ := Option.isSome_iff_exists.mp ftlRewritten_isSome
  obtain ⟨s₀, hstart, hrest⟩ := Option.bind_eq_some_iff.mp hs
  obtain ⟨s₁, hfirst, hsecond⟩ := Option.bind_eq_some_iff.mp hrest
  have hmount : storeCalls.Run (MountedFrom .blank) s₀ fun _ => none :=
    .start ⟨⟨fun _ => 0, 2, le_rfl, ftlSucceeded_eq_some hstart⟩, rfl⟩
  have hrun := storeCalls_afterWrite (storeCalls_afterWrite hmount hfirst) hsecond
  obtain ⟨ops, hops⟩ := storeCalls_inPageOrder hrun
  exact ⟨s, ops, hs, hops⟩

end

end RansomTag

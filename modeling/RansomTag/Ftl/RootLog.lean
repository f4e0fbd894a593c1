import RansomTag.Ftl.TableCommits

/-!
# The log of root tables

`ROOT_Init` takes the block whose first root table is the newer one, and in it
the last page that can be read.  This is the page that `ROOT_Commit` wrote last,
as long as the editions have not wrapped around.
-/

namespace RansomTag

open Program

/-- The root blocks are written up to page `b`, `q`, and the next root table gets
the edition `e`. -/
structure RootLog (f : Flash) (b q e : Nat) : Prop where
  log : TableLog f rootBlock0 b q
  filled : 0 < q
  pages : ∀ p, p < q → ∃ data spare, f.page b p = .programmed data spare ∧
    spare.w0 ≠ invalidIndex ∧ (Root.ofBuffer data).rootEdition + (q - p) = e
  other : f.page (b ^^^ 1) 0 = .erased ∨ ∃ data spare,
    f.page (b ^^^ 1) 0 = .programmed data spare ∧ (Root.ofBuffer data).rootEdition + q < e

/-- The root table on the last page of the log. -/
def RootAt (f : Flash) (b q : Nat) (r : Root) : Prop :=
  ∃ data spare, f.page b (q - 1) = .programmed data spare ∧ Root.ofBuffer data = r

namespace RootLog

variable {f f' : Flash} {s : FtlState} {b q e : Nat} {r : Root}

theorem congr (h : RootLog f b q e)
    (hpage : ∀ b', b' = rootBlock0 ∨ b' = rootBlock0 + 1 → ∀ p, f'.page b' p = f.page b' p) :
    RootLog f' b q e := by
  have hother : b ^^^ 1 = rootBlock0 ∨ b ^^^ 1 = rootBlock0 + 1 := by
    rcases h.log.xor_block rfl with ⟨_, hx⟩ | ⟨_, hx⟩
    · exact .inr hx
    · exact .inl hx
  refine ⟨h.log.congr hpage, h.filled, ?_, ?_⟩
  · intro p hp
    rw [hpage b h.log.block]
    exact h.pages p hp
  · rw [hpage _ hother]
    exact h.other

theorem xor_ne (h : RootLog f b q e) : b ^^^ 1 ≠ b := by
  rcases h.log.xor_block rfl with ⟨hb, hx⟩ | ⟨hb, hx⟩
  · omega
  · omega

/-- A commit appends the next root table. -/
theorem committed (h : RootLog s.flash s.root.currentBlock s.root.currentPage s.root.edition)
    (he : s.root.edition + 1 < 4294967296) :
    RootLog s.rootCommitted.flash s.rootCommitted.root.currentBlock
      s.rootCommitted.root.currentPage s.rootCommitted.root.edition ∧
    RootAt s.rootCommitted.flash s.rootCommitted.root.currentBlock
      s.rootCommitted.root.currentPage { s.nextRoot with
        pageMappingNodes := .ofFn s.rootTable.pageMappingNodes } := by
  have hlast : (s.append s.root.currentBlock s.root.currentPage s.nextRoot.toBuffer
      (.footprint 0)).flash.page (logSlot s.root.currentBlock s.root.currentPage).1
        (logSlot s.root.currentBlock s.root.currentPage).2 =
      .programmed s.nextRoot.toBuffer (.footprint 0) := h.log.append_page
  have hlog : TableLog (s.append s.root.currentBlock s.root.currentPage s.nextRoot.toBuffer
      (.footprint 0)).flash rootBlock0 (logSlot s.root.currentBlock s.root.currentPage).1
        ((logSlot s.root.currentBlock s.root.currentPage).2 + 1) := h.log.append rfl
  have hnext : (Root.ofBuffer s.nextRoot.toBuffer).rootEdition = s.root.edition := rfl
  have hedition : s.rootCommitted.root.edition = s.root.edition + 1 := Nat.mod_eq_of_lt he
  have hfilled := h.filled
  have hpage := h.log.page
  refine ⟨⟨hlog, Nat.succ_pos _, ?_, ?_⟩, s.nextRoot.toBuffer, .footprint 0, hlast, rfl⟩
  · rw [hedition]
    change ∀ p, p < (logSlot s.root.currentBlock s.root.currentPage).2 + 1 → ∃ data spare,
      (s.append s.root.currentBlock s.root.currentPage s.nextRoot.toBuffer
        (.footprint 0)).flash.page (logSlot s.root.currentBlock s.root.currentPage).1 p =
          .programmed data spare ∧ spare.w0 ≠ invalidIndex ∧ (Root.ofBuffer data).rootEdition +
            ((logSlot s.root.currentBlock s.root.currentPage).2 + 1 - p) = s.root.edition + 1
    intro p hp
    by_cases hpl : p = (logSlot s.root.currentBlock s.root.currentPage).2
    · rw [hpl]
      refine ⟨_, _, hlast, by simp [Spare.footprint], ?_⟩
      rw [hnext]
      omega
    · unfold logSlot at hp hpl ⊢
      rw [FtlState.append_flash]
      by_cases hfull : s.root.currentPage = 64
      · simp only [hfull, if_true] at hp hpl
        omega
      · simp only [hfull, if_false] at hp hpl ⊢
        obtain ⟨data, spare, hprog, hw, he'⟩ := h.pages p (by omega)
        refine ⟨data, spare, ?_, hw, by omega⟩
        rw [Flash.page_program_other (by omega)]
        exact hprog
  · rw [hedition]
    change (s.append s.root.currentBlock s.root.currentPage s.nextRoot.toBuffer
        (.footprint 0)).flash.page ((logSlot s.root.currentBlock s.root.currentPage).1 ^^^ 1) 0 =
          .erased ∨ ∃ data spare,
      (s.append s.root.currentBlock s.root.currentPage s.nextRoot.toBuffer
        (.footprint 0)).flash.page ((logSlot s.root.currentBlock s.root.currentPage).1 ^^^ 1) 0 =
          .programmed data spare ∧ (Root.ofBuffer data).rootEdition +
            ((logSlot s.root.currentBlock s.root.currentPage).2 + 1) < s.root.edition + 1
    unfold logSlot
    rw [FtlState.append_flash]
    by_cases hfull : s.root.currentPage = 64
    · simp only [hfull, if_true]
      right
      have hxx : s.root.currentBlock ^^^ 1 ^^^ 1 = s.root.currentBlock := by
        rw [Nat.xor_assoc, Nat.xor_self, Nat.xor_zero]
      obtain ⟨data, spare, hprog, _, he'⟩ := h.pages 0 hfilled
      refine ⟨data, spare, ?_, by omega⟩
      rw [hxx, Flash.page_program_other (fun heq => h.xor_ne heq.1.symm),
        Flash.page_erase_other h.xor_ne.symm]
      exact hprog
    · simp only [hfull, if_false]
      rw [Flash.page_program_other (fun heq => h.xor_ne heq.1)]
      rcases h.other with hempty | ⟨data, spare, hprog, he'⟩
      · exact .inl hempty
      · exact .inr ⟨data, spare, hprog, by omega⟩

end RootLog

/-! ## Mounting the root table -/

/-- The state after the last root table of the log was read. -/
def FtlState.rootLoaded (s : FtlState) (b q e : Nat) (r : Root) : FtlState :=
  { s with rootTable := r, root := ⟨b, q, e⟩ }

section

variable [Platform] {s : FtlState} {b p q e n i : Nat} {r : Root} {E : Stop → Prop}

theorem wp_rootRead_programmed {Q : ReadResult → FtlState → Prop} {data : Buffer} {spare : Spare}
    (hb : b < ubiCapacity) (hp : p < 64) (h : s.flash.page b p = .programmed data spare) :
    wp (rootRead b p) Q E s ↔
      Q ⟨.success, some data, some spare⟩ { s with rootTable := .ofBuffer data } := by
  unfold rootRead
  rw [wp_bind, wp_ubiRead_programmed hb hp h]
  rfl

theorem wp_rootRead_erased {Q : ReadResult → FtlState → Prop} (hb : b < ubiCapacity) (hp : p < 64)
    (h : s.flash.page b p = .erased) : wp (rootRead b p) Q E s ↔ Q ⟨.failure, none, none⟩ s := by
  unfold rootRead
  rw [wp_bind, wp_ubiRead_erased hb hp h]
  rfl

/-- The scan stops at the first page that was not written. -/
theorem rootScan_spec (h : RootLog s.flash b q e) (hn : i + n = 64) (hi : i ≤ q) :
    wp (rootScan b n i) (fun res s' =>
      res = (q, if q = 64 then .success else .failure) ∧
        ∃ r, s' = { s with rootTable := r }) E s := by
  have hcap := Platform.ubiCapacity_ge
  have hblock : b < ubiCapacity := by
    have := h.log.block
    simp only [rootBlock0] at this
    omega
  have hq := h.log.page
  induction n generalizing i s with
  | zero =>
      obtain rfl : i = q := by omega
      exact ⟨by rw [if_pos (by omega)], s.rootTable, rfl⟩
  | succ n ih =>
      unfold rootScan
      rw [wp_bind]
      by_cases hiq : i < q
      · obtain ⟨data, spare, hprog, hw, _⟩ := h.pages i hiq
        rw [wp_rootRead_programmed hblock (by omega) hprog]
        simp only [ne_eq, not_true_eq_false, Option.getD_some, hw, or_self, if_false]
        refine wp_mono_post (ih (s := { s with rootTable := .ofBuffer data }) h (by omega)
          (by omega)) ?_
        rintro res s' ⟨hres, r, rfl⟩
        exact ⟨hres, r, rfl⟩
      · obtain rfl : i = q := by omega
        rw [wp_rootRead_erased hblock (by omega) (h.log.filled.erased i le_rfl (by omega))]
        simp only [ne_eq, reduceCtorEq, not_false_eq_true, true_or, if_true, wp_pure]
        exact ⟨by rw [if_neg (by omega)], s.rootTable, rfl⟩

/-- `ROOT_Init` once the block is chosen. -/
def rootInitScan : Ftl Status := do
  let s ← get
  let (i, ret) ← rootScan s.root.currentBlock pagePerPhyBlock 0
  if i = pagePerPhyBlock then assert (ret = .success) else assert (ret ≠ .success)
  let r ← rootRead s.root.currentBlock ((i + maxUint32) % 4294967296)
  if r.status = .success then
    modify fun s => { s with root := { s.root with
      currentPage := i, edition := (s.rootTable.rootEdition + 1) % 4294967296 } }
    let _ ← rootCommit
  pure r.status

/-- `ROOT_Init` finds the last root table, and commits it once more. -/
theorem rootInit_spec (h : RootLog s.flash b q e) (hat : RootAt s.flash b q r)
    (he : e < 4294967296) :
    wp rootInit (fun ret s' => ret = .success ∧ s' = (s.rootLoaded b q e r).rootCommitted) E s := by
  have hcap := Platform.ubiCapacity_ge
  have hq := h.log.page
  have hpos := h.filled
  obtain ⟨data, spare, hprog, hr⟩ := hat
  have hrest : ∀ (r' : Root) (root : RootRam), root.currentBlock = b →
      wp rootInitScan (fun ret s' => ret = .success ∧ s' = (s.rootLoaded b q e r).rootCommitted) E
      { s with rootTable := r', root := root } := by
    intro r' root hroot
    have hblock : b < ubiCapacity := by
      have := h.log.block
      simp only [rootBlock0] at this
      omega
    unfold rootInitScan
    rw [wp_bind, wp_get, hroot, wp_bind]
    refine wp_mono_post (rootScan_spec (s := { s with rootTable := r', root := root }) h rfl
      (Nat.zero_le q)) ?_
    rintro _ t ⟨rfl, r'', rfl⟩
    have hlast : (q + maxUint32) % 4294967296 = q - 1 := by
      simp only [maxUint32]
      omega
    have hedition : (r.rootEdition + 1) % 4294967296 = e := by
      obtain ⟨data', spare', hprog', _, he'⟩ := h.pages (q - 1) (by omega)
      rw [hprog] at hprog'
      obtain ⟨rfl, rfl⟩ : data = data' ∧ spare = spare' := by simpa using hprog'
      rw [hr] at he'
      omega
    have hread : (FtlState.flash { s with rootTable := r'', root := root }).page b (q - 1) =
        .programmed data spare := hprog
    have hstate : ({ s with rootTable := r, root := ⟨b, q, e⟩ } : FtlState) =
        s.rootLoaded b q e r := rfl
    have hcommit := h.log
    simp only [pagePerPhyBlock, hlast]
    by_cases hfull : q = 64
    all_goals
      simp only [hfull, if_true, if_false, wp_bind, wp_assert, ne_eq, reduceCtorEq,
        not_false_eq_true]
      try rw [← hfull]
      rw [wp_rootRead_programmed hblock (by omega) hread]
      simp only [if_true, wp_modify, hr, hedition, hroot, hstate, wp_bind]
      rw [wp_rootCommit (s := s.rootLoaded b q e r) hcommit]
      exact ⟨rfl, rfl⟩
  obtain ⟨data₀, spare₀, hfirst, _, he₀⟩ := h.pages 0 hpos
  unfold rootInitScan at hrest
  unfold rootInit
  rw [wp_bind]
  rcases h.log.block with hb | hb
  · have hother : b ^^^ 1 = rootBlock1 := by
      rw [hb]
      rfl
    have hcase := h.other
    rw [hother] at hcase
    rw [hb] at hfirst
    refine Iff.mpr (wp_rootRead_programmed (by simp only [rootBlock0]; omega) (by decide) hfirst) ?_
    simp only [if_true, wp_bind, wp_modify]
    rcases hcase with hempty | ⟨data₁, spare₁, hprog₁, he₁⟩
    · refine Iff.mpr (wp_rootRead_erased (by simp only [rootBlock1]; omega) (by decide) hempty) ?_
      simp only [reduceCtorEq, if_false, wp_bind] at hrest ⊢
      exact hrest _ _ hb.symm
    · refine Iff.mpr (wp_rootRead_programmed (by simp only [rootBlock1]; omega) (by decide) hprog₁) ?_
      have hnewer : (Root.ofBuffer data₀).rootEdition > (Root.ofBuffer data₁).rootEdition := by
        omega
      simp only [if_true, wp_bind, hnewer] at hrest ⊢
      exact hrest _ _ hb.symm
  · have hother : b ^^^ 1 = rootBlock0 := by
      rw [hb]
      rfl
    have hcase := h.other
    rw [hother] at hcase
    rw [hb] at hfirst
    rcases hcase with hempty | ⟨data₁, spare₁, hprog₁, he₁⟩
    · refine Iff.mpr (wp_rootRead_erased (by simp only [rootBlock0]; omega) (by decide) hempty) ?_
      simp only [reduceCtorEq, if_false, wp_bind, wp_modify] at hrest ⊢
      exact hrest _ _ hb.symm
    · refine Iff.mpr (wp_rootRead_programmed (by simp only [rootBlock0]; omega) (by decide) hprog₁) ?_
      simp only [if_true, wp_bind, wp_modify]
      refine Iff.mpr (wp_rootRead_programmed (by simp only [rootBlock1]; omega) (by decide) hfirst) ?_
      have holder : ¬ (Root.ofBuffer data₁).rootEdition > (Root.ofBuffer data₀).rootEdition := by
        omega
      simp only [if_true, wp_bind, holder, if_false] at hrest ⊢
      exact hrest _ _ hb.symm

end

end RansomTag

import RansomTag.Ftl.RootLogged

/-!
# Mounting after a commit

A commit leaves everything but the mapping cache on the flash.  A mount from this
flash finds the last root table and, by its links, the other tables; the journals
have no page behind the commit, so that the replay only reads back the meta data.
-/

namespace RansomTag

open Program

/-! ## The tables of a commit -/

/-- The page that a table was last appended. -/
theorem TableLog.tableAt {s : FtlState} {first b q : Nat} {data : Buffer} {spare : Spare}
    (h : TableLog s.flash first b q) (heven : first % 2 = 0) (hle : first ≤ 4) :
    TableAt (s.append b q data spare).flash first
      (pmNodeSetBlockPage (logSlot b q).1 (logSlot b q).2) ((logSlot b q).2 + 1) data := by
  have hblock := h.slot_block heven
  have hpage := h.slot_lt
  have hb : pmNodeBlock (pmNodeSetBlockPage (logSlot b q).1 (logSlot b q).2) = (logSlot b q).1 :=
    pmNodeBlock_set (by omega) hpage
  have hp : pmNodePage (pmNodeSetBlockPage (logSlot b q).1 (logSlot b q).2) = (logSlot b q).2 :=
    pmNodePage_set hpage
  constructor
  · rw [hb]
    exact h.append heven
  · rw [hp]
    exact Nat.lt_succ_self _
  · rw [hb, hp]
    exact ⟨spare, h.append_page⟩

/-- A journal that is not full, with no page behind the one that it names. -/
structure OpenJournal [Platform] (f : Flash) (w : Nat) : Prop where
  range : dataStartBlock ≤ pmNodeBlock w ∧ pmNodeBlock w < ubiCapacity
  page : pmNodePage w < 63
  written : ∀ p, p < pmNodePage w → ∃ data spare, f.page (pmNodeBlock w) p = .programmed data spare
  free : ∀ p, pmNodePage w ≤ p → p < 64 → f.page (pmNodeBlock w) p = .erased

/-- A root table as it is read back. -/
def Root.reread (r : Root) : Root := { r with pageMappingNodes := .ofFn r.pageMappingNodes }

/-- The state after a commit: the flash has all that a mount needs. -/
structure Settled [Platform] (s : FtlState) : Prop where
  image : Image s.flash s.rootTable.reread (.bytes s.blockDirtyTable) s.root.currentBlock
    s.root.currentPage s.root.edition
  bound : s.root.edition ≤ s.flash.log.length
  edition : s.root.edition < 4294967296
  retained : s.rootTable.backupBlockCount < threshold
  journal : ∀ isHot, OpenJournal s.flash (s.rootTable.journal isHot)

section

variable [Platform] {s s' t : FtlState} {k : Nat}

omit [Platform] in
/-- A table behind operations on other blocks. -/
theorem TableAt.offTable {f f' : Flash} {blocks : Nat → Prop} {first w q : Nat} {data : Buffer}
    (h : TableAt f first w q data) (hran : f.Within blocks f')
    (hoff : ∀ b, blocks b → ¬ (b = first ∨ b = first + 1)) : TableAt f' first w q data := by
  apply h.congr
  intro b hb p
  exact hran.page (fun hin => hoff b hin hb) p

theorem OpenJournal.offData {f f' : Flash} {blocks : Nat → Prop} {w : Nat}
    (h : OpenJournal f w) (hran : f.Within blocks f') (hoff : ∀ b, blocks b → b < dataStartBlock) :
    OpenJournal f' w := by
  have hpage : ∀ p, f'.page (pmNodeBlock w) p = f.page (pmNodeBlock w) p :=
    hran.page fun hin => Nat.not_lt.mpr h.range.1 (hoff _ hin)
  refine ⟨h.range, h.page, fun p hp => ?_, fun p hp hp' => ?_⟩
  · rw [hpage]
    exact h.written p hp
  · rw [hpage]
    exact h.free p hp hp'

theorem DataInv.openJournal (h : DataInv s.view none) {isHot : Bool}
    (hfull : dataIsFull s.rootTable isHot = false) :
    OpenJournal s.flash (s.rootTable.journal isHot) := by
  have hword : s.view.journal isHot = s.rootTable.journal isHot := rfl
  have hopen := h.opened_journal isHot (by simp)
  have hrange := h.range isHot
  rw [dataIsFull_eq] at hfull
  have hpage : s.view.journalPage isHot < 63 := by simpa using hfull
  have hview : ∀ p, s.view.page (s.view.journalBlock isHot) p =
      s.flash.page (s.view.journalBlock isHot) p := fun p => FtlState.view_page_eq hrange.1
  unfold DataView.journalBlock DataView.journalPage at *
  rw [hword] at *
  refine ⟨hrange, hpage, fun p hp => ?_, fun p hp hp' => ?_⟩
  · obtain ⟨data, spare, hprog, _⟩ := h.core.filled _ _ hopen p hp
    rw [hview] at hprog
    exact ⟨data, spare, hprog⟩
  · rw [← hview]
    exact h.core.free _ _ hopen p hp hp'

/-- A commit on a device with journals that are not full. -/
theorem DataCommitted.settled (h : DataCommitted s s' k) (ht : TablesInv s) (hroot : RootLogged s)
    (hjournal : ∀ isHot, OpenJournal s.flash (s.rootTable.journal isHot))
    (hretained : s.rootTable.backupBlockCount < threshold)
    (hfewer : s'.flash.log.length < maxUint32) : Settled s' := by
  have hlogged := hroot.dataCommitted ht h
  have hran := h.ran ht
  obtain ⟨hhot, hcold, _, hcount⟩ := h.rootTable
  obtain ⟨t, hpmt, rfl⟩ := h
  have htables := hpmt.frame.tables ht.hdiCommitted
  have hlast := ((hroot.hdiCommitted ht).pmtFrame hpmt.frame).bdtCommitted htables
  have hbdtRan := t.bdtCommitted_ran htables
  have hrootRan := t.bdtCommitted.rootCommitted_ran htables.bdtCommitted
  have hlength : t.bdtCommitted.flash.log.length < t.committed.flash.log.length :=
    t.bdtCommitted.append_length _ _ _ _
  have hlog := hlast.logged (by omega)
  have hedition := hlast.bound
  have hbound := hlogged.bound
  simp only [maxUint32] at hfewer
  have hcommitted := hlog.committed (by omega)
  have hhdi : TableAt s.hdiCommitted.flash hdiBlock0 s.hdiCommitted.rootTable.hdiCurrentJournal
      ((logSlot s.hdi.currentBlock s.hdi.currentPage).2 + 1) (.bytes s.hdi.hashTable) :=
    ht.hdi.tableAt rfl le_rfl
  have hbdt : TableAt t.bdtCommitted.flash bdtBlock0 t.bdtCommitted.rootTable.bdtCurrentJournal
      ((logSlot t.bdt.currentBlock t.bdt.currentPage).2 + 1) (.bytes t.blockDirtyTable) :=
    htables.bdt.tableAt rfl (by decide)
  have hword : t.committed.rootTable.hdiCurrentJournal =
      s.hdiCommitted.rootTable.hdiCurrentJournal := by
    obtain ⟨nodes, current, reclaim, hsame⟩ := hpmt.frame.rootTable
    have hkept : t.committed.rootTable.hdiCurrentJournal = t.rootTable.hdiCurrentJournal := rfl
    rw [hkept, hsame]
  have hbdt' := hbdt.offTable hrootRan.flash (by simp only [bdtBlock0]; omega)
  have hhdi' := ((hhdi.offTable hpmt.frame.ran.flash (by simp only [hdiBlock0, pmtStartBlock]; omega)
    ).offTable hbdtRan.flash (by simp only [hdiBlock0]; omega)).offTable hrootRan.flash
      (by simp only [hdiBlock0]; omega)
  rw [← hword] at hhdi'
  refine ⟨⟨hcommitted.1, hcommitted.2, ⟨_, hbdt'⟩, ⟨_, _, hhdi'⟩⟩, hlogged.bound, by omega, ?_, ?_⟩
  · rw [hcount]
    exact hretained
  · intro isHot
    have hsame : t.committed.rootTable.journal isHot = s.rootTable.journal isHot := by
      cases isHot
      · exact hcold
      · exact hhot
    rw [hsame]
    exact (hjournal isHot).offData hran.flash fun _ hb => hb

end

/-! ## The mount -/

/-- The words of the root table that a mount takes over. -/
structure RootKept (r r' : Root) : Prop where
  node : ∀ c, r'.pageMappingNodes c = r.pageMappingNodes c
  hot : r'.hotJournal = r.hotJournal
  cold : r'.coldJournal = r.coldJournal
  reclaim : r'.reclaimJournal = r.reclaimJournal
  current : r'.pmtCurrentBlock = r.pmtCurrentBlock
  spare : r'.pmtReclaimBlock = r.pmtReclaimBlock
  retained : r'.backupBlockCount = r.backupBlockCount

/-- The state `t` in a mount from the flash that `s` left. -/
structure Loading [Platform] (s t : FtlState) : Prop where
  page : ∀ b, pmtStartBlock ≤ b → ∀ p, t.flash.page b p = s.flash.page b p
  kept : RootKept s.rootTable t.rootTable
  meta_lt : ∀ p, t.pmt.metaData p < pmtClusterCount
  root : TableLog t.flash rootBlock0 t.root.currentBlock t.root.currentPage
  logged : RootLogged t
  hdi : ∃ q hash, TableAt t.flash hdiBlock0 t.rootTable.hdiCurrentJournal q hash

section

variable [Platform] {s t : FtlState} {E : Stop → Prop}

/-- A commit of the dirty table on the way. -/
theorem Loading.bdtCommitted (h : Loading s t)
    (hlog : TableLog t.flash bdtBlock0 t.bdt.currentBlock t.bdt.currentPage) :
    Loading s t.bdtCommitted := by
  obtain ⟨q, hash, hhdi⟩ := h.hdi
  have hran : t.flash.Within (fun b => b = bdtBlock0 ∨ b = bdtBlock0 + 1) t.bdtCommitted.flash :=
    (hlog.append_ran rfl).flash
  obtain ⟨hword, hroot⟩ := bdtCommitted_word t
  have hhdi' := hhdi.offTable hran (by simp only [bdtBlock0, hdiBlock0]; omega)
  refine ⟨fun b hb p => ?_, ⟨h.kept.node, h.kept.hot, h.kept.cold, h.kept.reclaim, h.kept.current,
    h.kept.spare, h.kept.retained⟩, h.meta_lt, ?_, ?_, q, hash, ?_⟩
  · rw [hran.page (by simp only [bdtBlock0, pmtStartBlock] at *; omega), h.page b hb]
  · rw [hroot]
    apply h.root.congr
    intro b hb p
    exact hran.page (by simp only [bdtBlock0, rootBlock0] at *; omega) p
  · exact h.logged.offRoot hran (by simp only [bdtBlock0, rootBlock0]; omega) hroot
  · rw [hword]
    exact hhdi'

theorem rootInit_loading (h : Settled s) (hflash : t.flash = s.flash)
    (hmeta : ∀ p, t.pmt.metaData p < pmtClusterCount) :
    wp rootInit (fun ret u => ret = .success ∧ (Loading s u ∧ u.api = t.api) ∧
      ∃ q, TableAt u.flash bdtBlock0 u.rootTable.bdtCurrentJournal q (.bytes s.blockDirtyTable))
      E t := by
  have himage := h.image
  have hbound := h.bound
  rw [← hflash] at himage hbound
  apply wp_mono_post (rootInit_spec himage.root himage.last h.edition)
  rintro ret _ ⟨hret, rfl⟩
  refine ⟨hret, ?_⟩
  have hloaded : RootLogged (t.rootLoaded s.root.currentBlock s.root.currentPage s.root.edition
      s.rootTable.reread) := ⟨hbound, fun _ => himage.root⟩
  have hlog : TableLog (t.rootLoaded s.root.currentBlock s.root.currentPage s.root.edition
      s.rootTable.reread).flash rootBlock0 s.root.currentBlock s.root.currentPage :=
    himage.root.log
  obtain ⟨q, hbdt⟩ := himage.bdt
  obtain ⟨q', hash, hhdi⟩ := himage.hdi
  generalize hu : t.rootLoaded s.root.currentBlock s.root.currentPage s.root.edition
    s.rootTable.reread = u at hloaded hlog
  have huflash : u.flash = t.flash := by rw [← hu]; rfl
  have huroot : u.rootTable = s.rootTable.reread := by rw [← hu]; rfl
  have hulog : TableLog u.flash rootBlock0 u.root.currentBlock u.root.currentPage := by
    rw [← hu] at hlog ⊢
    exact hlog
  have hupmt : u.pmt = t.pmt := by rw [← hu]; rfl
  have huapi : u.rootCommitted.api = t.api := by rw [← hu]; rfl
  have hran : u.flash.Within (fun b => b = rootBlock0 ∨ b = rootBlock0 + 1)
      u.rootCommitted.flash := (hulog.append_ran rfl).flash
  have hbdt' := hbdt.offTable (huflash ▸ hran) (by simp only [rootBlock0, bdtBlock0]; omega)
  have hhdi' := hhdi.offTable (huflash ▸ hran) (by simp only [rootBlock0, hdiBlock0]; omega)
  have hkept : RootKept s.rootTable u.rootCommitted.rootTable := by
    have hnext : u.rootCommitted.rootTable = u.nextRoot := rfl
    rw [hnext]
    unfold FtlState.nextRoot
    rw [huroot]
    exact ⟨fun _ => rfl, rfl, rfl, rfl, rfl, rfl, rfl⟩
  have hwords := rootCommitted_words u
  rw [huroot] at hwords
  refine ⟨⟨⟨fun b hb p => ?_, hkept, ?_, hulog.append rfl, hloaded.rootCommitted, q', hash, ?_⟩,
    huapi⟩, q, ?_⟩
  · rw [hran.page (by simp only [rootBlock0, pmtStartBlock] at *; omega), huflash, hflash]
  · change ∀ p, u.pmt.metaData p < pmtClusterCount
    rw [hupmt]
    exact hmeta
  · rw [hwords.2]
    exact hhdi'
  · rw [hwords.1]
    exact hbdt'

theorem bdtInit_loading {q : Nat} (hs : Settled s) (h : Loading s t)
    (hbdt : TableAt t.flash bdtBlock0 t.rootTable.bdtCurrentJournal q
      (.bytes s.blockDirtyTable)) :
    wp bdtInit (fun ret u => ret = .success ∧ (Loading s u ∧ u.api = t.api) ∧
      TableLog u.flash bdtBlock0 u.bdt.currentBlock u.bdt.currentPage ∧
      ∀ b, u.blockDirtyTable b = s.blockDirtyTable b) E t := by
  have hcount : t.rootTable.backupBlockCount < threshold := by
    rw [h.kept.retained]
    exact hs.retained
  apply wp_mono_post (bdtInit_spec hbdt hcount)
  rintro ret _ ⟨hret, rfl⟩
  refine ⟨hret, ?_⟩
  obtain ⟨q', hash, hhdi⟩ := h.hdi
  have hloaded : Loading s (t.bdtLoaded q (.bytes s.blockDirtyTable)) :=
    ⟨h.page, h.kept, h.meta_lt, h.root, ⟨h.logged.bound, h.logged.logged⟩, q', hash, hhdi⟩
  have hlog : TableLog (t.bdtLoaded q (.bytes s.blockDirtyTable)).flash bdtBlock0
      (t.bdtLoaded q (.bytes s.blockDirtyTable)).bdt.currentBlock
      (t.bdtLoaded q (.bytes s.blockDirtyTable)).bdt.currentPage := hbdt.log
  have hdirty : ∀ b, (t.bdtLoaded q (.bytes s.blockDirtyTable)).bdtCommitted.blockDirtyTable b =
      s.blockDirtyTable b := fun _ => rfl
  have hapi : (t.bdtLoaded q (.bytes s.blockDirtyTable)).bdtCommitted.api = t.api := rfl
  generalize t.bdtLoaded q (.bytes s.blockDirtyTable) = u at hloaded hlog hdirty hapi
  exact ⟨⟨hloaded.bdtCommitted hlog, hapi⟩, hlog.append rfl, hdirty⟩

/-- The tables are mounted, and the mapping cache is empty. -/
structure Restored (s t : FtlState) : Prop extends Loading s t where
  cache : EmptyCache t
  tables : TablesInv t
  dirty : ∀ b, t.blockDirtyTable b = s.blockDirtyTable b

theorem hdiInit_restored (h : Loading s t) (hcache : EmptyCache t)
    (hbdt : TableLog t.flash bdtBlock0 t.bdt.currentBlock t.bdt.currentPage)
    (hdirty : ∀ b, t.blockDirtyTable b = s.blockDirtyTable b) :
    wp hdiInit (fun ret u => ret = .success ∧ Restored s u ∧ u.api = t.api) E t := by
  obtain ⟨q, hash, hhdi⟩ := h.hdi
  apply wp_mono_post (hdiInit_spec hhdi hbdt)
  rintro ret _ ⟨hret, rfl⟩
  refine ⟨hret, ?_⟩
  have hloaded : Loading s (t.hdiLoaded q hash) :=
    ⟨h.page, h.kept, h.meta_lt, h.root, ⟨h.logged.bound, h.logged.logged⟩, q, hash, hhdi⟩
  have htables : TablesInv (t.hdiLoaded q hash) := ⟨hbdt, h.root, hhdi.log⟩
  have hapi : (t.hdiLoaded q hash).bdtCommitted.api = t.api := rfl
  exact ⟨⟨hloaded.bdtCommitted htables.bdt, ⟨hcache.origin, hcache.cluster⟩,
    htables.bdtCommitted, hdirty⟩, hapi⟩

/-- The statics of the data layer are not in the tables. -/
theorem Restored.withData (h : Restored s t) (d : DataRam) : Restored s { t with data := d } := by
  obtain ⟨q, hash, hhdi⟩ := h.hdi
  have hloading : Loading s { t with data := d } :=
    ⟨h.page, h.kept, h.meta_lt, h.root, ⟨h.logged.bound, h.logged.logged⟩, q, hash, hhdi⟩
  exact ⟨hloading, ⟨h.cache.origin, h.cache.cluster⟩, ⟨h.tables.bdt, h.tables.root, h.tables.hdi⟩,
    h.dirty⟩

/-- Meta data that names the pages of a block before page `q`. -/
def Noted (f : Flash) (d : DataRam) (isHot : Bool) (b q : Nat) : Prop :=
  ∀ p, p < q → ∀ data spare, f.page b p = .programmed data spare →
    (d.metaTable isHot p).w0 = spare.w0

omit [Platform] in
theorem noteMeta_metaTable (d : DataRam) (isHot : Bool) (p addr edition : Nat) :
    (d.noteMeta isHot p addr edition).metaTable isHot =
        (d.metaTable isHot).set p { d.metaTable isHot p with w0 := addr, w1 := edition } ∧
      (d.noteMeta isHot p addr edition).metaTable (!isHot) = d.metaTable (!isHot) := by
  cases isHot <;> exact ⟨rfl, rfl⟩

omit [Platform] in
theorem Noted.note {f : Flash} {d : DataRam} {isHot : Bool} {b p : Nat} {data : Buffer}
    {spare : Spare} (h : Noted f d isHot b p) (hprog : f.page b p = .programmed data spare) :
    Noted f (d.noteMeta isHot p spare.w0 spare.w1) isHot b (p + 1) := by
  intro p' hp' data' spare' hprog'
  rw [(noteMeta_metaTable d isHot p spare.w0 spare.w1).1, Ram.set_apply]
  by_cases heq : p' = p
  · rw [heq, hprog] at hprog'
    obtain ⟨_, rfl⟩ : data = data' ∧ spare = spare' := by simpa using hprog'
    rw [if_pos heq]
  · rw [if_neg heq]
    exact h p' (by omega) data' spare' hprog'

/-- The replay reads the meta data back, up to the page that the journal names. -/
theorem dataReplayMeta_spec {isHot : Bool} {w n p : Nat} (h : OpenJournal t.flash w)
    (hn : p + n = 64) (hp : p ≤ pmNodePage w)
    (hnoted : Noted t.flash t.data isHot (pmNodeBlock w) p) :
    wp (dataReplayMeta isHot (pmNodeBlock w) n p) (fun ret u => ret = .success ∧
      ∃ d, u = { t with data := d } ∧ Noted t.flash d isHot (pmNodeBlock w) (pmNodePage w) ∧
        d.metaTable (!isHot) = t.data.metaTable (!isHot)) E t := by
  have hpage := h.page
  induction n generalizing t p with
  | zero => omega
  | succ n ih =>
      unfold dataReplayMeta
      rw [wp_bind]
      by_cases hlt : p < pmNodePage w
      · obtain ⟨data, spare, hprog⟩ := h.written p hlt
        apply (wp_ubiRead_programmed h.range.2 (by omega) hprog).mpr
        simp only [wp_bind, wp_modify]
        have hnext := ih (t := { t with data := t.data.noteMeta isHot p spare.w0 spare.w1 }) h
          (by omega) (by omega) (hnoted.note hprog)
        apply wp_mono_post hnext
        rintro ret u ⟨hret, d, rfl, hd, hother⟩
        refine ⟨hret, d, rfl, hd, ?_⟩
        rw [hother]
        exact (noteMeta_metaTable t.data isHot p spare.w0 spare.w1).2
      · obtain rfl : p = pmNodePage w := by omega
        apply (wp_ubiRead_erased h.range.2 (by omega) (h.free _ le_rfl (by omega))).mpr
        have hlast : ¬ pmNodePage w = pagePerPhyBlock - 1 := by
          simp only [pagePerPhyBlock]
          omega
        simp only [hlast, if_false, wp_pure, true_and]
        exact ⟨t.data, rfl, hnoted, rfl⟩

/-- The replay of a journal that ends where the root table says. -/
theorem dataReplay_spec {fuel : Nat} {isHot : Bool}
    (h : OpenJournal t.flash (t.rootTable.journal isHot)) (hfuel : 2 ≤ fuel) :
    wp (dataReplay fuel isHot) (fun ret u => ret = .success ∧ ∃ d, u = { t with data := d } ∧
      Noted t.flash d isHot (pmNodeBlock (t.rootTable.journal isHot))
        (pmNodePage (t.rootTable.journal isHot)) ∧
      d.metaTable (!isHot) = t.data.metaTable (!isHot)) E t := by
  obtain ⟨fuel, rfl⟩ : ∃ n, fuel = n + 2 := ⟨fuel - 2, by omega⟩
  have hpage := h.page
  have herased := h.free _ le_rfl (by omega)
  have hdata : (t.data.setEdition isHot 0).metaTable = t.data.metaTable := by
    cases isHot <;> rfl
  unfold dataReplay
  rw [wp_bind]
  unfold dataReplayLoop
  rw [if_neg (by decide), wp_bind, wp_get, wp_bind,
    wp_ubiRead_erased h.range.2 (by omega) herased]
  simp only [reduceCtorEq, false_and, if_false, wp_bind, wp_pure, wp_modify]
  unfold dataReplayLoop
  rw [if_pos rfl, wp_pure]
  simp only [wp_get]
  have hnone : Noted t.flash (t.data.setEdition isHot 0) isHot
      (pmNodeBlock (t.rootTable.journal isHot)) 0 := fun p hp => absurd hp (Nat.not_lt_zero p)
  have hmeta := dataReplayMeta_spec (E := E) (t := { t with data := t.data.setEdition isHot 0 })
    (n := pagePerPhyBlock) h rfl (Nat.zero_le _) hnone
  apply wp_mono_post hmeta
  rintro ret _ ⟨hret, d, rfl, hnoted, hother⟩
  exact ⟨hret, d, rfl, hnoted, hother.trans (congrFun hdata _)⟩

/-- What a mount after a commit leaves. -/
structure Remounted (s t : FtlState) : Prop extends Restored s t where
  noted : ∀ isHot, Noted s.flash t.data isHot (pmNodeBlock (s.rootTable.journal isHot))
    (pmNodePage (s.rootTable.journal isHot))

omit [Platform] in
theorem RootKept.journal {r r' : Root} (h : RootKept r r') (isHot : Bool) :
    r'.journal isHot = r.journal isHot := by
  cases isHot
  · exact h.cold
  · exact h.hot

theorem Restored.openJournal (h : Restored s t) (hs : Settled s) (isHot : Bool) :
    OpenJournal t.flash (t.rootTable.journal isHot) := by
  have hopen := hs.journal isHot
  have hpage : ∀ p, t.flash.page (pmNodeBlock (s.rootTable.journal isHot)) p =
      s.flash.page (pmNodeBlock (s.rootTable.journal isHot)) p :=
    h.page _ (le_trans (by decide) hopen.range.1)
  rw [h.kept.journal]
  refine ⟨hopen.range, hopen.page, fun p hp => ?_, fun p hp hp' => ?_⟩
  · rw [hpage]
    exact hopen.written p hp
  · rw [hpage]
    exact hopen.free p hp hp'

/-- `FTL_Init` from the flash that a commit left. -/
theorem ftlInit_spec {fuel : Nat} (hs : Settled s) (hflash : t.flash = s.flash)
    (hmeta : ∀ p, t.pmt.metaData p < pmtClusterCount) (hfuel : 2 ≤ fuel) :
    wp (ftlInit fuel) (fun ret u => ret = .success ∧ Remounted s u ∧ u.api = t.api) E t := by
  unfold ftlInit ubiInit
  simp only [wp_bind, wp_pure, if_true]
  apply wp_mono_post (rootInit_loading hs hflash hmeta)
  rintro _ t₁ ⟨rfl, ⟨h₁, hapi₁⟩, q, hbdt⟩
  rw [if_pos rfl, wp_bind]
  apply wp_mono_post (bdtInit_loading hs h₁ hbdt)
  rintro _ t₂ ⟨rfl, ⟨h₂, hapi₂⟩, hlog, hdirty⟩
  rw [if_pos rfl, wp_bind, wp_pmtInit, if_pos rfl, wp_bind]
  obtain ⟨q', hash, hhdi⟩ := h₂.hdi
  have h₃ : Loading s t₂.pmtInited :=
    ⟨h₂.page, h₂.kept, h₂.meta_lt, h₂.root, ⟨h₂.logged.bound, h₂.logged.logged⟩, q', hash, hhdi⟩
  apply wp_mono_post (hdiInit_restored h₃ ⟨fun _ => rfl, fun _ => rfl⟩ hlog hdirty)
  rintro _ t₄ ⟨rfl, h₄, hapi₄⟩
  rw [if_pos rfl, wp_bind]
  have hhot := h₄.openJournal hs true
  have hcold := h₄.openJournal hs false
  apply wp_mono_post (dataReplay_spec hhot hfuel)
  rintro _ _ ⟨rfl, d, rfl, hd, _⟩
  rw [if_pos rfl, wp_bind]
  apply wp_mono_post (dataReplay_spec (t := { t₄ with data := d }) hcold hfuel)
  rintro _ _ ⟨rfl, d', rfl, hd', hkept⟩
  have hrestored := (h₄.withData d).withData d'
  have hfull : ∀ isHot, dataIsFull t₄.rootTable isHot = false := by
    intro isHot
    rw [dataIsFull_eq]
    have hpage : t₄.view.journalPage isHot < 63 := (h₄.openJournal hs isHot).page
    simp [hpage]
  rw [if_pos rfl]
  unfold ftlInitReclaim
  simp only [wp_bind, wp_get, hfull, Bool.false_eq_true, if_false, wp_pure]
  have hapi : t₂.pmtInited.api = t.api := hapi₂.trans hapi₁
  refine ⟨trivial, ⟨hrestored, fun isHot p hp data spare hprog => ?_⟩, hapi₄.trans hapi⟩
  rw [← h₄.kept.journal isHot] at hp hprog
  rw [← h₄.page _ (le_trans (by decide) (h₄.openJournal hs isHot).range.1)] at hprog
  cases isHot
  · exact hd' p hp data spare hprog
  · have hsame : d'.metaTable true = d.metaTable true := hkept
    change (d'.metaTable true p).w0 = spare.w0
    rw [hsame]
    exact hd p hp data spare hprog

/-- With no cluster in the cache the meta data of the current block is not needed. -/
theorem PmtOk.withMeta {k : Nat} (h : PmtOk s 0 k) (huncached : Uncached s) {table : Ram Nat}
    (hmeta : ∀ p, table p < pmtClusterCount) :
    PmtOk { s with pmt := { s.pmt with metaData := table } } 0 0 := by
  have hinv := h.inv
  have hpage := h.page
  have hclean : s.dirtyClusters = 0 := by
    apply Occupancy.eq_zero_iff.mpr
    intro c hc
    unfold FtlState.isDirty
    rw [huncached c hc]
    exact Bool.false_ne_true
  refine ⟨⟨⟨hinv.cached, hinv.slot, hinv.home, hinv.stored, hinv.clean, hmeta⟩, hinv.current_block,
    hinv.current_page, hinv.current_free, hinv.spare_block, hinv.spare_free, hinv.spare_homes,
    hinv.spare_count, hinv.spare_room, hinv.count, hinv.closed⟩, hpage, .inr ?_⟩
  change s.rootTable.pmtPage + s.dirtyClusters + 0 ≤ 62
  omega

namespace Restored

variable {k : Nat}

theorem node (h : Restored s t) (c : Nat) : t.node c = s.node c := h.kept.node c

theorem uncached (h : Restored s t) (hs : Uncached s) : Uncached t := by
  intro c hc
  rw [h.node]
  exact hs c hc

theorem pmtOk (h : Restored s t) (hs : PmtOk s 0 k) (huncached : Uncached s) : PmtOk t 0 0 := by
  have hs' := hs.withMeta huncached h.meta_lt
  have hcache := hs.inv.toCacheInv
  have huncached' := h.uncached huncached
  have hhome : ∀ c, c < pmtClusterCount → t.home c = s.home c ∧ t.isDirty c = false := by
    intro c hc
    obtain ⟨hhome, hdirty⟩ := CacheInv.node_of_not_cached (huncached' c hc)
    obtain ⟨hhome', _⟩ := CacheInv.node_of_not_cached (huncached c hc)
    exact ⟨by rw [hhome, hhome', h.node], hdirty⟩
  have hclean : ∀ c, c < pmtClusterCount → t.isDirty c = false ∧ s.isDirty c = false :=
    fun c hc => ⟨(hhome c hc).2, (CacheInv.node_of_not_cached (huncached c hc)).2⟩
  have hblock : ∀ c, c < pmtClusterCount →
      t.homeBlock c = s.homeBlock c ∧ t.homePage c = s.homePage c := by
    intro c hc
    unfold FtlState.homeBlock FtlState.homePage
    rw [(hhome c hc).1]
    exact ⟨rfl, rfl⟩
  have hsame : SameHomes { s with pmt := { s.pmt with metaData := t.pmt.metaData } } t := by
    refine ⟨fun c hc => (hblock c hc).1, fun c hc => (hblock c hc).2, fun c hc hdirty => ?_,
      h.kept.current, h.kept.spare, rfl, fun b _ => h.dirty b, fun b hb _ => h.page b hb⟩
    have hno : s.isDirty c = true := hdirty
    rw [(hclean c hc).2] at hno
    exact absurd hno Bool.false_ne_true
  have hcache' : CacheInv t 0 := by
    refine ⟨fun c hc hcached => ?_, fun i _ => .inl ⟨h.cache.cluster i, h.cache.origin i⟩,
      fun c hc => ?_, fun c hc _ => ?_, fun c hc _ k _ => ?_, h.meta_lt⟩
    · rw [huncached' c hc] at hcached
      exact absurd hcached Bool.false_ne_true
    · rw [(hhome c hc).1]
      exact hcache.home c hc
    · obtain ⟨hb, _⟩ := hcache.home_range hc
      rw [(hblock c hc).1, (hblock c hc).2, h.page _ hb]
      exact hcache.stored c hc (hclean c hc).2
    · have hno := huncached' c hc
      unfold FtlState.cluster FtlState.homeBlock FtlState.homePage
      rw [if_neg (by simp [hno]), (CacheInv.node_of_not_cached hno).1]
  apply hsame.pmtOk (j := 0) hs' hcache'
  have hzero : t.dirtyClusters = 0 := by
    apply Occupancy.eq_zero_iff.mpr
    intro c hc
    rw [(hclean c hc).1]
    exact Bool.false_ne_true
  rw [hzero]
  exact Nat.zero_le _

theorem base (h : Restored s t) (hs : BaseOk s k) (huncached : Uncached s) : BaseOk t 0 :=
  ⟨h.tables, h.pmtOk hs.pmt huncached⟩

theorem clusters (h : Restored s t) (hs : PmtOk s 0 k) (huncached : Uncached s) :
    SameClusters s t := by
  intro c hc k _
  have hno := huncached c hc
  obtain ⟨hhome, hdirty⟩ := CacheInv.node_of_not_cached hno
  obtain ⟨hb, _⟩ := hs.inv.toCacheInv.home_range hc
  have hpage := h.page _ hb (s.homePage c)
  unfold FtlState.homeBlock FtlState.homePage at hpage
  rw [hhome] at hpage
  unfold FtlState.cluster
  rw [h.node, if_neg (by simp [hno]), if_neg (by simp [hno]), Flash.words_congr hpage]

/-- The data layer finds its mapping, its pages and its counts again. -/
theorem view (h : Restored s t) (hs : PmtOk s 0 k) (huncached : Uncached s) :
    t.view.mapping = s.view.mapping ∧ t.view.page = s.view.page ∧ t.view.dirty = s.view.dirty := by
  have hclusters := h.clusters hs huncached
  refine ⟨?_, ?_, ?_⟩
  · funext a
    change (if a < ftlCapacity then t.mapping a else invalidPmNode) =
      if a < ftlCapacity then s.mapping a else invalidPmNode
    split
    · next ha => exact hclusters.mapping (clusterIndex_lt ha)
    · rfl
  · funext b p
    change (if dataStartBlock ≤ b then t.flash.page b p else .erased) =
      if dataStartBlock ≤ b then s.flash.page b p else .erased
    split
    · next hb => exact h.page b (le_trans (by decide) hb) p
    · rfl
  · funext b
    change (if dataStartBlock ≤ b then t.blockDirtyTable b else 0) =
      if dataStartBlock ≤ b then s.blockDirtyTable b else 0
    rw [h.dirty]

end Restored

/-- A remounted device is in order for the data layer. -/
theorem Remounted.data {k : Nat} (h : Remounted s t) (hs : PmtOk s 0 k) (huncached : Uncached s)
    (hd : DataInv s.view none) : DataInv t.view none := by
  obtain ⟨hmapping, hpage, hdirty⟩ := h.view hs huncached
  have hjournal : ∀ isHot, t.view.journal isHot = s.view.journal isHot := h.kept.journal
  have hreclaim : t.view.reclaimJournal = s.view.reclaimJournal := h.kept.reclaim
  have hblock : ∀ isHot, t.view.journalBlock isHot = s.view.journalBlock isHot :=
    fun isHot => congrArg pmNodeBlock (hjournal isHot)
  have hpageWord : ∀ isHot, t.view.journalPage isHot = s.view.journalPage isHot :=
    fun isHot => congrArg pmNodePage (hjournal isHot)
  have hspare : t.view.reclaimBlock = s.view.reclaimBlock := congrArg pmNodeBlock hreclaim
  have hopened : t.view.opened none = s.view.opened none := by
    funext b
    unfold DataView.opened
    rw [hspare, hblock, hblock, hpageWord, hpageWord]
  refine ⟨hd.core.transfer hmapping hpage hdirty hopened, ?_, fun isHot => ?_, ?_, ?_,
    fun isHot => ?_, fun isHot _ p hp data spare hprog => ?_⟩
  · rw [hblock, hblock]
    exact hd.apart
  · rw [hblock, hspare]
    exact hd.reclaim_apart isHot
  · rw [hreclaim]
    exact hd.reclaim_page
  · rw [hspare, hdirty]
    exact hd.reclaim_clean
  · rw [hblock]
    exact hd.range isHot
  · rw [hpageWord] at hp
    rw [hblock, hpage, FtlState.view_page_eq (hd.range isHot).1] at hprog
    have hnoted := h.noted isHot p hp data spare hprog
    cases isHot <;> exact hnoted

end

end RansomTag

import RansomTag.Ftl.DataWrite

/-!
# Reclaiming a data block

`DATA_Reclaim` copies the mapped pages of the dirtiest block to the reclaim
block and erases it.  The count of the block tells beforehand how many pages
there are, and the content of every logical page stays what it was.
-/

namespace RansomTag

open Program

variable [Platform]

/-! ## The victim -/

theorem mem_dataBlocks {b : Nat} : b ∈ dataBlocks ↔ dataStartBlock ≤ b ∧ b < ubiCapacity := by
  have := Platform.ubiCapacity_ge
  unfold dataBlocks
  rw [List.mem_range'_1]
  simp only [dataStartBlock]
  omega

omit [Platform] in
theorem dataVictimFrom_some {dirty : Ram Nat} {exclude fuel target i : Nat} {blocks : List Nat}
    (h : dataVictimFrom dirty exclude blocks fuel target = some i) :
    i ∈ blocks ∧ i ≠ exclude ∧ dirty i ≤ target := by
  induction fuel generalizing target with
  | zero => simp [dataVictimFrom] at h
  | succ fuel ih =>
      unfold dataVictimFrom at h
      split at h
      · next j n hpass =>
          obtain rfl : j = i := by simpa using h
          obtain ⟨hmem, hskip, hdirty⟩ := VictimPass.found hpass
          exact ⟨hmem, by simpa using hskip, hdirty.le⟩
      · next n hpass =>
          obtain ⟨hmem, hne, hle⟩ := ih h
          obtain ⟨_, _, _, hlast⟩ := VictimPass.not_found hpass
          refine ⟨hmem, hne, ?_⟩
          rcases hlast with rfl | ⟨_, _, _, _, hlt⟩
          · omega
          · omega

omit [Platform] in
/-- The search ends, at a block with at least as many stale pages as any block
that it may take. -/
theorem dataVictimFrom_max {dirty : Ram Nat} {exclude fuel target b : Nat} {blocks : List Nat}
    (hfuel : target < fuel) (hb : b ∈ blocks) (hne : b ≠ exclude) (hle : dirty b ≤ target) :
    ∃ i, dataVictimFrom dirty exclude blocks fuel target = some i ∧ dirty b ≤ dirty i := by
  induction fuel generalizing target with
  | zero => omega
  | succ fuel ih =>
      unfold dataVictimFrom
      split
      · next j n hpass =>
          obtain ⟨_, _, hdirty⟩ := VictimPass.found hpass
          exact ⟨j, rfl, by omega⟩
      · next n hpass =>
          obtain ⟨hno, _, hsmaller, hlast⟩ := VictimPass.not_found hpass
          have hbt := hno b hb (by simpa using hne)
          have hbn := hsmaller b hb (by simpa using hne) (by omega)
          apply ih
          · rcases hlast with rfl | ⟨_, _, _, _, hlt⟩
            · omega
            · omega
          · exact hbn

/-- Besides the journal of the other stream some block has stale pages and no
flag. -/
def DataView.CanReclaim (v : DataView) (isHot : Bool) : Prop :=
  ∃ b, dataStartBlock ≤ b ∧ b < ubiCapacity ∧ b ≠ v.journalBlock (!isHot) ∧
    0 < v.dirty b ∧ v.dirty b ≤ maxDirtyPages

/-! ## Copying -/

namespace DataView

variable (v : DataView)

/-- The view after a mapped page was copied to page `r` of the reclaim block. -/
def copied (isHot : Bool) (rb r : Nat) (data : Buffer) (spare : Spare) : DataView :=
  (((v.program rb r data { spare with w1 := r }).update spare.w0 (pmNodeSetBlockPage rb r)
    false).setMeta isHot r { v.metaTable isHot r with w0 := spare.w0, w1 := r }).setReclaim
      (pmNodeSetBlockPage rb (r + 1))

end DataView

/-- `done` pages of block `db` were looked at, and `r` of them copied to the
reclaim block `rb`. -/
structure Copying (v₀ v : DataView) (isHot : Bool) (db rb r done : Nat) : Prop where
  core : DataCore v (Function.update (v₀.opened (some isHot)) rb (some r))
  page : ∀ b p, b ≠ rb → v.page b p = v₀.page b p
  copies : ∀ p, p < r → ∃ p₀ data spare spare₀, p₀ < 63 ∧
    v.page rb p = .programmed data spare ∧ v₀.page db p₀ = .programmed data spare₀ ∧
    spare₀.w0 = spare.w0 ∧ spare₀.w2 = spare.w2 ∧ (v.metaTable isHot p).w0 = spare.w0
  dirty : ∀ b, v.dirty b = if b = db then v₀.dirty db + r else v₀.dirty b
  entry : ∀ a, a < ftlCapacity → v.entry a = v₀.entry a
  passed : ∀ a, a < ftlCapacity → ∀ p, p < done → v.mapping a ≠ pmNodeSetBlockPage db p
  journal : ∀ h, v.journal h = v₀.journal h
  reclaim : v.reclaimBlock = rb ∧ pmNodePage v.reclaimJournal = r
  other : v.metaTable (!isHot) = v₀.metaTable (!isHot)
  api : v.api = v₀.api
  log : ∃ ops, v.log = ops ++ v₀.log ∧ (∀ op ∈ ops, ∃ p, op = .program rb p) ∧
    ∀ p, p < r → .program rb p ∈ ops

/-- A closed block other than the reclaim block, with some live pages. -/
structure Victim (v : DataView) (isHot : Bool) (db : Nat) : Prop where
  range : dataStartBlock ≤ db ∧ db < ubiCapacity
  closed : v.opened (some isHot) db = none
  apart : db ≠ v.reclaimBlock
  dirty : v.dirty db < 63

namespace Copying

variable {v₀ v : DataView} {isHot : Bool} {db rb r done a : Nat} {data : Buffer} {spare : Spare}

theorem start (h : DataInv v (some isHot)) : Copying v v isHot db v.reclaimBlock 0 0 where
  core := h.core.transfer rfl rfl rfl (by
    funext b
    by_cases hb : b = v.reclaimBlock
    · rw [hb, Function.update_self, DataInv.opened_reclaim]
    · rw [Function.update_of_ne hb])
  page _ _ _ := rfl
  copies _ hp := by omega
  dirty b := by split <;> simp_all
  entry _ _ := rfl
  passed _ _ _ hp := by omega
  journal _ := rfl
  reclaim := ⟨rfl, h.reclaim_page⟩
  other := rfl
  api := rfl
  log := ⟨[], rfl, by simp, by omega⟩

/-- No page is mapped to the next page of the block. -/
theorem skip (c : Copying v₀ v isHot db rb r done)
    (hno : ∀ a, a < ftlCapacity → v.mapping a ≠ pmNodeSetBlockPage db done) :
    Copying v₀ v isHot db rb r (done + 1) := by
  refine { c with passed := ?_ }
  intro a ha p hp
  by_cases hpd : p = done
  · rw [hpd]
    exact hno a ha
  · exact c.passed a ha p (by omega)

/-- Pages left to copy fit in the reclaim block. -/
theorem room (c : Copying v₀ v isHot db rb r done) (hv : Victim v₀ isHot db) (hne : db ≠ rb)
    (ha : a < ftlCapacity) (hblock : pmNodeBlock (v.mapping a) = db) : r < 63 := by
  have hd := c.dirty db
  rw [if_pos rfl] at hd
  have hlive := DataCore.live_pos (v := v) ha
  rw [hblock] at hlive
  have hr := (c.core.range rb r (Function.update_self _ _ _)).2.2
  have hdirty := hv.dirty
  by_contra hfull
  have hcount := c.core.count db hv.range.1 hv.range.2
  have hopen : Function.update (v₀.opened (some isHot)) rb (some r) db = none := by
    rw [Function.update_of_ne hne]
    exact hv.closed
  rw [hopen] at hcount
  simp only [backupFlag, Option.getD_none] at hcount
  omega

theorem copy (c : Copying v₀ v isHot db rb r done) (hv : Victim v₀ isHot db) (hne : db ≠ rb)
    (hrb : dataStartBlock ≤ rb ∧ rb < ubiCapacity) (ha : spare.w0 < ftlCapacity)
    (hdone : done < 63) (hmap : v.mapping spare.w0 = pmNodeSetBlockPage db done)
    (hpage : v.page db done = .programmed data spare) :
    Copying v₀ (v.copied isHot rb r data spare) isHot db rb (r + 1) (done + 1) := by
  have hcap := Platform.ubiCapacity_le
  have hrange := hv.range
  have hblock : pmNodeBlock (v.mapping spare.w0) = db := by
    rw [hmap, pmNodeBlock_set (by omega) (by omega)]
  have hpg : pmNodePage (v.mapping spare.w0) = done := by
    rw [hmap, pmNodePage_set (by omega)]
  have hvalid : v.mapping spare.w0 ≠ invalidPmNode := by
    rw [hmap]
    exact pmNodeSetBlockPage_ne_invalid
  have hr := c.room hv hne ha hblock
  have hfree := c.core.free rb r (Function.update_self _ _ _) r le_rfl (by omega)
  have hcore : DataCore ((v.program rb r data { spare with w1 := r }).update spare.w0
      (pmNodeSetBlockPage rb r) false) _ :=
    c.core.written ha (Function.update_self _ _ _) hr rfl
  rw [Function.update_idem] at hcore
  set v' := v.copied isHot rb r data spare with hv'
  have hmapping' : ∀ a, v'.mapping a =
      if a = spare.w0 then pmNodeSetBlockPage rb r else v.mapping a := by
    intro a
    cases isHot <;> rfl
  have hpage' : ∀ b p, v'.page b p = if b = rb ∧ p = r then
      .programmed data { spare with w1 := r } else v.page b p := by
    intro b p
    cases isHot <;> rfl
  have hmeta' : ∀ p, v'.metaTable isHot p = if p = r then
      { v.metaTable isHot r with w0 := spare.w0, w1 := r } else v.metaTable isHot p := by
    intro p
    cases isHot <;> exact Ram.set_apply _ _ _ _
  have hdirty' : ∀ b, v'.dirty b = if b = db then v.dirty b + 1 else v.dirty b := by
    intro b
    have hdef : v'.dirty b = if v.mapping spare.w0 ≠ invalidPmNode ∧
        b = pmNodeBlock (v.mapping spare.w0) then staleCount (v.dirty b) false else v.dirty b := by
      cases isHot <;> rfl
    rw [hdef, hblock]
    by_cases hb : b = db
    · have hlt := c.core.dirty_lt (b := b) (by omega) (by omega)
      rw [if_pos ⟨hvalid, hb⟩, if_pos hb, staleCount_false (by omega)]
    · rw [if_neg fun heq => hb heq.2, if_neg hb]
  constructor
  case core =>
    refine hcore.transfer ?_ ?_ ?_ rfl
    · cases isHot <;> rfl
    · cases isHot <;> rfl
    · cases isHot <;> rfl
  case page =>
    intro b p hb
    rw [hpage', if_neg fun heq => hb heq.1]
    exact c.page b p hb
  case copies =>
    intro p hp
    by_cases hpr : p = r
    · refine ⟨done, data, { spare with w1 := r }, spare, hdone, ?_, ?_, rfl, rfl, ?_⟩
      · rw [hpage', if_pos ⟨rfl, hpr⟩]
      · rw [← c.page db done hne, hpage]
      · rw [hmeta', if_pos hpr]
    · rw [hpage', if_neg fun heq => hpr heq.2, hmeta', if_neg hpr]
      exact c.copies p (by omega)
  case dirty =>
    intro b
    rw [hdirty', c.dirty]
    by_cases hb : b = db
    · rw [if_pos hb, if_pos hb, if_pos hb, Nat.add_assoc]
    · rw [if_neg hb, if_neg hb, if_neg hb]
  case entry =>
    intro a ha'
    rw [← c.entry a ha', DataView.entry_written c.core (Function.update_self _ _ _) hr hmapping'
      hpage' ha']
    split
    · next haw =>
        rw [haw]
        unfold DataView.entry
        rw [if_neg hvalid, hblock, hpg, hpage]
    · rfl
  case passed =>
    intro a ha' p hp
    rw [hmapping']
    by_cases haw : a = spare.w0
    · rw [if_pos haw, Ne, pmNodeSetBlockPage_inj (by omega) (by omega) (by omega) (by omega)]
      rintro ⟨rfl, _⟩
      exact hne rfl
    · rw [if_neg haw]
      by_cases hpd : p = done
      · -- the spare area of a page names the only page mapped to it
        intro heq
        rw [hpd] at heq
        have hvalid' : v.mapping a ≠ invalidPmNode := by
          rw [heq]
          exact pmNodeSetBlockPage_ne_invalid
        obtain ⟨_, _, _, _, data', spare', hprog, hw⟩ := c.core.mapped_word ha' hvalid'
        rw [heq, pmNodeBlock_set (by omega) (by omega), pmNodePage_set (by omega), hpage] at hprog
        obtain ⟨_, rfl⟩ : data = data' ∧ spare = spare' := by simpa using hprog
        exact haw hw.symm
      · exact c.passed a ha' p (by omega)
  case journal =>
    intro h
    rw [← c.journal h]
    cases isHot <;> cases h <;> rfl
  case reclaim =>
    have hword : v'.reclaimJournal = pmNodeSetBlockPage rb (r + 1) := by
      cases isHot <;> rfl
    unfold DataView.reclaimBlock
    rw [hword]
    exact ⟨pmNodeBlock_set (by omega) (by omega), pmNodePage_set (by omega)⟩
  case other =>
    rw [← c.other]
    cases isHot <;> rfl
  case api =>
    rw [← c.api]
    cases isHot <;> rfl
  case log =>
    obtain ⟨ops, hlog, hin, hmem⟩ := c.log
    refine ⟨.program rb r :: ops, ?_, ?_, ?_⟩
    · rw [List.cons_append, ← hlog]
      cases isHot <;> rfl
    · intro op hop
      rcases List.mem_cons.mp hop with rfl | hop
      · exact ⟨r, rfl⟩
      · exact hin op hop
    · intro p hp
      by_cases hpr : p = r
      · rw [hpr]
        exact List.mem_cons_self
      · exact List.mem_cons_of_mem _ (hmem p (by omega))

/-- The copied pages are all the pages that the count of the block left live. -/
theorem complete (c : Copying v₀ v isHot db rb r 63) (hv : Victim v₀ isHot db) (hne : db ≠ rb) :
    v.live db = 0 ∧ v₀.dirty db + r = 63 := by
  have hcap := Platform.ubiCapacity_le
  have hlive : v.live db = 0 := by
    refine Occupancy.eq_zero_iff.mpr fun a ha hblock => ?_
    have hvalid : v.mapping a ≠ invalidPmNode := by
      intro hinvalid
      rw [hinvalid, pmNodeBlock_invalid] at hblock
      have := hv.range
      omega
    obtain ⟨hword, _, _, hp, _⟩ := c.core.mapped_word ha hvalid
    rw [hblock] at hword
    exact c.passed a ha _ hp hword
  have hd := c.dirty db
  rw [if_pos rfl] at hd
  have hr := (c.core.range rb r (Function.update_self _ _ _)).2.2
  have hdirty := hv.dirty
  have hcount := c.core.count db hv.range.1 hv.range.2 (by simp only [backupFlag]; omega)
  rw [Function.update_of_ne hne, hv.closed, hlive, hd] at hcount
  exact ⟨hlive, by simpa using hcount⟩

end Copying

/-! ## The exchange of the blocks -/

/-- The view after block `db` was erased and became the reclaim block, and the
reclaim block became the journal of a stream. -/
def DataView.exchanged (v : DataView) (isHot : Bool) (db : Nat) : DataView :=
  ((((v.erase db).setJournal isHot v.reclaimJournal).setReclaim
    (pmNodeSetBlockPage db 0)).clearDirty db).clearDirty v.reclaimBlock

/-- The view after block `db`, without a live page, became a journal. -/
def DataView.recycled (v : DataView) (isHot : Bool) (db : Nat) : DataView :=
  ((v.erase db).setJournal isHot (pmNodeSetBlockPage db 0)).clearDirty db

/-- What a reclaim of block `db` leaves of a view; `rb` was the reclaim block. -/
structure DataReclaimed (v v' : DataView) (isHot : Bool) (db rb : Nat) : Prop where
  range : dataStartBlock ≤ db ∧ db < ubiCapacity
  closed : v.opened (some isHot) db = none
  victim : v.dirty db ≤ 63
  page : ∀ b p, b ≠ db → b ≠ rb → v'.page b p = v.page b p
  erased : ∀ p, v'.page db p = .erased
  copies : ∀ p data spare, p < 64 → v'.page rb p = .programmed data spare → ∃ p₀ spare₀, p₀ < 63 ∧
    v.page db p₀ = .programmed data spare₀ ∧ spare₀.w0 = spare.w0 ∧ spare₀.w2 = spare.w2
  dirty : ∀ b, b ≠ db → v'.dirty b = v.dirty b
  cleared : v'.dirty db = 0
  entry : ∀ a, a < ftlCapacity → v'.entry a = v.entry a
  room : v'.journalPage isHot = 63 - v.dirty db
  other : v'.journal (!isHot) = v.journal (!isHot)
  api : v'.api = v.api
  log : ∃ ops, v'.log = .erase db :: ops ++ v.log ∧ (∀ op ∈ ops, ∃ p, op = .program rb p) ∧
    ∀ p data spare, p < 64 → v'.page rb p = .programmed data spare → .program rb p ∈ ops

namespace DataInv

variable {v : DataView} {isHot : Bool} {db r : Nat}

/-- Nothing was live in the block. -/
theorem recycled (h : DataInv v (some isHot)) (hrange : dataStartBlock ≤ db ∧ db < ubiCapacity)
    (hne : db ≠ v.journalBlock (!isHot)) (hdirty : v.dirty db = 63) :
    DataInv (v.recycled isHot db) none ∧
      DataReclaimed v (v.recycled isHot db) isHot db v.reclaimBlock := by
  have hcap := Platform.ubiCapacity_le
  have hrb : db ≠ v.reclaimBlock := by
    rintro rfl
    rw [h.reclaim_clean] at hdirty
    omega
  have hclosed : v.opened (some isHot) db = none := by
    unfold DataView.opened
    rw [if_neg hrb]
    cases isHot
    · rw [if_neg fun heq => hne heq.2, if_neg (by simp)]
    · rw [if_neg (by simp), if_neg fun heq => hne heq.2]
  have hcount := h.core.count db hrange.1 hrange.2 (by rw [hdirty]; decide)
  rw [hclosed, hdirty] at hcount
  have hlive : v.live db = 0 := by simpa using hcount
  have hcore := h.core.erased hrange.1 hrange.2 hlive
  set v' := v.recycled isHot db with hv'
  have hjournal : ∀ i, v'.journal i = if i = isHot then pmNodeSetBlockPage db 0 else v.journal i := by
    intro i
    cases isHot <;> cases i <;> rfl
  have hblock : ∀ i, v'.journalBlock i = if i = isHot then db else v.journalBlock i := by
    intro i
    unfold DataView.journalBlock
    rw [hjournal]
    split
    · exact pmNodeBlock_set (by omega) (by omega)
    · rfl
  have hpg : ∀ i, v'.journalPage i = if i = isHot then 0 else v.journalPage i := by
    intro i
    unfold DataView.journalPage
    rw [hjournal]
    split
    · exact pmNodePage_set (by omega)
    · rfl
  have hreclaim : v'.reclaimBlock = v.reclaimBlock := by cases isHot <;> rfl
  have hpage : ∀ b p, v'.page b p = if b = db then .erased else v.page b p := by
    intro b p
    cases isHot <;> rfl
  have hdirty' : ∀ b, v'.dirty b = if b = db then 0 else v.dirty b := by
    intro b
    cases isHot <;> rfl
  have hmeta : ∀ i, v'.metaTable i = v.metaTable i := by
    intro i
    cases isHot <;> cases i <;> rfl
  constructor
  · constructor
    case core =>
      refine hcore.transfer ?_ ?_ ?_ ?_
      · cases isHot <;> rfl
      · cases isHot <;> rfl
      · cases isHot <;> rfl
      · funext b
        by_cases hb : b = db
        · rw [hb, Function.update_self]
          unfold DataView.opened
          rw [hreclaim, hblock, hblock, hpg, hpg, if_neg hrb]
          cases isHot
          · simp [show db ≠ v.journalBlock true from hne]
          · simp
        · rw [Function.update_of_ne hb]
          unfold DataView.opened
          rw [hreclaim, hblock, hblock, hpg, hpg]
          cases isHot <;> simp [hb]
    case apart =>
      rw [hblock, hblock]
      cases isHot
      · exact hne.symm
      · exact hne
    case reclaim_apart =>
      intro i
      rw [hblock, hreclaim]
      split
      · exact hrb
      · exact h.reclaim_apart i
    case reclaim_page => cases isHot <;> exact h.reclaim_page
    case reclaim_clean =>
      rw [hreclaim, hdirty', if_neg hrb.symm]
      exact h.reclaim_clean
    case range =>
      intro i
      rw [hblock]
      split
      · exact hrange
      · exact h.range i
    case noted =>
      intro i _ p hp data spare hprog
      rw [hpg] at hp
      split at hp
      · omega
      · next hi =>
          rw [hblock, if_neg hi, hpage] at hprog
          split at hprog
          · simp at hprog
          · rw [hmeta]
            exact h.noted i (fun heq => hi (Option.some_inj.mp heq).symm) p hp data spare hprog
  · constructor
    case range => exact hrange
    case closed => exact hclosed
    case victim => omega
    case page =>
      intro b p hb _
      rw [hpage, if_neg hb]
    case erased =>
      intro p
      rw [hpage, if_pos rfl]
    case copies =>
      intro p data spare hp hprog
      rw [hpage, if_neg hrb.symm, h.core.free _ 0 opened_reclaim p (Nat.zero_le _) hp] at hprog
      simp at hprog
    case dirty =>
      intro b hb
      rw [hdirty', if_neg hb]
    case cleared => rw [hdirty', if_pos rfl]
    case entry =>
      intro a ha
      refine DataView.entry_erase hlive ha ?_ ?_
      · cases isHot <;> rfl
      · intro b p hb
        rw [hpage, if_neg hb]
    case room => rw [hpg, if_pos rfl, hdirty]
    case other => rw [hjournal, if_neg (by simp)]
    case api => cases isHot <;> rfl
    case log =>
      refine ⟨[], ?_, by simp, ?_⟩
      · cases isHot <;> rfl
      · intro p data spare hp hprog
        rw [hpage, if_neg hrb.symm, h.core.free _ 0 opened_reclaim p (Nat.zero_le _) hp] at hprog
        simp at hprog

end DataInv

namespace Copying

variable {v₀ v : DataView} {isHot : Bool} {db r : Nat}

/-- All live pages were copied, and the emptied block is the new reclaim block. -/
theorem exchanged (c : Copying v₀ v isHot db v₀.reclaimBlock r 63) (h : DataInv v₀ (some isHot))
    (hv : Victim v₀ isHot db) :
    DataInv (v.exchanged isHot db) none ∧
      DataReclaimed v₀ (v.exchanged isHot db) isHot db v₀.reclaimBlock := by
  have hcap := Platform.ubiCapacity_le
  have hrange := hv.range
  have hrb := hv.apart
  obtain ⟨hlive, hcount⟩ := c.complete hv hrb
  have hr := (c.core.range _ r (Function.update_self _ _ _)).2.2
  have hother : db ≠ v₀.journalBlock (!isHot) := by
    rintro rfl
    have hopen := h.opened_journal (!isHot) (by cases isHot <;> simp)
    rw [hv.closed] at hopen
    simp at hopen
  have hcore := c.core.erased hrange.1 hrange.2 hlive
  obtain ⟨hreclaim, hrpage⟩ := c.reclaim
  set v' := v.exchanged isHot db with hv'
  have hjournal : ∀ i, v'.journal i = if i = isHot then v.reclaimJournal else v₀.journal i := by
    intro i
    rw [← c.journal]
    cases isHot <;> cases i <;> rfl
  have hblock : ∀ i, v'.journalBlock i =
      if i = isHot then v₀.reclaimBlock else v₀.journalBlock i := by
    intro i
    unfold DataView.journalBlock
    rw [hjournal]
    split
    · exact hreclaim
    · rfl
  have hpg : ∀ i, v'.journalPage i = if i = isHot then r else v₀.journalPage i := by
    intro i
    unfold DataView.journalPage
    rw [hjournal]
    split
    · exact hrpage
    · rfl
  have hword : v'.reclaimJournal = pmNodeSetBlockPage db 0 := by cases isHot <;> rfl
  have hreclaim' : v'.reclaimBlock = db := by
    unfold DataView.reclaimBlock
    rw [hword]
    exact pmNodeBlock_set (by omega) (by omega)
  have hpage : ∀ b p, v'.page b p = if b = db then .erased else v.page b p := by
    intro b p
    cases isHot <;> rfl
  have hdirty' : ∀ b, v'.dirty b = if b = db then 0 else v₀.dirty b := by
    intro b
    have hdef : v'.dirty b = if b = v.reclaimBlock then 0 else if b = db then 0 else v.dirty b := by
      cases isHot <;> rfl
    rw [hdef, hreclaim, c.dirty]
    by_cases hb : b = db
    · rw [hb, if_neg hrb, if_pos rfl, if_pos rfl]
    · rw [if_neg hb, if_neg hb, if_neg hb]
      split
      · next heq => rw [heq, h.reclaim_clean]
      · rfl
  have hmeta : ∀ i, v'.metaTable i = v.metaTable i := by
    intro i
    cases isHot <;> cases i <;> rfl
  have hcopied : ∀ p data spare, p < 64 → v'.page v₀.reclaimBlock p = .programmed data spare →
      p < r ∧ v.page v₀.reclaimBlock p = .programmed data spare := by
    intro p data spare hp hprog
    rw [hpage, if_neg hrb.symm] at hprog
    refine ⟨?_, hprog⟩
    by_contra hge
    rw [c.core.free _ r (Function.update_self _ _ _) p (by omega) hp] at hprog
    simp at hprog
  constructor
  · constructor
    case core =>
      refine hcore.transfer ?_ ?_ ?_ ?_
      · cases isHot <;> rfl
      · cases isHot <;> rfl
      · funext b
        rw [hdirty']
        change _ = if b = db then 0 else v.dirty b
        rw [c.dirty]
        by_cases hb : b = db
        · rw [if_pos hb, if_pos hb]
        · rw [if_neg hb, if_neg hb, if_neg hb]
      · funext b
        unfold DataView.opened
        rw [hreclaim', hblock, hblock, hpg, hpg]
        by_cases hb : b = db
        · rw [if_pos hb, hb, Function.update_self]
        · rw [if_neg hb, Function.update_of_ne hb]
          by_cases hbr : b = v₀.reclaimBlock
          · rw [hbr, Function.update_self]
            have hapart := h.reclaim_apart
            cases isHot
            · simp [(hapart true).symm]
            · simp
          · rw [Function.update_of_ne hbr]
            cases isHot <;> simp [hbr]
    case apart =>
      rw [hblock, hblock]
      cases isHot
      · exact h.reclaim_apart true
      · exact (h.reclaim_apart false).symm
    case reclaim_apart =>
      intro i
      rw [hblock, hreclaim']
      split
      · exact hrb.symm
      · next hi =>
          cases Bool.eq_not_of_ne hi
          exact hother.symm
    case reclaim_page =>
      rw [hword]
      exact pmNodePage_set (by omega)
    case reclaim_clean =>
      rw [hreclaim', hdirty', if_pos rfl]
    case range =>
      intro i
      rw [hblock]
      split
      · exact h.reclaim_range
      · exact h.range i
    case noted =>
      intro i _ p hp data spare hprog
      rw [hblock] at hprog
      rw [hpg] at hp
      rw [hmeta]
      by_cases hi : i = isHot
      · rw [if_pos hi] at hp hprog
        obtain ⟨_, hprog'⟩ := hcopied p data spare (by omega) hprog
        obtain ⟨_, data', spare', _, _, hcopy, _, _, _, hnoted⟩ := c.copies p hp
        rw [hprog'] at hcopy
        obtain ⟨_, rfl⟩ : data = data' ∧ spare = spare' := by simpa using hcopy
        rw [hi]
        exact hnoted
      · rw [if_neg hi] at hp hprog
        have hi' : i = !isHot := Bool.eq_not_of_ne hi
        have hne : v₀.journalBlock i ≠ db := by
          rw [hi']
          exact hother.symm
        rw [hpage, if_neg hne, c.page _ _ (h.reclaim_apart i)] at hprog
        have hnoted := h.noted i (fun heq => hi (Option.some_inj.mp heq).symm) p hp data spare hprog
        rw [hi', c.other, ← hi']
        exact hnoted
  · constructor
    case range => exact hrange
    case closed => exact hv.closed
    case victim =>
      have := hv.dirty
      omega
    case page =>
      intro b p hb hb'
      rw [hpage, if_neg hb, c.page b p hb']
    case erased =>
      intro p
      rw [hpage, if_pos rfl]
    case copies =>
      intro p data spare hp hprog
      obtain ⟨hpr, hprog'⟩ := hcopied p data spare hp hprog
      obtain ⟨p₀, data', spare', spare₀, hp₀, hcopy, hold, hw, hw', _⟩ := c.copies p hpr
      rw [hprog'] at hcopy
      obtain ⟨rfl, rfl⟩ : data = data' ∧ spare = spare' := by simpa using hcopy
      exact ⟨p₀, spare₀, hp₀, hold, hw, hw'⟩
    case dirty =>
      intro b hb
      rw [hdirty', if_neg hb]
    case cleared => rw [hdirty', if_pos rfl]
    case entry =>
      intro a ha
      rw [← c.entry a ha]
      refine DataView.entry_erase hlive ha ?_ ?_
      · cases isHot <;> rfl
      · intro b p hb
        rw [hpage, if_neg hb]
    case room =>
      rw [hpg, if_pos rfl]
      omega
    case other => rw [hjournal, if_neg (by simp)]
    case api =>
      rw [← c.api]
      cases isHot <;> rfl
    case log =>
      obtain ⟨ops, hlog, hin, hmem⟩ := c.log
      refine ⟨ops, ?_, hin, ?_⟩
      · rw [List.cons_append, ← hlog]
        cases isHot <;> rfl
      · intro p data spare hp hprog
        exact hmem p (hcopied p data spare hp hprog).1

end Copying

/-! ## The course of a reclaim -/

/-- From the first state to the second only RAM changed, data blocks were
programmed and erased, and commits were made, all with the same journals. -/
inductive Worked : FtlState → FtlState → Prop where
  | refl (s : FtlState) : Worked s s
  | ram {s t t' : FtlState} : Worked s t → t'.flash = t.flash → t'.past = t.past →
      t'.bdt = t.bdt → t'.root = t.root → t'.hdi = t.hdi →
      (∀ h, t'.rootTable.journal h = t.rootTable.journal h) → Worked s t'
  | program {s t : FtlState} {b p : Nat} {data : Buffer} {spare : Spare} : Worked s t →
      dataStartBlock ≤ b → Worked s (t.program b p data spare)
  | erase {s t : FtlState} {b : Nat} : Worked s t → dataStartBlock ≤ b → Worked s (t.erase b)
  | commit {s t t' : FtlState} {k : Nat} : Worked s t → BaseOk t k → DataCommitted t t' k →
      Worked s t'

namespace Worked

variable {s t u : FtlState} {k c : Nat}

theorem trans (h : Worked s t) (h' : Worked t u) : Worked s u := by
  induction h' with
  | refl => exact h
  | ram _ hflash hpast hbdt hroot hhdi hjournal ih =>
      exact ih.ram hflash hpast hbdt hroot hhdi hjournal
  | program _ hb ih => exact ih.program hb
  | erase _ hb ih => exact ih.erase hb
  | commit _ hok hcommit ih => exact ih.commit hok hcommit

theorem accessed (h : Worked s t) (ht : BaseOk t k) (ha : Accessed t u k c) : Worked s u := by
  obtain ⟨w, hw, honly⟩ := ha.start
  have hto : Worked s w := by
    rcases hw with rfl | hw
    · exact h
    · exact h.commit ht hw
  obtain ⟨nodes, hroot⟩ := honly.rootTable
  refine hto.ram honly.flash honly.past honly.bdt honly.root honly.hdi ?_
  intro i
  rw [hroot]
  cases i <;> rfl

end Worked

/-! ## One page -/

section

variable {v₀ : DataView} {s : FtlState} {isHot : Bool} {db rb r done : Nat} {buffer : Buffer}
  {E : Stop → Prop}

/-- The state after the meta data noted a copied page and the reclaim journal
went on. -/
def FtlState.reclaimNoted (s : FtlState) (isHot : Bool) (rb r addr : Nat) : FtlState :=
  { s with
    data := s.data.noteMeta isHot r addr r
    rootTable := { s.rootTable with reclaimJournal := pmNodeSetBlockPage rb (r + 1) } }

theorem FtlState.reclaimNoted_view (s : FtlState) (isHot : Bool) (rb r addr k : Nat)
    (hs : BaseOk s k) : BaseOk (s.reclaimNoted isHot rb r addr) k ∧
      (s.reclaimNoted isHot rb r addr).view =
        (s.view.setMeta isHot r { s.view.metaTable isHot r with w0 := addr, w1 := r }).setReclaim
          (pmNodeSetBlockPage rb (r + 1)) := by
  have hsame : SameBase s (s.reclaimNoted isHot rb r addr) :=
    ⟨⟨⟨rfl, rfl⟩, rfl, rfl, fun _ _ => rfl, fun _ _ _ _ => rfl⟩, fun _ _ _ => rfl, rfl, rfl, rfl⟩
  refine ⟨hsame.ok hs, ?_⟩
  cases isHot <;> rfl

theorem dataReclaimPage_spec (h : BaseOk s 63) (c : Copying v₀ s.view isHot db rb r done)
    (hv : Victim v₀ isHot db) (hne : db ≠ rb) (hrb : dataStartBlock ≤ rb ∧ rb < ubiCapacity)
    (hdone : done < 63) {data : Buffer} {spare : Spare}
    (hpage : v₀.page db done = .programmed data spare) (haddr : spare.w0 = buffer.spareAddr done)
    (hcapacity : spare.w0 < ftlCapacity) :
    wp (dataReclaimPage isHot db rb buffer done .success r) (fun res s' => res.1 = .success ∧
      BaseOk s' 63 ∧ Worked s s' ∧ Copying v₀ s'.view isHot db rb res.2 (done + 1)) E s := by
  have hcap := Platform.ubiCapacity_le
  have hrange := hv.range
  have hpage' : s.view.page db done = .programmed data spare := by
    rw [c.page _ _ hne, hpage]
  unfold dataReclaimPage
  rw [if_pos rfl, wp_bind, ← haddr]
  refine wp_mono_post (pmtSearch_spec h (clusterIndex_lt hcapacity)) ?_
  rintro _ t ⟨rfl, ht⟩
  have hview := ht.view h
  have hworked : Worked s t := (Worked.refl s).accessed h ht
  have hmapping := FtlState.view_mapping_eq (s := s) hcapacity
  simp only [true_and]
  by_cases hfound : wordLocation (s.mapping spare.w0) = (db, done)
  · have hvalid : s.mapping spare.w0 ≠ invalidPmNode := by
      intro hinvalid
      unfold wordLocation at hfound
      rw [if_neg (by simp [hinvalid])] at hfound
      simp only [invalidBlock, Prod.mk.injEq] at hfound
      omega
    have hloc : pmNodeBlock (s.mapping spare.w0) = db ∧ pmNodePage (s.mapping spare.w0) = done := by
      unfold wordLocation at hfound
      rw [if_pos hvalid] at hfound
      simpa using hfound
    obtain ⟨hword, _⟩ := c.core.mapped_word hcapacity (by rw [hmapping]; exact hvalid)
    rw [hmapping, hloc.1, hloc.2] at hword
    have hr := c.room hv hne hcapacity (by rw [hmapping]; exact hloc.1)
    have hfree := c.core.free rb r (Function.update_self _ _ _) r le_rfl (by omega)
    have hread : t.flash.page db done = .programmed data spare := by
      rw [← FtlState.view_page_eq hrange.1, hview]
      exact hpage'
    have hcopy := c.copy hv hne hrb hcapacity hdone (by rw [hmapping]; exact hword) hpage'
    set t₁ := t.program rb r data { spare with w1 := r } with ht₁
    have hok₁ : BaseOk t₁ 63 := (FtlState.program_base hrb.1).ok ht.ok
    have hview₁ : t₁.view = s.view.program rb r data { spare with w1 := r } := by
      rw [← hview]
      exact FtlState.view_program ht.ok hrb.1 (by rw [hview]; exact hfree)
    have hmapping₁ : t₁.mapping spare.w0 = s.mapping spare.w0 := by
      rw [← FtlState.view_mapping_eq hcapacity, hview₁, ← hmapping]
      rfl
    have hold : t₁.mapping spare.w0 = invalidPmNode ∨
        dataStartBlock ≤ pmNodeBlock (t₁.mapping spare.w0) := by
      rw [hmapping₁, hloc.1]
      exact .inr hrange.1
    have hnot : rb ≠ invalidBlock ∧ r ≠ invalidPage := by
      simp only [invalidBlock, invalidPage]
      omega
    rw [if_pos (congrArg some hfound)]
    simp only [wp_bind, wp_ubiRead_programmed hrange.2 (by omega : done < 64) hread, if_true,
      Option.getD_some, wp_ubiWrite hrb.2]
    refine wp_mono_post (pmtUpdate_spec (hok₁.complete 64) hcapacity hold (by simp [hnot])) ?_
    rintro _ w ⟨rfl, hok₂, hview₂, u, hu, rfl⟩
    have hupdated : updateWord rb r = pmNodeSetBlockPage rb r := if_pos hnot.1
    rw [hupdated] at hok₂ hview₂ ⊢
    rw [hview₁] at hview₂
    obtain ⟨hok₃, hview₃⟩ := FtlState.reclaimNoted_view _ isHot rb r spare.w0 63 hok₂
    rw [hview₂] at hview₃
    set t₂ := u.updated spare.w0 (pmNodeSetBlockPage rb r) false with ht₂
    have hworked₂ : Worked s t₂ := by
      refine ((hworked.program hrb.1).accessed (hok₁.complete 64) hu).ram rfl rfl rfl rfl rfl ?_
      intro i
      cases i <;> rfl
    have hworked₃ : Worked s (t₂.reclaimNoted isHot rb r spare.w0) := by
      refine hworked₂.ram rfl rfl rfl rfl rfl ?_
      intro i
      cases i <;> rfl
    have hcopy₃ : Copying v₀ (t₂.reclaimNoted isHot rb r spare.w0).view isHot db rb (r + 1)
        (done + 1) := by
      rw [hview₃]
      have hsame : ((s.view.program rb r data { spare with w1 := r }).update spare.w0
          (pmNodeSetBlockPage rb r) false).metaTable isHot = s.view.metaTable isHot := by
        cases isHot <;> rfl
      rw [hsame]
      exact hcopy
    simp only [wp_assert, if_true, wp_modify, wp_pure]
    exact ⟨rfl, hok₃, hworked₃, hcopy₃⟩
  · rw [if_neg fun heq => hfound (Option.some_inj.mp heq), wp_pure]
    refine ⟨rfl, ht.ok, hworked, ?_⟩
    rw [hview]
    apply c.skip
    intro a ha heq
    -- only the page that the spare area names can be mapped here
    obtain ⟨_, _, _, _, data', spare', hprog, hw⟩ := c.core.mapped_word ha (by
      rw [heq]
      exact pmNodeSetBlockPage_ne_invalid)
    rw [heq, pmNodeBlock_set (by omega) (by omega), pmNodePage_set (by omega), hpage'] at hprog
    obtain ⟨_, rfl⟩ : data = data' ∧ spare = spare' := by simpa using hprog
    apply hfound
    unfold wordLocation
    rw [hw, ← FtlState.view_mapping_eq ha, heq, if_pos pmNodeSetBlockPage_ne_invalid,
      pmNodeBlock_set (by omega) (by omega), pmNodePage_set (by omega)]

theorem dataReclaimPages_spec (n : Nat) (h : BaseOk s 63)
    (c : Copying v₀ s.view isHot db rb r done) (hv : Victim v₀ isHot db) (hne : db ≠ rb)
    (hrb : dataStartBlock ≤ rb ∧ rb < ubiCapacity) (hdone : done + n = 63)
    (hpages : ∀ p, p < 63 → ∃ data spare, v₀.page db p = .programmed data spare ∧
      spare.w0 = buffer.spareAddr p ∧ spare.w0 < ftlCapacity) :
    wp (dataReclaimPages isHot db rb buffer (List.range' done n) .success r) (fun res s' =>
      res.1 = .success ∧ BaseOk s' 63 ∧ Worked s s' ∧ Copying v₀ s'.view isHot db rb res.2 63)
      E s := by
  induction n generalizing done r s with
  | zero =>
      obtain rfl : done = 63 := by omega
      exact ⟨rfl, h, .refl s, c⟩
  | succ n ih =>
      obtain ⟨data, spare, hpage, haddr, hcapacity⟩ := hpages done (by omega)
      rw [List.range'_succ]
      unfold dataReclaimPages
      rw [wp_bind]
      refine wp_mono_post
        (dataReclaimPage_spec h c hv hne hrb (by omega) hpage haddr hcapacity) ?_
      rintro ⟨_, r'⟩ t ⟨rfl, ht, hworked, c'⟩
      refine wp_mono_post (ih ht c' (by omega)) ?_
      rintro res u ⟨hres, hu, hworked', c''⟩
      exact ⟨hres, hu, hworked.trans hworked', c''⟩

end

/-! ## The whole reclaim -/

namespace FtlState

variable (s : FtlState) (isHot : Bool) (db edition : Nat)

/-- The state after the erased block `db` took the place of the reclaim block,
and the reclaim block that of the journal. -/
def exchanged : FtlState :=
  { s with
    rootTable := { s.rootTable.setJournal isHot s.rootTable.reclaimJournal with
      reclaimJournal := pmNodeSetBlockPage db 0 }
    blockDirtyTable :=
      (s.blockDirtyTable.set db 0).set (pmNodeBlock s.rootTable.reclaimJournal) 0
    data := s.data.setEdition isHot edition }

/-- The state after the erased block `db` took the place of the journal. -/
def recycled : FtlState :=
  { s with
    rootTable := s.rootTable.setJournal isHot (pmNodeSetBlockPage db 0)
    blockDirtyTable := s.blockDirtyTable.set db 0
    data := s.data.setEdition isHot edition }

variable {s db} {k : Nat}

theorem exchanged_view (hs : BaseOk s k) (hdb : dataStartBlock ≤ db)
    (hrb : dataStartBlock ≤ s.view.reclaimBlock) :
    BaseOk ((s.erase db).exchanged isHot db edition) k ∧
      ((s.erase db).exchanged isHot db edition).view = s.view.exchanged isHot db := by
  have hdirty : ∀ b, ((s.erase db).exchanged isHot db edition).blockDirtyTable b =
      if b = s.view.reclaimBlock then 0 else if b = db then 0 else s.blockDirtyTable b := by
    intro b
    refine (Ram.set_apply _ _ _ _).trans ?_
    rw [Ram.set_apply]
    rfl
  have hsame : SameBase (s.erase db) ((s.erase db).exchanged isHot db edition) := by
    refine ⟨⟨⟨?_, rfl⟩, ?_, ?_, ?_, fun _ _ _ _ => rfl⟩, fun _ _ _ => rfl, rfl, rfl, rfl⟩
    · cases isHot <;> rfl
    · cases isHot <;> rfl
    · cases isHot <;> rfl
    · intro b hb
      rw [hdirty, if_neg (by omega), if_neg (by omega)]
      rfl
  have hok := (FtlState.erase_base hdb).ok hs
  refine ⟨hsame.ok hok, ?_⟩
  have herase := FtlState.view_erase hs hdb
  have hmapping := hsame.view_mapping hok
  rw [herase] at hmapping
  ext1
  case mapping =>
    rw [hmapping]
    cases isHot <;> rfl
  case page =>
    have hpage := congrArg DataView.page herase
    refine Eq.trans (Eq.trans ?_ hpage) ?_
    · rfl
    · cases isHot <;> rfl
  case dirty =>
    funext b
    have hdef : (s.view.exchanged isHot db).dirty b =
        if b = s.view.reclaimBlock then 0 else if b = db then 0 else s.view.dirty b := by
      cases isHot <;> rfl
    rw [hdef]
    change (if dataStartBlock ≤ b then _ else 0) =
      if b = s.view.reclaimBlock then 0 else if b = db then 0 else
        if dataStartBlock ≤ b then s.blockDirtyTable b else 0
    rw [hdirty]
    split_ifs <;> rfl
  case log =>
    have hlog := congrArg DataView.log herase
    refine Eq.trans (Eq.trans ?_ hlog) ?_
    · rfl
    · cases isHot <;> rfl
  all_goals cases isHot <;> rfl

theorem recycled_view (hs : BaseOk s k) (hdb : dataStartBlock ≤ db) :
    BaseOk ((s.erase db).recycled isHot db edition) k ∧
      ((s.erase db).recycled isHot db edition).view = s.view.recycled isHot db := by
  have hdirty : ∀ b, ((s.erase db).recycled isHot db edition).blockDirtyTable b =
      if b = db then 0 else s.blockDirtyTable b := fun b => Ram.set_apply _ _ _ _
  have hsame : SameBase (s.erase db) ((s.erase db).recycled isHot db edition) := by
    refine ⟨⟨⟨?_, rfl⟩, ?_, ?_, ?_, fun _ _ _ _ => rfl⟩, fun _ _ _ => rfl, rfl, rfl, rfl⟩
    · cases isHot <;> rfl
    · cases isHot <;> rfl
    · cases isHot <;> rfl
    · intro b hb
      rw [hdirty, if_neg (by omega)]
      rfl
  have hok := (FtlState.erase_base hdb).ok hs
  refine ⟨hsame.ok hok, ?_⟩
  have herase := FtlState.view_erase hs hdb
  have hmapping := hsame.view_mapping hok
  rw [herase] at hmapping
  ext1
  case mapping =>
    rw [hmapping]
    cases isHot <;> rfl
  case page =>
    have hpage := congrArg DataView.page herase
    refine Eq.trans (Eq.trans ?_ hpage) ?_
    · rfl
    · cases isHot <;> rfl
  case dirty =>
    funext b
    have hdef : (s.view.recycled isHot db).dirty b = if b = db then 0 else s.view.dirty b := by
      cases isHot <;> rfl
    rw [hdef]
    change (if dataStartBlock ≤ b then _ else 0) =
      if b = db then 0 else if dataStartBlock ≤ b then s.blockDirtyTable b else 0
    rw [hdirty]
    split_ifs <;> rfl
  case log =>
    have hlog := congrArg DataView.log herase
    refine Eq.trans (Eq.trans ?_ hlog) ?_
    · rfl
    · cases isHot <;> rfl
  all_goals cases isHot <;> rfl

end FtlState

/-- What `DATA_Reclaim` leaves. -/
structure ReclaimDone (s s' : FtlState) (isHot : Bool) : Prop where
  ok : BaseOk s' 63
  inv : DataInv s'.view none
  course : ∃ t, Worked s t ∧ s'.flash = t.flash ∧ s'.past = t.past ∧ s'.root = t.root
  moved : ∃ db, DataReclaimed s.view s'.view isHot db s.view.reclaimBlock ∧
    (s.view.CanReclaim isHot → 0 < s.view.dirty db)

section

variable {s : FtlState} {isHot : Bool} {E : Stop → Prop}

theorem blockDirtyTable_eq {b : Nat} (hb : dataStartBlock ≤ b) :
    s.blockDirtyTable b = s.view.dirty b := (if_pos hb).symm

/-- The search ends, at the reclaim block at the latest. -/
theorem dataVictim_ends (hd : DataInv s.view (some isHot)) :
    ∃ i, dataVictim s isHot = some i ∧ dataStartBlock ≤ i ∧ i < ubiCapacity ∧
      i ≠ s.view.journalBlock (!isHot) ∧ s.view.dirty i ≤ 63 ∧
      (s.view.CanReclaim isHot → 0 < s.view.dirty i) := by
  obtain ⟨hrb, hrb'⟩ := hd.reclaim_range
  have hsearch : ∀ b, dataStartBlock ≤ b → b < ubiCapacity → b ≠ s.view.journalBlock (!isHot) →
      s.view.dirty b ≤ 63 → ∃ i, dataVictim s isHot = some i ∧
        s.blockDirtyTable b ≤ s.blockDirtyTable i := by
    intro b hb hb' hne hle
    exact dataVictimFrom_max (by decide) (mem_dataBlocks.mpr ⟨hb, hb'⟩) hne
      (by rw [blockDirtyTable_eq hb]; exact hle)
  obtain ⟨i, hvictim, _⟩ := hsearch _ hrb hrb' (hd.reclaim_apart (!isHot)).symm
    (by rw [hd.reclaim_clean]; decide)
  have hsome : i ∈ dataBlocks ∧ i ≠ s.view.journalBlock (!isHot) ∧ s.blockDirtyTable i ≤ 63 :=
    dataVictimFrom_some hvictim
  obtain ⟨hmem, hother, hle⟩ := hsome
  obtain ⟨hi, hi'⟩ := mem_dataBlocks.mp hmem
  rw [blockDirtyTable_eq hi] at hle
  refine ⟨i, hvictim, hi, hi', hother, hle, ?_⟩
  rintro ⟨b, hb, hb', hne, hpos, hle'⟩
  obtain ⟨j, hj, hge⟩ := hsearch b hb hb' hne hle'
  rw [hvictim] at hj
  obtain rfl : i = j := Option.some_inj.mp hj
  rw [blockDirtyTable_eq hb, blockDirtyTable_eq hi] at hge
  omega

/-- The reclaim only stops when all that its search finds is the reclaim block. -/
theorem dataReclaim_ends (h : BaseOk s 63) (hd : DataInv s.view (some isHot))
    (hE : dataVictim s isHot = some s.view.reclaimBlock → ∀ e, E e) :
    wp (dataReclaim isHot) (fun ret s' => ret = .success ∧ ReclaimDone s s' isHot) E s := by
  have hcap := Platform.ubiCapacity_le
  obtain ⟨hrb, hrb'⟩ := hd.reclaim_range
  obtain ⟨i, hvictim, hi, hi', hother, hle, hstale⟩ := dataVictim_ends hd
  have hdirty : ∀ b, dataStartBlock ≤ b → s.blockDirtyTable b = s.view.dirty b :=
    fun b hb => blockDirtyTable_eq hb
  unfold dataReclaim
  by_cases hfull : s.view.dirty i = 63
  · obtain ⟨hinv, hmoved⟩ := hd.recycled ⟨hi, hi'⟩ hother hfull
    obtain ⟨hok, hview⟩ := FtlState.recycled_view isHot 0 h hi
    rw [← hview] at hinv hmoved
    have hdone : ReclaimDone s ((s.erase i).recycled isHot i 0) isHot :=
      ⟨hok, hinv, ⟨s.erase i, (Worked.refl s).erase hi, rfl, rfl, rfl⟩, i, hmoved, hstale⟩
    simp only [wp_bind, wp_ubiFlush, wp_get, hvictim, hdirty i hi, hfull, maxDirtyPages,
      Nat.sub_self, ne_eq, not_true_eq_false, if_false, wp_ubiErase, if_true, wp_modify, wp_pure,
      true_and]
    exact hdone
  · have htotal : maxDirtyPages - s.view.dirty i ≠ 0 := by
      simp only [maxDirtyPages]
      omega
    simp only [wp_bind, wp_ubiFlush, wp_get, hvictim, hdirty i hi, htotal, ne_eq,
      not_false_eq_true, if_true]
    have hreclaimBlock : pmNodeBlock s.rootTable.reclaimJournal = s.view.reclaimBlock := rfl
    by_cases hself : i = s.view.reclaimBlock
    · -- the reclaim block has no page to read the meta data from
      have hfree := hd.core.free _ 0 DataInv.opened_reclaim 63 (Nat.zero_le _) (by decide)
      rw [← hself, FtlState.view_page_eq hi] at hfree
      refine (wp_ubiRead_erased hi' (by decide) hfree).mpr ?_
      simp only [reduceCtorEq, if_false, wp_pure, wp_bind, wp_assert, hdirty i hi, htotal]
      exact hE (by rw [hvictim, hself]) _
    · have hv : Victim s.view isHot i := by
        refine ⟨⟨hi, hi'⟩, ?_, hself, by omega⟩
        unfold DataView.opened
        rw [if_neg hself]
        cases isHot
        · rw [if_neg fun heq => hother heq.2, if_neg (by simp)]
        · rw [if_neg (by simp), if_neg fun heq => hother heq.2]
      obtain ⟨table, spare, hlast, hpages⟩ := hd.core.closed i hi hi' hv.closed hfull
      rw [FtlState.view_page_eq hi] at hlast
      refine (wp_ubiRead_programmed hi' (by decide) hlast).mpr ?_
      simp only [if_true, wp_bind, Option.getD_some, hreclaimBlock, pagePerPhyBlock]
      rw [List.range_eq_range']
      refine wp_mono_post (dataReclaimPages_spec 63 h (Copying.start hd) hv hself ⟨hrb, hrb'⟩ rfl
        hpages) ?_
      rintro ⟨_, r⟩ t ⟨rfl, hok, hworked, c⟩
      obtain ⟨_, hcount⟩ := c.complete hv hself
      have hr : maxDirtyPages - s.view.dirty i = r := by
        simp only [maxDirtyPages]
        omega
      obtain ⟨hinv, hmoved⟩ := c.exchanged hd hv
      obtain ⟨hok', hview⟩ := FtlState.exchanged_view isHot (maxDirtyPages - s.view.dirty i)
        hok hi (by rw [c.reclaim.1]; exact hrb)
      rw [← hview] at hinv hmoved
      have hdone : ReclaimDone s
          ((t.erase i).exchanged isHot i (maxDirtyPages - s.view.dirty i)) isHot :=
        ⟨hok', hinv, ⟨t.erase i, hworked.erase hi, rfl, rfl, rfl⟩, i, hmoved, hstale⟩
      simp only [hdirty i hi, hr, wp_assert, if_true, wp_ubiErase, wp_modify, wp_pure, wp_bind,
        true_and]
      rw [hr] at hdone
      exact hdone

theorem dataReclaim_spec (h : BaseOk s 63) (hd : DataInv s.view (some isHot))
    (hE : ¬ s.view.CanReclaim isHot → ∀ e, E e) :
    wp (dataReclaim isHot) (fun ret s' => ret = .success ∧ ReclaimDone s s' isHot) E s := by
  refine dataReclaim_ends h hd fun hself => hE fun hcan => ?_
  obtain ⟨i, hvictim, _, _, _, _, hstale⟩ := dataVictim_ends hd
  rw [hvictim] at hself
  have hpos := hstale hcan
  rw [Option.some.inj hself, hd.reclaim_clean] at hpos
  omega

end

end RansomTag

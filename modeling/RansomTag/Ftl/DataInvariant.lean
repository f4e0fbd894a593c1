import RansomTag.Ftl.PmtAccess

/-!
# Invariant of the data blocks

Every mapped page is programmed with its logical address in its spare area, and
the dirty count of a block together with the live pages in it makes up the
pages written to the block.  A block that holds retained pages carries the
backup flag and is only bounded.
-/

namespace RansomTag

namespace DataView

variable (v : DataView)

def journal (isHot : Bool) : Nat := if isHot then v.hotJournal else v.coldJournal

def journalBlock (isHot : Bool) : Nat := pmNodeBlock (v.journal isHot)

def journalPage (isHot : Bool) : Nat := pmNodePage (v.journal isHot)

def reclaimBlock : Nat := pmNodeBlock v.reclaimJournal

def metaTable (isHot : Bool) : Ram Spare := if isHot then v.hotMeta else v.coldMeta

/-- The data and the link of the page that a logical page is mapped to. -/
def entry (a : Nat) : Option (Buffer × Nat) :=
  if v.mapping a = invalidPmNode then none
  else match v.page (pmNodeBlock (v.mapping a)) (pmNodePage (v.mapping a)) with
    | .programmed data spare => some (data, spare.w2)
    | _ => none

/-- How many logical pages are mapped to block `b`. -/
def live [Platform] (b : Nat) : Nat :=
  occupancy (fun a => pmNodeBlock (v.mapping a)) ftlCapacity b

/-! ## Changes -/

def program (b p : Nat) (data : Buffer) (spare : Spare) : DataView :=
  { v with
    page := fun b' p' => if b' = b ∧ p' = p then .programmed data spare else v.page b' p'
    log := .program b p :: v.log }

def erase (b : Nat) : DataView :=
  { v with
    page := fun b' p' => if b' = b then .erased else v.page b' p'
    log := .erase b :: v.log }

def clearDirty (b : Nat) : DataView :=
  { v with dirty := fun b' => if b' = b then 0 else v.dirty b' }

def setJournal (isHot : Bool) (w : Nat) : DataView :=
  if isHot then { v with hotJournal := w } else { v with coldJournal := w }

def setReclaim (w : Nat) : DataView := { v with reclaimJournal := w }

def setMeta (isHot : Bool) (p : Nat) (spare : Spare) : DataView :=
  if isHot then { v with hotMeta := v.hotMeta.set p spare }
  else { v with coldMeta := v.coldMeta.set p spare }

end DataView

theorem staleCount_false {count : Nat} (h : count < 255) :
    staleCount count false = count + 1 := by
  simp only [staleCount, Bool.false_eq_true, if_false]
  omega

theorem staleCount_true {count : Nat} (h : count < 256) :
    staleCount count true = if count < 128 then count + 128 else count := by
  have hall : ∀ c, c < 256 → c ||| 128 = if c < 128 then c + 128 else c := by decide +kernel
  simp only [staleCount, if_true, backupFlag]
  exact hall count h

/-- The data blocks, of which `opened` tells how far the open ones are written;
the others are full, and their last page names the pages before it. -/
structure DataCore [Platform] (v : DataView) (opened : Nat → Option Nat) : Prop where
  mapped : ∀ a, a < ftlCapacity → v.mapping a = invalidPmNode ∨
    ∃ b p, v.mapping a = pmNodeSetBlockPage b p ∧ dataStartBlock ≤ b ∧ b < ubiCapacity ∧ p < 63 ∧
      ∃ data spare, v.page b p = .programmed data spare ∧ spare.w0 = a
  range : ∀ b q, opened b = some q → dataStartBlock ≤ b ∧ b < ubiCapacity ∧ q ≤ 63
  filled : ∀ b q, opened b = some q → ∀ p, p < q →
    ∃ data spare, v.page b p = .programmed data spare ∧ spare.w0 < ftlCapacity
  free : ∀ b q, opened b = some q → ∀ p, q ≤ p → p < 64 → v.page b p = .erased
  closed : ∀ b, dataStartBlock ≤ b → b < ubiCapacity → opened b = none → v.dirty b ≠ 63 →
    ∃ table spare, v.page b 63 = .programmed table spare ∧ ∀ p, p < 63 →
      ∃ data spare, v.page b p = .programmed data spare ∧ spare.w0 = table.spareAddr p ∧
        spare.w0 < ftlCapacity
  count : ∀ b, dataStartBlock ≤ b → b < ubiCapacity → v.dirty b < backupFlag →
    v.dirty b + v.live b = (opened b).getD 63
  count_flagged : ∀ b, dataStartBlock ≤ b → b < ubiCapacity → backupFlag ≤ v.dirty b →
    v.dirty b - backupFlag + v.live b ≤ (opened b).getD 63

namespace DataCore

variable [Platform] {v : DataView} {opened opened' : Nat → Option Nat} {a b b' p q q' w : Nat}
  {data : Buffer} {spare : Spare} {isBackup : Bool}

/-- The invariant reads the mapping, the pages and the counts only. -/
theorem transfer {v' : DataView} (h : DataCore v opened) (hmapping : v'.mapping = v.mapping)
    (hpage : v'.page = v.page) (hdirty : v'.dirty = v.dirty) (hopened : opened' = opened) :
    DataCore v' opened' := by
  subst hopened
  obtain ⟨mapping, page, dirty, _⟩ := v'
  obtain rfl : mapping = v.mapping := hmapping
  obtain rfl : page = v.page := hpage
  obtain rfl : dirty = v.dirty := hdirty
  exact ⟨h.mapped, h.range, h.filled, h.free, h.closed, h.count, h.count_flagged⟩

theorem size_le (h : DataCore v opened) : (opened b).getD 63 ≤ 63 := by
  cases hb : opened b with
  | none => exact le_rfl
  | some q => exact (h.range b q hb).2.2

theorem dirty_lt (h : DataCore v opened) (hb : dataStartBlock ≤ b) (hb' : b < ubiCapacity) :
    v.dirty b < 192 := by
  have hsize := h.size_le (b := b)
  by_cases hflag : v.dirty b < backupFlag
  · simp only [backupFlag] at hflag
    omega
  · have := h.count_flagged b hb hb' (by omega)
    simp only [backupFlag] at this
    omega

/-- A mapped page lies below the end of its block. -/
theorem mapped_word (h : DataCore v opened) (ha : a < ftlCapacity)
    (hvalid : v.mapping a ≠ invalidPmNode) :
    v.mapping a = pmNodeSetBlockPage (pmNodeBlock (v.mapping a)) (pmNodePage (v.mapping a)) ∧
      dataStartBlock ≤ pmNodeBlock (v.mapping a) ∧ pmNodeBlock (v.mapping a) < ubiCapacity ∧
      pmNodePage (v.mapping a) < 63 ∧
      ∃ data spare, v.page (pmNodeBlock (v.mapping a)) (pmNodePage (v.mapping a)) =
        .programmed data spare ∧ spare.w0 = a := by
  have hcap := Platform.ubiCapacity_le
  rcases h.mapped a ha with hno | ⟨b, p, hword, hb, hb', hp, hpage⟩
  · exact absurd hno hvalid
  · have hblock : pmNodeBlock (v.mapping a) = b := by
      rw [hword, pmNodeBlock_set (by omega) (by omega)]
    have hpg : pmNodePage (v.mapping a) = p := by
      rw [hword, pmNodePage_set (by omega)]
    rw [hblock, hpg]
    exact ⟨hword, hb, hb', hp, hpage⟩

theorem mapped_block (h : DataCore v opened) (ha : a < ftlCapacity) :
    v.mapping a = invalidPmNode ∨ dataStartBlock ≤ pmNodeBlock (v.mapping a) := by
  by_cases hvalid : v.mapping a = invalidPmNode
  · exact .inl hvalid
  · exact .inr (h.mapped_word ha hvalid).2.1

theorem live_pos (ha : a < ftlCapacity) : 0 < v.live (pmNodeBlock (v.mapping a)) :=
  Occupancy.pos_of_mem ha rfl

/-- The counts when page `a` moves from its old block to the block of `w`. -/
theorem count_update (h : DataCore v opened) (v' : DataView) (isBackup : Bool) {grow : Nat → Nat}
    (ha : a < ftlCapacity) (hmapping : v'.mapping = (v.update a w isBackup).mapping)
    (hdirty : v'.dirty = (v.update a w isBackup).dirty)
    (hgrow : ∀ b, dataStartBlock ≤ b → b < ubiCapacity →
      (opened' b).getD 63 = (opened b).getD 63 + grow b)
    (hw : ∀ b, dataStartBlock ≤ b → b < ubiCapacity →
      (if pmNodeBlock w = b then 1 else 0) = grow b)
    (hb : dataStartBlock ≤ b) (hb' : b < ubiCapacity) :
    (v'.dirty b < backupFlag → v'.dirty b + v'.live b = (opened' b).getD 63) ∧
      (backupFlag ≤ v'.dirty b → v'.dirty b - backupFlag + v'.live b ≤ (opened' b).getD 63) := by
  have hcap := Platform.ubiCapacity_le
  have hsize := h.size_le (b := b)
  have hself : v'.mapping a = w := by
    rw [hmapping]
    exact if_pos rfl
  have hmove := Occupancy.move (f := fun j => pmNodeBlock (v.mapping j))
    (g := fun j => pmNodeBlock (v'.mapping j)) (b := b) ha
    (fun j _ hj => by
      rw [hmapping]
      exact congrArg pmNodeBlock (if_neg hj))
  change v'.live b + _ = v.live b + _ at hmove
  rw [hself, hw b hb hb'] at hmove
  rw [hgrow b hb hb']
  have hd : v'.dirty b = if v.mapping a ≠ invalidPmNode ∧ b = pmNodeBlock (v.mapping a) then
      staleCount (v.dirty b) isBackup else v.dirty b := by
    rw [hdirty]
    rfl
  have hcount := h.count b hb hb'
  have hflagged := h.count_flagged b hb hb'
  have hlt := h.dirty_lt hb hb'
  simp only [backupFlag] at hcount hflagged ⊢
  by_cases hstale : v.mapping a ≠ invalidPmNode ∧ b = pmNodeBlock (v.mapping a)
  · have hlive : 0 < v.live b := by
      rw [hstale.2]
      exact live_pos ha
    rw [if_pos hstale] at hd
    rw [if_pos hstale.2.symm] at hmove
    cases isBackup with
    | true =>
        rw [staleCount_true (by omega)] at hd
        split at hd <;> omega
    | false =>
        rw [staleCount_false (by omega)] at hd
        omega
  · rw [if_neg hstale] at hd
    have hne : ¬ pmNodeBlock (v.mapping a) = b := by
      intro heq
      apply hstale
      refine ⟨?_, heq.symm⟩
      intro hinvalid
      rw [hinvalid] at heq
      simp only [pmNodeBlock_invalid] at heq
      omega
    rw [if_neg hne] at hmove
    omega

/-- A block with 63 stale pages has no page left to go stale. -/
theorem dirty_update (h : DataCore v opened) (ha : a < ftlCapacity) (hb : dataStartBlock ≤ b)
    (hb' : b < ubiCapacity) (hnone : opened b = none)
    (hdirty : (v.update a w isBackup).dirty b ≠ 63) : v.dirty b ≠ 63 := by
  intro hd
  have hfull := h.count b hb hb' (by rw [hd]; decide)
  rw [hnone, hd] at hfull
  have hlive : v.live b = 0 := by simpa using hfull
  apply hdirty
  rw [← hd]
  refine if_neg ?_
  rintro ⟨_, heq⟩
  have hpos := live_pos (v := v) ha
  rw [← heq, hlive] at hpos
  omega

omit [Platform] in
theorem opened_block (hb : opened b = some q) (hq : q' = q + 1) :
    (Function.update opened b (some q') b').getD 63 =
      (opened b').getD 63 + if b = b' then 1 else 0 := by
  by_cases hbb : b' = b
  · rw [hbb, Function.update_self, if_pos rfl, hb, hq]
    rfl
  · rw [Function.update_of_ne hbb, if_neg (Ne.symm hbb), Nat.add_zero]

/-- Page `a` is written to the next page of an open block. -/
theorem written (h : DataCore v opened) (ha : a < ftlCapacity) (hb : opened b = some q)
    (hq : q < 63) (hspare : spare.w0 = a) :
    DataCore ((v.program b q data spare).update a (pmNodeSetBlockPage b q) isBackup)
      (Function.update opened b (some (q + 1))) := by
  have hcap := Platform.ubiCapacity_le
  obtain ⟨hrange, hrange', _⟩ := h.range b q hb
  have hfree := h.free b q hb q le_rfl (by omega)
  set v' := (v.program b q data spare).update a (pmNodeSetBlockPage b q) isBackup with hv'
  have hpage : ∀ b' p', v'.page b' p' =
      if b' = b ∧ p' = q then .programmed data spare else v.page b' p' := fun _ _ => rfl
  -- what was programmed before is still there
  have hkept : ∀ b' p' data' spare', v.page b' p' = .programmed data' spare' →
      v'.page b' p' = .programmed data' spare' := by
    intro b' p' data' spare' hp
    rw [hpage, if_neg, hp]
    rintro ⟨rfl, rfl⟩
    rw [hfree] at hp
    simp at hp
  have hcount : ∀ b', dataStartBlock ≤ b' → b' < ubiCapacity → _ := fun b' hb' hb'' =>
    h.count_update v' isBackup (w := pmNodeSetBlockPage b q) ha rfl rfl
      (fun _ _ _ => opened_block hb rfl)
      (fun _ _ _ => by rw [pmNodeBlock_set (by omega) (by omega)]) hb' hb''
  constructor
  case mapped =>
    intro a' ha'
    by_cases haa : a' = a
    · right
      refine ⟨b, q, if_pos haa, hrange, hrange', hq, data, spare, ?_, by rw [hspare, haa]⟩
      rw [hpage, if_pos ⟨rfl, rfl⟩]
    · have hmap : v'.mapping a' = v.mapping a' := if_neg haa
      rw [hmap]
      rcases h.mapped a' ha' with hno | ⟨b', p', hword, hb', hb'', hp', data', spare', hp, hw⟩
      · exact .inl hno
      · exact .inr ⟨b', p', hword, hb', hb'', hp', data', spare', hkept _ _ _ _ hp, hw⟩
  case range =>
    intro b' q' hb'
    by_cases hbb : b' = b
    · subst hbb
      rw [Function.update_self] at hb'
      obtain rfl : q + 1 = q' := by simpa using hb'
      exact ⟨hrange, hrange', by omega⟩
    · rw [Function.update_of_ne hbb] at hb'
      exact h.range b' q' hb'
  case filled =>
    intro b' q' hb' p' hp'
    by_cases hbb : b' = b
    · subst hbb
      rw [Function.update_self] at hb'
      obtain rfl : q + 1 = q' := by simpa using hb'
      by_cases hpq : p' = q
      · refine ⟨data, spare, ?_, by rw [hspare]; exact ha⟩
        rw [hpage, if_pos ⟨rfl, hpq⟩]
      · obtain ⟨data', spare', hp, hw⟩ := h.filled b' q hb p' (by omega)
        exact ⟨data', spare', hkept _ _ _ _ hp, hw⟩
    · rw [Function.update_of_ne hbb] at hb'
      obtain ⟨data', spare', hp, hw⟩ := h.filled b' q' hb' p' hp'
      exact ⟨data', spare', hkept _ _ _ _ hp, hw⟩
  case free =>
    intro b' q' hb' p' hp' hp''
    by_cases hbb : b' = b
    · subst hbb
      rw [Function.update_self] at hb'
      obtain rfl : q + 1 = q' := by simpa using hb'
      rw [hpage, if_neg (by omega)]
      exact h.free b' q hb p' (by omega) hp''
    · rw [Function.update_of_ne hbb] at hb'
      rw [hpage, if_neg fun heq => hbb heq.1]
      exact h.free b' q' hb' p' hp' hp''
  case closed =>
    intro b' hb' hb'' hnone hdirty
    have hbb : b' ≠ b := by
      rintro rfl
      rw [Function.update_self] at hnone
      simp at hnone
    rw [Function.update_of_ne hbb] at hnone
    obtain ⟨table, spare', hlast, hpages⟩ := h.closed b' hb' hb'' hnone
      (h.dirty_update (w := pmNodeSetBlockPage b q) ha hb' hb'' hnone hdirty)
    refine ⟨table, spare', hkept _ _ _ _ hlast, fun p' hp' => ?_⟩
    obtain ⟨data', spare', hp, hw⟩ := hpages p' hp'
    exact ⟨data', spare', hkept _ _ _ _ hp, hw⟩
  case count => exact fun b' hb' hb'' => (hcount b' hb' hb'').1
  case count_flagged => exact fun b' hb' hb'' => (hcount b' hb' hb'').2

/-- Page `a` is trimmed. -/
theorem trimmed (h : DataCore v opened) (ha : a < ftlCapacity) :
    DataCore (v.update a invalidPmNode isBackup) opened := by
  have hcap := Platform.ubiCapacity_le
  have hcount : ∀ b', dataStartBlock ≤ b' → b' < ubiCapacity → _ := fun b' hb' hb'' =>
    h.count_update (v.update a invalidPmNode isBackup) isBackup (w := invalidPmNode) ha rfl rfl
      (fun _ _ _ => (Nat.add_zero _).symm)
      (fun b _ hb => by
        rw [pmNodeBlock_invalid, if_neg]
        omega) hb' hb''
  refine ⟨?_, h.range, h.filled, h.free, ?_, fun b' hb' hb'' => (hcount b' hb' hb'').1,
    fun b' hb' hb'' => (hcount b' hb' hb'').2⟩
  · intro a' ha'
    by_cases haa : a' = a
    · exact .inl (if_pos haa)
    · have hmap : (v.update a invalidPmNode isBackup).mapping a' = v.mapping a' := if_neg haa
      rw [hmap]
      exact h.mapped a' ha'
  · intro b' hb' hb'' hnone hdirty
    exact h.closed b' hb' hb'' hnone (h.dirty_update ha hb' hb'' hnone hdirty)

/-- The last page of a full block is written, and names the pages before it. -/
theorem shut (h : DataCore v opened) {table : Ram Spare} (hb : opened b = some 63)
    (htable : ∀ p, p < 63 → ∀ data spare, v.page b p = .programmed data spare →
      (table p).w0 = spare.w0) :
    DataCore (v.program b 63 (.ofSpares table) spare) (Function.update opened b none) := by
  have hfree := h.free b 63 hb 63 le_rfl (by omega)
  have hkept : ∀ b' p' data' spare', v.page b' p' = .programmed data' spare' →
      (v.program b 63 (.ofSpares table) spare).page b' p' = .programmed data' spare' := by
    intro b' p' data' spare' hp
    change (if b' = b ∧ p' = 63 then _ else v.page b' p') = _
    rw [if_neg, hp]
    rintro ⟨rfl, rfl⟩
    rw [hfree] at hp
    simp at hp
  have hopen : ∀ b' q', Function.update opened b none b' = some q' →
      b' ≠ b ∧ opened b' = some q' := by
    intro b' q' hb'
    by_cases hbb : b' = b
    · rw [hbb, Function.update_self] at hb'
      simp at hb'
    · rw [Function.update_of_ne hbb] at hb'
      exact ⟨hbb, hb'⟩
  have hsize : ∀ b', (Function.update opened b none b').getD 63 = (opened b').getD 63 := by
    intro b'
    by_cases hbb : b' = b
    · rw [hbb, Function.update_self, hb]
      rfl
    · rw [Function.update_of_ne hbb]
  constructor
  case mapped =>
    intro a' ha'
    rcases h.mapped a' ha' with hno | ⟨b', p', hword, hb', hb'', hp', data', spare', hp, hw⟩
    · exact .inl hno
    · exact .inr ⟨b', p', hword, hb', hb'', hp', data', spare', hkept _ _ _ _ hp, hw⟩
  case range => exact fun b' q' hb' => h.range b' q' (hopen b' q' hb').2
  case filled =>
    intro b' q' hb' p' hp'
    obtain ⟨data', spare', hp, hw⟩ := h.filled b' q' (hopen b' q' hb').2 p' hp'
    exact ⟨data', spare', hkept _ _ _ _ hp, hw⟩
  case free =>
    intro b' q' hb' p' hp' hp''
    obtain ⟨hbb, hb'⟩ := hopen b' q' hb'
    change (if b' = b ∧ p' = 63 then _ else v.page b' p') = _
    rw [if_neg fun heq => hbb heq.1]
    exact h.free b' q' hb' p' hp' hp''
  case closed =>
    intro b' hb' hb'' hnone hdirty
    by_cases hbb : b' = b
    · refine ⟨.ofSpares table, spare, if_pos ⟨hbb, rfl⟩, fun p' hp' => ?_⟩
      obtain ⟨data', spare', hp, hw⟩ := h.filled b 63 hb p' hp'
      rw [← hbb] at hp
      refine ⟨data', spare', hkept _ _ _ _ hp, ?_, hw⟩
      rw [Buffer.spareAddr_ofSpares, htable p' hp' data' spare' (hbb ▸ hp)]
    · rw [Function.update_of_ne hbb] at hnone
      obtain ⟨table', spare', hlast, hpages⟩ := h.closed b' hb' hb'' hnone hdirty
      refine ⟨table', spare', hkept _ _ _ _ hlast, fun p' hp' => ?_⟩
      obtain ⟨data', spare', hp, hw⟩ := hpages p' hp'
      exact ⟨data', spare', hkept _ _ _ _ hp, hw⟩
  case count =>
    intro b' hb' hb'' hdirty
    rw [hsize]
    exact h.count b' hb' hb'' hdirty
  case count_flagged =>
    intro b' hb' hb'' hdirty
    rw [hsize]
    exact h.count_flagged b' hb' hb'' hdirty

/-- A block without live pages is erased and opened again. -/
theorem erased (h : DataCore v opened) (hb : dataStartBlock ≤ b) (hb' : b < ubiCapacity)
    (hlive : v.live b = 0) :
    DataCore ((v.erase b).clearDirty b) (Function.update opened b (some 0)) := by
  have hpage : ∀ b' p', ((v.erase b).clearDirty b).page b' p' =
      if b' = b then .erased else v.page b' p' := fun _ _ => rfl
  have hdirty' : ∀ b', ((v.erase b).clearDirty b).dirty b' =
      if b' = b then 0 else v.dirty b' := fun _ => rfl
  constructor
  case mapped =>
    intro a ha
    rcases h.mapped a ha with hno | ⟨b', p', hword, hrange, hrange', hp', data', spare', hp, hw⟩
    · exact .inl hno
    · refine .inr ⟨b', p', hword, hrange, hrange', hp', data', spare', ?_, hw⟩
      have hcap := Platform.ubiCapacity_le
      rw [hpage, if_neg, hp]
      rintro rfl
      refine Occupancy.eq_zero_iff.mp hlive a ha ?_
      rw [hword, pmNodeBlock_set (by omega) (by omega)]
  case range =>
    intro b' q' hopen
    by_cases hbb : b' = b
    · rw [hbb, Function.update_self] at hopen
      obtain rfl : 0 = q' := by simpa using hopen
      exact ⟨hbb ▸ hb, hbb ▸ hb', by omega⟩
    · rw [Function.update_of_ne hbb] at hopen
      exact h.range b' q' hopen
  case filled =>
    intro b' q' hopen p' hp'
    by_cases hbb : b' = b
    · rw [hbb, Function.update_self] at hopen
      obtain rfl : 0 = q' := by simpa using hopen
      omega
    · rw [Function.update_of_ne hbb] at hopen
      rw [hpage, if_neg hbb]
      exact h.filled b' q' hopen p' hp'
  case free =>
    intro b' q' hopen p' hp' hp''
    rw [hpage]
    split
    · rfl
    · next hbb =>
        rw [Function.update_of_ne hbb] at hopen
        exact h.free b' q' hopen p' hp' hp''
  case closed =>
    intro b' hrange hrange' hnone hdirty
    have hbb : b' ≠ b := by
      rintro rfl
      rw [Function.update_self] at hnone
      simp at hnone
    rw [Function.update_of_ne hbb] at hnone
    rw [hdirty', if_neg hbb] at hdirty
    simp only [hpage, if_neg hbb]
    exact h.closed b' hrange hrange' hnone hdirty
  case count =>
    intro b' hrange hrange' hdirty
    rw [hdirty'] at hdirty ⊢
    by_cases hbb : b' = b
    · rw [hbb, Function.update_self, if_pos rfl]
      change 0 + v.live b = _
      rw [hlive]
      rfl
    · rw [if_neg hbb] at hdirty ⊢
      rw [Function.update_of_ne hbb]
      exact h.count b' hrange hrange' hdirty
  case count_flagged =>
    intro b' hrange hrange' hdirty
    rw [hdirty'] at hdirty ⊢
    by_cases hbb : b' = b
    · rw [if_pos hbb] at hdirty
      simp at hdirty
    · rw [if_neg hbb] at hdirty ⊢
      rw [Function.update_of_ne hbb]
      exact h.count_flagged b' hrange hrange' hdirty

end DataCore

/-! ## Entries -/

namespace DataView

variable [Platform] {v v' : DataView} {opened : Nat → Option Nat} {a a' b q : Nat} {data : Buffer}
  {spare : Spare}

/-- An erased block without live pages takes no entry away. -/
theorem entry_erase {db : Nat} (hlive : v.live db = 0) (ha : a < ftlCapacity)
    (hmapping : v'.mapping = v.mapping)
    (hpage : ∀ b p, b ≠ db → v'.page b p = v.page b p) : v'.entry a = v.entry a := by
  have hblock := Occupancy.eq_zero_iff.mp hlive a ha
  unfold DataView.entry
  rw [hmapping, hpage _ _ hblock]

/-- A page written to an open block is the entry of its logical page, and the
other entries stay. -/
theorem entry_written (h : DataCore v opened) (hb : opened b = some q)
    (hq : q < 63)
    (hmapping : ∀ a', v'.mapping a' = if a' = a then pmNodeSetBlockPage b q else v.mapping a')
    (hpage : ∀ b' p', v'.page b' p' =
      if b' = b ∧ p' = q then .programmed data spare else v.page b' p')
    (ha' : a' < ftlCapacity) :
    v'.entry a' = if a' = a then some (data, spare.w2) else v.entry a' := by
  have hcap := Platform.ubiCapacity_le
  obtain ⟨_, hb', _⟩ := h.range b q hb
  unfold DataView.entry
  rw [hmapping]
  by_cases haa : a' = a
  · rw [if_pos haa, if_pos haa, if_neg pmNodeSetBlockPage_ne_invalid,
      pmNodeBlock_set (by omega) (by omega), pmNodePage_set (by omega), hpage, if_pos ⟨rfl, rfl⟩]
  · rw [if_neg haa, if_neg haa]
    by_cases hinvalid : v.mapping a' = invalidPmNode
    · rw [if_pos hinvalid, if_pos hinvalid]
    · obtain ⟨_, _, _, _, data', spare', hprog, _⟩ := h.mapped_word ha' hinvalid
      rw [if_neg hinvalid, if_neg hinvalid, hpage, if_neg]
      rintro ⟨heq, heq'⟩
      rw [heq, heq', h.free b q hb q le_rfl (by omega)] at hprog
      simp at hprog

omit [Platform] in
theorem entry_trimmed (isBackup : Bool) : (v.update a invalidPmNode isBackup).entry a' =
    if a' = a then none else v.entry a' := by
  have hmapping : (v.update a invalidPmNode isBackup).mapping a' =
      if a' = a then invalidPmNode else v.mapping a' := rfl
  unfold DataView.entry
  rw [hmapping]
  by_cases haa : a' = a
  · rw [if_pos haa, if_pos haa, if_pos rfl]
  · rw [if_neg haa, if_neg haa]
    rfl

/-- Every mapped page has its entry. -/
theorem entry_eq_none (h : DataCore v opened) (ha : a < ftlCapacity) :
    v.entry a = none ↔ v.mapping a = invalidPmNode := by
  unfold DataView.entry
  by_cases hinvalid : v.mapping a = invalidPmNode
  · simp [hinvalid]
  · obtain ⟨_, _, _, _, data', spare', hprog, _⟩ := h.mapped_word ha hinvalid
    simp [hinvalid, hprog]

end DataView

/-! ## Journals -/

namespace DataView

variable (v : DataView)

/-- How far the open blocks are written: the reclaim block not at all, and the
journals, of which that of stream `shut` may just have been closed. -/
def opened (shut : Option Bool) (b : Nat) : Option Nat :=
  if b = v.reclaimBlock then some 0
  else if shut ≠ some true ∧ b = v.journalBlock true then some (v.journalPage true)
  else if shut ≠ some false ∧ b = v.journalBlock false then some (v.journalPage false)
  else none

/-- The view after a page was written to the journal of a stream. -/
def wrote (isHot : Bool) (buffer : Buffer) (spare : Spare) (isBackup : Bool) : DataView :=
  let b := v.journalBlock isHot
  let q := v.journalPage isHot
  (((v.setMeta isHot q spare).program b q buffer spare).update spare.w0
    (pmNodeSetBlockPage b q) isBackup).setJournal isHot (pmNodeSetBlockPage b (q + 1))

/-- The view after the last page of the journal block was written. -/
def closed (isHot : Bool) : DataView :=
  v.program (v.journalBlock isHot) 63 (.ofSpares (v.metaTable isHot)) .null

end DataView

/-- The data layer between two calls, or, with `shut`, when the journal of a
stream has just been closed. -/
structure DataInv [Platform] (v : DataView) (shut : Option Bool) : Prop where
  core : DataCore v (v.opened shut)
  apart : v.journalBlock true ≠ v.journalBlock false
  reclaim_apart : ∀ h, v.journalBlock h ≠ v.reclaimBlock
  reclaim_page : pmNodePage v.reclaimJournal = 0
  reclaim_clean : v.dirty v.reclaimBlock = 0
  range : ∀ h, dataStartBlock ≤ v.journalBlock h ∧ v.journalBlock h < ubiCapacity
  noted : ∀ h, shut ≠ some h → ∀ p, p < v.journalPage h → ∀ data spare,
    v.page (v.journalBlock h) p = .programmed data spare → (v.metaTable h p).w0 = spare.w0

namespace DataInv

variable [Platform] {v : DataView} {shut : Option Bool} {isHot isBackup : Bool} {a : Nat}
  {data : Buffer} {spare : Spare}

theorem apart_not (h : DataInv v shut) (isHot : Bool) :
    v.journalBlock isHot ≠ v.journalBlock (!isHot) := by
  cases isHot
  · exact h.apart.symm
  · exact h.apart

omit [Platform] in
theorem opened_reclaim : v.opened shut v.reclaimBlock = some 0 := if_pos rfl

theorem opened_journal (h : DataInv v shut) (isHot : Bool) (hshut : shut ≠ some isHot) :
    v.opened shut (v.journalBlock isHot) = some (v.journalPage isHot) := by
  unfold DataView.opened
  rw [if_neg (h.reclaim_apart isHot)]
  cases isHot
  · rw [if_neg fun heq => h.apart heq.2.symm, if_pos ⟨hshut, rfl⟩]
  · rw [if_pos ⟨hshut, rfl⟩]

theorem reclaim_range (h : DataInv v shut) :
    dataStartBlock ≤ v.reclaimBlock ∧ v.reclaimBlock < ubiCapacity := by
  obtain ⟨hb, hb', _⟩ := h.core.range _ 0 opened_reclaim
  exact ⟨hb, hb'⟩

theorem reclaim_live (h : DataInv v shut) : v.live v.reclaimBlock = 0 := by
  obtain ⟨hb, hb'⟩ := h.reclaim_range
  have hcount := h.core.count _ hb hb' (by rw [h.reclaim_clean]; decide)
  rw [opened_reclaim, h.reclaim_clean] at hcount
  simpa using hcount

/-- No page is mapped to the reclaim block. -/
theorem mapping_reclaim (h : DataInv v shut) (ha : a < ftlCapacity) :
    pmNodeBlock (v.mapping a) ≠ v.reclaimBlock :=
  Occupancy.eq_zero_iff.mp h.reclaim_live a ha

theorem reclaim_dirty (h : DataInv v shut) (ha : a < ftlCapacity) {w : Nat} :
    (v.update a w isBackup).dirty v.reclaimBlock = 0 := by
  refine Eq.trans (if_neg ?_) h.reclaim_clean
  rintro ⟨_, heq⟩
  exact h.mapping_reclaim ha heq.symm

/-- Page `a` is written to a journal that is not full. -/
theorem wrote (h : DataInv v none) (ha : spare.w0 < ftlCapacity) (hq : v.journalPage isHot < 63) :
    DataInv (v.wrote isHot data spare isBackup) none := by
  have hcap := Platform.ubiCapacity_le
  obtain ⟨hb, hb'⟩ := h.range isHot
  have hopen := h.opened_journal isHot (by simp)
  have hblock : ∀ i, (v.wrote isHot data spare isBackup).journalBlock i = v.journalBlock i := by
    intro i
    cases isHot <;> cases i <;> first | rfl | exact pmNodeBlock_set (by omega) (by omega)
  have hpage : ∀ i, (v.wrote isHot data spare isBackup).journalPage i =
      if i = isHot then v.journalPage i + 1 else v.journalPage i := by
    intro i
    cases isHot <;> cases i <;> first | rfl | exact pmNodePage_set (by omega)
  have hreclaim : (v.wrote isHot data spare isBackup).reclaimBlock = v.reclaimBlock := by
    cases isHot <;> rfl
  have hpages : ∀ b p, (v.wrote isHot data spare isBackup).page b p =
      if b = v.journalBlock isHot ∧ p = v.journalPage isHot then .programmed data spare
      else v.page b p := by
    intro b p
    cases isHot <;> rfl
  have hmeta : ∀ i p, (v.wrote isHot data spare isBackup).metaTable i p =
      if i = isHot ∧ p = v.journalPage isHot then spare else v.metaTable i p := by
    intro i p
    cases isHot <;> cases i <;> simp [DataView.wrote, DataView.metaTable, DataView.setJournal,
      DataView.update, DataView.program, DataView.setMeta, Ram.set_apply]
  constructor
  case core =>
    have hcore : DataCore ((v.program (v.journalBlock isHot) (v.journalPage isHot) data spare).update
        spare.w0 (pmNodeSetBlockPage (v.journalBlock isHot) (v.journalPage isHot)) isBackup)
        (Function.update (v.opened none) (v.journalBlock isHot) (some (v.journalPage isHot + 1))) :=
      h.core.written ha hopen hq rfl
    refine hcore.transfer ?_ ?_ ?_ ?_
    · cases isHot <;> rfl
    · cases isHot <;> rfl
    · cases isHot <;> rfl
    · funext b
      unfold DataView.opened
      rw [hreclaim, hblock, hblock, hpage, hpage]
      by_cases hbb : b = v.journalBlock isHot
      · rw [hbb, Function.update_self, if_neg (h.reclaim_apart isHot)]
        cases isHot
        · rw [if_neg fun heq => h.apart heq.2.symm]
          simp
        · simp
      · rw [Function.update_of_ne hbb]
        cases isHot <;> simp [hbb]
  case apart =>
    rw [hblock, hblock]
    exact h.apart
  case reclaim_apart =>
    intro i
    rw [hblock, hreclaim]
    exact h.reclaim_apart i
  case reclaim_page =>
    cases isHot <;> exact h.reclaim_page
  case reclaim_clean =>
    rw [hreclaim]
    cases isHot <;> exact h.reclaim_dirty (w := 0) ha
  case range =>
    intro i
    rw [hblock]
    exact h.range i
  case noted =>
    intro i _ p hp data' spare' hprog
    rw [hblock, hpages] at hprog
    rw [hpage] at hp
    rw [hmeta]
    by_cases hi : i = isHot
    · subst hi
      rw [if_pos rfl] at hp
      by_cases hpq : p = v.journalPage i
      · rw [if_pos ⟨rfl, hpq⟩] at hprog ⊢
        obtain ⟨_, rfl⟩ : data = data' ∧ spare = spare' := by simpa using hprog
        rfl
      · rw [if_neg fun heq => hpq heq.2] at hprog ⊢
        exact h.noted i (by simp) p (by omega) data' spare' hprog
    · rw [if_neg hi] at hp
      have hne : v.journalBlock i ≠ v.journalBlock isHot := by
        cases Bool.eq_not_of_ne hi
        exact (h.apart_not isHot).symm
      rw [if_neg fun heq => hne heq.1] at hprog
      rw [if_neg fun heq => hi heq.1]
      exact h.noted i (by simp) p hp data' spare' hprog

/-- The journal is closed when its last data page is written. -/
theorem closed (h : DataInv v none) (hq : v.journalPage isHot = 63) :
    DataInv (v.closed isHot) (some isHot) := by
  have hopen := h.opened_journal isHot (by simp)
  rw [hq] at hopen
  constructor
  case core =>
    have htable : ∀ p, p < 63 → ∀ data spare,
        v.page (v.journalBlock isHot) p = .programmed data spare →
          (v.metaTable isHot p).w0 = spare.w0 := fun p hp =>
      h.noted isHot (by simp) p (by omega)
    refine (h.core.shut hopen htable).transfer rfl rfl rfl ?_
    · funext b
      change v.opened (some isHot) b = _
      unfold DataView.opened
      by_cases hbb : b = v.journalBlock isHot
      · rw [hbb, Function.update_self, if_neg (h.reclaim_apart isHot)]
        cases isHot
        · rw [if_neg fun heq => h.apart heq.2.symm]
          simp
        · rw [if_neg (by simp), if_neg fun heq => h.apart heq.2]
      · rw [Function.update_of_ne hbb]
        cases isHot <;> simp [hbb]
  case apart => exact h.apart
  case reclaim_apart => exact h.reclaim_apart
  case reclaim_page => exact h.reclaim_page
  case reclaim_clean => exact h.reclaim_clean
  case range => exact h.range
  case noted =>
    intro i hi p hp data spare hprog
    have hne : i ≠ isHot := by
      rintro rfl
      exact hi rfl
    have hblock : v.journalBlock i ≠ v.journalBlock isHot := by
      cases Bool.eq_not_of_ne hne
      exact (h.apart_not isHot).symm
    refine h.noted i (by simp) p hp data spare ?_
    rw [← hprog]
    exact (if_neg fun heq => hblock heq.1).symm

theorem trimmed (h : DataInv v none) (ha : a < ftlCapacity) :
    DataInv (v.update a invalidPmNode isBackup) none where
  core := (h.core.trimmed ha).transfer rfl rfl rfl rfl
  apart := h.apart
  reclaim_apart := h.reclaim_apart
  reclaim_page := h.reclaim_page
  reclaim_clean := h.reclaim_dirty ha
  range := h.range
  noted := h.noted

end DataInv

end RansomTag

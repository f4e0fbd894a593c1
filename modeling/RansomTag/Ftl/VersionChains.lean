import RansomTag.Ftl.ProgramOrder
import RansomTag.Ftl.Retention

/-!
# Version chains

The spare area of a page links it to the version that it replaced.  Writes with the
MFT tag keep every version in the chain, a write with the backup tag drops the one that it
replaces where there is an older one, and reads with the MFT tag walk along it.
-/

namespace RansomTag

open Program

/-! ## Histories of the pages -/

/-- The versions of a page that are to be kept, the newest first. -/
abbrev History := List Buffer

namespace History

/-- The versions before the newest one; the only version stands for its own. -/
def older (l : History) : History := if l.tail = [] then l else l.tail

/-- The versions after a write. -/
def next (l : History) (flag mft : Bool) (buffer : Buffer) : History :=
  if mft then buffer :: l else if flag then buffer :: l.older else [buffer]

/-- What `n` reads deliver that go one version back each, down to the oldest one. -/
def walk : History → Nat → List (Status × Option Buffer)
  | _, 0 => []
  | l, n + 1 => (.success, l.head?) :: walk l.older n

variable {l : History} {n k : Nat}

theorem length_older (h : l ≠ []) : l.older.length = max 1 (l.length - 1) := by
  cases l with
  | nil => exact absurd rfl h
  | cons current rest =>
      unfold older
      cases rest with
      | nil => rfl
      | cons => simp

theorem older_ne_nil (h : l ≠ []) : l.older ≠ [] := by
  intro hnil
  have hlength := length_older h
  rw [hnil, List.length_nil] at hlength
  omega

theorem getElem?_older (h : l ≠ []) :
    l.older[min k (l.older.length - 1)]? = l[min (k + 1) (l.length - 1)]? := by
  have hlength := length_older h
  cases l with
  | nil => exact absurd rfl h
  | cons current rest =>
      cases rest with
      | nil =>
          unfold older
          simp
      | cons second rest =>
          have holder : older (current :: second :: rest) = second :: rest := by simp [older]
          have hmin : min (k + 1) ((current :: second :: rest).length - 1) =
              min k ((second :: rest).length - 1) + 1 := by
            simp only [List.length_cons]
            omega
          rw [holder, hmin, List.getElem?_cons_succ]

/-- The `k`-th read of a walk delivers the `k`-th newest version, or the oldest one. -/
theorem walk_getElem? (h : l ≠ []) (hk : k < n) :
    (l.walk n)[k]? = some (.success, l[min k (l.length - 1)]?) := by
  induction n generalizing l k with
  | zero => exact absurd hk (Nat.not_lt_zero k)
  | succ n ih =>
      unfold walk
      cases k with
      | zero =>
          rw [Nat.zero_min, List.getElem?_cons_zero, List.head?_eq_getElem?]
      | succ k =>
          rw [List.getElem?_cons_succ, ih (older_ne_nil h) (by omega), getElem?_older h]

end History

abbrev HistoryStore := Nat → History

/-- What a call means for the histories. -/
def StoreCall.histories : StoreCall → HistoryStore → HistoryStore
  | .write addr buffer flag mft, store =>
      Function.update store addr (buffer.elim [] ((store addr).next flag mft))
  | .trim start last, store => fun a => if start ≤ a ∧ a ≤ last then [] else store a
  | .flush, store => store
  | .read _ _ _, store => store

/-! ## Links -/

section

variable [Platform]

/-- The links from `w` on lead to `w'`. -/
inductive DataView.Linked (v : DataView) : Nat → Nat → Prop where
  | here {w : Nat} (h : w ≠ invalidPmNode) : Linked v w w
  | next {w w' : Nat} {data : Buffer} {spare : Spare} (h : w ≠ invalidPmNode)
      (hpage : v.page (pmNodeBlock w) (pmNodePage w) = .programmed data spare)
      (hrest : Linked v spare.w2 w') : Linked v w w'

/-- The links from `w` on name pages with these versions. -/
def DataView.Chain (v : DataView) : Nat → History → Prop
  | w, [] => w = invalidPmNode
  | w, content :: rest => (dataStartBlock ≤ pmNodeBlock w ∧ pmNodeBlock w < ubiCapacity) ∧
      ∃ spare, v.page (pmNodeBlock w) (pmNodePage w) = .programmed content spare ∧
        v.Chain spare.w2 rest

/-- The pages that `w` links to are as they were. -/
def DataView.KeepsLinked (v v' : DataView) (w : Nat) : Prop :=
  ∀ w', v'.Linked w w' → dataStartBlock ≤ pmNodeBlock w' → ∀ data spare,
    v.page (pmNodeBlock w') (pmNodePage w') = .programmed data spare →
      v'.page (pmNodeBlock w') (pmNodePage w') = .programmed data spare

variable {v v' : DataView} {w : Nat} {l : History} {content : Buffer}

theorem DataView.Chain.valid (h : v.Chain w (content :: l)) : w ≠ invalidPmNode := by
  have hcap := Platform.ubiCapacity_le
  rintro rfl
  have hrange := h.1.2
  rw [pmNodeBlock_invalid] at hrange
  omega

theorem DataView.Chain.keep (h : v.Chain w l) (hkeep : v.KeepsLinked v' w) : v'.Chain w l := by
  induction l generalizing w with
  | nil => exact h
  | cons content l ih =>
      have hvalid := h.valid
      obtain ⟨hrange, spare, hpage, hrest⟩ := h
      have hpage' := hkeep w (.here hvalid) hrange.1 content spare hpage
      refine ⟨hrange, spare, hpage', ih hrest fun w' hlinked => ?_⟩
      exact hkeep w' (.next hvalid hpage' hlinked)

theorem DataView.Chain.of_page (h : v.Chain w l) (hpage : v'.page = v.page) : v'.Chain w l := by
  apply h.keep
  intro w' _ _ data spare hprog
  rw [hpage]
  exact hprog

/-! ## Erased blocks -/

/-- The operations between two flashes erase `b`. -/
def Flash.Erases (f f' : Flash) (b : Nat) : Prop := ∃ ops, f'.log = ops ++ f.log ∧ .erase b ∈ ops

theorem Flash.Step.programmed {f f' : Flash} (h : Flash.Step f f') : ∃ op : NandOp,
    f'.log = op :: f.log ∧ ∀ b p data spare, op ≠ .erase b →
      f.page b p = .programmed data spare → f'.page b p = .programmed data spare := by
  obtain ⟨op, hfits, rfl⟩ := h
  cases op with
  | program b' p' data' spare' =>
      refine ⟨.program b' p', rfl, fun b p data spare _ hprog => ?_⟩
      have hother : ¬ (b = b' ∧ p = p') := by
        rintro ⟨rfl, rfl⟩
        rw [hfits.2.2 p le_rfl hfits.2.1] at hprog
        simp at hprog
      change (f.program b' p' data' spare').page b p = _
      rw [Flash.page_program, if_neg hother]
      exact hprog
  | erase b' =>
      refine ⟨.erase b', rfl, fun b p data spare hno hprog => ?_⟩
      have hother : b ≠ b' := by
        rintro rfl
        exact hno rfl
      change (f.erase b').page b p = _
      rw [Flash.page_erase, if_neg hother]
      exact hprog

/-- A programmed page stays until its block is erased. -/
theorem Flash.Course.programmed {f f' : Flash} {b p : Nat} {data : Buffer} {spare : Spare}
    (h : Flash.Course f f') (hkept : ¬ f.Erases f' b)
    (hpage : f.page b p = .programmed data spare) : f'.page b p = .programmed data spare := by
  have hops : ∃ ops, f'.log = ops ++ f.log ∧
      (.erase b ∉ ops → f'.page b p = .programmed data spare) := by
    clear hkept
    induction h with
    | refl => exact ⟨[], rfl, fun _ => hpage⟩
    | tail _ hstep ih =>
        obtain ⟨ops, hlog, hprog⟩ := ih
        obtain ⟨op, hlog', hstays⟩ := hstep.programmed
        refine ⟨op :: ops, by rw [hlog', hlog, List.cons_append], fun hno => ?_⟩
        rw [List.mem_cons, not_or] at hno
        exact hstays b p data spare (fun heq => hno.1 heq.symm) (hprog hno.2)
  obtain ⟨ops, hlog, hdone⟩ := hops
  apply hdone
  intro hmem
  exact hkept ⟨ops, hlog, hmem⟩

/-- Nothing erases a block that a version before the current one of its page is in. -/
def KeepsOlder (s s' : FtlState) : Prop :=
  ∀ a data link w, a < ftlCapacity → s'.view.entry a = some (data, link) →
    s'.view.Linked link w → ¬ s.flash.Erases s'.flash (pmNodeBlock w)

variable {s s' : FtlState} {store : HistoryStore} {addr : Nat} {data : Buffer} {link : Nat}

theorem KeepsOlder.linked (h : KeepsOlder s s') (hcourse : Flash.Course s.flash s'.flash)
    (haddr : addr < ftlCapacity) (hentry : s'.view.entry addr = some (data, link)) :
    s.view.KeepsLinked s'.view link := by
  intro w hlinked hb data' spare hpage
  rw [FtlState.view_page_eq hb] at hpage ⊢
  exact hcourse.programmed (h addr data link w haddr hentry hlinked) hpage

/-! ## Runs -/

/-- The current version of each page links to the others. -/
structure KeepsHistories (s : FtlState) (store : HistoryStore) : Prop where
  inv : FtlInv s
  unmapped : ∀ a, a < ftlCapacity → store a = [] → s.view.mapping a = invalidPmNode
  current : ∀ a content rest, a < ftlCapacity → store a = content :: rest →
    ∃ link, s.view.entry a = some (content, link) ∧ s.view.Chain link rest

theorem KeepsHistories.of_view (h : KeepsHistories s store) (hinv : FtlInv s') (api : ApiRam)
    (hview : s'.view = { s.view with api := api }) : KeepsHistories s' store := by
  refine ⟨hinv, fun a ha hnil => ?_, fun a content rest ha hcons => ?_⟩
  · rw [hview]
    exact h.unmapped a ha hnil
  · obtain ⟨link, hentry, hchain⟩ := h.current a content rest ha hcons
    rw [hview]
    exact ⟨link, hentry, hchain.of_page rfl⟩

theorem KeepsHistories.mapped (h : KeepsHistories s store) (haddr : addr < ftlCapacity)
    (hne : store addr ≠ []) : s.view.mapping addr ≠ invalidPmNode := by
  intro hword
  rcases hstore : store addr with _ | ⟨content, rest⟩
  · exact hne hstore
  · obtain ⟨link, hentry, _⟩ := h.current addr content rest haddr hstore
    rw [(DataView.entry_eq_none h.inv.data.core haddr).mpr hword] at hentry
    simp at hentry

/-- A mapped page has its versions from its mapping word on. -/
theorem KeepsHistories.chain (h : KeepsHistories s store) (haddr : addr < ftlCapacity)
    (hmapped : s.view.mapping addr ≠ invalidPmNode) :
    store addr ≠ [] ∧ s.view.Chain (s.view.mapping addr) (store addr) := by
  obtain ⟨_, hb, hb', _, data, spare, hprog, _⟩ := h.inv.data.core.mapped_word haddr hmapped
  rcases hstore : store addr with _ | ⟨content, rest⟩
  · exact absurd (h.unmapped addr haddr hstore) hmapped
  · obtain ⟨link, hentry, hchain⟩ := h.current addr content rest haddr hstore
    unfold DataView.entry at hentry
    rw [if_neg hmapped, hprog] at hentry
    obtain ⟨rfl, rfl⟩ : data = content ∧ spare.w2 = link := by simpa using hentry
    exact ⟨List.cons_ne_nil _ _, ⟨hb, hb'⟩, spare, hprog, hchain⟩

theorem newLink_kept {isBackup mft : Bool} {old : Nat} (htag : isBackup = true ∨ mft = true)
    (hold : pmNodeBlock old < ubiCapacity) : newLink isBackup mft old = old := by
  have hcap := Platform.ubiCapacity_le
  unfold newLink
  rw [if_pos htag, if_neg (by omega)]

/-- The version that a backup tag keeps. -/
theorem DataView.Chain.oldLink {rest : History}
    (h : v.Chain (v.mapping addr) (content :: rest)) :
    v.Chain (v.oldLink addr false) (History.older (content :: rest)) := by
  obtain ⟨hrange, spare, hpage, hrest⟩ := h
  unfold DataView.oldLink
  rw [hpage]
  cases rest with
  | nil =>
      have hnone : spare.w2 = invalidPmNode := hrest
      simp only [hnone, ne_eq, not_true_eq_false, and_false, if_false]
      exact ⟨hrange, spare, hpage, hrest⟩
  | cons second rest =>
      have holder : History.older (content :: second :: rest) = second :: rest := by
        simp [History.older]
      simp only [hrest.valid, ne_eq, not_false_eq_true, and_self, if_true]
      rw [holder]
      exact hrest

/-- The link of a new page names the versions that its write keeps. -/
theorem KeepsHistories.newLink (h : KeepsHistories s store) (haddr : addr < ftlCapacity)
    {flag mft isBackup : Bool} {old : Nat} (hmft : mft = true → s.view.mapping addr ≠ invalidPmNode)
    (hold : s.view.OldVersion addr flag mft isBackup old) (buffer : Buffer) :
    ∃ rest, (store addr).next flag mft buffer = buffer :: rest ∧
      s.view.Chain (newLink isBackup mft old) rest := by
  unfold DataView.OldVersion at hold
  by_cases hword : s.view.mapping addr = invalidPmNode
  · -- without an old version a backup tag is dropped
    rw [if_pos hword] at hold
    have hmft' : mft = false := by
      cases mft with
      | false => rfl
      | true => exact absurd hword (hmft rfl)
    have hstore : store addr = [] := by
      by_contra hne
      exact h.mapped haddr hne hword
    subst hmft'
    rw [hstore, hold]
    refine ⟨[], ?_, newLink_untagged⟩
    cases flag <;> rfl
  · rw [if_neg hword] at hold
    obtain ⟨rfl, hlink⟩ := hold
    obtain ⟨hne, hchain⟩ := h.chain haddr hword
    cases mft with
    | true =>
        obtain ⟨_, _, hb', _, data, spare, hprog, _⟩ := h.inv.data.core.mapped_word haddr hword
        have hold : old = s.view.mapping addr := by
          rw [hlink (.inr rfl)]
          unfold DataView.oldLink
          rw [hprog]
          simp
        refine ⟨store addr, rfl, ?_⟩
        rw [newLink_kept (.inr rfl) (by rw [hold]; exact hb'), hold]
        exact hchain
    | false =>
        cases isBackup with
        | false => exact ⟨[], rfl, newLink_untagged⟩
        | true =>
            refine ⟨(store addr).older, rfl, ?_⟩
            have holder := History.older_ne_nil hne
            rcases hstore : store addr with _ | ⟨content, rest⟩
            · exact absurd hstore hne
            · rw [hstore] at hchain holder
              have hkept := hchain.oldLink
              rw [← hlink (.inl rfl)] at hkept
              rcases hrest : History.older (content :: rest) with _ | ⟨second, rest'⟩
              · exact absurd hrest holder
              · rw [hrest] at hkept
                rw [newLink_kept (.inl rfl) hkept.1.2]
                exact hkept

/-- The pages other than `addr` after a step that keeps their entries and the pages that
they link to. -/
theorem KeepsHistories.frame (h : KeepsHistories s store) (hinv : FtlInv s')
    (hentry : ∀ a, a < ftlCapacity → a ≠ addr → s'.view.entry a = s.view.entry a)
    (hkeep : ∀ a content link, a < ftlCapacity → s'.view.entry a = some (content, link) →
      s.view.KeepsLinked s'.view link) {next : History}
    (hnil : next = [] → s'.view.entry addr = none)
    (hcons : ∀ content rest, next = content :: rest →
      ∃ link, s'.view.entry addr = some (content, link) ∧ s.view.Chain link rest)
    (haddr : addr < ftlCapacity) : KeepsHistories s' (Function.update store addr next) := by
  refine ⟨hinv, fun a ha hstore => ?_, fun a content rest ha hstore => ?_⟩
  · rw [← DataView.entry_eq_none hinv.data.core ha]
    by_cases hsame : a = addr
    · rw [hsame, Function.update_self] at hstore
      rw [hsame]
      exact hnil hstore
    · rw [Function.update_of_ne hsame] at hstore
      rw [hentry a ha hsame, DataView.entry_eq_none h.inv.data.core ha]
      exact h.unmapped a ha hstore
  · by_cases hsame : a = addr
    · rw [hsame, Function.update_self] at hstore
      obtain ⟨link, hlink, hchain⟩ := hcons content rest hstore
      rw [hsame]
      exact ⟨link, hlink, hchain.keep (hkeep addr content link haddr hlink)⟩
    · rw [Function.update_of_ne hsame] at hstore
      obtain ⟨link, hlink, hchain⟩ := h.current a content rest ha hstore
      rw [← hentry a ha hsame] at hlink
      exact ⟨link, hlink, hchain.keep (hkeep a content link ha hlink)⟩

theorem KeepsHistories.trimmedPage {flag mft : Bool} (h : KeepsHistories s store)
    (hwritten : Written s s' addr none flag mft) (haddr : addr < ftlCapacity)
    (hq : StartsNonFull s addr) : KeepsHistories s' (Function.update store addr []) := by
  have hinv := hwritten.inv h.inv haddr hq
  obtain ⟨isBackup, old, _, hrest⟩ := hwritten
  have hview : (s.touched addr).view = s.view := FtlState.touched_same.1
  have hentry : ∀ a, s'.view.entry a = if a = addr then none else s.view.entry a := by
    intro a
    rw [hrest.view, DataView.entry_trimmed, hview]
  have hpage : s'.view.page = s.view.page := by
    rw [hrest.view, hview]
    rfl
  apply h.frame hinv
  · intro a _ hne
    rw [hentry, if_neg hne]
  · intro _ _ _ _ _ w _ _ data spare hprog
    rw [hpage]
    exact hprog
  · intro _
    rw [hentry, if_pos rfl]
  · intro content rest hcons
    simp at hcons
  · exact haddr

theorem KeepsHistories.written {buffer : Buffer} {flag mft : Bool} (h : KeepsHistories s store)
    (hwritten : Written s s' addr (some buffer) flag mft) (haddr : addr < ftlCapacity)
    (hq : StartsNonFull s addr) (hmft : mft = true → s.view.mapping addr ≠ invalidPmNode)
    (hcourse : Flash.Course s.flash s'.flash) (hkeep : KeepsOlder s s') :
    KeepsHistories s' (Function.update store addr ((store addr).next flag mft buffer)) := by
  have hinv := hwritten.inv h.inv haddr hq
  obtain ⟨isBackup, old, hold, hrest⟩ := hwritten
  have hview : (s.touched addr).view = s.view := FtlState.touched_same.1
  rw [startsNonFull_iff, ← hview] at hq
  have hentry : ∀ a, a < ftlCapacity → s'.view.entry a =
      if a = addr then some (buffer, RansomTag.newLink isBackup mft old)
      else s.view.entry a := by
    intro a ha
    rw [hrest.entry h.inv.touched haddr hq ha, hview]
  obtain ⟨rest, hnext, hchain⟩ := h.newLink haddr hmft hold buffer
  rw [hnext]
  apply h.frame hinv
  · intro a ha hne
    rw [hentry a ha, if_neg hne]
  · intro a content link ha hlink
    exact hkeep.linked hcourse ha hlink
  · intro hnil
    simp at hnil
  · intro content rest' hcons
    obtain ⟨rfl, rfl⟩ : buffer = content ∧ rest = rest' := by simpa using hcons
    refine ⟨_, ?_, hchain⟩
    rw [hentry addr haddr, if_pos rfl]
  · exact haddr

theorem TrimmedRun.keepsHistories {n start : Nat} (h : TrimmedRun n start s s')
    (hs : KeepsHistories s store) (hcap : start + n ≤ ftlCapacity) :
    KeepsHistories s' fun a => if start ≤ a ∧ a < start + n then [] else store a := by
  induction h generalizing store with
  | @nil start s =>
      have hsame : (fun a => if start ≤ a ∧ a < start + 0 then [] else store a) = store := by
        funext a
        rw [if_neg (by omega)]
      rw [hsame]
      exact hs
  | @cons n start s t s' hstart hwritten _ ih =>
      have hnext := ih (hs.trimmedPage hwritten (by omega) hstart) (by omega)
      have hsame : (fun a => if start ≤ a ∧ a < start + (n + 1) then [] else store a) = fun a =>
          if start + 1 ≤ a ∧ a < start + 1 + n then []
          else Function.update store start [] a := by
        funext a
        by_cases haa : a = start
        · rw [haa, if_pos (by omega), if_neg (by omega), Function.update_self]
        · have hiff : start ≤ a ∧ a < start + (n + 1) ↔
              start + 1 ≤ a ∧ a < start + 1 + n := by omega
          simp only [hiff, Function.update_of_ne haa]
      rw [hsame]
      exact hnext

theorem KeepsHistories.trim {start last : Nat} (h : KeepsHistories s store)
    (hlast : last < ftlCapacity) (hq : TrimsNonFull (last + 1 - start) start s) :
    wp (ftlTrim start last)
      (fun _ s' => KeepsHistories s' fun a => if start ≤ a ∧ a ≤ last then [] else store a)
      (fun _ => True) s := by
  by_cases hrange : start ≤ last
  · have hcap : start + (last + 1 - start) ≤ ftlCapacity := by omega
    apply wp_mono_post (ftlTrimFrom_spec h.inv hcap hq)
    rintro _ s' ⟨_, htrimmed⟩
    have hdone := htrimmed.keepsHistories h hcap
    have hiff : ∀ a, a < start + (last + 1 - start) ↔ a ≤ last := by omega
    simp only [hiff] at hdone
    exact hdone
  · -- an empty range: the loop does not run
    have hnone : last + 1 - start = 0 := by omega
    have hsame : (fun a => if start ≤ a ∧ a ≤ last then [] else store a) = store := by
      funext a
      rw [if_neg (by omega)]
    unfold ftlTrim
    rw [hnone, hsame]
    exact h

/-- A write with the MFT tag is of a mapped page, and a write erases no block that an
older version is in. -/
def StoreCall.SparesVersions (c : StoreCall) (s : FtlState) : Prop :=
  match c with
  | .write addr (some _) _ mft => (mft = true → s.view.mapping addr ≠ invalidPmNode) ∧
      ∀ ret s', c.exec s = .ok (ret, s') → KeepsOlder s s'
  | _ => True

/-- The calls of the interface, with the histories that they leave. -/
def historyCalls : Commands FtlState Stop Status StoreCall HistoryStore where
  exec := StoreCall.exec
  Allowed c s := c.Allowed s ∧ c.SparesVersions s
  model := StoreCall.histories

/-- The first mount of a device; no page has a version. -/
structure FirstHistories (s : FtlState) (store : HistoryStore) : Prop where
  mount : FirstMount s fun _ => none
  empty : store = fun _ => []

/-- The states of a mount without power loss, each with the histories of the pages. -/
abbrev HistoryRun : FtlState → HistoryStore → Prop := historyCalls.Run FirstHistories

theorem FirstHistories.keepsHistories (h : FirstHistories s store) : KeepsHistories s store := by
  have hmounted := h.mount.mounted
  refine ⟨hmounted.inv, fun a _ _ => hmounted.unmapped a, fun a content rest _ hcons => ?_⟩
  rw [h.empty] at hcons
  simp at hcons

/-- One case for each call. -/
theorem historyCalls_keeps : historyCalls.Keeps KeepsHistories := by
  rintro c s store h ⟨hallowed, hspares⟩
  cases c with
  | write addr buffer flag mft =>
      obtain ⟨haddr, hq⟩ := hallowed
      apply wp_of_ok_imp
      intro ret s' hrun
      have hspec : wp (ftlWrite addr buffer flag mft) _ (fun _ => True) s :=
        ftlWrite_spec h.inv haddr hq fun _ _ => trivial
      obtain ⟨_, hwritten⟩ := of_wp_ok hspec hrun
      cases buffer with
      | none => exact h.trimmedPage hwritten haddr hq
      | some buffer =>
          obtain ⟨hmft, hkeep⟩ := hspares
          have hcourse := of_wp_ok (ftlWrite_inOrder h.inv haddr hq) hrun
          exact h.written hwritten haddr hq hmft hcourse (hkeep ret s' hrun)
  | trim start last => exact h.trim hallowed.1 hallowed.2
  | flush =>
      apply wp_mono_post (ftlFlush_spec h.inv.base)
      rintro _ s' ⟨_, hcommit⟩
      exact h.of_view (hcommit.inv h.inv) s.api (hcommit.view h.inv.base.tables h.inv.base.pmt)
  | read addr flag mft =>
      change wp (StoreCall.read addr flag mft).exec _ _ _
      unfold StoreCall.exec
      rw [wp_bind]
      apply wp_mono_post (ftlRead_any h.inv.base hallowed)
      intro _ s' hdone
      exact h.of_view (hdone.inv h.inv) s'.api (hdone.view h.inv.base)

theorem HistoryRun.keepsHistories (h : HistoryRun s store) : KeepsHistories s store :=
  h.keeps (fun _ _ => FirstHistories.keepsHistories) historyCalls_keeps

/-! ## The cursor -/

/-- The cursor of `FTL_Read` is not on the page, nor on the one before it. -/
structure CursorAway (s : FtlState) (addr : Nat) : Prop where
  next : addr ≠ (s.api.lastAddr + 1) % 4294967296
  other : s.api.lastpage ≠ pmNodePage (s.view.mapping addr) ∨
    s.api.lastblock ≠ pmNodeBlock (s.view.mapping addr)

/-- The cursor is on the page, and the versions `l` are to be read. -/
structure CursorOn (s : FtlState) (addr : Nat) (l : History) : Prop where
  lastAddr : s.api.lastAddr = addr
  lastpage : s.api.lastpage = pmNodePage (s.view.mapping addr)
  lastblock : s.api.lastblock = pmNodeBlock (s.view.mapping addr)
  nonempty : l ≠ []
  chain : s.view.Chain s.api.backupmft l

/-- The next read of the page with the MFT tag delivers the first of the versions `l`. -/
def Awaits (s : FtlState) (addr : Nat) (l : History) : Prop :=
  CursorAway s addr ∧ l ≠ [] ∧ s.view.Chain (s.view.mapping addr) l ∨ CursorOn s addr l

section

variable {t : FtlState} {l : History} {E : Stop → Prop} {n k : Nat}

theorem addr_ne_next (haddr : addr < ftlCapacity) : addr ≠ (addr + 1) % 4294967296 := by
  have hlt : addr < pmtClusterCount * 1024 := haddr.trans_le ftlCapacity_le
  have hcount := pmtClusterCount_le
  omega

/-- The word of the cursor behind the version that `link` is in. -/
theorem DataView.Chain.older {link : Nat} {rest : History} (hword : v.Chain w (content :: rest))
    (h : v.Chain link rest) :
    v.Chain (if link = invalidPmNode ∨ pmNodeBlock link > 2048 then w else link)
        (History.older (content :: rest)) ∧
      v.Chain (if pmNodeBlock link < 2049 then link else w) (History.older (content :: rest)) := by
  have hcap := Platform.ubiCapacity_le
  cases rest with
  | nil =>
      obtain rfl : link = invalidPmNode := h
      exact ⟨hword, hword⟩
  | cons second rest =>
      have holder : History.older (content :: second :: rest) = second :: rest := by
        simp [History.older]
      have hvalid := h.valid
      have hrange := h.1.2
      rw [holder, if_neg (by omega), if_pos (by omega)]
      exact ⟨h, h⟩

theorem wp_ubiRead_chain {rest : History} (h : s.view.Chain w (content :: rest)) :
    ∃ spare, s.view.Chain spare.w2 rest ∧ ∀ (Q : ReadResult → FtlState → Prop) (t : FtlState),
      t.flash = s.flash → (wp (ubiRead (pmNodeBlock w) (pmNodePage w)) Q E t ↔
        Q ⟨.success, some content, some spare⟩ t) := by
  obtain ⟨⟨hb, hb'⟩, spare, hpage, hrest⟩ := h
  have hpageLt : pmNodePage w < 64 := by
    unfold pmNodePage
    omega
  rw [FtlState.view_page_eq hb] at hpage
  refine ⟨spare, hrest, fun Q t hflash => ?_⟩
  rw [← hflash] at hpage
  exact wp_ubiRead_programmed hb' hpageLt hpage

/-- The first read of a page: it delivers the current version. -/
theorem ftlReadMft_first {content : Buffer} {rest : History} (hnext : CursorAway s addr)
    (hchain : s.view.Chain (s.view.mapping addr) (content :: rest))
    (hword : s.view.mapping addr = pmNodeSetBlockPage (pmNodeBlock (s.view.mapping addr))
      (pmNodePage (s.view.mapping addr))) :
    wp (ftlReadMft addr (pmNodeBlock (s.view.mapping addr)) (pmNodePage (s.view.mapping addr)))
      (fun r s' => r = (.success, some content) ∧ ∃ api, s' = { s with api := api } ∧
        CursorOn s' addr (History.older (content :: rest))) E s := by
  unfold ftlReadMft
  simp only [wp_bind, wp_get, wp_modify, if_neg hnext.next, if_pos hnext.other, ← hword]
  obtain ⟨spare, hrest, hread⟩ := wp_ubiRead_chain (E := E) hchain
  refine (hread _ _ ?_).mpr ?_
  · rfl
  unfold spareAfter
  simp only [wp_pure, true_and]
  have holder := (hchain.older hrest).1
  exact ⟨_, rfl, rfl, rfl, rfl, History.older_ne_nil (List.cons_ne_nil _ _),
    holder.of_page rfl⟩

/-- Each further read goes one version back. -/
theorem ftlReadMft_next {content : Buffer} {rest : History} (haddr : addr < ftlCapacity)
    (h : CursorOn s addr (content :: rest)) :
    wp (ftlReadMft addr (pmNodeBlock (s.view.mapping addr)) (pmNodePage (s.view.mapping addr)))
      (fun r s' => r = (.success, some content) ∧ ∃ api, s' = { s with api := api } ∧
        CursorOn s' addr (History.older (content :: rest))) E s := by
  have hnext := addr_ne_next haddr
  have hsame : ¬ (s.api.lastpage ≠ pmNodePage (s.view.mapping addr) ∨
      s.api.lastblock ≠ pmNodeBlock (s.view.mapping addr)) := by
    simp [h.lastpage, h.lastblock]
  have hon := h.lastAddr
  unfold ftlReadMft
  simp only [wp_bind, wp_get, wp_modify, hon, if_neg hnext, if_neg hsame]
  obtain ⟨spare, hrest, hread⟩ := wp_ubiRead_chain (E := E) h.chain
  refine (hread _ _ ?_).mpr ?_
  · rfl
  have holder := (h.chain.older hrest).2
  have hne : History.older (content :: rest) ≠ [] :=
    History.older_ne_nil (List.cons_ne_nil _ _)
  unfold spareAfter
  simp only [wp_pure]
  by_cases hlink : pmNodeBlock spare.w2 < 2049
  · rw [if_pos hlink] at holder
    simp only [if_pos hlink, wp_bind, wp_modify, wp_pure, true_and]
    exact ⟨_, rfl, rfl, h.lastpage, h.lastblock, hne, holder.of_page rfl⟩
  · rw [if_neg hlink] at holder
    simp only [if_neg hlink, wp_pure, true_and]
    exact ⟨_, rfl, rfl, h.lastpage, h.lastblock, hne, holder.of_page rfl⟩

/-! ## Series of reads -/

/-- The mapping words lead to the histories. -/
structure ReadsHistories (s : FtlState) (store : HistoryStore) (k : Nat) : Prop where
  base : BaseOk s k
  data : DataInv s.view none
  mapped : ∀ a, a < ftlCapacity → store a ≠ [] → s.view.mapping a ≠ invalidPmNode
  chain : ∀ a, a < ftlCapacity → store a ≠ [] → s.view.Chain (s.view.mapping a) (store a)

theorem KeepsHistories.reads (h : KeepsHistories s store) : ReadsHistories s store 63 :=
  ⟨h.inv.base, h.inv.data, fun _ => h.mapped, fun _ ha hne => (h.chain ha (h.mapped ha hne)).2⟩

theorem ReadsHistories.after (h : ReadsHistories s store k) (hdone : ReadDone s t k addr) :
    ReadsHistories t store k ∧ t.view.mapping = s.view.mapping := by
  have hview := hdone.view h.base
  have hmapping : t.view.mapping = s.view.mapping := by rw [hview]
  refine ⟨⟨hdone.base, ?_, fun a ha hne => ?_, fun a ha hne => ?_⟩, hmapping⟩
  · rw [hview]
    exact h.data.with_api _
  · rw [hmapping]
    exact h.mapped a ha hne
  · rw [hmapping]
    apply (h.chain a ha hne).of_page
    rw [hview]

theorem Awaits.of_view (h : Awaits s addr l) (hview : t.view = s.view) : Awaits t addr l := by
  have hapi : t.api = s.api := congrArg DataView.api hview
  rcases h with ⟨⟨hnext, hother⟩, hne, hchain⟩ | ⟨hlast, hpage, hblock, hne, hchain⟩
  · left
    rw [← hview] at hother hchain
    rw [← hapi] at hnext hother
    exact ⟨⟨hnext, hother⟩, hne, hchain⟩
  · right
    rw [← hview] at hpage hblock hchain
    rw [← hapi] at hlast hpage hblock hchain
    exact ⟨hlast, hpage, hblock, hne, hchain⟩

/-- A read with the MFT tag delivers the first version that is awaited. -/
theorem ftlRead_awaits (hs : ReadsHistories s store k) (haddr : addr < ftlCapacity)
    (hne : store addr ≠ []) (h : Awaits s addr l) :
    wp (ftlRead addr false true) (fun r s' => r = (.success, l.head?) ∧ ReadDone s s' k addr ∧
      CursorOn s' addr l.older) E s := by
  have hmapped := hs.mapped addr haddr hne
  obtain ⟨hword, _⟩ := hs.data.core.mapped_word haddr hmapped
  unfold ftlRead
  rw [wp_bind]
  apply wp_mono_post (pmtSearch_spec hs.base (clusterIndex_lt haddr))
  rintro _ t ⟨rfl, ht⟩
  have hview := ht.view hs.base
  have hlocation : wordLocation (s.mapping addr) =
      (pmNodeBlock (t.view.mapping addr), pmNodePage (t.view.mapping addr)) := by
    rw [hview, ← FtlState.view_mapping_eq haddr]
    exact if_pos hmapped
  rw [← hview] at hword
  simp only [wp_bind, wp_pure, Bool.true_eq_false, false_and, if_false, if_true, hlocation]
  have hdone : ∀ api, ReadDone s { t with api := api } k addr := fun api =>
    ⟨t, api, t.unset, ht, rfl⟩
  have hawaits := h.of_view hview
  rcases l with _ | ⟨content, rest⟩
  · rcases h with ⟨_, hnil, _⟩ | hon
    · exact absurd rfl hnil
    · exact absurd rfl hon.nonempty
  · rcases hawaits with ⟨haway, _, hchain⟩ | hon
    · apply wp_mono_post (ftlReadMft_first haway hchain hword)
      rintro _ _ ⟨rfl, api, rfl, hcursor⟩
      exact ⟨rfl, hdone api, hcursor⟩
    · apply wp_mono_post (ftlReadMft_next haddr hon)
      rintro _ _ ⟨rfl, api, rfl, hcursor⟩
      exact ⟨rfl, hdone api, hcursor⟩

/-- `n` reads of a page with the MFT tag, one after the other. -/
def ftlMftReads (addr : Nat) : Nat → Ftl (List (Status × Option Buffer))
  | 0 => pure []
  | n + 1 => do
      let r ← ftlRead addr false true
      let rs ← ftlMftReads addr n
      pure (r :: rs)

/-- Series of such reads, each of a page and of a length. -/
def ftlMftSeries : List (Nat × Nat) → Ftl (List (List (Status × Option Buffer)))
  | [] => pure []
  | read :: reads => do
      let rs ← ftlMftReads read.1 read.2
      let rss ← ftlMftSeries reads
      pure (rs :: rss)

theorem ftlMftReads_spec (hs : ReadsHistories s store k) (haddr : addr < ftlCapacity)
    (hne : store addr ≠ []) (h : Awaits s addr l) :
    wp (ftlMftReads addr (n + 1)) (fun rs s' => rs = l.walk (n + 1) ∧ ReadsHistories s' store k ∧
      ∃ l', CursorOn s' addr l') E s := by
  induction n generalizing s l with
  | zero =>
      unfold ftlMftReads
      rw [wp_bind]
      apply wp_mono_post (ftlRead_awaits hs haddr hne h)
      rintro _ u ⟨rfl, hdone, hcursor⟩
      exact ⟨rfl, (hs.after hdone).1, _, hcursor⟩
  | succ n ih =>
      unfold ftlMftReads
      rw [wp_bind]
      apply wp_mono_post (ftlRead_awaits hs haddr hne h)
      rintro _ u ⟨rfl, hdone, hcursor⟩
      have hnext := ih (hs.after hdone).1 (.inr hcursor)
      rw [wp_bind]
      apply wp_mono_post hnext
      rintro _ u' ⟨rfl, hreads, l', hon⟩
      exact ⟨rfl, hreads, l', hon⟩

/-- Two mapped pages do not share a place. -/
theorem ReadsHistories.away {addr' : Nat} (h : ReadsHistories s store k)
    (hon : CursorOn s addr l) (haddr : addr < ftlCapacity) (haddr' : addr' < ftlCapacity)
    (hne : store addr ≠ []) (hne' : store addr' ≠ []) (hother : addr' ≠ addr)
    (hnext : addr' ≠ addr + 1) : CursorAway s addr' := by
  obtain ⟨_, _, _, _, _, spare, hprog, hw⟩ :=
    h.data.core.mapped_word haddr (h.mapped addr haddr hne)
  obtain ⟨_, _, _, _, _, spare', hprog', hw'⟩ :=
    h.data.core.mapped_word haddr' (h.mapped addr' haddr' hne')
  have hlt : addr < pmtClusterCount * 1024 := haddr.trans_le ftlCapacity_le
  have hcount := pmtClusterCount_le
  constructor
  · rw [hon.lastAddr]
    omega
  · rw [hon.lastpage, hon.lastblock]
    by_contra hboth
    obtain ⟨hpage, hblock⟩ := not_or.mp hboth
    rw [not_not.mp hpage, not_not.mp hblock, hprog'] at hprog
    obtain ⟨_, rfl⟩ := PageState.programmed.inj hprog
    exact hother (hw'.symm.trans hw)

/-- Each series leaves the cursor on its own page, which is away from the next one. -/
theorem ftlMftSeries_spec {reads : List (Nat × Nat)} (hs : ReadsHistories s store k)
    (haway : ∀ read ∈ reads.head?, CursorAway s read.1)
    (hreads : ∀ read ∈ reads, read.1 < ftlCapacity ∧ store read.1 ≠ [] ∧ 0 < read.2)
    (hapart : reads.IsChain fun read read' => read'.1 ≠ read.1 ∧ read'.1 ≠ read.1 + 1) :
    wp (ftlMftSeries reads) (fun rss _ => rss = reads.map fun read =>
      (store read.1).walk read.2) E s := by
  induction reads generalizing s with
  | nil => exact rfl
  | cons read reads ih =>
      obtain ⟨haddr, hne, hpos⟩ := hreads read List.mem_cons_self
      have hawaits : Awaits s read.1 (store read.1) :=
        .inl ⟨haway read rfl, hne, hs.chain read.1 haddr hne⟩
      obtain ⟨n, hn⟩ : ∃ n, read.2 = n + 1 := ⟨read.2 - 1, by omega⟩
      unfold ftlMftSeries
      rw [wp_bind, hn]
      apply wp_mono_post (ftlMftReads_spec hs haddr hne hawaits)
      rintro _ u ⟨rfl, hu, l', hon⟩
      have hnext : ∀ read' ∈ reads.head?, CursorAway u read'.1 := by
        intro read' hhead
        have hmem : read' ∈ reads := List.mem_of_mem_head? hhead
        obtain ⟨haddr', hne', _⟩ := hreads read' (List.mem_cons_of_mem _ hmem)
        obtain ⟨hother, hbehind⟩ := (List.isChain_cons.mp hapart).1 read' hhead
        exact hu.away hon haddr haddr' hne hne' hother hbehind
      have hrest := ih hu hnext (fun read' hmem => hreads read' (List.mem_cons_of_mem _ hmem))
        (List.isChain_cons.mp hapart).2
      rw [wp_bind]
      apply wp_mono_post hrest
      rintro _ _ rfl
      rw [List.map_cons, hn]
      exact rfl

/-- As long as no block of an older version was erased, series of reads with the MFT
tag deliver the versions of their pages, each from the newest one to the oldest one. -/
theorem mftReads_return_versions {reads : List (Nat × Nat)} (h : HistoryRun s store)
    (haway : ∀ read ∈ reads.head?, CursorAway s read.1)
    (hreads : ∀ read ∈ reads, read.1 < ftlCapacity ∧ store read.1 ≠ [] ∧ 0 < read.2)
    (hapart : reads.IsChain fun read read' => read'.1 ≠ read.1 ∧ read'.1 ≠ read.1 + 1) :
    ∃ s', ftlMftSeries reads s =
      .ok (reads.map fun read => (store read.1).walk read.2, s') := by
  have hkeeps : KeepsHistories s store := HistoryRun.keepsHistories h
  have hspec : wp (ftlMftSeries reads) _ (fun _ => False) s :=
    ftlMftSeries_spec hkeeps.reads haway hreads hapart
  obtain ⟨_, s', hrun, rfl⟩ := exists_ok_of_wp hspec
  exact ⟨s', hrun⟩

end

/-! ## Runs that can be computed -/

/-- Whether nothing was erased since the flash was `f`. -/
def Flash.erasesNothing (f f' : Flash) : Bool :=
  (f'.log.take (f'.log.length - f.log.length)).all fun op => decide (op ≠ .erase op.block)

/-- The state after a write that starts with neither journal full and erases nothing. -/
def FtlState.afterVersion (s : FtlState) (addr : Nat) (buffer : Buffer) (mft : Bool) :
    Option FtlState :=
  if (s.NonFull ∧ addr < ftlCapacity) ∧ (mft = true → s.view.mapping addr ≠ invalidPmNode) then
    (ftlSucceeded (ftlWrite addr (some buffer) false mft s)).filter fun s' =>
      s.flash.erasesNothing s'.flash
  else none

omit [Platform] in
theorem Flash.not_erases {f f' : Flash} (h : f.erasesNothing f' = true) (b : Nat) :
    ¬ f.Erases f' b := by
  rintro ⟨ops, hlog, hmem⟩
  unfold Flash.erasesNothing at h
  rw [hlog, List.length_append, Nat.add_sub_cancel, List.take_left, List.all_eq_true] at h
  have hno := h _ hmem
  simp at hno

theorem HistoryRun.afterVersion {buffer : Buffer} {mft : Bool} (h : HistoryRun s store)
    (hafter : s.afterVersion addr buffer mft = some s') :
    HistoryRun s' (Function.update store addr ((store addr).next false mft buffer)) := by
  obtain ⟨⟨⟨hnonFull, haddr⟩, hmft⟩, hrest⟩ := Option.ite_none_right_eq_some.mp hafter
  obtain ⟨hdone, hnothing⟩ := Option.filter_eq_some_iff.mp hrest
  have hwrite := ftlSucceeded_eq_some hdone
  have hallowed : historyCalls.Allowed (.write addr (some buffer) false mft) s := by
    refine ⟨⟨haddr, hnonFull.starts⟩, hmft, fun ret u hrun => ?_⟩
    obtain ⟨_, rfl⟩ : Status.success = ret ∧ s' = u := by
      have hexec : ftlWrite addr (some buffer) false mft s = .ok (ret, u) := hrun
      rw [hwrite] at hexec
      simpa using hexec
    intro _ _ _ _ _ _ _
    exact Flash.not_erases hnothing _
  exact .step h hallowed hwrite

end

section

attribute [local instance] k9wag08

/-- Page 5 is written three times and page 9 twice, but for the first time with the MFT
tag. -/
def ftlVersioned : Option FtlState :=
  ftlFirstMount.bind fun s =>
    (s.afterVersion 5 (.bytes (.const 1)) false).bind fun s =>
      (s.afterVersion 9 (.bytes (.const 2)) false).bind fun s =>
        (s.afterVersion 5 (.bytes (.const 3)) true).bind fun s =>
          (s.afterVersion 5 (.bytes (.const 4)) true).bind fun s =>
            s.afterVersion 9 (.bytes (.const 5)) true

theorem ftlVersioned_run {s : FtlState} (h : ftlVersioned = some s) : ∃ store, HistoryRun s store ∧
    store 5 = [.bytes (.const 4), .bytes (.const 3), .bytes (.const 1)] ∧
    store 9 = [.bytes (.const 5), .bytes (.const 2)] := by
  obtain ⟨s₀, hstart, hrest⟩ := Option.bind_eq_some_iff.mp h
  obtain ⟨s₁, h₁, hrest⟩ := Option.bind_eq_some_iff.mp hrest
  obtain ⟨s₂, h₂, hrest⟩ := Option.bind_eq_some_iff.mp hrest
  obtain ⟨s₃, h₃, hrest⟩ := Option.bind_eq_some_iff.mp hrest
  obtain ⟨s₄, h₄, h₅⟩ := Option.bind_eq_some_iff.mp hrest
  have hmount : HistoryRun s₀ fun _ => [] := .start ⟨ftlFirstMount_start hstart, rfl⟩
  have hfirst := HistoryRun.afterVersion (HistoryRun.afterVersion hmount h₁) h₂
  have hrun := HistoryRun.afterVersion (HistoryRun.afterVersion
    (HistoryRun.afterVersion hfirst h₃) h₄) h₅
  exact ⟨_, hrun, rfl, rfl⟩

theorem ftlVersioned_reads {store : HistoryStore} (h₅ : store 5 ≠ []) (h₉ : store 9 ≠ []) :
    ∀ read ∈ [(5, 4), (9, 2)], read.1 < ftlCapacity ∧ store read.1 ≠ [] ∧ 0 < read.2 := by
  intro read hmem
  rcases List.mem_cons.mp hmem with rfl | hmem
  · exact ⟨by decide, h₅, by decide⟩
  · obtain rfl := List.mem_singleton.mp hmem
    exact ⟨by decide, h₉, by decide⟩

theorem ftlVersioned_away : ∃ s, ftlVersioned = some s ∧ CursorAway s 5 := by
  have hsome : (ftlVersioned.any fun s =>
      decide (5 ≠ (s.api.lastAddr + 1) % 4294967296 ∧
        (s.api.lastpage ≠ pmNodePage (s.view.mapping 5) ∨
          s.api.lastblock ≠ pmNodeBlock (s.view.mapping 5)))) = true := by decide +kernel
  obtain ⟨s, hs, haway⟩ := (Option.any_eq_true _ _).mp hsome
  obtain ⟨hnext, hother⟩ := of_decide_eq_true haway
  exact ⟨s, hs, hnext, hother⟩

/-- Four reads of page 5, and then two of page 9. -/
theorem mftReads_return_versions_versioned : ∃ s s', ftlVersioned = some s ∧
    ftlMftSeries [(5, 4), (9, 2)] s = .ok
      ([[(.success, some (.bytes (.const 4))), (.success, some (.bytes (.const 3))),
          (.success, some (.bytes (.const 1))), (.success, some (.bytes (.const 1)))],
        [(.success, some (.bytes (.const 5))), (.success, some (.bytes (.const 2)))]], s') := by
  obtain ⟨s, hs, haway⟩ := ftlVersioned_away
  obtain ⟨store, hrun, h₅, h₉⟩ := ftlVersioned_run hs
  have hhead : ∀ read ∈ [(5, 4), (9, 2)].head?, CursorAway s read.1 := by
    rintro _ ⟨⟩
    exact haway
  have hpages := @ftlVersioned_reads store (by simp [h₅]) (by simp [h₉])
  have hapart : [(5, 4), (9, 2)].IsChain
      fun read read' : Nat × Nat => read'.1 ≠ read.1 ∧ read'.1 ≠ read.1 + 1 := by decide
  obtain ⟨s', hreads⟩ := mftReads_return_versions hrun hhead hpages hapart
  rw [List.map_cons, List.map_cons, h₅, h₉] at hreads
  exact ⟨s, s', hs, hreads⟩

end

end RansomTag

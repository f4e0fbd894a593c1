import RansomTag.Ftl.ProgramOrder
import RansomTag.Ubi.FormattedDevice

/-!
# The translation layer on the block layer

The translation layer was modelled over a flash of logical blocks, and the block layer
was shown to be such a flash.  Here the requests of the one are given to the other: what
`FTL_Write` stored is found through both kinds of tables on the NAND.
-/

namespace RansomTag

open Program Relation

section

/-! ## Pages and requests -/

def PageState.toNandPage : PageState → NandPage
  | erased => .erased
  | programmed data spare => .programmed data.word spare.word
  | torn => .torn

/-- The words that the block layer is given. -/
def Flash.toNand (f : Flash) : Nand := fun b p => (f.page b p).toNandPage

/-- What the log says of a request. -/
def FlashOp.nandOp : FlashOp → NandOp
  | program b p _ _ => .program b p
  | erase b => .erase b

def FlashOp.request : FlashOp → UbiRequest
  | program b p data spare => .write b p data.word spare.word true
  | erase b => .erase b 0

/-- A request that changes the flash, whether it is waited for or not. -/
def UbiRequest.change : UbiRequest → Option UbiRequest
  | write b p data spare _ => some (.write b p data spare true)
  | erase b _ => some (.erase b 0)
  | _ => none

/-- What is read is among the logical blocks. -/
def UbiRequest.ReadsBelow (capacity : Nat) : UbiRequest → Prop
  | read b p => b < capacity ∧ p ≠ invalidPage ∨ b = invalidBlock ∧ p = invalidPage
  | readStatus b => b < capacity
  | _ => True

theorem flashAnswer_page {flash : Nand} {b p : Nat} (hb : b ≠ invalidBlock)
    (hp : p ≠ invalidPage) : flashAnswer flash (.read b p) = (flash b p).outcome :=
  if_pos ⟨hb, hp⟩

theorem flashAnswer_invalid (flash : Nand) :
    flashAnswer flash (.read invalidBlock invalidPage) = ⟨.success, some fun _ => 0, none⟩ := by
  simp [flashAnswer]

theorem Flash.toNand_program {f : Flash} {b p : Nat} {data : Buffer} {spare : Spare}
    (h : f.page b p = .erased) :
    (f.program b p data spare).toNand =
      f.toNand.update b p (.programmed data.word spare.word) := by
  funext b' p'
  change ((f.program b p data spare).page b' p').toNandPage = _
  rw [Flash.page_program, h]
  by_cases hb : b' = b
  · subst hb
    by_cases hp : p' = p
    · subst hp
      simp [Nand.update, PageState.program, PageState.toNandPage]
    · rw [if_neg fun heq => hp heq.2]
      simp [Nand.update, hp, Flash.toNand]
  · rw [if_neg fun heq => hb heq.1, Nand.update_other hb]
    rfl

theorem Flash.toNand_erase (f : Flash) (b : Nat) : (f.erase b).toNand = mtdErase f.toNand b := by
  funext b' p'
  change ((f.erase b).page b' p').toNandPage = _
  rw [Flash.page_erase]
  by_cases hb : b' = b
  · subst hb
    simp [mtdErase, PageState.toNandPage]
  · rw [if_neg hb, mtdErase_other hb]
    rfl

end

section

variable [Platform]

/-! ## Requests in order -/

/-- Each request fits when its turn comes. -/
def FlashOp.AllFit : Flash → List FlashOp → Prop
  | _, [] => True
  | f, op :: ops => op.Fits f ∧ AllFit (op.apply f) ops

variable {f f' : Flash} {ops : List FlashOp} {requests : List UbiRequest}

theorem Flash.Course.exists_ops (h : Flash.Course f f') :
    ∃ ops, FlashOp.AllFit f ops ∧ ops.foldl FlashOp.apply f = f' := by
  induction h using ReflTransGen.head_induction_on with
  | refl => exact ⟨[], trivial, rfl⟩
  | head hstep _ ih =>
      obtain ⟨op, hfits, rfl⟩ := hstep
      obtain ⟨ops, hall, hfold⟩ := ih
      exact ⟨op :: ops, ⟨hfits, hall⟩, hfold⟩

omit [Platform] in
theorem FlashOp.log_foldl (ops : List FlashOp) (f : Flash) :
    (ops.foldl FlashOp.apply f).log = (ops.map FlashOp.nandOp).reverse ++ f.log := by
  induction ops generalizing f with
  | nil => rfl
  | cons op ops ih =>
      rw [List.foldl_cons, ih, List.map_cons, List.reverse_cons, List.append_assoc]
      cases op with
      | program => rfl
      | erase => rfl

omit [Platform] in
/-- The requests alone, each program without a wait. -/
theorem filterMap_change_request (ops : List FlashOp) :
    (ops.map FlashOp.request).filterMap UbiRequest.change = ops.map FlashOp.request := by
  induction ops with
  | nil => rfl
  | cons op ops ih =>
      have hchange : op.request.change = some op.request := by
        cases op with
        | program => rfl
        | erase => rfl
      rw [List.map_cons, List.filterMap_cons_some hchange, ih]

omit [Platform] in
theorem readsBelow_request {capacity : Nat} (ops : List FlashOp) :
    ∀ r ∈ ops.map FlashOp.request, r.ReadsBelow capacity := by
  intro r hr
  obtain ⟨op, _, rfl⟩ := List.mem_map.mp hr
  cases op with
  | program => trivial
  | erase => trivial

/-- The block layer accepts the requests of the translation layer, with reads between
them, and shows the flash that they leave. -/
theorem FlashOp.AllFit.accepted (h : FlashOp.AllFit f ops)
    (hchanges : requests.filterMap UbiRequest.change = ops.map FlashOp.request)
    (hreads : ∀ r ∈ requests, r.ReadsBelow ubiCapacity) :
    FlashAccepts (· < ubiCapacity) f.toNand requests ∧
      requests.foldl flashAfter f.toNand = (ops.foldl FlashOp.apply f).toNand := by
  induction requests generalizing f ops with
  | nil =>
      have hnil : ops = [] := List.map_eq_nil_iff.mp hchanges.symm
      subst hnil
      exact ⟨trivial, rfl⟩
  | cons request requests ih =>
      have hrest : ∀ r ∈ requests, r.ReadsBelow ubiCapacity :=
        fun r hr => hreads r (List.mem_cons_of_mem request hr)
      have hfirst := hreads request List.mem_cons_self
      -- a request that changes nothing leaves the requests to come
      have hsame : request.change = none →
          FlashAccepts (· < ubiCapacity) f.toNand requests ∧
            requests.foldl flashAfter f.toNand = (ops.foldl FlashOp.apply f).toNand := by
        intro hnone
        rw [List.filterMap_cons_none hnone] at hchanges
        exact ih h hchanges hrest
      cases request with
      | read b p => exact ⟨⟨hfirst, (hsame rfl).1⟩, (hsame rfl).2⟩
      | readStatus b => exact ⟨⟨hfirst, (hsame rfl).1⟩, (hsame rfl).2⟩
      | flush => exact ⟨⟨trivial, (hsame rfl).1⟩, (hsame rfl).2⟩
      | remount => exact ⟨⟨trivial, (hsame rfl).1⟩, (hsame rfl).2⟩
      | write b p data spare async =>
          have hsome : (UbiRequest.write b p data spare async).change =
              some (.write b p data spare true) := rfl
          rw [List.filterMap_cons_some hsome] at hchanges
          cases ops with
          | nil => cases hchanges
          | cons op ops =>
              rw [List.map_cons, List.cons.injEq] at hchanges
              obtain ⟨hop, hchanges⟩ := hchanges
              cases op with
              | erase b' => cases hop
              | program b' p' buffer spare' =>
                  injection hop with hb hp hdata hspare
                  subst hb hp hdata hspare
                  obtain ⟨⟨hb, hp, hfree⟩, hall⟩ := h
                  have herased := hfree p le_rfl hp
                  have hpage : p ≠ invalidPage := by
                    simp only [invalidPage]
                    omega
                  obtain ⟨haccepts, hafter⟩ := ih hall hchanges hrest
                  rw [FlashOp.apply, Flash.toNand_program herased] at haccepts hafter
                  refine ⟨⟨⟨hb, hpage, ?_⟩, haccepts⟩, hafter⟩
                  change (f.page b p).toNandPage = _
                  rw [herased]
                  rfl
      | erase b die =>
          have hsome : (UbiRequest.erase b die).change = some (.erase b 0) := rfl
          rw [List.filterMap_cons_some hsome] at hchanges
          cases ops with
          | nil => cases hchanges
          | cons op ops =>
              rw [List.map_cons, List.cons.injEq] at hchanges
              obtain ⟨hop, hchanges⟩ := hchanges
              cases op with
              | program b' p' buffer spare' => cases hop
              | erase b' =>
                  injection hop with hb
                  subst hb
                  obtain ⟨hb, hall⟩ := h
                  obtain ⟨haccepts, hafter⟩ := ih hall hchanges hrest
                  rw [FlashOp.apply, Flash.toNand_erase] at haccepts hafter
                  exact ⟨⟨hb, haccepts⟩, hafter⟩

/-! ## What is stored -/

variable {s : FtlState} {store : PageStore} {addr : Nat}

/-- Where `PMT_Search` finds a page is what the store holds of it. -/
theorem Stores.located (h : Stores s store) (haddr : addr < ftlCapacity) :
    (UbiRequest.read (wordLocation (s.mapping addr)).1
        (wordLocation (s.mapping addr)).2).ReadsBelow ubiCapacity ∧
      ∃ spare, flashAnswer s.flash.toNand (.read (wordLocation (s.mapping addr)).1
        (wordLocation (s.mapping addr)).2) =
          ⟨.success, some ((store addr).getD .zeros).word, spare⟩ := by
  have hmapping := FtlState.view_mapping_eq (s := s) haddr
  rw [← h.plain addr haddr, ← hmapping]
  unfold wordLocation DataView.plain
  by_cases hword : s.view.mapping addr = invalidPmNode
  · rw [if_neg (by simp [hword]), (DataView.entry_eq_none h.inv.data.core haddr).mpr hword]
    refine ⟨.inr ⟨rfl, rfl⟩, none, ?_⟩
    exact flashAnswer_invalid _
  · obtain ⟨_, hb, hb', hp, data, spare, hprog, _⟩ := h.inv.data.core.mapped_word haddr hword
    have hcap := Platform.ubiCapacity_le
    have hblock : pmNodeBlock (s.view.mapping addr) ≠ invalidBlock := by
      simp only [invalidBlock]
      omega
    have hpage : pmNodePage (s.view.mapping addr) ≠ invalidPage := by
      simp only [invalidPage]
      omega
    have hentry : s.view.entry addr = some (data, spare.w2) := by
      unfold DataView.entry
      rw [if_neg hword, hprog]
    rw [FtlState.view_page_eq hb] at hprog
    rw [if_pos hword, hentry]
    refine ⟨.inl ⟨hb', hpage⟩, some spare.word, ?_⟩
    rw [flashAnswer_page hblock hpage]
    change (s.flash.page _ _).toNandPage.outcome = _
    rw [hprog]
    rfl

end

section

variable [Platform] [FormatLayout] {check : Nat → Bool} {t t' : UbiState} {flash : Flash}
  {s : FtlState} {store : PageStore}

/-- The requests of the translation layer are served by a formatted block layer, whatever
reads, flushes and mounts are between them; each page that is stored is then found where
`PMT_Search` looks for it. -/
theorem storeCalls_on_ubi (h : Formattable check) (hlast : check (logBlockCount - 1) = true)
    (hblank : ∀ b, anchorFirstBlock ≤ b → b ≤ anchorLastBlock →
      ∀ data spare, t.nand b 0 ≠ .programmed data spare)
    (hformat : ubiFormatAll check t = .ok (.success, t'))
    (hcapacity : ubiCapacity = ubiCapacityOf t')
    (hrun : storeCalls.Run (MountedFrom flash) s store) :
    ∃ ops : List FlashOp, s.flash.log = (ops.map FlashOp.nandOp).reverse ++ flash.log ∧
      ∀ d : UbiDevice, d.tables.nand = t'.nand → ∃ d', ubiRemount d = .ok (.success, d') ∧
        ∀ requests, requests.filterMap UbiRequest.change = ops.map FlashOp.request →
          (∀ r ∈ requests, r.ReadsBelow ubiCapacity) → requests.length + 1 < invalidEc →
            ∃ d'', d'.run requests = .ok (flashAnswers (fun _ _ => .erased) requests, d'') ∧
              ∀ addr < ftlCapacity, ∃ spare tables,
                ubiReadPage d''.tables (wordLocation (s.mapping addr)).1
                    (wordLocation (s.mapping addr)).2 =
                  .ok (⟨.success, some ((store addr).getD .zeros).word, spare⟩, tables) := by
  obtain ⟨ops, hall, hflash⟩ := (storeCalls_course hrun).exists_ops
  refine ⟨ops, ?_, fun d hd => ?_⟩
  · rw [← hflash]
    exact FlashOp.log_foldl ops _
  · obtain ⟨t₁, total, hformat₁, _, _, htotal, hmount⟩ := h.mount hlast hblank
    have hsame : t₁ = t' := by
      rw [hformat] at hformat₁
      exact (Prod.mk.inj (Except.ok.inj hformat₁)).2.symm
    subst hsame
    obtain ⟨d', hremount, hshows⟩ := hmount d hd
    rw [← htotal, ← hcapacity] at hshows
    refine ⟨d', hremount, fun requests hchanges hreads hcount => ?_⟩
    obtain ⟨haccepts, hafter⟩ := hall.accepted hchanges hreads
    obtain ⟨d'', hserved, tables, free, hshows'⟩ := hshows.run requests haccepts (by omega)
    refine ⟨d'', hserved, fun addr haddr => ?_⟩
    have hstores : Stores s store := by
      apply hrun.keeps (fun _ _ hstart => hstart.firstMount.stores) storeCalls_keeps
    obtain ⟨hbelow, spare, hanswer⟩ := hstores.located haddr
    have hend : requests.foldl flashAfter (fun _ _ => .erased) = s.flash.toNand := by
      rw [← hflash]
      exact hafter
    rw [hend] at hshows'
    obtain ⟨tables', hread, _⟩ := hshows'.read hbelow
    exact ⟨spare, tables', hread.trans (by rw [hanswer])⟩

end

section

attribute [local instance] k9wag08 k9wag08Format

/-- No block is bad. -/
def noBadBlock (_ : Nat) : Bool := true

theorem noBadBlock_formattable : Formattable noBadBlock where
  room := by
    unfold FormatRoom badBlocks
    decide +kernel
  first_le := by decide
  first := rfl
  other := ⟨2, by decide, by decide, rfl⟩

/-- The capacity that the translation layer was built for is that of the formatted device. -/
theorem noBadBlock_capacity : ∃ t', ubiFormatAll noBadBlock (.powerOn fun _ _ => .erased) =
    .ok (.success, t') ∧ ubiCapacity = ubiCapacityOf t' := by
  have hbad : badBlocks (fun b => !noBadBlock b) dataFirstBlock = 0 := by
    unfold badBlocks
    decide +kernel
  obtain ⟨t', total, hformat, hge, hle, htotal, _⟩ := noBadBlock_formattable.mount rfl
    (s := .powerOn fun _ _ => .erased) fun _ _ _ _ _ => NandPage.noConfusion
  rw [hbad] at hge
  have hlower : 1994 ≤ total := hge
  have hupper : total ≤ 1994 := hle
  refine ⟨t', hformat, ?_⟩
  rw [htotal]
  exact Nat.le_antisymm hlower hupper

theorem ftlRewritten_log : (ftlRewritten.all fun s => s.flash.log.length < 1000) = true := by
  decide +kernel

/-- Page 5 was written twice; the NAND holds the second content. -/
theorem storeCalls_on_ubi_rewritten : ∃ s t' d' d'' answers spare tables requests,
    ftlRewritten = some s ∧
    ubiFormatAll noBadBlock (.powerOn fun _ _ => .erased) = .ok (.success, t') ∧
    ubiRemount ⟨t', fun _ => ⟨0, 0, 0, 0, none, fun _ => 0⟩⟩ = .ok (.success, d') ∧
    d'.run requests = .ok (answers, d'') ∧
    ubiReadPage d''.tables (wordLocation (s.mapping 5)).1 (wordLocation (s.mapping 5)).2 =
      .ok (⟨.success, some (Buffer.bytes (.const 8)).word, spare⟩, tables) := by
  obtain ⟨s, hs⟩ := Option.isSome_iff_exists.mp ftlRewritten_isSome
  obtain ⟨s₀, hstart, hrest⟩ := Option.bind_eq_some_iff.mp hs
  obtain ⟨s₁, hfirst, hsecond⟩ := Option.bind_eq_some_iff.mp hrest
  obtain ⟨t', hformat, hcapacity⟩ := noBadBlock_capacity
  have hmount : storeCalls.Run (MountedFrom .blank) s₀ fun _ => none :=
    .start ⟨⟨fun _ => 0, 2, le_rfl, ftlSucceeded_eq_some hstart⟩, rfl⟩
  have hrun := storeCalls_afterWrite (storeCalls_afterWrite hmount hfirst) hsecond
  obtain ⟨ops, hlog, hserved⟩ := storeCalls_on_ubi noBadBlock_formattable rfl
    (fun _ _ _ _ _ => NandPage.noConfusion) hformat hcapacity hrun
  obtain ⟨d', hremount, hrequests⟩ :=
    hserved ⟨t', fun _ => ⟨0, 0, 0, 0, none, fun _ => 0⟩⟩ rfl
  have hcount : ops.length < 1000 := by
    have hall := ftlRewritten_log
    rw [hs] at hall
    have hlength : s.flash.log.length < 1000 := of_decide_eq_true hall
    rw [hlog, List.length_append, List.length_reverse, List.length_map] at hlength
    exact lt_of_le_of_lt (Nat.le_add_right _ _) hlength
  obtain ⟨d'', hanswers, hreads⟩ := hrequests (ops.map FlashOp.request)
    (filterMap_change_request ops) (readsBelow_request ops) (by
      rw [List.length_map]
      simp only [invalidEc]
      omega)
  obtain ⟨spare, tables, hread⟩ := hreads 5 (by decide)
  rw [Function.update_self] at hread
  exact ⟨s, t', d', d'', _, spare, tables, _, hs, hformat, hremount, hanswers, hread⟩

end

end RansomTag

import RansomTag.Library.Commands
import RansomTag.Ftl.Format

/-!
# The translation layer as a store

To its callers the translation layer is a store of pages.  Tags, versions,
reclaims and the commits of the tables are not to be seen in it.
-/

namespace RansomTag

open Program

/-- What the pages hold; a page that was never written, or trimmed, holds nothing. -/
abbrev PageStore := Nat → Option Buffer

/-- A call of the interface of the translation layer. -/
inductive StoreCall where
  | write (addr : Nat) (buffer : Option Buffer) (flag mft : Bool)
  | trim (start last : Nat)
  | flush
  | read (addr : Nat) (flag mft : Bool)

/-- What a call means for the store. -/
def StoreCall.model : StoreCall → PageStore → PageStore
  | .write addr buffer _ _, store => Function.update store addr buffer
  | .trim start last, store => fun a => if start ≤ a ∧ a ≤ last then none else store a
  | .flush, store => store
  | .read _ _ _, store => store

section

variable [Platform]

namespace StoreCall

def exec : StoreCall → Ftl Status
  | .write addr buffer flag mft => ftlWrite addr buffer flag mft
  | .trim start last => ftlTrim start last
  | .flush => ftlFlush
  | .read addr flag mft => do
      let r ← ftlRead addr flag mft
      pure r.1

/-- The call is about pages of the device, and each `DATA_Write` of it starts
with a journal that is not full. -/
def Allowed : StoreCall → FtlState → Prop
  | .write addr _ _ _, s => addr < ftlCapacity ∧ StartsNonFull s addr
  | .trim start last, s => last < ftlCapacity ∧ TrimsNonFull (last + 1 - start) start s
  | .flush, _ => True
  | .read addr _ _, _ => addr < ftlCapacity

end StoreCall

/-- The calls of the interface, with the store that they implement. -/
def storeCalls : Commands FtlState Stop Status StoreCall PageStore where
  exec := StoreCall.exec
  Allowed := StoreCall.Allowed
  model := StoreCall.model

/-- The first mount of a device; nothing is stored. -/
structure FirstMount (s : FtlState) (store : PageStore) : Prop where
  start : ∃ flash unset fuel, 2 ≤ fuel ∧
    ftlFormatAndMount fuel (.powerOn flash unset) = .ok (.success, s)
  empty : store = fun _ => none

/-- The states of a mount without power loss, each with what was stored. -/
abbrev StoreRun : FtlState → PageStore → Prop := storeCalls.Run FirstMount

/-- A plain read of a page finds what the store holds. -/
structure Stores (s : FtlState) (store : PageStore) : Prop where
  inv : FtlInv s
  plain : ∀ a, a < ftlCapacity → s.view.plain a = store a

variable {s s' : FtlState} {store : PageStore} {addr start last : Nat} {buffer : Option Buffer}
  {flag mft : Bool}

theorem FirstMount.mounted (h : FirstMount s store) : FirstMounted s := by
  obtain ⟨flash, unset, fuel, hfuel, hrun⟩ := h.start
  have hmeta : ∀ p, (FtlState.powerOn flash unset).pmt.metaData p < pmtClusterCount :=
    fun _ => pmtClusterCount_pos
  exact (of_wp_ok (ftlFormatAndMount_spec (E := fun _ => True) hmeta hfuel) hrun).2

theorem FirstMount.stores (h : FirstMount s store) : Stores s store := by
  have hmounted := h.mounted
  refine ⟨hmounted.inv, fun a ha => ?_⟩
  have hnone : s.view.entry a = none :=
    (DataView.entry_eq_none hmounted.inv.data.core ha).mpr (hmounted.unmapped a)
  unfold DataView.plain
  rw [hnone, h.empty]
  rfl

theorem Stores.of_view (h : Stores s store) (hinv : FtlInv s') (api : ApiRam)
    (hview : s'.view = { s.view with api := api }) : Stores s' store := by
  refine ⟨hinv, fun a ha => ?_⟩
  rw [hview]
  exact h.plain a ha

theorem Stores.write (h : Stores s store) (haddr : addr < ftlCapacity)
    (hq : StartsNonFull s addr) :
    wp (ftlWrite addr buffer flag mft)
      (fun _ s' => Stores s' (Function.update store addr buffer)) (fun _ => True) s := by
  refine wp_mono_post (ftlWrite_spec h.inv haddr hq fun _ _ => trivial) ?_
  rintro _ s' ⟨_, hwritten⟩
  refine ⟨hwritten.inv h.inv haddr hq, fun a ha => ?_⟩
  rw [hwritten.plain h.inv haddr hq ha, Function.update_apply, h.plain a ha]

theorem Stores.trim (h : Stores s store) (hlast : last < ftlCapacity)
    (hq : TrimsNonFull (last + 1 - start) start s) :
    wp (ftlTrim start last)
      (fun _ s' => Stores s' fun a => if start ≤ a ∧ a ≤ last then none else store a)
      (fun _ => True) s := by
  by_cases hrange : start ≤ last
  · have hcap : start + (last + 1 - start) ≤ ftlCapacity := by omega
    refine wp_mono_post (ftlTrimFrom_spec h.inv hcap hq) ?_
    rintro _ s' ⟨_, htrimmed⟩
    refine ⟨htrimmed.inv h.inv hcap, fun a ha => ?_⟩
    have hiff : a < start + (last + 1 - start) ↔ a ≤ last := by omega
    simp only [htrimmed.plain h.inv hcap ha, h.plain a ha, hiff]
  · -- an empty range: the loop does not run
    have hnone : last + 1 - start = 0 := by omega
    unfold ftlTrim
    rw [hnone]
    refine ⟨h.inv, fun a ha => ?_⟩
    rw [h.plain a ha, if_neg (by omega)]

theorem Stores.flush (h : Stores s store) :
    wp ftlFlush (fun _ s' => Stores s' store) (fun _ => True) s := by
  refine wp_mono_post (ftlFlush_spec h.inv.base) ?_
  rintro _ s' ⟨_, hcommit⟩
  exact h.of_view (hcommit.inv h.inv) s.api (hcommit.view h.inv.base.tables h.inv.base.pmt)

theorem Stores.read (h : Stores s store) (haddr : addr < ftlCapacity) :
    wp (ftlRead addr flag mft) (fun _ s' => Stores s' store) (fun _ => True) s := by
  refine wp_mono_post (ftlRead_any h.inv.base haddr) ?_
  intro _ s' hdone
  exact h.of_view (hdone.inv h.inv) s'.api (hdone.view h.inv.base)

/-- One case for each call. -/
theorem storeCalls_keeps : storeCalls.Keeps Stores := by
  intro c s store h hallowed
  cases c with
  | write addr buffer flag mft => exact h.write hallowed.1 hallowed.2
  | trim start last => exact h.trim hallowed.1 hallowed.2
  | flush => exact h.flush
  | read addr flag mft =>
      change wp (StoreCall.read addr flag mft).exec _ _ _
      unfold StoreCall.exec
      rw [wp_bind]
      exact h.read hallowed

theorem StoreRun.stores (h : StoreRun s store) : Stores s store :=
  h.keeps (fun _ _ => FirstMount.stores) storeCalls_keeps

/-- Whatever was tagged, reclaimed and committed on the way, a plain read
returns what was written to the page last. -/
theorem ftlRead_returns_stored (h : StoreRun s store) (haddr : addr < ftlCapacity) :
    ∃ s', ftlRead addr false false s = .ok ((.success, some ((store addr).getD .zeros)), s') := by
  have hstores : Stores s store := StoreRun.stores h
  have hwp : wp (ftlRead addr false false) _ (fun _ => False) s :=
    ftlRead_plain_spec hstores.inv.base hstores.inv.data haddr
  obtain ⟨_, s', hread, rfl, _⟩ := exists_ok_of_wp hwp
  refine ⟨s', ?_⟩
  rw [hread, hstores.plain addr haddr]

theorem FirstMount.first (flash : Flash) (unset : Nat → Nat) :
    ∃ s, FirstMount s fun _ => none := by
  have hmeta : ∀ p, (FtlState.powerOn flash unset).pmt.metaData p < pmtClusterCount :=
    fun _ => pmtClusterCount_pos
  have hwp : wp (ftlFormatAndMount 2) _ (fun _ => False) (.powerOn flash unset) :=
    ftlFormatAndMount_spec hmeta le_rfl
  obtain ⟨_, s, hrun, rfl, _⟩ := exists_ok_of_wp hwp
  exact ⟨s, ⟨flash, unset, 2, le_rfl, hrun⟩, rfl⟩

end

/-! ## Runs that can be computed -/

/-- The state of a call that succeeded. -/
def ftlSucceeded : Except Stop (Status × FtlState) → Option FtlState
  | .ok (.success, s) => some s
  | _ => none

theorem ftlSucceeded_eq_some {r : Except Stop (Status × FtlState)} {s : FtlState}
    (h : ftlSucceeded r = some s) : r = .ok (.success, s) := by
  unfold ftlSucceeded at h
  split at h
  · rw [Option.some.inj h]
  · exact nomatch h

section

variable [Platform] {s s' : FtlState} {addr : Nat} {buffer : Option Buffer} {flag : Bool}

/-- The state after calls that all succeed. -/
def FtlState.afterCalls : List StoreCall → FtlState → Option FtlState
  | [], s => some s
  | c :: calls, s => (ftlSucceeded (c.exec s)).bind (afterCalls calls)

/-- The pages that a call names are pages of the device. -/
def StoreCall.InRange : StoreCall → Prop
  | .write addr _ _ _ => addr < ftlCapacity
  | .trim _ last => last < ftlCapacity
  | .flush => True
  | .read addr _ _ => addr < ftlCapacity

instance StoreCall.decidableInRange : (c : StoreCall) → Decidable c.InRange
  | .write addr _ _ _ => inferInstanceAs (Decidable (addr < ftlCapacity))
  | .trim _ last => inferInstanceAs (Decidable (last < ftlCapacity))
  | .flush => inferInstanceAs (Decidable True)
  | .read addr _ _ => inferInstanceAs (Decidable (addr < ftlCapacity))

theorem StoreCall.exec_read {mft : Bool} {ret : Status}
    (h : (StoreCall.read addr flag mft).exec s = .ok (ret, s')) :
    ∃ r, ftlRead addr flag mft s = .ok (r, s') := by
  cases hread : ftlRead addr flag mft s with
  | error e =>
      have hrun : (StoreCall.read addr flag mft).exec s = .error e := by
        change (ftlRead addr flag mft >>= fun r => pure r.1) s = _
        rw [bind_of_error hread]
      rw [hrun] at h
      cases h
  | ok r =>
      have hrun : (StoreCall.read addr flag mft).exec s = .ok (r.1.1, r.2) := by
        change (ftlRead addr flag mft >>= fun r => pure r.1) s = _
        rw [bind_of_ok hread]
        rfl
      rw [hrun] at h
      cases h
      exact ⟨r.1, rfl⟩

/-- What each call that returns keeps holds after calls that all succeed. -/
theorem FtlState.afterCalls_keeps {P : FtlState → Prop} {calls : List StoreCall}
    (hstep : ∀ c ∈ calls, ∀ t t' ret, P t → c.exec t = .ok (ret, t') → P t') (h : P s)
    (hafter : s.afterCalls calls = some s') : P s' := by
  induction calls generalizing s with
  | nil =>
      cases hafter
      exact h
  | cons c calls ih =>
      obtain ⟨t, hcall, hafter⟩ := Option.bind_eq_some_iff.mp hafter
      exact ih (fun c' hc' => hstep c' (List.mem_cons_of_mem c hc'))
        (hstep c List.mem_cons_self s t _ h (ftlSucceeded_eq_some hcall)) hafter

/-- Neither journal is full. -/
def FtlState.NonFull (s : FtlState) : Prop :=
  dataIsFull s.rootTable true = false ∧ dataIsFull s.rootTable false = false

instance FtlState.decidableNonFull : Decidable s.NonFull := by
  unfold FtlState.NonFull
  infer_instance

theorem FtlState.NonFull.starts (h : s.NonFull) : StartsNonFull s addr := by
  obtain ⟨hhot, hcold⟩ := h
  rw [dataIsFull_eq] at hhot hcold
  rw [startsNonFull_iff]
  cases s.isHot addr with
  | true => simpa using hhot
  | false => simpa using hcold

/-- The state after a write that starts with neither journal full. -/
def FtlState.afterWrite (s : FtlState) (addr : Nat) (buffer : Buffer) (flag : Bool) :
    Option FtlState :=
  if s.NonFull ∧ addr < ftlCapacity then ftlSucceeded (ftlWrite addr (some buffer) flag false s)
  else none

theorem FtlState.afterWrite_eq_some {buffer : Buffer} (h : s.afterWrite addr buffer flag = some s') :
    StoreCall.Allowed (.write addr (some buffer) flag false) s ∧
      ftlWrite addr (some buffer) flag false s = .ok (.success, s') := by
  obtain ⟨⟨hnonFull, haddr⟩, hwrite⟩ := Option.ite_none_right_eq_some.mp h
  exact ⟨⟨haddr, hnonFull.starts⟩, ftlSucceeded_eq_some hwrite⟩

theorem StoreRun.afterWrite {store : PageStore} {buffer : Buffer} (h : StoreRun s store)
    (hafter : s.afterWrite addr buffer flag = some s') :
    StoreRun s' (Function.update store addr (some buffer)) := by
  obtain ⟨hallowed, hwrite⟩ := FtlState.afterWrite_eq_some hafter
  have hwriteAllowed : storeCalls.Allowed (.write addr (some buffer) flag false) s := hallowed
  exact .step h hwriteAllowed hwrite

end

section

attribute [local instance] k9wag08

/-- The translation layer as it is first mounted. -/
def ftlFirstMount : Option FtlState :=
  ftlSucceeded (ftlFormatAndMount 2 (.powerOn .blank fun _ => 0))

/-- Then page 5 is written once, and once more with a tag. -/
def ftlRewritten : Option FtlState :=
  ftlFirstMount.bind fun s =>
    (s.afterWrite 5 (.bytes (.const 7)) false).bind fun s =>
      s.afterWrite 5 (.bytes (.const 8)) true

/-- Six times page 0 is written and flushed, which leaves one page of the mapping block
to be programmed.  Then pages of two clusters are written, and one of a third is read. -/
def mappingFills : List StoreCall :=
  (List.replicate 6 [StoreCall.write 0 (some .zeros) false false, .flush]).flatten ++
    [.write 0 (some .zeros) false false, .write 2048 (some .zeros) false false,
      .read 4096 false false]

def ftlMappingFills : Option FtlState := ftlFirstMount.bind (FtlState.afterCalls mappingFills)

/-- Two dirty clusters and a clean one are cached, and the first of them fills the
mapping block when it is committed. -/
theorem ftlMappingFills_cached : ∃ s, ftlMappingFills = some s ∧
    s.rootTable.pmtPage + 2 = pagePerPhyBlock ∧
      s.node 0 = pmNodeSetDirty (pmCacheAddr 0) ∧ s.node 2 = pmNodeSetDirty (pmCacheAddr 1) ∧
      s.node 4 = pmCacheAddr 2 := by
  have hcached : (ftlMappingFills.any fun s =>
      decide (s.rootTable.pmtPage + 2 = pagePerPhyBlock ∧
        s.node 0 = pmNodeSetDirty (pmCacheAddr 0) ∧ s.node 2 = pmNodeSetDirty (pmCacheAddr 1) ∧
        s.node 4 = pmCacheAddr 2)) = true := by decide +kernel
  obtain ⟨s, hs, hfacts⟩ := (Option.any_eq_true _ _).mp hcached
  exact ⟨s, hs, of_decide_eq_true hfacts⟩

theorem mappingFills_inRange : ∀ c ∈ mappingFills, c.InRange := by decide

theorem ftlFirstMount_start {s : FtlState} (h : ftlFirstMount = some s) :
    FirstMount s fun _ => none :=
  ⟨⟨.blank, fun _ => 0, 2, le_rfl, ftlSucceeded_eq_some h⟩, rfl⟩

theorem ftlRewritten_isSome : ftlRewritten.isSome = true := by decide +kernel

/-- The page then holds what was written with the tag. -/
theorem ftlRead_returns_rewritten : ∃ s s', ftlRewritten = some s ∧
    ftlRead 5 false false s = .ok ((.success, some (.bytes (.const 8))), s') := by
  have hcap : 5 < ftlCapacity := by decide
  obtain ⟨s, hs⟩ := Option.isSome_iff_exists.mp ftlRewritten_isSome
  obtain ⟨s₀, hstart, hrest⟩ := Option.bind_eq_some_iff.mp hs
  obtain ⟨s₁, hfirst, hsecond⟩ := Option.bind_eq_some_iff.mp hrest
  have hmount : StoreRun s₀ fun _ => none := .start (ftlFirstMount_start hstart)
  have hrun := StoreRun.afterWrite (StoreRun.afterWrite hmount hfirst) hsecond
  obtain ⟨s', hread⟩ := ftlRead_returns_stored hrun hcap
  exact ⟨s, s', hs, hread⟩

end

end RansomTag

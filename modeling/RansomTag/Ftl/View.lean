import RansomTag.Ftl.Api

/-!
# The mapping that the tables implement

The page mapping table is spread over the root table, the cache slots and the
mapping blocks.  `FtlState.mapping` is the one table it stands for, and
`FtlState.view` is all that the data layer sees of a state: this mapping, the
data blocks with their dirty counts, and the journals.
-/

namespace RansomTag

open Program

/-! ## Flash -/

namespace Flash

/-- The mapping words of a page. -/
def words (flash : Flash) (b p : Nat) : Nat → Nat :=
  match flash.page b p with
  | .programmed data _ => data.node
  | _ => fun _ => invalidPmNode

/-- Pages before `q` are programmed and the others erased. -/
structure FilledTo (flash : Flash) (b q : Nat) : Prop where
  programmed : ∀ p, p < q → ∃ data spare, flash.page b p = .programmed data spare
  erased : ∀ p, q ≤ p → p < 64 → flash.page b p = .erased

theorem page_program_other {flash : Flash} {b p b' p' : Nat} {data : Buffer} {spare : Spare}
    (h : ¬ (b' = b ∧ p' = p)) :
    (flash.program b p data spare).page b' p' = flash.page b' p' := by
  rw [page_program, if_neg h]

theorem page_program_erased {flash : Flash} {b p : Nat} {data : Buffer} {spare : Spare}
    (h : flash.page b p = .erased) :
    (flash.program b p data spare).page b p = .programmed data spare := by
  rw [page_program, if_pos ⟨rfl, rfl⟩, h]
  rfl

theorem page_erase_other {flash : Flash} {b b' p' : Nat} (h : b' ≠ b) :
    (flash.erase b).page b' p' = flash.page b' p' := by
  rw [page_erase, if_neg h]

theorem page_erase_same {flash : Flash} {b p' : Nat} :
    (flash.erase b).page b p' = .erased := by
  rw [page_erase, if_pos rfl]

theorem words_of_page {flash : Flash} {b p : Nat} {data : Buffer} {spare : Spare}
    (h : flash.page b p = .programmed data spare) : flash.words b p = data.node := by
  unfold words
  rw [h]

theorem words_congr {flash flash' : Flash} {b p b' p' : Nat}
    (h : flash.page b p = flash'.page b' p') : flash.words b p = flash'.words b' p' := by
  unfold words
  rw [h]

/-- The operations `ops`, the latest first, lead from `flash` to `flash'`. -/
structure Did (ops : List NandOp) (flash flash' : Flash) : Prop where
  log : flash'.log = ops ++ flash.log
  page : ∀ b, (∀ op ∈ ops, op.block ≠ b) → ∀ p, flash'.page b p = flash.page b p

/-- From `flash` to `flash'` only blocks in `blocks` were programmed or erased. -/
def Within (blocks : Nat → Prop) (flash flash' : Flash) : Prop :=
  ∃ ops, Did ops flash flash' ∧ ∀ op ∈ ops, blocks op.block

theorem Did.trans {ops ops' : List NandOp} {f f' f'' : Flash}
    (h : Did ops f f') (h' : Did ops' f' f'') : Did (ops' ++ ops) f f'' := by
  constructor
  · rw [h'.log, h.log, List.append_assoc]
  · intro b hb p
    rw [h'.page b fun op hop => hb op (List.mem_append_left _ hop),
      h.page b fun op hop => hb op (List.mem_append_right _ hop)]

namespace Within

variable {blocks blocks' : Nat → Prop} {f f' f'' : Flash}

theorem refl : Within blocks f f :=
  ⟨[], ⟨rfl, fun _ _ _ => rfl⟩, by simp⟩

theorem trans (h : Within blocks f f') (h' : Within blocks f' f'') : Within blocks f f'' := by
  obtain ⟨ops, hops, hin⟩ := h
  obtain ⟨ops', hops', hin'⟩ := h'
  refine ⟨ops' ++ ops, hops.trans hops', ?_⟩
  intro op hop
  rcases List.mem_append.mp hop with hop | hop
  · exact hin' op hop
  · exact hin op hop

theorem mono (hsub : ∀ b, blocks b → blocks' b) (h : Within blocks f f') :
    Within blocks' f f' := by
  obtain ⟨ops, hops, hin⟩ := h
  exact ⟨ops, hops, fun op hop => hsub _ (hin op hop)⟩

theorem page (h : Within blocks f f') {b : Nat} (hb : ¬ blocks b) (p : Nat) :
    f'.page b p = f.page b p := by
  obtain ⟨ops, hops, hin⟩ := h
  apply hops.page
  rintro op hop rfl
  exact hb (hin op hop)

/-- Operations outside a set of blocks leave the log of these blocks alone. -/
theorem log_filter (h : Within blocks f f') {keep : NandOp → Bool}
    (hkeep : ∀ op : NandOp, blocks op.block → keep op = false) :
    f'.log.filter keep = f.log.filter keep := by
  obtain ⟨ops, hops, hin⟩ := h
  have hnone : ops.filter keep = [] := by
    rw [List.filter_eq_nil_iff]
    intro op hop
    rw [hkeep _ (hin op hop)]
    exact Bool.false_ne_true
  rw [hops.log, List.filter_append, hnone, List.nil_append]

theorem program {b p : Nat} {data : Buffer} {spare : Spare} (hb : blocks b) :
    Within blocks f (f.program b p data spare) := by
  refine ⟨[.program b p], ⟨rfl, fun b' hb' p' => page_program_other ?_⟩, by simpa using hb⟩
  rintro ⟨rfl, rfl⟩
  simp at hb'

theorem erase {b : Nat} (hb : blocks b) : Within blocks f (f.erase b) := by
  refine ⟨[.erase b], ⟨rfl, fun b' hb' p' => page_erase_other ?_⟩, by simpa using hb⟩
  rintro rfl
  simp at hb'

end Within

end Flash

/-- The run from `s` to `s'` only touched blocks in `blocks`, at every point
where the power could fail on the way. -/
structure Ran (blocks : Nat → Prop) (s s' : FtlState) : Prop where
  flash : s.flash.Within blocks s'.flash
  past : ∃ points, s'.past = points ++ s.past ∧ ∀ f ∈ points, s.flash.Within blocks f

namespace Ran

variable {blocks blocks' : Nat → Prop} {s s' s'' : FtlState}

theorem of_eq (hflash : s'.flash = s.flash) (hpast : s'.past = s.past) : Ran blocks s s' :=
  ⟨hflash ▸ Flash.Within.refl, [], by simp [hpast], by simp⟩

theorem refl : Ran blocks s s := of_eq rfl rfl

theorem trans (h : Ran blocks s s') (h' : Ran blocks s' s'') : Ran blocks s s'' := by
  obtain ⟨points, hpoints, hin⟩ := h.past
  obtain ⟨points', hpoints', hin'⟩ := h'.past
  refine ⟨h.flash.trans h'.flash, points' ++ points, ?_, ?_⟩
  · rw [hpoints', hpoints, List.append_assoc]
  · intro f hf
    rcases List.mem_append.mp hf with hf | hf
    · exact h.flash.trans (hin' f hf)
    · exact hin f hf

theorem mono (hsub : ∀ b, blocks b → blocks' b) (h : Ran blocks s s') : Ran blocks' s s' := by
  obtain ⟨points, hpoints, hin⟩ := h.past
  exact ⟨h.flash.mono hsub, points, hpoints, fun f hf => (hin f hf).mono hsub⟩

theorem program {b p : Nat} {data : Buffer} {spare : Spare} (hb : blocks b) :
    Ran blocks s (s.program b p data spare) := by
  refine ⟨.program hb, [s.flash], rfl, ?_⟩
  intro f hf
  rw [List.mem_singleton.mp hf]
  exact .refl

theorem erase {b : Nat} (hb : blocks b) : Ran blocks s (s.erase b) := by
  refine ⟨.erase hb, [s.flash], rfl, ?_⟩
  intro f hf
  rw [List.mem_singleton.mp hf]
  exact .refl

end Ran

/-! ## The block layer -/

section

variable {E : Stop → Prop} {s : FtlState}

@[simp] theorem wp_assert {p : Prop} {_ : Decidable p} {Q : Unit → FtlState → Prop} :
    wp (assert p) Q E s ↔ if p then Q () s else E .assertion := by
  unfold assert
  rw [wp_ite]
  rfl

@[simp] theorem wp_ubiErase {b : Nat} {Q : Status → FtlState → Prop} :
    wp (ubiErase b) Q E s ↔ Q .success (s.erase b) := Iff.rfl

@[simp] theorem wp_ubiFlush {Q : Status → FtlState → Prop} :
    wp ubiFlush Q E s ↔ Q .success s := Iff.rfl

variable [Platform]

theorem wp_ubiWrite {b p : Nat} {data : Buffer} {spare : Spare}
    {Q : Status → FtlState → Prop} (hb : b < ubiCapacity) :
    wp (ubiWrite b p data spare) Q E s ↔ Q .success (s.program b p data spare) := by
  simp [ubiWrite, hb]

theorem wp_ubiReadStatus {b : Nat} {Q : Status → FtlState → Prop} (hb : b < ubiCapacity) :
    wp (ubiReadStatus b) Q E s ↔ Q .success s := by
  simp [ubiReadStatus, hb]

theorem wp_ubiRead_programmed {b p : Nat} {data : Buffer} {spare : Spare}
    {Q : ReadResult → FtlState → Prop} (hb : b < ubiCapacity) (hp : p < 64)
    (h : s.flash.page b p = .programmed data spare) :
    wp (ubiRead b p) Q E s ↔ Q ⟨.success, some data, some spare⟩ s := by
  have hcap := Platform.ubiCapacity_le
  have hb' : b ≠ invalidBlock := by simp only [invalidBlock]; omega
  have hp' : p ≠ invalidPage := by simp only [invalidPage]; omega
  unfold ubiRead
  simp only [hb', hp', ne_eq, not_false_eq_true, and_self, if_true, wp_bind, wp_assert,
    hb, wp_get, h, wp_pure]

theorem wp_ubiRead_erased {b p : Nat} {Q : ReadResult → FtlState → Prop}
    (hb : b < ubiCapacity) (hp : p < 64) (h : s.flash.page b p = .erased) :
    wp (ubiRead b p) Q E s ↔ Q ⟨.failure, none, none⟩ s := by
  have hcap := Platform.ubiCapacity_le
  have hb' : b ≠ invalidBlock := by simp only [invalidBlock]; omega
  have hp' : p ≠ invalidPage := by simp only [invalidPage]; omega
  unfold ubiRead
  simp only [hb', hp', ne_eq, not_false_eq_true, and_self, if_true, wp_bind, wp_assert,
    hb, wp_get, h, wp_pure]

theorem wp_ubiRead_invalid {Q : ReadResult → FtlState → Prop} :
    wp (ubiRead invalidBlock invalidPage) Q E s ↔ Q ⟨.success, some .zeros, none⟩ s := by
  unfold ubiRead
  simp only [ne_eq, not_true_eq_false, and_self, if_false, wp_bind, wp_assert, if_true, wp_pure]

end

/-! ## The mapping -/

namespace FtlState

variable [Platform] (s : FtlState)

/-- `root_table.page_mapping_nodes[cluster]` -/
def node (c : Nat) : Nat := s.rootTable.pageMappingNodes c

/-- The mapping words of a cluster, in a cache slot or on flash. -/
def cluster (c : Nat) : Nat → Nat :=
  if pmNodeIsCached (s.node c) then s.pmt.nodeCaches (pmCacheSlot (s.node c))
  else s.flash.words (pmNodeBlock (s.node c)) (pmNodePage (s.node c))

/-- The mapping word of a logical page. -/
def mapping (addr : Nat) : Nat := s.cluster (clusterIndex addr) (pageInCluster addr)

end FtlState

/-- Operations on the data blocks. -/
def NandOp.onData (op : NandOp) : Bool := decide (dataStartBlock ≤ op.block)

/-- What the data layer sees of a state. -/
@[ext] structure DataView where
  mapping : Nat → Nat
  page : Nat → Nat → PageState
  dirty : Nat → Nat
  hotJournal : Nat
  coldJournal : Nat
  reclaimJournal : Nat
  hotMeta : Ram Spare
  coldMeta : Ram Spare
  api : ApiRam
  log : List NandOp

/-- The view has no mapping outside the capacity and no block before the data
blocks. -/
def FtlState.view [Platform] (s : FtlState) : DataView where
  mapping := fun addr => if addr < ftlCapacity then s.mapping addr else invalidPmNode
  page := fun b p => if dataStartBlock ≤ b then s.flash.page b p else .erased
  dirty := fun b => if dataStartBlock ≤ b then s.blockDirtyTable b else 0
  hotJournal := s.rootTable.hotJournal
  coldJournal := s.rootTable.coldJournal
  reclaimJournal := s.rootTable.reclaimJournal
  hotMeta := s.data.hotMeta
  coldMeta := s.data.coldMeta
  api := s.api
  log := s.flash.log.filter NandOp.onData

end RansomTag

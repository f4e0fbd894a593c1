import RansomTag.Ubi.Commit
import Mathlib.Algebra.Order.Group.Multiset
import Mathlib.Tactic.Abel

/-!
# Static wear leveling

`UBI_SWL` of `ubi_api.c` with its routines of `ubi_index.c`: the mapped block of the
smallest erase count in an area is exchanged for the free block of the largest.
-/

namespace RansomTag

@[simp, reducible] def staticWlThreshold : Nat := 1000

/-- What the locals of `UBI_SWL` hold before they are set. -/
structure SwlLocals where
  minBlock : FreeBlock
  maxBlock : FreeBlock
  spare : Words

/-- What the operations of the copy return, for each page `MTD_Program` with `MTD_WaitReady`,
and what one that fails leaves in its block or page. -/
structure CopyOutcomes where
  erase : Status
  eraseLeft : Nat → NandPage
  program : Nat → Status
  programLeft : Nat → NandPage

namespace CopyOutcomes

/-- No operation of the copy fails. -/
def Succeed (outcomes : CopyOutcomes) : Prop :=
  outcomes.erase = .success ∧ ∀ page < pagePerPhyBlock, outcomes.program page = .success

def afterErase (outcomes : CopyOutcomes) (nand : Nand) (block : Nat) : Nand :=
  if outcomes.erase = .success then mtdErase nand block
  else Function.update nand block outcomes.eraseLeft

def afterProgram (outcomes : CopyOutcomes) (nand : Nand) (block page : Nat) : Nand :=
  if outcomes.program page = .success then nand
  else nand.update block page (outcomes.programLeft page)

variable {outcomes : CopyOutcomes} {nand : Nand} {block b page : Nat}

theorem afterErase_other (h : b ≠ block) : outcomes.afterErase nand block b = nand b := by
  unfold afterErase
  split_ifs
  · exact mtdErase_other h
  · exact Function.update_of_ne h _ nand

theorem afterProgram_other (h : b ≠ block) : outcomes.afterProgram nand block page b = nand b := by
  unfold afterProgram
  split_ifs
  · rfl
  · exact Nand.update_other h

end CopyOutcomes

section

variable [UbiGeometry]

/-- The loops that look for the last entry with a count; they do not test entry 0. -/
def lastCounted (t : FreeTable) : Nat → Nat
  | 0 => 0
  | i + 1 => if (t (i + 1)).ec ≠ invalidEc then i + 1 else lastCounted t i

/-- `INDEX_FreeBlock_GetMaxECBlock`; without such an entry its results stay unset. -/
def freeBlockGetMaxECBlock (t : FreeTable) (unset : FreeBlock) : FreeBlock :=
  let i := lastCounted t (freeBlockCount - 1)
  if i > 0 then t i else unset

/-- `INDEX_FreeBlock_SwapMaxECBlock`.  With entry 0 alone, `i - 1` is `0xffffffff`. -/
def freeBlockSwapMaxECBlock (t : FreeTable) (min : FreeBlock) : Except UbiStop FreeTable :=
  let i := lastCounted t (freeBlockCount - 1)
  if (t i).ec ≠ invalidEc ∧ (t i).ec > min.ec ∧ (t i).ec - min.ec > staticWlThreshold then
    if i = 0 then .error .outOfTable else .ok (putFrom (i - 1) t min)
  else .ok t

/-- One round of the copy, unless it has failed: the buffers keep what they held when the
read fails, and are programmed all the same. -/
def copyPage (outcomes : CopyOutcomes) (source target : Nat)
    (c : Status × Nand × (Words × Words)) (page : Nat) :
    Except UbiStop (Status × Nand × (Words × Words)) := do
  if c.1 = .success then
    let (_, buffers) := mtdReadPage c.2.1 source page c.2.2
    let nand ← mtdProgramPage c.2.1 target page buffers.1 buffers.2
    .ok (outcomes.program page, outcomes.afterProgram nand target page, buffers)
  else .ok c

/-- The test of `UBI_SWL` whether the two blocks are exchanged. -/
def SwlRequired (min max : FreeBlock) : Prop :=
  max.block ≠ min.block ∧ max.block ≠ invalidBlock ∧ min.block ≠ invalidBlock ∧
    max.ec ≠ invalidEc ∧ min.ec ≠ invalidEc ∧ max.ec > min.ec ∧
    max.ec - min.ec > staticWlThreshold

instance (min max : FreeBlock) : Decidable (SwlRequired min max) :=
  inferInstanceAs (Decidable (_ ∧ _ ∧ _ ∧ _ ∧ _ ∧ _ ∧ _))

/-- The exchange of `UBI_SWL`: the erase and the copy and, unless these fail, the tables and
the commit. -/
def swlExchange (s : UbiState) (offset : Nat) (min max : FreeBlock) (spare : Words)
    (outcomes : CopyOutcomes) : Except UbiStop (Status × UbiState) := do
  let (ret, nand, buffers) ←
    (List.range pagePerPhyBlock).foldlM (copyPage outcomes min.block max.block)
      (outcomes.erase, outcomes.afterErase s.nand max.block, (s.tmpDataBuffer, spare))
  let s := { s with nand := nand, tmpDataBuffer := buffers.1 }
  if ret = .success then
    let s ← indexUpdateAreaUpdate s (s.swlCurrentArea * phyBlockPerArea + offset) max.block max.ec
    let t ← freeBlockSwapMaxECBlock s.freeTable min
    indexUpdateCommit { s with freeTable := t }
  else .ok (ret, s)

/-- `UBI_SWL`; `STATUS_BADBLOCK` from its own operations is a failure. -/
def ubiSwl (s : UbiState) (unset : SwlLocals) (outcomes : CopyOutcomes) :
    Except UbiStop (Status × UbiState) := do
  let ((offset, min), s) ← areaFindMinECBlock s s.swlCurrentArea unset.minBlock
  let max := freeBlockGetMaxECBlock s.freeTable unset.maxBlock
  if SwlRequired min max then swlExchange s offset min max unset.spare outcomes
  else .ok (.success, { s with
    anchorTable := Function.update s.anchorTable 6 ((s.swlCurrentArea + 1) % areaCount) })

/-! ## The blocks that are chosen -/

theorem lastCounted_eq {t : FreeTable} {l : List FreeBlock} (h : Represents t l)
    (hpos : 0 < l.length) (n : Nat) (hle : l.length - 1 ≤ n) (hlt : n < freeBlockCount) :
    lastCounted t n = l.length - 1 := by
  induction n with
  | zero =>
      rw [lastCounted]
      omega
  | succ n ih =>
      rw [lastCounted]
      by_cases hlast : l.length - 1 = n + 1
      · have hec := h.ec (n + 1) (by omega)
        rw [if_pos (Nat.ne_of_lt hec), hlast]
      · rw [if_neg (not_not_intro (h.rest (n + 1) (by omega) hlt))]
        exact ih (by omega) (by omega)

theorem freeBlockGetMaxECBlock_eq {t : FreeTable} {l : List FreeBlock} (h : Represents t l)
    (htwo : 2 ≤ l.length) (unset : FreeBlock) :
    freeBlockGetMaxECBlock t unset = t (l.length - 1) := by
  have hfits := h.fits
  have hlast := lastCounted_eq h (by omega) (freeBlockCount - 1) (by omega) (by omega)
  simp only [freeBlockGetMaxECBlock, hlast]
  rw [if_pos (by omega)]

/-- The block of the largest count leaves the table, and `min` finds its place. -/
theorem freeBlockSwapMaxECBlock_spec {t : FreeTable} {l : List FreeBlock} (h : Represents t l)
    (htwo : 2 ≤ l.length) {min : FreeBlock} (hrequired : SwlRequired min (t (l.length - 1))) :
    ∃ t' l' left, freeBlockSwapMaxECBlock t min = .ok t' ∧ Represents t' l' ∧
      l.Perm (t (l.length - 1) :: left) ∧ l'.Perm (min :: left) := by
  obtain ⟨-, -, hblock, -, hec, hgt, hgap⟩ := hrequired
  have hfits := h.fits
  have hlast := lastCounted_eq h (by omega) (freeBlockCount - 1) (by omega) (by omega)
  have hmax := h.ec (l.length - 1) (by omega)
  have hminEc : min.ec < invalidEc := by omega
  have hdrop : l.dropLast.length = l.length - 1 := List.length_dropLast
  obtain ⟨j, hj, hput⟩ := h.putFrom htwo hblock hminEc
  have hpred : l.length - 1 - 1 = l.length - 2 := by omega
  refine ⟨_, _, l.dropLast, ?_, hput, ?_, List.perm_insertIdx _ _ (by omega)⟩
  · simp only [freeBlockSwapMaxECBlock, hlast]
    rw [if_pos ⟨Nat.ne_of_lt hmax, hgt, hgap⟩, if_neg (by omega), hpred]
  · have hne : l ≠ [] := by
      rintro rfl
      cases htwo
    have hentry := h.entry (l.length - 1) (by omega)
    have hgetLast : l.getLast hne = t (l.length - 1) := by
      rw [List.getLast_eq_getElem]
      exact Option.some.inj ((List.getElem?_eq_getElem (by omega)).symm.trans hentry)
    have hsplit := List.dropLast_append_getLast hne
    rw [hgetLast] at hsplit
    have hperm := List.perm_append_singleton (t (l.length - 1)) l.dropLast
    rwa [hsplit] at hperm

theorem minEcOffset_lt (table : Words) : minEcOffset table < phyBlockPerArea := by
  have hfold : ∀ (l : List Nat) (min : Nat), (∀ i ∈ l, i < phyBlockPerArea) →
      min < phyBlockPerArea →
      l.foldl (fun min i =>
        if areaPhysicalBlockEc table i < areaPhysicalBlockEc table min then i else min) min <
          phyBlockPerArea := by
    intro l
    induction l with
    | nil => exact fun min _ hmin => hmin
    | cons i l ih =>
        intro min hl hmin
        refine ih _ (fun j hj => hl j (List.mem_cons_of_mem i hj)) ?_
        change (if areaPhysicalBlockEc table i < areaPhysicalBlockEc table min then i else min) <
          phyBlockPerArea
        split_ifs
        · exact hl i List.mem_cons_self
        · exact hmin
  exact hfold _ 0 (fun i hi => List.mem_range.mp hi) UbiGeometry.phyBlockPerArea_pos

/-! ## The copy -/

/-- What the first `n` rounds of the copy have done. -/
structure Copied (nand nand' : Nand) (source target n : Nat) : Prop where
  other : ∀ block, block ≠ target → nand' block = nand block
  fresh : ∀ page, n ≤ page → page < pagePerPhyBlock → nand' target page = .erased
  copied : ∀ page < n, ∀ data spare, nand source page = .programmed data spare →
    nand' target page = .programmed data spare
  programmed : ∀ page < n, ∃ data spare, nand' target page = .programmed data spare

/-- The first `n` rounds of a copy that starts with `ret₀`. -/
structure CopyRan (outcomes : CopyOutcomes) (nand nand' : Nand) (source target n : Nat)
    (ret₀ ret : Status) : Prop where
  status : ret = .success ↔ ret₀ = .success ∧ ∀ page < n, outcomes.program page = .success
  other : ∀ block, block ≠ target → nand' block = nand block
  copied : ret = .success → Copied nand nand' source target n

omit [UbiGeometry] in
/-- A round after `n` that succeeded. -/
theorem Copied.succ {nand nand₁ : Nand} {source target n : Nat} {ret : Status}
    {buffers₁ : Words × Words} {data spare : Words} (h : Copied nand nand₁ source target n)
    (hne : source ≠ target) (hread : mtdReadPage nand₁ source n buffers₁ = (ret, (data, spare))) :
    Copied nand (nand₁.update target n (.programmed data spare)) source target (n + 1) := by
  have hrow : ∀ page, nand₁.update target n (.programmed data spare) target page =
      if page = n then .programmed data spare else nand₁ target page := by
    intro page
    rw [Nand.update, Function.update_self]
    exact Function.update_apply _ _ _ _
  refine ⟨?_, ?_, ?_, ?_⟩
  · exact fun block hblock => (Nand.update_other hblock).trans (h.other block hblock)
  · intro page hle hlt
    rw [hrow, if_neg (by omega)]
    exact h.fresh page (by omega) hlt
  · intro page hpage data' spare' hsource
    rw [hrow]
    split_ifs with hsame
    · subst hsame
      rw [mtdReadPage, h.other source hne, hsource] at hread
      cases hread
      rfl
    · exact h.copied page (by omega) data' spare' hsource
  · intro page hpage
    rw [hrow]
    split_ifs with hsame
    · exact ⟨data, spare, rfl⟩
    · exact h.programmed page (by omega)

omit [UbiGeometry] in
/-- A block that is erased is copied up to the first operation that fails. -/
theorem copyPages_spec {outcomes : CopyOutcomes} {nand : Nand} {source target : Nat}
    {ret₀ : Status} (hne : source ≠ target)
    (herased : ret₀ = .success → ∀ page < pagePerPhyBlock, nand target page = .erased)
    (buffers : Words × Words) (n : Nat) (hn : n ≤ pagePerPhyBlock) :
    ∃ ret nand' buffers',
      (List.range n).foldlM (copyPage outcomes source target) (ret₀, nand, buffers) =
        .ok (ret, nand', buffers') ∧ CopyRan outcomes nand nand' source target n ret₀ ret := by
  induction n with
  | zero =>
      refine ⟨ret₀, nand, buffers, rfl, ⟨?_, fun _ _ => rfl, fun hret => ?_⟩⟩
      · exact ⟨fun hret => ⟨hret, fun page hpage => absurd hpage (Nat.not_lt_zero page)⟩, And.left⟩
      · exact ⟨fun _ _ => rfl, fun page _ hpage => herased hret page hpage,
          fun page hpage => absurd hpage (Nat.not_lt_zero page),
          fun page hpage => absurd hpage (Nat.not_lt_zero page)⟩
  | succ n ih =>
      obtain ⟨ret₁, nand₁, buffers₁, hloop, hran⟩ := ih (by omega)
      have hrounds : ∀ c, copyPage outcomes source target (ret₁, nand₁, buffers₁) n = .ok c →
          (List.range (n + 1)).foldlM (copyPage outcomes source target) (ret₀, nand, buffers) =
            .ok c := by
        intro c hround
        rw [List.range_succ, List.foldlM_append, hloop]
        simp only [bind, Except.bind, List.foldlM_cons, List.foldlM_nil, hround]
        rfl
      have hbelow : (∀ page < n + 1, outcomes.program page = .success) ↔
          (∀ page < n, outcomes.program page = .success) ∧ outcomes.program n = .success :=
        Nat.forall_lt_succ_right
      by_cases hret : ret₁ = .success
      · have hcopied := hran.copied hret
        obtain ⟨ret, data, spare, hread⟩ : ∃ ret data spare,
            mtdReadPage nand₁ source n buffers₁ = (ret, (data, spare)) := ⟨_, _, _, rfl⟩
        have hfresh := hcopied.fresh n le_rfl hn
        have hround : copyPage outcomes source target (ret₁, nand₁, buffers₁) n =
            .ok (outcomes.program n, outcomes.afterProgram
              (nand₁.update target n (.programmed data spare)) target n, (data, spare)) := by
          simp only [copyPage, hret, if_true, hread, mtdProgramPage, hfresh, bind, Except.bind]
        refine ⟨_, _, _, hrounds _ hround, ⟨?_, fun block hblock => ?_, fun hprogram => ?_⟩⟩
        · rw [hbelow, ← and_assoc, ← hran.status]
          exact (and_iff_right hret).symm
        · rw [CopyOutcomes.afterProgram_other hblock, Nand.update_other hblock]
          exact hran.other block hblock
        · rw [CopyOutcomes.afterProgram, if_pos hprogram]
          exact hcopied.succ hne hread
      · refine ⟨ret₁, nand₁, buffers₁, hrounds _ (if_neg hret), ⟨?_, hran.other, ?_⟩⟩
        · rw [hbelow, ← and_assoc, ← hran.status]
          exact ⟨fun h => absurd h hret, fun h => absurd h.1 hret⟩
        · exact fun h => absurd h hret

/-! ## The exchange -/

variable {s : UbiState} {tables : Nat → Words} {free : List FreeBlock}

/-- The place in the current area of the block that is taken. -/
def swlOffset (s : UbiState) (tables : Nat → Words) : Nat :=
  minEcOffset (tables s.swlCurrentArea)

/-- The mapped block of the smallest count, with its count. -/
def swlMin (s : UbiState) (tables : Nat → Words) : FreeBlock where
  block := areaPhysicalBlock (tables s.swlCurrentArea) (swlOffset s tables)
  ec := areaPhysicalBlockEc (tables s.swlCurrentArea) (swlOffset s tables)

/-- The free block of the largest count. -/
def swlMax (s : UbiState) (free : List FreeBlock) : FreeBlock :=
  s.freeTable (free.length - 1)

/-- What `UBI_SWL` leaves once it has exchanged the two blocks. -/
structure Exchanged (s s' : UbiState) (tables : Nat → Words) (free free' : List FreeBlock) :
    Prop where
  owned : Owned s' (tablesSet tables s.swlCurrentArea (swlOffset s tables) (swlMax s free)) free'
  stored : ∀ a < areaCount,
    AreaStored s' (tablesSet tables s.swlCurrentArea (swlOffset s tables) (swlMax s free)) a
  cachedNumber : s'.cachedAreaNumber = s.swlCurrentArea
  cachedTable : s'.cachedAreaTable =
    tablesSet tables s.swlCurrentArea (swlOffset s tables) (swlMax s free) s.swlCurrentArea
  others : ∀ a i block, Uses s tables free (.mapped a i) block →
    ¬(a = s.swlCurrentArea ∧ i = swlOffset s tables) → s'.nand block = s.nand block
  copied : ∀ page < pagePerPhyBlock, ∀ data spare,
    s.nand (swlMin s tables).block page = .programmed data spare →
      s'.nand (swlMax s free).block page = .programmed data spare
  programmed : ∀ page < pagePerPhyBlock, ∃ data spare,
    s'.nand (swlMax s free).block page = .programmed data spare
  conserved : (free'.map FreeBlock.block : Multiset Nat) + {(swlMax s free).block} +
      {s'.areaIndexTable s.swlCurrentArea} + {s'.indexBlock} =
    (free.map FreeBlock.block : Multiset Nat) + {(swlMin s tables).block} +
      {s.areaIndexTable s.swlCurrentArea} + {s.indexBlock}
  areaBlock_eq : s.areaOffsetTable s.swlCurrentArea ≠ pagePerPhyBlock - 1 →
    s'.areaIndexTable s.swlCurrentArea = s.areaIndexTable s.swlCurrentArea
  areaBlock_taken : s.areaOffsetTable s.swlCurrentArea = pagePerPhyBlock - 1 →
    s'.areaIndexTable s.swlCurrentArea ∈ free.map FreeBlock.block ∨
      s'.areaIndexTable s.swlCurrentArea = (swlMin s tables).block
  indexBlock_eq : s.indexNextPage ≠ pagePerPhyBlock → s'.indexBlock = s.indexBlock

theorem UbiOk.cacheArea (h : UbiOk s tables free) {area : Nat} (harea : area < areaCount) :
    UbiOk { s with cachedAreaTable := tables area, cachedAreaNumber := area } tables free where
  owned := ⟨h.owned.table, h.owned.nodup, h.owned.exclusive⟩
  stored a ha := (h.stored a ha).of_same rfl rfl rfl rfl
  cached _ := ⟨harea, rfl⟩
  areaBlock := h.areaBlock
  areaEc := h.areaEc
  index := h.index.of_same rfl rfl rfl rfl
  anchor := h.anchor.of_same rfl rfl rfl rfl
  swlArea := h.swlArea

theorem UbiOk.cachedTable (h : UbiOk s tables free) {area : Nat} (harea : area < areaCount)
    (hcached : s.cachedAreaNumber = area) : s.cachedAreaTable = tables area := by
  have hle := areaCount_le
  have hvalid : s.cachedAreaNumber ≠ invalidArea := by
    simp only [invalidArea]
    omega
  rw [(h.cached hvalid).2, hcached]

theorem UbiOk.areaFindMinECBlock_eq (h : UbiOk s tables free) (unset : FreeBlock) :
    areaFindMinECBlock s s.swlCurrentArea unset =
      .ok ((swlOffset s tables, swlMin s tables), { s with
        cachedAreaTable := tables s.swlCurrentArea
        cachedAreaNumber := s.swlCurrentArea }) := by
  rw [areaFindMinECBlock, areaRead_spec h.swlArea (h.stored _ h.swlArea)
    (h.cachedTable h.swlArea)]
  rfl

variable (s free) in
/-- The exchange maps `new` in one place, and every other place is as it was. -/
theorem uses_mapped_tablesSet {s' : UbiState} {free' : List FreeBlock} {area offset a i : Nat}
    {new : FreeBlock} {block : Nat} :
    Uses s' (tablesSet tables area offset new) free' (.mapped a i) block ↔
      ((a = area ∧ i = offset) ∧ area < areaCount ∧ offset < phyBlockPerArea ∧
          new.block = block ∧ block ≠ invalidBlock) ∨
        ¬(a = area ∧ i = offset) ∧ Uses s tables free (.mapped a i) block := by
  simp only [Uses]
  by_cases harea : a = area
  · subst harea
    rw [tablesSet, Function.update_self, areaPhysicalBlock_set]
    by_cases hoffset : i = offset
    · subst hoffset
      simp only [if_true, and_self, true_and, not_true_eq_false, false_and, or_false]
    · simp only [hoffset, if_false, and_false, false_and, not_false_eq_true, true_and, false_or]
  · rw [tablesSet, Function.update_of_ne harea]
    simp only [harea, false_and, not_false_eq_true, true_and, false_or]

/-- The blocks as they are used once the tables in RAM are changed. -/
theorem UbiOk.committing (h : UbiOk s tables free) (hcached : s.cachedAreaNumber = s.swlCurrentArea)
    (hrequired : SwlRequired (swlMin s tables) (swlMax s free)) {nand : Nand} (buffer : Words)
    {t : FreeTable} {free₁ left : List FreeBlock}
    (hother : ∀ block, block ≠ (swlMax s free).block → nand block = s.nand block)
    (htable : Represents t free₁) (hperm : free.Perm (swlMax s free :: left))
    (hput : free₁.Perm (swlMin s tables :: left)) :
    Committing { s with
      nand := nand
      tmpDataBuffer := buffer
      areaUpdatePlr := ⟨s.swlCurrentArea * phyBlockPerArea + swlOffset s tables,
        (swlMax s free).block, (swlMax s free).ec⟩
      isUpdatingArea := true
      freeTable := t } tables free₁ s.swlCurrentArea (swlOffset s tables) (swlMax s free) := by
  have hmaxUse : Uses s tables free .free (swlMax s free).block :=
    (hperm.map FreeBlock.block).mem_iff.mpr List.mem_cons_self
  have hminUse : Uses s tables free (.mapped s.swlCurrentArea (swlOffset s tables))
      (swlMin s tables).block :=
    ⟨h.swlArea, minEcOffset_lt _, rfl, hrequired.2.2.1⟩
  have hnand : ∀ o block, o ≠ .free → Uses s tables free o block → nand block = s.nand block := by
    intro o block ho huse
    exact hother block (h.owned.exclusive.ne ho huse hmaxUse)
  have hindexUse : Uses s tables free .index s.indexBlock := rfl
  have hanchorUse : Uses s tables free .anchor s.anchorBlock := h.anchor.block
  constructor
  · exact h.swlArea
  · exact minEcOffset_lt _
  · exact hrequired.2.1
  · refine h.owned.replace BlockUse.noConfusion hminUse hperm hput htable ?_ ?_
    · intro o b hfree hmapped hb
      cases o with
      | mapped a i =>
          rcases (uses_mapped_tablesSet s free).mp hb with ⟨⟨rfl, rfl⟩, -⟩ | ⟨-, huse⟩
          · exact absurd rfl hmapped
          · exact huse
      | areaTable a => exact hb
      | index => exact hb
      | free => exact absurd rfl hfree
      | anchor => exact hb
    · intro b hb
      rcases (uses_mapped_tablesSet s free).mp hb with ⟨-, -, -, hblock, -⟩ | ⟨hother, -⟩
      · exact hblock.symm
      · exact absurd ⟨rfl, rfl⟩ hother
  · intro hnil
    rw [hnil] at hput
    exact absurd hput.length_eq (by simp)
  · intro a ha
    have huse : Uses s tables free (.areaTable a) (s.areaIndexTable a) := ⟨ha, rfl⟩
    exact (h.stored a ha).of_same rfl rfl rfl (hnand _ _ BlockUse.noConfusion huse)
  · exact hcached
  · exact h.cachedTable h.swlArea hcached
  · rfl
  · rfl
  · exact h.areaBlock _ h.swlArea
  · exact h.areaEc _ h.swlArea
  · exact h.index.of_same rfl rfl rfl (hnand _ _ BlockUse.noConfusion hindexUse)
  · exact h.anchor.of_same rfl rfl rfl (hnand _ _ BlockUse.noConfusion hanchorUse)

/-- The copy of the exchange, also where it fails. -/
theorem swlCopy_spec (outcomes : CopyOutcomes) (spare : Words)
    (hrequired : SwlRequired (swlMin s tables) (swlMax s free)) :
    ∃ ret nand buffers, (List.range pagePerPhyBlock).foldlM
        (copyPage outcomes (swlMin s tables).block (swlMax s free).block)
        (outcomes.erase, outcomes.afterErase s.nand (swlMax s free).block,
          (s.tmpDataBuffer, spare)) = .ok (ret, nand, buffers) ∧
      (ret = .success ↔ outcomes.Succeed) ∧
      (∀ block, block ≠ (swlMax s free).block → nand block = s.nand block) ∧
      (ret = .success → Copied (mtdErase s.nand (swlMax s free).block) nand
        (swlMin s tables).block (swlMax s free).block pagePerPhyBlock) := by
  have hne : (swlMin s tables).block ≠ (swlMax s free).block := fun heq => hrequired.1 heq.symm
  have hafter : outcomes.erase = .success → outcomes.afterErase s.nand (swlMax s free).block =
      mtdErase s.nand (swlMax s free).block := fun herase => if_pos herase
  have herased : outcomes.erase = .success → ∀ page < pagePerPhyBlock,
      outcomes.afterErase s.nand (swlMax s free).block (swlMax s free).block page = .erased := by
    intro herase page _
    rw [hafter herase]
    exact congrFun (Function.update_self (swlMax s free).block _ s.nand) page
  obtain ⟨ret, nand, buffers, hcopy, hran⟩ :=
    copyPages_spec hne herased (s.tmpDataBuffer, spare) pagePerPhyBlock le_rfl
  refine ⟨ret, nand, buffers, hcopy, hran.status, fun block hblock => ?_, fun hret => ?_⟩
  · exact (hran.other block hblock).trans (CopyOutcomes.afterErase_other hblock)
  · rw [← hafter (hran.status.mp hret).1]
    exact hran.copied hret

/-- A copy that fails ends the exchange, with the tables as they were. -/
theorem swlExchange_failed {outcomes : CopyOutcomes} (hfails : ¬outcomes.Succeed)
    (hrequired : SwlRequired (swlMin s tables) (swlMax s free)) (spare : Words) :
    ∃ ret nand buffer, ret ≠ .success ∧
      (∀ block, block ≠ (swlMax s free).block → nand block = s.nand block) ∧
      swlExchange s (swlOffset s tables) (swlMin s tables) (swlMax s free) spare outcomes =
        .ok (ret, { s with nand := nand, tmpDataBuffer := buffer }) := by
  obtain ⟨ret, nand, buffers, hcopy, hstatus, hother, -⟩ := swlCopy_spec outcomes spare hrequired
  have hret : ret ≠ .success := fun hsuccess => hfails (hstatus.mp hsuccess)
  refine ⟨ret, nand, buffers.1, hret, hother, ?_⟩
  simp only [swlExchange, hcopy, bind, Except.bind]
  exact if_neg hret

theorem UbiOk.exchange (h : UbiOk s tables free) (htwo : 2 ≤ free.length)
    (hcached : s.cachedAreaNumber = s.swlCurrentArea)
    (hrequired : SwlRequired (swlMin s tables) (swlMax s free)) (spare : Words)
    {outcomes : CopyOutcomes} (hsucceed : outcomes.Succeed) :
    ∃ s' free', swlExchange s (swlOffset s tables) (swlMin s tables) (swlMax s free) spare
        outcomes = .ok (.success, s') ∧ Exchanged s s' tables free free' := by
  obtain ⟨t, free₁, left, hswap, htable, hperm, hput⟩ :=
    freeBlockSwapMaxECBlock_spec h.owned.table htwo hrequired
  change free.Perm (swlMax s free :: left) at hperm
  have hne : (swlMin s tables).block ≠ (swlMax s free).block := fun heq => hrequired.1 heq.symm
  obtain ⟨ret, nand, buffers, hcopy, hstatus, hothers, hsuccess⟩ :=
    swlCopy_spec outcomes spare hrequired
  obtain rfl : ret = .success := hstatus.mpr hsucceed
  have hcopied := hsuccess rfl
  have hcommitting := h.committing hcached hrequired buffers.1 hothers htable hperm hput
  obtain ⟨s', free', hcommit, hdone⟩ := hcommitting.commit
  have hmaxUse : Uses s tables free .free (swlMax s free).block :=
    (hperm.map FreeBlock.block).mem_iff.mpr List.mem_cons_self
  have htarget : s'.nand (swlMax s free).block = nand (swlMax s free).block :=
    hdone.nand s.swlCurrentArea (swlOffset s tables) _ ((uses_mapped_tablesSet s free).mpr
      (Or.inl ⟨⟨rfl, rfl⟩, h.swlArea, minEcOffset_lt _, rfl, hrequired.2.1⟩))
  refine ⟨s', free', ?_, hdone.owned, hdone.stored, hdone.cachedNumber, hdone.cachedTable, ?_, ?_,
    ?_, ?_, hdone.areaBlock_eq, fun hfull => ?_, hdone.indexBlock_eq⟩
  · simp only [swlExchange, hcopy, bind, Except.bind, indexUpdateAreaUpdate, if_true]
    rw [if_pos ⟨hrequired.2.1, hrequired.2.2.2.1⟩]
    simp only [hswap]
    exact hcommit
  · intro a i block huse hother
    have hfree := h.owned.exclusive.ne BlockUse.noConfusion huse hmaxUse
    rw [hdone.nand a i block ((uses_mapped_tablesSet s free).mpr (Or.inr ⟨hother, huse⟩))]
    exact hothers block hfree
  · intro page hpage data spare' hsource
    rw [htarget]
    refine hcopied.copied page hpage data spare' ?_
    rwa [mtdErase_other hne]
  · intro page hpage
    rw [htarget]
    exact hcopied.programmed page hpage
  · have hswapped := conserved_of_perm hperm hput
    calc (free'.map FreeBlock.block : Multiset Nat) + {(swlMax s free).block} +
          {s'.areaIndexTable s.swlCurrentArea} + {s'.indexBlock}
        = (free'.map FreeBlock.block : Multiset Nat) + {s'.areaIndexTable s.swlCurrentArea} +
            {s'.indexBlock} + {(swlMax s free).block} := by abel
      _ = (free₁.map FreeBlock.block : Multiset Nat) + {s.areaIndexTable s.swlCurrentArea} +
            {s.indexBlock} + {(swlMax s free).block} := by rw [hdone.conserved]
      _ = (free₁.map FreeBlock.block : Multiset Nat) + {(swlMax s free).block} +
            {s.areaIndexTable s.swlCurrentArea} + {s.indexBlock} := by abel
      _ = _ := by rw [hswapped]
  · rcases List.mem_cons.mp ((hput.map FreeBlock.block).mem_iff.mp (hdone.areaBlock_taken hfull))
      with hmin | hleft
    · exact Or.inr hmin
    · exact Or.inl ((hperm.map FreeBlock.block).mem_iff.mpr (List.mem_cons_of_mem _ hleft))

/-! ## What callers see -/

/-- The logical block whose physical block is taken. -/
def swlBlock (s : UbiState) (tables : Nat → Words) : Nat :=
  s.swlCurrentArea * phyBlockPerArea + swlOffset s tables

/-- The blocks of the free-block table. -/
def freeBlocks (s : UbiState) : Multiset Nat :=
  (validEntries s.freeTable : Multiset FreeBlock).map FreeBlock.block

theorem Owned.freeBlocks_eq (h : Owned s tables free) :
    freeBlocks s = (free.map FreeBlock.block : Multiset Nat) := by
  rw [freeBlocks, h.table.validEntries_eq, Multiset.map_coe]

theorem eq_swlBlock_iff {block : Nat} :
    block = swlBlock s tables ↔
      areaIndex block = s.swlCurrentArea ∧ blockOffsetArea block = swlOffset s tables := by
  unfold swlBlock
  constructor
  · rintro rfl
    exact ⟨areaIndex_add (minEcOffset_lt _), blockOffsetArea_add (minEcOffset_lt _)⟩
  · rintro ⟨harea, hoffset⟩
    rw [← harea, ← hoffset, areaIndex, blockOffsetArea, Nat.mul_comm, Nat.div_add_mod]

theorem UbiOk.outcome (h : UbiOk s tables free) {block : Nat} (harea : areaIndex block < areaCount)
    (page : Nat) : ubiReadOutcome s block page = readThrough tables s.nand block page :=
  ubiReadOutcome_eq harea (h.stored _ harea) (h.cachedTable harea) page

theorem Exchanged.outcome {s' : UbiState} {free' : List FreeBlock}
    (h : Exchanged s s' tables free free') {block : Nat} (harea : areaIndex block < areaCount)
    (page : Nat) :
    ubiReadOutcome s' block page =
      readThrough (tablesSet tables s.swlCurrentArea (swlOffset s tables) (swlMax s free)) s'.nand
        block page := by
  refine ubiReadOutcome_eq harea (h.stored _ harea) (fun hcached => ?_) page
  rw [h.cachedTable, ← h.cachedNumber, hcached]

/-- A logical block that keeps its physical block reads as before. -/
theorem Exchanged.outcome_other {s' : UbiState} {free' : List FreeBlock} (hok : UbiOk s tables free)
    (h : Exchanged s s' tables free free') {block : Nat} (harea : areaIndex block < areaCount)
    (hother : block ≠ swlBlock s tables) (page : Nat) :
    ubiReadOutcome s' block page = ubiReadOutcome s block page := by
  have hplace : ¬(areaIndex block = s.swlCurrentArea ∧
      blockOffsetArea block = swlOffset s tables) := fun hsame => hother (eq_swlBlock_iff.mpr hsame)
  have hphysical : physicalBlock
      (tablesSet tables s.swlCurrentArea (swlOffset s tables) (swlMax s free)) block =
        physicalBlock tables block := by
    unfold physicalBlock
    by_cases hsame : areaIndex block = s.swlCurrentArea
    · rw [hsame, tablesSet, Function.update_self, areaPhysicalBlock_set,
        if_neg fun hoffset => hplace ⟨hsame, hoffset⟩]
    · rw [tablesSet, Function.update_of_ne hsame]
  rw [h.outcome harea, hok.outcome harea]
  unfold readThrough
  rw [hphysical]
  by_cases hmapped : physicalBlock tables block ≠ invalidBlock
  · have huse : Uses s tables free (.mapped (areaIndex block) (blockOffsetArea block))
        (physicalBlock tables block) :=
      ⟨harea, Nat.mod_lt _ UbiGeometry.phyBlockPerArea_pos, rfl, hmapped⟩
    rw [h.others _ _ _ huse hplace]
  · rw [if_neg hmapped, if_neg hmapped]

theorem swlBlock_lt (tables : Nat → Words) (h : s.swlCurrentArea < areaCount) :
    areaIndex (swlBlock s tables) < areaCount ∧ swlBlock s tables ≠ invalidBlock := by
  have hoffset : swlOffset s tables < phyBlockPerArea := minEcOffset_lt _
  have hle := UbiGeometry.logicalBlocks_le
  have hrow := Nat.mul_le_mul_right phyBlockPerArea (Nat.succ_le_of_lt h)
  rw [Nat.succ_mul] at hrow
  constructor
  · rwa [(eq_swlBlock_iff.mp rfl).1]
  · unfold swlBlock
    simp only [invalidBlock]
    omega

theorem physicalBlock_swlBlock :
    physicalBlock tables (swlBlock s tables) = (swlMin s tables).block := by
  obtain ⟨hindex, hoffset⟩ := eq_swlBlock_iff.mp (rfl : swlBlock s tables = swlBlock s tables)
  rw [physicalBlock, hindex, hoffset, swlMin]

/-- A page of the block that is taken reads from the block that replaces it. -/
theorem Exchanged.outcome_swlBlock {s' : UbiState} {free' : List FreeBlock}
    (hok : UbiOk s tables free) (h : Exchanged s s' tables free free')
    (hrequired : SwlRequired (swlMin s tables) (swlMax s free)) {page : Nat}
    (hpage : page < pagePerPhyBlock) :
    ubiReadOutcome s (swlBlock s tables) page =
        .ok (s.nand (swlMin s tables).block page).outcome ∧
      ubiReadOutcome s' (swlBlock s tables) page =
        .ok (s'.nand (swlMax s free).block page).outcome := by
  obtain ⟨harea, hblock⟩ := swlBlock_lt tables hok.swlArea
  obtain ⟨hindex, hoffset⟩ := eq_swlBlock_iff.mp (rfl : swlBlock s tables = swlBlock s tables)
  have hvalid : page ≠ invalidPage := by
    simp only [pagePerPhyBlock, invalidPage] at *
    omega
  have hmax : physicalBlock
      (tablesSet tables s.swlCurrentArea (swlOffset s tables) (swlMax s free))
        (swlBlock s tables) = (swlMax s free).block := by
    rw [physicalBlock, hindex, hoffset, tablesSet, Function.update_self, areaPhysicalBlock_set,
      if_pos rfl]
  constructor
  · rw [hok.outcome harea, readThrough, if_pos ⟨hblock, hvalid⟩, physicalBlock_swlBlock,
      if_pos hrequired.2.2.1]
  · rw [h.outcome harea, readThrough, if_pos ⟨hblock, hvalid⟩, hmax, if_pos hrequired.2.1]

/-- What callers see of an exchange of `min` for `max` under the logical block `logical`. -/
structure SwlInvisible (s s' : UbiState) (logical : Nat) (min max : FreeBlock) : Prop where
  others : ∀ block page, areaIndex block < areaCount → block ≠ logical →
    ubiReadOutcome s' block page = ubiReadOutcome s block page
  programmed : ∀ page < pagePerPhyBlock, ∀ r, ubiReadOutcome s logical page = .ok r →
    r.status = .success → ubiReadOutcome s' logical page = .ok r
  exchanged : freeBlocks s' + {max.block} + {s'.areaIndexTable s.swlCurrentArea} +
      {s'.indexBlock} =
    freeBlocks s + {min.block} + {s.areaIndexTable s.swlCurrentArea} + {s.indexBlock}
  areaBlock_eq : s.areaOffsetTable s.swlCurrentArea ≠ pagePerPhyBlock - 1 →
    s'.areaIndexTable s.swlCurrentArea = s.areaIndexTable s.swlCurrentArea
  areaBlock_taken : s.areaOffsetTable s.swlCurrentArea = pagePerPhyBlock - 1 →
    s'.areaIndexTable s.swlCurrentArea ∈ freeBlocks s + {min.block}
  indexBlock_eq : s.indexNextPage ≠ pagePerPhyBlock → s'.indexBlock = s.indexBlock

theorem Exchanged.invisible {s' : UbiState} {free' : List FreeBlock} (hok : UbiOk s tables free)
    (h : Exchanged s s' tables free free')
    (hrequired : SwlRequired (swlMin s tables) (swlMax s free)) :
    SwlInvisible s s' (swlBlock s tables) (swlMin s tables) (swlMax s free) where
  others block page harea hother := h.outcome_other hok harea hother page
  programmed := by
    intro page hpage r hr hsuccess
    obtain ⟨hbefore, hafter⟩ := h.outcome_swlBlock hok hrequired hpage
    rw [hafter]
    rw [hbefore] at hr
    cases hr
    cases hsource : s.nand (swlMin s tables).block page with
    | programmed data spare => rw [h.copied page hpage data spare hsource]
    | erased =>
        rw [hsource] at hsuccess
        cases hsuccess
    | torn =>
        rw [hsource] at hsuccess
        cases hsuccess
  exchanged := by
    rw [h.owned.freeBlocks_eq, hok.owned.freeBlocks_eq]
    exact h.conserved
  areaBlock_eq := h.areaBlock_eq
  areaBlock_taken := by
    intro hfull
    rw [hok.owned.freeBlocks_eq, Multiset.mem_add, Multiset.mem_singleton]
    exact h.areaBlock_taken hfull
  indexBlock_eq := h.indexBlock_eq

/-- The blocks in use and the area tables are as they were. -/
structure KeepsUsed (s s' : UbiState) (tables : Nat → Words) (free : List FreeBlock) : Prop where
  offset : s'.areaOffsetTable = s.areaOffsetTable
  index : s'.areaIndexTable = s.areaIndexTable
  cached : s'.cachedAreaTable = tables s'.cachedAreaNumber
  nand : ∀ o block, o ≠ .free → Uses s tables free o block → s'.nand block = s.nand block

theorem UbiOk.outcome_of_keeps (h : UbiOk s tables free) {s' : UbiState}
    (hkeeps : KeepsUsed s s' tables free) {block : Nat} (harea : areaIndex block < areaCount)
    (page : Nat) : ubiReadOutcome s' block page = ubiReadOutcome s block page := by
  have hstored : AreaStored s' tables (areaIndex block) :=
    (h.stored _ harea).of_same rfl (congrFun hkeeps.offset _) (congrFun hkeeps.index _)
      (hkeeps.nand (.areaTable (areaIndex block)) _ BlockUse.noConfusion ⟨harea, rfl⟩)
  have hcached : s'.cachedAreaNumber = areaIndex block →
      s'.cachedAreaTable = tables (areaIndex block) :=
    fun hnumber => hkeeps.cached.trans (congrArg tables hnumber)
  rw [ubiReadOutcome_eq harea hstored hcached, h.outcome harea]
  unfold readThrough
  by_cases hmapped : physicalBlock tables block ≠ invalidBlock
  · have huse : Uses s tables free (.mapped (areaIndex block) (blockOffsetArea block))
        (physicalBlock tables block) :=
      ⟨harea, Nat.mod_lt _ UbiGeometry.phyBlockPerArea_pos, rfl, hmapped⟩
    rw [hkeeps.nand _ _ BlockUse.noConfusion huse]
  · rw [if_neg hmapped, if_neg hmapped]

/-- The exchange takes place in the state with the area's table in RAM. -/
theorem UbiOk.ubiSwl_eq (h : UbiOk s tables free) (htwo : 2 ≤ free.length)
    (hrequired : SwlRequired (swlMin s tables) (swlMax s free)) (unset : SwlLocals)
    (outcomes : CopyOutcomes) :
    ubiSwl s unset outcomes = swlExchange { s with
      cachedAreaTable := tables s.swlCurrentArea
      cachedAreaNumber := s.swlCurrentArea } (swlOffset s tables) (swlMin s tables)
        (swlMax s free) unset.spare outcomes := by
  rw [ubiSwl, h.areaFindMinECBlock_eq]
  simp only [bind, Except.bind, freeBlockGetMaxECBlock_eq h.owned.table htwo]
  exact if_pos hrequired

theorem UbiOk.swl_required (h : UbiOk s tables free) (htwo : 2 ≤ free.length)
    (hrequired : SwlRequired (swlMin s tables) (swlMax s free)) (unset : SwlLocals)
    {outcomes : CopyOutcomes} (hsucceed : outcomes.Succeed) :
    ∃ s' free', ubiSwl s unset outcomes = .ok (.success, s') ∧
      Exchanged { s with
        cachedAreaTable := tables s.swlCurrentArea
        cachedAreaNumber := s.swlCurrentArea } s' tables free free' := by
  rw [h.ubiSwl_eq htwo hrequired]
  exact (h.cacheArea h.swlArea).exchange htwo rfl hrequired unset.spare hsucceed

/-- What callers see where nothing is exchanged. -/
structure SwlUnchanged (s s' : UbiState) : Prop where
  freeTable : s'.freeTable = s.freeTable
  reads : ∀ block page, areaIndex block < areaCount →
    ubiReadOutcome s' block page = ubiReadOutcome s block page

/-- A copy that fails has changed a free block only. -/
theorem UbiOk.swl_failed (h : UbiOk s tables free) (htwo : 2 ≤ free.length)
    (hrequired : SwlRequired (swlMin s tables) (swlMax s free)) (unset : SwlLocals)
    {outcomes : CopyOutcomes} (hfails : ¬outcomes.Succeed) :
    ∃ ret s', ubiSwl s unset outcomes = .ok (ret, s') ∧ ret ≠ .success ∧ SwlUnchanged s s' := by
  obtain ⟨ret, nand, buffer, hret, hother, hexchange⟩ := swlExchange_failed (s := { s with
    cachedAreaTable := tables s.swlCurrentArea
    cachedAreaNumber := s.swlCurrentArea }) hfails hrequired unset.spare
  have hmaxUse : Uses s tables free .free (swlMax s free).block := by
    obtain ⟨_, _, _, -, -, hperm, -⟩ := freeBlockSwapMaxECBlock_spec h.owned.table htwo hrequired
    exact (hperm.map FreeBlock.block).mem_iff.mpr List.mem_cons_self
  have hnand : ∀ o b, o ≠ .free → Uses s tables free o b → nand b = s.nand b :=
    fun o b ho huse => hother b (h.owned.exclusive.ne ho huse hmaxUse)
  refine ⟨ret, _, (h.ubiSwl_eq htwo hrequired unset outcomes).trans hexchange, hret, rfl,
    fun block page harea => h.outcome_of_keeps ?_ harea page⟩
  exact ⟨rfl, rfl, rfl, hnand⟩

/-- Without an exchange only the area's table is read, and the next area is due. -/
theorem UbiOk.swl_notRequired (h : UbiOk s tables free) (htwo : 2 ≤ free.length)
    (hrequired : ¬SwlRequired (swlMin s tables) (swlMax s free)) (unset : SwlLocals)
    (outcomes : CopyOutcomes) :
    ∃ s', ubiSwl s unset outcomes = .ok (.success, s') ∧ SwlUnchanged s s' := by
  refine ⟨{ s with
    cachedAreaTable := tables s.swlCurrentArea
    cachedAreaNumber := s.swlCurrentArea
    anchorTable := Function.update s.anchorTable 6 ((s.swlCurrentArea + 1) % areaCount) }, ?_,
    rfl, fun block page harea => h.outcome_of_keeps ?_ harea page⟩
  · rw [ubiSwl, h.areaFindMinECBlock_eq]
    simp only [bind, Except.bind, freeBlockGetMaxECBlock_eq h.owned.table htwo]
    exact if_neg hrequired
  · exact ⟨rfl, rfl, rfl, fun _ _ _ _ => rfl⟩

theorem UbiOk.outcome_cacheArea (h : UbiOk s tables free) {block : Nat}
    (harea : areaIndex block < areaCount) (page : Nat) :
    ubiReadOutcome { s with
      cachedAreaTable := tables s.swlCurrentArea
      cachedAreaNumber := s.swlCurrentArea } block page = ubiReadOutcome s block page := by
  refine h.outcome_of_keeps ?_ harea page
  exact ⟨rfl, rfl, rfl, fun _ _ _ _ => rfl⟩

/-- The copy programs every page of the block, also where nothing could be read. -/
theorem UbiOk.swl_invisible (h : UbiOk s tables free) (htwo : 2 ≤ free.length)
    (hrequired : SwlRequired (swlMin s tables) (swlMax s free)) (unset : SwlLocals)
    {outcomes : CopyOutcomes} (hsucceed : outcomes.Succeed) :
    ∃ s', ubiSwl s unset outcomes = .ok (.success, s') ∧
      TableOk s'.freeTable (freeBlocks s') ∧
      SwlInvisible s s' (swlBlock s tables) (swlMin s tables) (swlMax s free) ∧
      ∀ page < pagePerPhyBlock, ∃ data spare,
        ubiReadOutcome s' (swlBlock s tables) page = .ok ⟨.success, some data, some spare⟩ := by
  have hcache := h.cacheArea h.swlArea
  obtain ⟨s', free', hswl, hdone⟩ := h.swl_required htwo hrequired unset hsucceed
  obtain ⟨hothers, hprogrammed, hexchanged, harea, htaken, hindex⟩ :=
    hdone.invisible hcache hrequired
  refine ⟨s', hswl, ?_, ⟨fun block page hblock hother => ?_, fun page hpage r hr => ?_, hexchanged,
    harea, htaken, hindex⟩, fun page hpage => ?_⟩
  · rw [hdone.owned.freeBlocks_eq]
    exact hdone.owned.table.ordered
  · exact (hothers block page hblock hother).trans (h.outcome_cacheArea hblock page)
  · rw [← h.outcome_cacheArea (swlBlock_lt _ h.swlArea).1] at hr
    exact hprogrammed page hpage r hr
  · obtain ⟨-, hafter⟩ := hdone.outcome_swlBlock hcache hrequired hpage
    obtain ⟨data, spare, hdata⟩ := hdone.programmed page hpage
    rw [hdata] at hafter
    exact ⟨data, spare, hafter⟩

theorem SwlUnchanged.ordered {s' : UbiState} (h : SwlUnchanged s s') (hok : UbiOk s tables free) :
    TableOk s'.freeTable (freeBlocks s') := by
  have hblocks : freeBlocks s' = freeBlocks s := by
    rw [freeBlocks, freeBlocks, h.freeTable]
  rw [hblocks, h.freeTable, hok.owned.freeBlocks_eq]
  exact hok.owned.table.ordered

/-- **Static wear leveling.** While two blocks are free, `UBI_SWL` returns and leaves the free
blocks in order.  Where it exchanges two blocks, no page that reads successfully changes, nor
does any page of another logical block, and the two blocks change places, as do the block of
a full table that it writes and a free block.  Otherwise nothing changes, and it fails only
where its copy does. -/
theorem ubiSwl_invisible (h : UbiOk s tables free) (htwo : 2 ≤ free.length) (unset : SwlLocals)
    (outcomes : CopyOutcomes) :
    ∃ ret s', ubiSwl s unset outcomes = .ok (ret, s') ∧
      (ret = .success ↔ (SwlRequired (swlMin s tables) (swlMax s free) → outcomes.Succeed)) ∧
      TableOk s'.freeTable (freeBlocks s') ∧
      (SwlRequired (swlMin s tables) (swlMax s free) ∧ ret = .success →
        SwlInvisible s s' (swlBlock s tables) (swlMin s tables) (swlMax s free)) ∧
      (¬(SwlRequired (swlMin s tables) (swlMax s free) ∧ ret = .success) →
        SwlUnchanged s s') := by
  by_cases hrequired : SwlRequired (swlMin s tables) (swlMax s free)
  · by_cases hsucceed : outcomes.Succeed
    · obtain ⟨s', hswl, htable, hinvisible, -⟩ := h.swl_invisible htwo hrequired unset hsucceed
      exact ⟨_, s', hswl, iff_of_true rfl fun _ => hsucceed, htable, fun _ => hinvisible,
        fun hnot => absurd ⟨hrequired, rfl⟩ hnot⟩
    · obtain ⟨ret, s', hswl, hret, hunchanged⟩ := h.swl_failed htwo hrequired unset hsucceed
      exact ⟨ret, s', hswl, iff_of_false hret fun hall => hsucceed (hall hrequired),
        hunchanged.ordered h, fun hboth => absurd hboth.2 hret, fun _ => hunchanged⟩
  · obtain ⟨s', hswl, hunchanged⟩ := h.swl_notRequired htwo hrequired unset outcomes
    exact ⟨_, s', hswl, iff_of_true rfl fun hneeded => absurd hneeded hrequired,
      hunchanged.ordered h, fun hboth => absurd hboth.1 hrequired, fun _ => hunchanged⟩

end

section

attribute [local instance] k9wag08Ubi

/-- Area tables that map 1900 logical blocks from block 20 on. -/
def wornTables (area : Nat) : Words := fun w =>
  if area * 512 + w / 2 < 1900 then
    if w % 2 = 0 then 20 + (area * 512 + w / 2) else 0
  else 4294967295

def wornFree : List FreeBlock := [⟨10, 0⟩, ⟨11, 5000⟩]

/-- A state in which free block 11 is worn, the first three pages of each mapped block are
programmed, and the block of the first area table is full. -/
def wornState : UbiState where
  nand := fun block page =>
    if block = 12 ∧ page = 63 then .programmed (wornTables 0) fun _ => 0
    else if 13 ≤ block ∧ block < 16 ∧ page = 0 then .programmed (wornTables (block - 12)) fun _ => 0
    else if 20 ≤ block ∧ page < 3 then .programmed (fun _ => block) fun _ => page
    else .erased
  areaOffsetTable := fun area => if area = 0 then 63 else 0
  cachedAreaTable := fun _ => 0
  cachedAreaNumber := invalidArea
  areaIndexTable := fun area => 12 + area
  areaIndexEct := fun _ => 0
  freeTable := fun i => if i = 0 then ⟨10, 0⟩ else if i = 1 then ⟨11, 5000⟩ else .invalid
  areaUpdatePlr := ⟨invalidBlock, invalidBlock, invalidEc⟩
  isUpdatingArea := false
  indexBlock := 16
  indexBlockEc := 0
  indexNextPage := 0
  anchorTable := fun w => if w = 6 then 0 else 4294967295
  anchorBlock := 1
  anchorNextPage := 0
  tmpDataBuffer := fun _ => 0

theorem wornTables_block {area i : Nat} :
    areaPhysicalBlock (wornTables area) i =
      if area * 512 + i < 1900 then 20 + (area * 512 + i) else invalidBlock := by
  have hdiv : 2 * i / 2 = i := by omega
  have hmod : 2 * i % 2 = 0 := by omega
  rw [areaPhysicalBlock, wornTables, hdiv, if_pos hmod]

theorem wornTables_ec {area i : Nat} :
    areaPhysicalBlockEc (wornTables area) i =
      if area * 512 + i < 1900 then 0 else invalidEc := by
  have hdiv : (2 * i + 1) / 2 = i := by omega
  have hmod : (2 * i + 1) % 2 ≠ 0 := by omega
  rw [areaPhysicalBlockEc, wornTables, hdiv, if_neg hmod]

/-- The range of blocks of each use. -/
def wornRange : BlockUse → Nat → Prop
  | .mapped area offset, block => block = 20 + (area * 512 + offset) ∧ offset < 512
  | .areaTable area, block => block = 12 + area ∧ area < 4
  | .index, block => block = 16
  | .free, block => block = 10 ∨ block = 11
  | .anchor, block => 1 ≤ block ∧ block ≤ 4

theorem wornRange_of_uses {o : BlockUse} {block : Nat}
    (h : Uses wornState wornTables wornFree o block) : wornRange o block := by
  cases o with
  | mapped area offset =>
      obtain ⟨-, hoffset, hblock, hvalid⟩ := h
      rw [wornTables_block] at hblock
      split_ifs at hblock with hlt
      · exact ⟨hblock.symm, hoffset⟩
      · exact absurd hblock.symm hvalid
  | areaTable area => exact ⟨h.2.symm, h.1⟩
  | index => exact h.symm
  | free => simpa [Uses, wornRange, wornFree] using h
  | anchor => exact h

theorem wornState_exclusive : Exclusive (Uses wornState wornTables wornFree) := by
  intro o o' block huse huse'
  have hrange := wornRange_of_uses huse
  have hrange' := wornRange_of_uses huse'
  cases o <;> cases o' <;> simp only [wornRange] at hrange hrange'
  case mapped.mapped area offset area' offset' =>
    obtain rfl : area = area' := by omega
    obtain rfl : offset = offset' := by omega
    rfl
  case areaTable.areaTable area area' =>
    obtain rfl : area = area' := by omega
    rfl
  all_goals first | rfl | omega

theorem wornState_owned : Owned wornState wornTables wornFree where
  table := by
    constructor
    · decide
    · decide
    · decide
    · decide
    · intro i j hij hj
      have htwo : j < 2 := hj
      obtain ⟨rfl, rfl⟩ | ⟨rfl, rfl⟩ | ⟨rfl, rfl⟩ :
        i = 0 ∧ j = 0 ∨ i = 0 ∧ j = 1 ∨ i = 1 ∧ j = 1 := by omega
      all_goals decide
    · intro i hi _
      have htwo : 2 ≤ i := hi
      simp only [wornState]
      rw [if_neg (by omega), if_neg (by omega)]
      rfl
    · exact fun _ => rfl
  nodup := by decide
  exclusive := wornState_exclusive

theorem wornState_stored (area : Nat) (harea : area < 4) :
    AreaStored wornState wornTables area := by
  obtain rfl | rfl | rfl | rfl : area = 0 ∨ area = 1 ∨ area = 2 ∨ area = 3 := by omega
  · refine ⟨by decide, ⟨fun _ => 0, rfl, by decide⟩, fun page hpage hlt => ?_⟩
    have hlast : 63 < page := hpage
    have hbound : page < 64 := hlt
    omega
  all_goals
    refine ⟨by decide, ⟨fun _ => 0, rfl, by decide⟩, fun page hpage hlt => ?_⟩
    have hfirst : 0 < page := hpage
    simp only [wornState]
    rw [if_neg (by omega), if_neg (by omega), if_neg (by omega)]

theorem wornState_anchor : anchorIsBadBlock wornState.anchorTable 2 = false := by
  rw [anchorIsBadBlock, List.any_eq_false]
  intro i _
  have hword : wornState.anchorTable (11 + i) = 4294967295 := if_neg (by omega)
  rw [hword]
  decide

theorem wornState_ok : UbiOk wornState wornTables wornFree where
  owned := wornState_owned
  stored := wornState_stored
  cached := fun h => absurd rfl h
  areaBlock := by decide
  areaEc := by decide
  index := ⟨by decide, by decide, by decide, fun page _ hlt => by
    simp only [wornState]
    rw [if_neg (by omega), if_neg (by omega), if_neg (by omega)]⟩
  anchor := ⟨by decide, by decide, fun page _ hlt => by
    simp only [wornState]
    rw [if_neg (by omega), if_neg (by omega), if_neg (by omega)],
    2, by decide, by decide, by decide, wornState_anchor⟩
  swlArea := by decide

theorem wornState_min :
    swlMin wornState wornTables = ⟨20 + swlOffset wornState wornTables, 0⟩ := by
  have hoffset : swlOffset wornState wornTables < 512 := minEcOffset_lt _
  have harea : wornState.swlCurrentArea = 0 := rfl
  have hlt : 0 * 512 + swlOffset wornState wornTables < 1900 := by omega
  rw [swlMin, harea, wornTables_block, wornTables_ec, if_pos hlt, if_pos hlt, Nat.zero_mul,
    Nat.zero_add]

theorem wornState_required :
    SwlRequired (swlMin wornState wornTables) (swlMax wornState wornFree) := by
  have hoffset : swlOffset wornState wornTables < 512 := minEcOffset_lt _
  have hmax : swlMax wornState wornFree = ⟨11, 5000⟩ := rfl
  rw [wornState_min, hmax]
  refine ⟨?_, by decide, ?_, by decide, by decide, by decide, by decide⟩
  · change 11 ≠ 20 + swlOffset wornState wornTables
    omega
  · change 20 + swlOffset wornState wornTables ≠ 4294967295
    omega

/-- The locals before they are set. -/
def noLocals : SwlLocals := ⟨⟨0, 0⟩, ⟨0, 0⟩, fun _ => 0⟩

/-- The programs of the copy succeed up to a page. -/
def programsBelow (n : Nat) : CopyOutcomes :=
  ⟨.success, fun _ => .torn, fun page => if page < n then .success else .failure, fun _ => .torn⟩

theorem programsBelow_succeed : (programsBelow 64).Succeed :=
  ⟨rfl, fun _ hpage => if_pos hpage⟩

theorem programsBelow_fails : ¬(programsBelow 63).Succeed := by
  intro hsucceed
  have hlast := hsucceed.2 63 (by decide)
  exact absurd hlast (by decide)

/-- A copy that succeeds, and one whose last program fails. -/
theorem ubiSwl_invisible_worn :
    (∃ s', ubiSwl wornState noLocals (programsBelow 64) = .ok (.success, s') ∧
      TableOk s'.freeTable (freeBlocks s') ∧
      SwlInvisible wornState s' (swlBlock wornState wornTables) (swlMin wornState wornTables)
        (swlMax wornState wornFree)) ∧
    ∃ ret s', ubiSwl wornState noLocals (programsBelow 63) = .ok (ret, s') ∧ ret ≠ .success ∧
      SwlUnchanged wornState s' := by
  constructor
  · obtain ⟨ret, s', hswl, hret, htable, hseen, -⟩ :=
      ubiSwl_invisible wornState_ok (by decide) noLocals (programsBelow 64)
    obtain rfl : ret = .success := hret.mpr fun _ => programsBelow_succeed
    exact ⟨s', hswl, htable, hseen ⟨wornState_required, rfl⟩⟩
  · obtain ⟨ret, s', hswl, hret, -, -, hseen⟩ :=
      ubiSwl_invisible wornState_ok (by decide) noLocals (programsBelow 63)
    have hfails : ret ≠ .success := fun hsuccess =>
      programsBelow_fails (hret.mp hsuccess wornState_required)
    exact ⟨ret, s', hswl, hfails, hseen fun hboth => hfails hboth.2⟩

/-- The block of the full area table is put among the free blocks too, and an erased page of
the block that is taken reads successfully afterwards. -/
theorem ubiSwl_visible :
    ∃ s', ubiSwl wornState noLocals (programsBelow 64) = .ok (.success, s') ∧
      freeBlocks s' + {(swlMax wornState wornFree).block} ≠
        freeBlocks wornState + {(swlMin wornState wornTables).block} ∧
      ubiReadOutcome s' (swlBlock wornState wornTables) 3 ≠
        ubiReadOutcome wornState (swlBlock wornState wornTables) 3 := by
  obtain ⟨s', hswl, -, hinvisible, hprogrammed⟩ :=
    wornState_ok.swl_invisible (by decide) wornState_required noLocals programsBelow_succeed
  have hoffset : swlOffset wornState wornTables < 512 := minEcOffset_lt _
  refine ⟨s', hswl, fun hexact => ?_, fun hsame => ?_⟩
  · have hindex : s'.indexBlock = 16 := hinvisible.indexBlock_eq (by decide)
    have htaken := hinvisible.areaBlock_taken rfl
    have hmoved := hinvisible.exchanged
    rw [hexact, hindex] at hmoved
    have hblock : s'.areaIndexTable wornState.swlCurrentArea = 12 :=
      Multiset.singleton_inj.mp (add_left_cancel (add_right_cancel hmoved))
    rw [hblock, wornState_owned.freeBlocks_eq, wornState_min] at htaken
    simp only [wornFree, List.map_cons, List.map_nil, Multiset.mem_add, Multiset.mem_coe,
      Multiset.mem_singleton, List.mem_cons, List.not_mem_nil, or_false] at htaken
    omega
  · obtain ⟨data, spare, hafter⟩ := hprogrammed 3 (by decide)
    have hbefore : ubiReadOutcome wornState (swlBlock wornState wornTables) 3 =
        .ok ⟨.failure, none, none⟩ := by
      have hlt := swlBlock_lt wornTables wornState_ok.swlArea
      have herased : wornState.nand (swlMin wornState wornTables).block 3 = .erased := by
        rw [wornState_min]
        simp only [wornState]
        rw [if_neg (by omega), if_neg (by omega), if_neg (by omega)]
      rw [wornState_ok.outcome hlt.1, readThrough, if_pos ⟨hlt.2, by decide⟩,
        physicalBlock_swlBlock, if_pos wornState_required.2.2.1, herased]
      rfl
    rw [hafter, hbefore] at hsame
    cases hsame

end

end RansomTag

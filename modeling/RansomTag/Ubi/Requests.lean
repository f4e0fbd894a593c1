import RansomTag.Ubi.Mount

/-!
# The logical flash

`UBI_Write`, `UBI_Flush`, `UBI_Erase` and `UBI_ReadStatus` with `dice_hold`, and the flash
that their callers see: a logical block holds what was written to it since its last
erase.  Any sequence of requests, with losses of power between them, is answered as by
that flash.
-/

namespace RansomTag

/-- `DIE_HOLD_PAGE`; `none` is the null pointer. -/
structure DieHoldPage where
  logBlock : Nat
  phyBlock : Nat
  ec : Nat
  page : Nat
  buffer : Option Words
  spare : Words

/-- The tables and `dice_hold`. -/
structure UbiDevice where
  tables : UbiState
  diceHold : Nat → DieHoldPage

/-- What a caller asks the block layer for; `remount` is a loss of power and `UBI_Init`. -/
inductive UbiRequest where
  | read (block page : Nat)
  | write (block page : Nat) (data spare : Words) (async : Bool)
  | erase (block dieIndex : Nat)
  | flush
  | readStatus (block : Nat)
  | remount

/-- The RAM before `UBI_Init`. -/
def UbiState.powerOn (nand : Nand) : UbiState where
  nand := nand
  areaOffsetTable := fun _ => 0
  cachedAreaTable := fun _ => 0
  cachedAreaNumber := 0
  areaIndexTable := fun _ => 0
  areaIndexEct := fun _ => 0
  freeTable := fun _ => ⟨0, 0⟩
  areaUpdatePlr := ⟨0, 0, 0⟩
  isUpdatingArea := false
  indexBlock := 0
  indexBlockEc := 0
  indexNextPage := 0
  anchorTable := fun _ => 0
  anchorBlock := 0
  anchorNextPage := 0
  tmpDataBuffer := fun _ => 0

/-- The end of the last program on the die: its buffer is released. -/
def releaseHold (hold : DieHoldPage) : Except UbiStop DieHoldPage :=
  if hold.phyBlock ≠ invalidBlock then
    if hold.buffer.isSome then .ok { hold with buffer := none, phyBlock := invalidBlock }
    else .error .assertion
  else .ok hold

/-- A program that is not waited for; only two of its spare words are kept. -/
def holdPage (hold : DieHoldPage) (logBlock phyBlock ec page : Nat) (data spare : Words) :
    DieHoldPage where
  logBlock := logBlock
  phyBlock := phyBlock
  ec := ec
  page := page
  buffer := some data
  spare := fun w => if w < 2 then spare w else hold.spare w

section

variable [UbiGeometry]

/-- `AREA_GetEC` -/
def areaGetEC (s : UbiState) (logicalBlock : Nat) : Except UbiStop (Nat × UbiState) := do
  let (status, s) ← areaRead s (areaIndex logicalBlock)
  if status = .success then
    .ok (areaPhysicalBlockEc s.cachedAreaTable (blockOffsetArea logicalBlock), s)
  else .ok (invalidEc, s)

/-- `UBI_Write` while no program fails: its loops after `STATUS_BADBLOCK`, which call
`ubi_reclaim_badblock`, are not entered, and the die index of its slot stays 0. -/
def ubiWriteHold (d : UbiDevice) (block page : Nat) (buffer : Option Words) (spare : Words)
    (async : Bool) : Except UbiStop (Status × UbiDevice) := do
  let (phyBlock, s) ← areaGetBlock d.tables block
  let (ec, s) ← areaGetEC s block
  if phyBlock ≠ invalidBlock then
    let hold ← releaseHold (d.diceHold 0)
    if page ≠ invalidPage then
      match buffer with
      | some data =>
          let nand ← mtdProgramPage s.nand phyBlock page data spare
          let hold := if async then holdPage hold block phyBlock ec page data spare else hold
          .ok (.success, ⟨{ s with nand := nand }, Function.update d.diceHold 0 hold⟩)
      | none => .error .assertion
    else .ok (.success, ⟨s, Function.update d.diceHold 0 hold⟩)
  else .error .assertion

/-- The loop of `UBI_Flush`. -/
def ubiFlushDice (r : Status × UbiDevice) (i : Nat) : Except UbiStop (Status × UbiDevice) :=
  if r.1 = .success then
    ubiWriteHold r.2 (r.2.diceHold i).logBlock invalidPage none (fun _ => 0) true
  else .ok r

/-- `UBI_Flush` -/
def ubiFlushAll (d : UbiDevice) : Except UbiStop (Status × UbiDevice) :=
  (List.range totalDieCount).foldlM ubiFlushDice (.success, d)

/-- The tables part of `UBI_Erase`. -/
def ubiEraseTables (s : UbiState) (block die : Nat) : Except UbiStop (Status × UbiState) := do
  match ← indexFreeBlockGet s die with
  | (none, s) => .ok (.failure, s)
  | (some new, s) =>
      if block ≠ invalidBlock ∧ new.ec ≠ invalidEc then
        let (phyBlock, s) ← areaGetBlock s block
        let (ec, s) ← areaGetEC s block
        let s := indexFreeBlockPut s phyBlock ec
        let s ← indexUpdateAreaUpdate s block new.block new.ec
        indexUpdateCommit s
      else .error .assertion

/-- `UBI_Erase` -/
def ubiEraseBlock (d : UbiDevice) (block dieIndex : Nat) :
    Except UbiStop (Status × UbiDevice) := do
  let die := dieIndex % totalDieCount
  let (ret, d) ← ubiWriteHold d (d.diceHold die).logBlock invalidPage none (fun _ => 0) true
  if ret = .success then
    let (ret, s) ← ubiEraseTables d.tables block die
    .ok (ret, { d with tables := s })
  else .ok (ret, d)

/-- `UBI_ReadStatus` -/
def ubiReadStatusOf (s : UbiState) (block : Nat) : Except UbiStop (Status × UbiState) := do
  let (phyBlock, s) ← areaGetBlock s block
  if phyBlock ≠ invalidBlock then .ok (.success, s) else .error .assertion

/-- A loss of power, behind which the RAM is zero, and `UBI_Init`. -/
def ubiRemount (d : UbiDevice) : Except UbiStop (Status × UbiDevice) := do
  let (ret, s) ← ubiInitTables (.powerOn d.tables.nand)
  .ok (ret, ⟨s, fun _ => ⟨0, if ret = .success then invalidBlock else 0, 0, 0, none, fun _ => 0⟩⟩)

/-- The answer to a request without data. -/
def statusOnly (r : Status × UbiDevice) : UbiRead × UbiDevice := (⟨r.1, none, none⟩, r.2)

def UbiDevice.serve (d : UbiDevice) : UbiRequest → Except UbiStop (UbiRead × UbiDevice)
  | .read block page => do
      let (r, s) ← ubiReadPage d.tables block page
      .ok (r, { d with tables := s })
  | .write block page data spare async => do
      .ok (statusOnly (← ubiWriteHold d block page (some data) spare async))
  | .erase block dieIndex => do
      .ok (statusOnly (← ubiEraseBlock d block dieIndex))
  | .flush => do
      .ok (statusOnly (← ubiFlushAll d))
  | .readStatus block => do
      let (ret, s) ← ubiReadStatusOf d.tables block
      .ok (statusOnly (ret, { d with tables := s }))
  | .remount => do
      .ok (statusOnly (← ubiRemount d))

/-- The answers to a list of requests. -/
def UbiDevice.run (d : UbiDevice) : List UbiRequest → Except UbiStop (List UbiRead × UbiDevice)
  | [] => .ok ([], d)
  | request :: requests => do
      let (answer, d) ← d.serve request
      let (answers, d) ← d.run requests
      .ok (answer :: answers, d)

/-! ## The flash that callers see -/

/-- What the logical flash answers. -/
def flashAnswer (flash : Nand) : UbiRequest → UbiRead
  | .read block page =>
      if block ≠ invalidBlock ∧ page ≠ invalidPage then (flash block page).outcome
      else ⟨.success, some fun _ => 0, none⟩
  | _ => ⟨.success, none, none⟩

def flashAfter (flash : Nand) : UbiRequest → Nand
  | .write block page data spare _ => flash.update block page (.programmed data spare)
  | .erase block _ => mtdErase flash block
  | _ => flash

/-- A caller keeps to the `logical` blocks, and programs erased pages only. -/
def FlashAllows (logical : Nat → Prop) (flash : Nand) : UbiRequest → Prop
  | .read block page => logical block ∧ page ≠ invalidPage ∨ block = invalidBlock ∧ page = invalidPage
  | .write block page _ _ _ => logical block ∧ page ≠ invalidPage ∧ flash block page = .erased
  | .erase block _ => logical block
  | .readStatus block => logical block
  | .flush => True
  | .remount => True

def flashAnswers : Nand → List UbiRequest → List UbiRead
  | _, [] => []
  | flash, request :: requests =>
      flashAnswer flash request :: flashAnswers (flashAfter flash request) requests

def FlashAccepts (logical : Nat → Prop) : Nand → List UbiRequest → Prop
  | _, [] => True
  | flash, request :: requests =>
      FlashAllows logical flash request ∧
        FlashAccepts logical (flashAfter flash request) requests

/-- A slot names a logical block, and keeps a buffer while a program is not confirmed. -/
structure HoldOk (logical : Nat → Prop) (hold : DieHoldPage) : Prop where
  logBlock : logical hold.logBlock
  buffer : hold.phyBlock ≠ invalidBlock → hold.buffer.isSome

/-- The device shows `flash` in its `logical` blocks, and `blocks` are the physical blocks that
it uses. -/
structure Shows (d : UbiDevice) (logical : Nat → Prop) (flash : Nand) (blocks : Nat → Prop)
    (tables : Nat → Words) (free : List FreeBlock) (n : Nat) : Prop where
  rest : UbiRest d.tables tables free n
  mapped : ∀ block, logical block →
    areaIndex block < areaCount ∧ physicalBlock tables block ≠ invalidBlock
  pages : ∀ block, logical block → d.tables.nand (physicalBlock tables block) = flash block
  first : logical 0
  held : ∀ die, HoldOk logical (d.diceHold die)
  inUse : ∀ block, InUse d.tables tables free block ↔ blocks block

variable {s : UbiState} {d : UbiDevice} {logical blocks : Nat → Prop} {flash : Nand}
  {tables : Nat → Words} {free : List FreeBlock} {n block : Nat}

/-! ## The tables in RAM -/

/-- The table of an area has been read. -/
def UbiState.caching (s : UbiState) (tables : Nat → Words) (area : Nat) : UbiState :=
  { s with cachedAreaTable := tables area, cachedAreaNumber := area }

omit [UbiGeometry] in
@[simp] theorem UbiState.caching_caching (s : UbiState) (tables : Nat → Words) (area : Nat) :
    (s.caching tables area).caching tables area = s.caching tables area := rfl

theorem UbiRest.caching (h : UbiRest s tables free n) {area : Nat} (harea : area < areaCount) :
    UbiRest (s.caching tables area) tables free n where
  toUbiOnNand := h.withAreas s.areaOffsetTable (tables area) area
  cached := fun _ => ⟨harea, rfl⟩

theorem uses_caching (area : Nat) (o : BlockUse) (b : Nat) :
    Uses (s.caching tables area) tables free o b ↔ Uses s tables free o b := by
  cases o <;> exact Iff.rfl

/-- A mapped block is none but its own. -/
theorem UbiOnNand.physicalBlock_ne {last : Nat → Nat} (h : UbiOnNand s tables free last n)
    {block' : Nat} (hne : block ≠ block') (harea : areaIndex block < areaCount)
    (harea' : areaIndex block' < areaCount) (hmapped : physicalBlock tables block ≠ invalidBlock) :
    physicalBlock tables block ≠ physicalBlock tables block' := by
  intro heq
  have hpos : 0 < phyBlockPerArea := UbiGeometry.phyBlockPerArea_pos
  have huse : Uses s tables free (.mapped (areaIndex block) (blockOffsetArea block))
      (physicalBlock tables block) := ⟨harea, Nat.mod_lt _ hpos, rfl, hmapped⟩
  have huse' : Uses s tables free (.mapped (areaIndex block') (blockOffsetArea block'))
      (physicalBlock tables block) := ⟨harea', Nat.mod_lt _ hpos, heq.symm, hmapped⟩
  obtain ⟨hindex, hoffset⟩ := BlockUse.mapped.inj (h.owned.exclusive huse huse')
  refine hne ?_
  rw [← Nat.div_add_mod block phyBlockPerArea, ← Nat.div_add_mod block' phyBlockPerArea]
  exact congrArg₂ (phyBlockPerArea * · + ·) hindex hoffset

theorem UbiRest.areaRead_eq (h : UbiRest s tables free n) {area : Nat} (harea : area < areaCount) :
    areaRead s area = .ok (.success, s.caching tables area) := by
  have hle := areaCount_le
  refine areaRead_spec harea (h.areas area harea).areaStored fun hcached => ?_
  have hvalid : s.cachedAreaNumber ≠ invalidArea := by
    simp only [invalidArea]
    omega
  rw [(h.cached hvalid).2, hcached]

theorem UbiRest.areaGetBlock_eq (h : UbiRest s tables free n)
    (harea : areaIndex block < areaCount) :
    areaGetBlock s block = .ok (physicalBlock tables block, s.caching tables (areaIndex block)) := by
  rw [areaGetBlock, h.areaRead_eq harea]
  rfl

theorem UbiRest.areaGetEC_eq (h : UbiRest s tables free n) (harea : areaIndex block < areaCount) :
    areaGetEC s block = .ok (areaPhysicalBlockEc (tables (areaIndex block)) (blockOffsetArea block),
      s.caching tables (areaIndex block)) := by
  rw [areaGetEC, h.areaRead_eq harea]
  rfl

theorem Shows.caching (h : Shows d logical flash blocks tables free n) {area : Nat}
    (harea : area < areaCount) :
    Shows { d with tables := d.tables.caching tables area } logical flash blocks tables free n where
  rest := h.rest.caching harea
  mapped := h.mapped
  pages := h.pages
  first := h.first
  held := h.held
  inUse b := (exists_congr fun o => uses_caching area o b).trans (h.inUse b)

/-! ## `UBI_Write` and `UBI_Flush` -/

omit [UbiGeometry] in
theorem HoldOk.release {hold : DieHoldPage} (h : HoldOk logical hold) :
    ∃ hold', releaseHold hold = .ok hold' ∧ HoldOk logical hold' := by
  unfold releaseHold
  by_cases hheld : hold.phyBlock ≠ invalidBlock
  · rw [if_pos hheld, if_pos (h.buffer hheld)]
    exact ⟨_, rfl, h.logBlock, fun hinvalid => absurd rfl hinvalid⟩
  · rw [if_neg hheld]
    exact ⟨hold, rfl, h⟩

/-- The slot of the die is emptied, or takes the page of an asynchronous write. -/
theorem Shows.hold (h : Shows d logical flash blocks tables free n) {hold : DieHoldPage}
    (hhold : HoldOk logical hold) :
    Shows { d with diceHold := Function.update d.diceHold 0 hold } logical flash blocks tables
      free n where
  rest := h.rest
  mapped := h.mapped
  pages := h.pages
  first := h.first
  held die := by
    change HoldOk logical (Function.update d.diceHold 0 hold die)
    by_cases hdie : die = 0
    · rw [hdie, Function.update_self]
      exact hhold
    · rw [Function.update_of_ne hdie]
      exact h.held die
  inUse := h.inUse

/-- A write of no page confirms the last one on the die. -/
theorem Shows.confirm (h : Shows d logical flash blocks tables free n) (hblock : logical block)
    (spare : Words) (async : Bool) :
    ∃ d', ubiWriteHold d block invalidPage none spare async = .ok (.success, d') ∧
      Shows d' logical flash blocks tables free n := by
  obtain ⟨harea, hmapped⟩ := h.mapped block hblock
  obtain ⟨hold, hrelease, hhold⟩ := (h.held 0).release
  refine ⟨⟨d.tables.caching tables (areaIndex block), Function.update d.diceHold 0 hold⟩, ?_,
    (h.caching harea).hold hhold⟩
  unfold ubiWriteHold
  rw [h.rest.areaGetBlock_eq harea]
  simp only [bind, Except.bind, (h.rest.caching harea).areaGetEC_eq harea, if_pos hmapped, hrelease]
  rfl

/-- A program of a page of a mapped block. -/
theorem UbiRest.program (h : UbiRest s tables free n) (harea : areaIndex block < areaCount)
    (hmapped : physicalBlock tables block ≠ invalidBlock) (page : Nat) (content : NandPage) :
    UbiRest { s with nand := s.nand.update (physicalBlock tables block) page content } tables free
      n := by
  have huse : Uses s tables free (.mapped (areaIndex block) (blockOffsetArea block))
      (physicalBlock tables block) :=
    ⟨harea, Nat.mod_lt _ UbiGeometry.phyBlockPerArea_pos, rfl, hmapped⟩
  have hnand : ∀ o b, o ≠ .mapped (areaIndex block) (blockOffsetArea block) →
      Uses s tables free o b →
        s.nand.update (physicalBlock tables block) page content b = s.nand b :=
    fun o b ho hb => Nand.update_other (h.owned.exclusive.ne ho hb huse)
  have hindexUse : Uses s tables free .index s.indexBlock := rfl
  refine ⟨⟨⟨h.owned.table, h.owned.nodup, h.owned.exclusive⟩, h.free_ne, fun a ha => ?_,
    h.areaBlock, ⟨h.index.block, h.index.stored.of_eq ?_ rfl⟩,
    h.anchor.of_same rfl rfl rfl ⟨rfl, rfl⟩ fun b hfirst hlast => ?_, h.plr,
    ⟨h.worn.free, h.worn.mapped, h.worn.areaTable, h.worn.index⟩⟩, h.cached⟩
  · have htable : Uses s tables free (.areaTable a) (s.areaIndexTable a) := ⟨ha, rfl⟩
    exact (h.areas a ha).of_eq (hnand _ _ BlockUse.noConfusion htable) rfl
  · exact hnand _ _ BlockUse.noConfusion hindexUse
  · have hanchor : Uses s tables free .anchor b := ⟨hfirst, hlast⟩
    exact hnand _ _ BlockUse.noConfusion hanchor

theorem Shows.program (h : Shows d logical flash blocks tables free n) (hblock : logical block)
    (page : Nat) (content : NandPage) :
    Shows { d with
      tables := { d.tables with
        nand := d.tables.nand.update (physicalBlock tables block) page content } }
      logical (flash.update block page content) blocks tables free n where
  rest := h.rest.program (h.mapped block hblock).1 (h.mapped block hblock).2 page content
  mapped := h.mapped
  pages block' hblock' := by
    change d.tables.nand.update _ page content (physicalBlock tables block') =
      flash.update block page content block'
    by_cases hsame : block' = block
    · rw [hsame, Nand.update, Nand.update, Function.update_self, Function.update_self,
        h.pages block hblock]
    · rw [Nand.update_other hsame, Nand.update_other, h.pages block' hblock']
      exact h.rest.physicalBlock_ne hsame (h.mapped block' hblock').1 (h.mapped block hblock).1
        (h.mapped block' hblock').2
  first := h.first
  held := h.held
  inUse b := by
    rw [← h.inUse b]
    refine exists_congr fun o => ?_
    cases o <;> exact Iff.rfl

/-- `UBI_Write` of an erased page. -/
theorem Shows.write (h : Shows d logical flash blocks tables free n) (hblock : logical block)
    {page : Nat} (hpage : page ≠ invalidPage) (herased : flash block page = .erased)
    (data spare : Words) (async : Bool) :
    ∃ d', ubiWriteHold d block page (some data) spare async = .ok (.success, d') ∧
      Shows d' logical (flash.update block page (.programmed data spare)) blocks tables free n := by
  obtain ⟨harea, hmapped⟩ := h.mapped block hblock
  obtain ⟨hold, hrelease, hhold⟩ := (h.held 0).release
  have hcaching := h.caching harea
  have hfree : d.tables.nand (physicalBlock tables block) page = .erased := by
    rw [h.pages block hblock]
    exact herased
  have hprogram : mtdProgramPage (d.tables.caching tables (areaIndex block)).nand
      (physicalBlock tables block) page data spare =
        .ok (d.tables.nand.update (physicalBlock tables block) page (.programmed data spare)) := by
    change mtdProgramPage d.tables.nand _ page data spare = _
    rw [mtdProgramPage, hfree]
  obtain ⟨hold', heq, hhold'⟩ : ∃ hold', hold' = (if async then
      holdPage hold block (physicalBlock tables block)
        (areaPhysicalBlockEc (tables (areaIndex block)) (blockOffsetArea block)) page data spare
      else hold) ∧ HoldOk logical hold' := by
    refine ⟨_, rfl, ?_⟩
    cases async with
    | true => exact ⟨hblock, fun _ => rfl⟩
    | false => exact hhold
  refine ⟨⟨{ d.tables.caching tables (areaIndex block) with
      nand := d.tables.nand.update (physicalBlock tables block) page (.programmed data spare) },
    Function.update d.diceHold 0 hold'⟩, ?_,
    (hcaching.program hblock page (.programmed data spare)).hold hhold'⟩
  unfold ubiWriteHold
  rw [h.rest.areaGetBlock_eq harea]
  simp only [bind, Except.bind, (h.rest.caching harea).areaGetEC_eq harea, if_pos hmapped, hrelease,
    if_pos hpage, UbiState.caching_caching, hprogram, heq]

theorem Shows.flush (h : Shows d logical flash blocks tables free n) (m : Nat) :
    ∃ d', (List.range m).foldlM ubiFlushDice (.success, d) = .ok (.success, d') ∧
      Shows d' logical flash blocks tables free n := by
  induction m with
  | zero => exact ⟨d, rfl, h⟩
  | succ m ih =>
      obtain ⟨d₁, hloop, h₁⟩ := ih
      obtain ⟨d', hwrite, h'⟩ := h₁.confirm (h₁.held m).logBlock (fun _ => 0) true
      refine ⟨d', ?_, h'⟩
      rw [List.range_succ, List.foldlM_append, hloop]
      simp only [bind, Except.bind, List.foldlM_cons, List.foldlM_nil, ubiFlushDice, if_true, hwrite]
      rfl

/-! ## `UBI_Erase` -/

theorem physicalBlock_set {new : FreeBlock} {block' : Nat} :
    physicalBlock (tablesSet tables (areaIndex block) (blockOffsetArea block) new) block' =
      if block' = block then new.block else physicalBlock tables block' := by
  have hplace : block' = block ↔
      areaIndex block' = areaIndex block ∧ blockOffsetArea block' = blockOffsetArea block := by
    constructor
    · rintro rfl
      exact ⟨rfl, rfl⟩
    · rintro ⟨hindex, hoffset⟩
      rw [← Nat.div_add_mod block' phyBlockPerArea, ← Nat.div_add_mod block phyBlockPerArea]
      exact congrArg₂ (phyBlockPerArea * · + ·) hindex hoffset
  unfold physicalBlock
  by_cases hindex : areaIndex block' = areaIndex block
  · rw [hindex, tablesSet, Function.update_self, areaPhysicalBlock_set]
    simp only [hplace, hindex, true_and]
  · rw [tablesSet, Function.update_of_ne hindex, if_neg fun hsame => hindex (hplace.mp hsame).1]

/-- The state in which `UBI_Erase` commits. -/
def eraseCommits (s : UbiState) (tables : Nat → Words) (block : Nat) (t : FreeTable)
    (new : FreeBlock) : UbiState :=
  { s with
    nand := mtdErase s.nand new.block
    cachedAreaTable := tables (areaIndex block)
    cachedAreaNumber := areaIndex block
    freeTable := freeBlockPut t ⟨physicalBlock tables block,
      areaPhysicalBlockEc (tables (areaIndex block)) (blockOffsetArea block)⟩
    areaUpdatePlr := ⟨block, new.block, new.ec⟩
    isUpdatingArea := true }

/-- A free block takes the place of the block that was mapped. -/
theorem UbiRest.eraseCommits (h : UbiRest s tables free n) (harea : areaIndex block < areaCount)
    (hmapped : physicalBlock tables block ≠ invalidBlock) (hn : n + 1 < invalidEc)
    {t : FreeTable} {e : FreeBlock} {left free₁ : List FreeBlock} (hperm : free.Perm (e :: left))
    (htable : Represents (RansomTag.eraseCommits s tables block t ⟨e.block, e.ec + 1⟩).freeTable
      free₁)
    (hput : free₁.Perm (⟨physicalBlock tables block,
      areaPhysicalBlockEc (tables (areaIndex block)) (blockOffsetArea block)⟩ :: left)) :
    CommitReady (RansomTag.eraseCommits s tables block t ⟨e.block, e.ec + 1⟩) tables free₁
      (areaIndex block) (blockOffsetArea block) ⟨e.block, e.ec + 1⟩ n := by
  have hn : n + 1 < 4294967295 := hn
  have hoffset : blockOffsetArea block < phyBlockPerArea :=
    Nat.mod_lt _ UbiGeometry.phyBlockPerArea_pos
  have hold : Uses s tables free (.mapped (areaIndex block) (blockOffsetArea block))
      (⟨physicalBlock tables block,
        areaPhysicalBlockEc (tables (areaIndex block)) (blockOffsetArea block)⟩ : FreeBlock).block :=
    ⟨harea, hoffset, rfl, hmapped⟩
  have hmem : e ∈ free := hperm.mem_iff.mpr List.mem_cons_self
  have hfreeUse : Uses s tables free .free e.block := List.mem_map_of_mem hmem
  have hvalid : e.block ≠ invalidBlock := by
    obtain ⟨i, hi, rfl⟩ := (h.owned.table.mem_iff e).mp hmem
    exact h.owned.table.block i hi
  have hnand : ∀ o b, o ≠ .free → Uses s tables free o b → mtdErase s.nand e.block b = s.nand b :=
    fun o b ho hb => mtdErase_other (h.owned.exclusive.ne ho hb hfreeUse)
  have hindexUse : Uses s tables free .index s.indexBlock := rfl
  have hareas : ∀ a < areaCount, WrittenTable (mtdErase s.nand e.block (s.areaIndexTable a))
      (s.areaOffsetTable a + 1) (tables a) := by
    intro a ha
    have htableUse : Uses s tables free (.areaTable a) (s.areaIndexTable a) := ⟨ha, rfl⟩
    exact (h.areas a ha).of_eq (hnand _ _ BlockUse.noConfusion htableUse) rfl
  have hanchor : AnchorStored (RansomTag.eraseCommits s tables block t ⟨e.block, e.ec + 1⟩) := by
    refine h.anchor.of_same rfl rfl rfl ⟨rfl, rfl⟩ fun b hfirst hlast => ?_
    have hanchorUse : Uses s tables free .anchor b := ⟨hfirst, hlast⟩
    exact hnand _ _ BlockUse.noConfusion hanchorUse
  have hindex : WrittenPages (mtdErase s.nand e.block s.indexBlock) s.indexNextPage := by
    rw [hnand _ _ BlockUse.noConfusion hindexUse]
    exact h.index.stored.toWrittenPages
  have hworn : ∀ e' ∈ free₁, e'.ec ≤ n := by
    intro e' he'
    rcases List.mem_cons.mp (hput.mem_iff.mp he') with rfl | hleft
    · exact h.worn.mapped _ harea _ hoffset hmapped
    · exact h.worn.free e' (hperm.mem_iff.mpr (List.mem_cons_of_mem _ hleft))
  have hindexEc := h.worn.index
  have hareaEc := h.worn.areaTable (areaIndex block) harea
  refine ⟨⟨harea, hoffset, hvalid, ?_, ?_, fun a ha => (hareas a ha).areaStored, rfl, rfl, ?_, rfl,
    h.areaBlock _ harea, ?_, ⟨h.index.block, ?_, hindex.le, hindex.fresh⟩, hanchor.ready⟩, hareas,
    h.areaBlock, hindex, hanchor, ⟨hworn, h.worn.mapped, h.worn.areaTable, h.worn.index⟩, ?_⟩
  · refine h.owned.replace BlockUse.noConfusion hold hperm hput htable ?_ ?_
    · intro o b hfree hother hb
      cases o with
      | mapped a i =>
          rcases (uses_mapped_tablesSet s free).mp hb with ⟨⟨rfl, rfl⟩, -⟩ | ⟨-, huse⟩
          · exact absurd rfl hother
          · exact huse
      | areaTable a => exact hb
      | index => exact hb
      | free => exact absurd rfl hfree
      | anchor => exact hb
    · intro b hb
      rcases (uses_mapped_tablesSet s free).mp hb with ⟨-, -, -, hblock, -⟩ | ⟨hother, -⟩
      · exact hblock.symm
      · exact absurd ⟨rfl, rfl⟩ hother
  · intro hnil
    rw [hnil] at hput
    exact absurd hput.length_eq (by simp)
  · change AreaUpdatePlr.mk block e.block (e.ec + 1) = _
    rw [areaIndex, blockOffsetArea, Nat.mul_comm, Nat.div_add_mod]
  · change s.areaIndexEct (areaIndex block) < 4294967295
    omega
  · change s.indexBlockEc < 4294967295
    omega
  · exact Nat.succ_le_succ (h.worn.free e hmem)

/-- What an erase of `block` leaves of the tables. -/
structure Erased (s s' : UbiState) (tables tables' : Nat → Words) (free free' : List FreeBlock)
    (block n : Nat) : Prop where
  rest : UbiRest s' tables' free' (n + 1)
  mapped : physicalBlock tables' block ≠ invalidBlock
  erased : s'.nand (physicalBlock tables' block) = fun _ => .erased
  others : ∀ block', block' ≠ block → physicalBlock tables' block' = physicalBlock tables block'
  kept : ∀ block', block' ≠ block → areaIndex block' < areaCount →
    physicalBlock tables block' ≠ invalidBlock →
      s'.nand (physicalBlock tables block') = s.nand (physicalBlock tables block')
  inUse : ∀ b, InUse s' tables' free' b ↔ InUse s tables free b

/-- The two blocks have changed places. -/
theorem inUse_eraseCommits {t : FreeTable} {e : FreeBlock} {left free₁ : List FreeBlock}
    (harea : areaIndex block < areaCount) (hmapped : physicalBlock tables block ≠ invalidBlock)
    (hvalid : e.block ≠ invalidBlock) (hperm : free.Perm (e :: left))
    (hput : free₁.Perm (⟨physicalBlock tables block,
      areaPhysicalBlockEc (tables (areaIndex block)) (blockOffsetArea block)⟩ :: left)) (b : Nat) :
    InUse (eraseCommits s tables block t ⟨e.block, e.ec + 1⟩)
        (tablesSet tables (areaIndex block) (blockOffsetArea block) ⟨e.block, e.ec + 1⟩) free₁ b ↔
      InUse s tables free b := by
  have hoffset : blockOffsetArea block < phyBlockPerArea :=
    Nat.mod_lt _ UbiGeometry.phyBlockPerArea_pos
  obtain ⟨others, hothers⟩ : ∃ others : Prop, others ↔ ∃ a i,
      ¬(a = areaIndex block ∧ i = blockOffsetArea block) ∧ Uses s tables free (.mapped a i) b :=
    ⟨_, Iff.rfl⟩
  have hafter : (∃ a i, Uses (eraseCommits s tables block t ⟨e.block, e.ec + 1⟩)
      (tablesSet tables (areaIndex block) (blockOffsetArea block) ⟨e.block, e.ec + 1⟩) free₁
        (.mapped a i) b) ↔ b = e.block ∨ others := by
    rw [hothers]
    constructor
    · rintro ⟨a, i, huse⟩
      rcases (uses_mapped_tablesSet s free).mp huse with ⟨-, -, -, hblock, -⟩ | hother
      · exact Or.inl hblock.symm
      · exact Or.inr ⟨a, i, hother⟩
    · rintro (rfl | ⟨a, i, hother⟩)
      · exact ⟨areaIndex block, blockOffsetArea block, (uses_mapped_tablesSet s free).mpr
          (Or.inl ⟨⟨rfl, rfl⟩, harea, hoffset, rfl, hvalid⟩)⟩
      · exact ⟨a, i, (uses_mapped_tablesSet s free).mpr (Or.inr hother)⟩
  have hbefore : (∃ a i, Uses s tables free (.mapped a i) b) ↔
      b = physicalBlock tables block ∨ others := by
    rw [hothers]
    constructor
    · rintro ⟨a, i, huse⟩
      by_cases hplace : a = areaIndex block ∧ i = blockOffsetArea block
      · obtain ⟨rfl, rfl⟩ := hplace
        exact Or.inl huse.2.2.1.symm
      · exact Or.inr ⟨a, i, hplace, huse⟩
    · rintro (rfl | ⟨a, i, -, huse⟩)
      · exact ⟨areaIndex block, blockOffsetArea block, harea, hoffset, rfl, hmapped⟩
      · exact ⟨a, i, huse⟩
  have hfree : b ∈ free.map FreeBlock.block ↔ b = e.block ∨ b ∈ left.map FreeBlock.block := by
    rw [(hperm.map FreeBlock.block).mem_iff, List.map_cons, List.mem_cons]
  have hfree₁ : b ∈ free₁.map FreeBlock.block ↔
      b = physicalBlock tables block ∨ b ∈ left.map FreeBlock.block := by
    rw [(hput.map FreeBlock.block).mem_iff, List.map_cons, List.mem_cons]
  have hexchange : ∀ old new others tables index left anchor : Prop,
      (new ∨ others) ∨ tables ∨ index ∨ (old ∨ left) ∨ anchor ↔
        (old ∨ others) ∨ tables ∨ index ∨ (new ∨ left) ∨ anchor := by
    intro old new others tables index left anchor
    exact iff_of_eq (by ac_rfl)
  rw [inUse_iff, inUse_iff, hafter, hbefore, hfree, hfree₁]
  exact hexchange _ _ _ _ _ _ _

/-- `UBI_Erase` maps a free block, which it has erased, and puts the old one back. -/
theorem UbiRest.erase (h : UbiRest s tables free n) (harea : areaIndex block < areaCount)
    (hmapped : physicalBlock tables block ≠ invalidBlock) (hn : n + 1 < invalidEc) (die : Nat) :
    ∃ s' tables' free', ubiEraseTables s block die = .ok (.success, s') ∧
      Erased s s' tables tables' free free' block n := by
  have hn' : n + 1 < 4294967295 := hn
  have hoffset : blockOffsetArea block < phyBlockPerArea :=
    Nat.mod_lt _ UbiGeometry.phyBlockPerArea_pos
  obtain ⟨e, left, t, hperm, htable, hget⟩ := indexFreeBlockGet_spec h.owned.table h.free_ne die
  have hmem : e ∈ free := hperm.mem_iff.mpr List.mem_cons_self
  have hec := h.worn.free e hmem
  have hcount : (e.ec + 1) % 4294967296 = e.ec + 1 := Nat.mod_eq_of_lt (by omega)
  rw [hcount] at hget
  have hvalid : e.block ≠ invalidBlock := by
    obtain ⟨i, hi, rfl⟩ := (h.owned.table.mem_iff e).mp hmem
    exact h.owned.table.block i hi
  have hblock : block ≠ invalidBlock := by
    have hle := UbiGeometry.logicalBlocks_le
    have hdiv := Nat.div_lt_iff_lt_mul UbiGeometry.phyBlockPerArea_pos |>.mp harea
    simp only [invalidBlock]
    omega
  have hroom : left.length < freeBlockCount := by
    have hlength := hperm.length_eq
    have hfits := h.owned.table.fits
    rw [List.length_cons] at hlength
    omega
  have hmappedEc : areaPhysicalBlockEc (tables (areaIndex block)) (blockOffsetArea block) <
      invalidEc := by
    have hworn := h.worn.mapped _ harea _ hoffset hmapped
    simp only [invalidEc]
    omega
  obtain ⟨free₁, hput, hfree₁⟩ := represents_put htable hroom hmapped hmappedEc
  have hready := h.eraseCommits harea hmapped hn hperm hput hfree₁
  obtain ⟨s', free', hcommit, hdone, hrest, hothers⟩ := hready.commit hn
  have hfreeUse : Uses s tables free .free e.block := List.mem_map_of_mem hmem
  have hareaRead : areaRead { s with freeTable := t, nand := mtdErase s.nand e.block }
      (areaIndex block) = .ok (.success, UbiState.caching
        { s with freeTable := t, nand := mtdErase s.nand e.block } tables (areaIndex block)) := by
    have htableUse : Uses s tables free (.areaTable (areaIndex block))
        (s.areaIndexTable (areaIndex block)) := ⟨harea, rfl⟩
    have hle := areaCount_le
    refine areaRead_spec harea ((h.areas _ harea).areaStored.of_same rfl rfl rfl ?_) ?_
    · exact mtdErase_other (h.owned.exclusive.ne BlockUse.noConfusion htableUse hfreeUse)
    · intro hcached
      change s.cachedAreaNumber = areaIndex block at hcached
      have hcachedValid : s.cachedAreaNumber ≠ invalidArea := by
        simp only [invalidArea]
        omega
      exact (h.cached hcachedValid).2.trans (congrArg tables hcached)
  refine ⟨s', _, free', ?_, hrest, ?_, ?_, fun block' hne => ?_, fun block' hne harea' hmapped' => ?_,
    fun b => ?_⟩
  · have hgetBlock : areaGetBlock { s with freeTable := t, nand := mtdErase s.nand e.block } block =
        .ok (physicalBlock tables block, UbiState.caching
          { s with freeTable := t, nand := mtdErase s.nand e.block } tables (areaIndex block)) := by
      rw [areaGetBlock, hareaRead]
      rfl
    have hcachedRead : areaRead (UbiState.caching
        { s with freeTable := t, nand := mtdErase s.nand e.block } tables (areaIndex block))
        (areaIndex block) = .ok (.success, UbiState.caching
          { s with freeTable := t, nand := mtdErase s.nand e.block } tables (areaIndex block)) :=
      if_neg (not_not_intro rfl)
    have hgetEC : areaGetEC (UbiState.caching
        { s with freeTable := t, nand := mtdErase s.nand e.block } tables (areaIndex block)) block =
        .ok (areaPhysicalBlockEc (tables (areaIndex block)) (blockOffsetArea block),
          UbiState.caching { s with freeTable := t, nand := mtdErase s.nand e.block } tables
            (areaIndex block)) := by
      rw [areaGetEC, hcachedRead]
      rfl
    have hnewEc : e.ec + 1 ≠ invalidEc := by
      simp only [invalidEc]
      omega
    unfold ubiEraseTables
    simp only [hget, bind, Except.bind, if_pos (And.intro hblock hnewEc), hgetBlock, hgetEC,
      indexUpdateAreaUpdate, if_pos (And.intro hvalid hnewEc)]
    exact hcommit
  · rw [physicalBlock_set, if_pos rfl]
    exact hvalid
  · rw [physicalBlock_set, if_pos rfl]
    refine (hdone.nand (areaIndex block) (blockOffsetArea block) e.block
      ((uses_mapped_tablesSet s free).mpr
        (Or.inl ⟨⟨rfl, rfl⟩, harea, hoffset, rfl, hvalid⟩))).trans ?_
    exact Function.update_self e.block _ s.nand
  · rw [physicalBlock_set, if_neg hne]
  · have huse : Uses s tables free (.mapped (areaIndex block') (blockOffsetArea block'))
        (physicalBlock tables block') :=
      ⟨harea', Nat.mod_lt _ UbiGeometry.phyBlockPerArea_pos, rfl, hmapped'⟩
    have hplace : ¬(areaIndex block' = areaIndex block ∧
        blockOffsetArea block' = blockOffsetArea block) := by
      rintro ⟨hindex, hoffset'⟩
      refine hne ?_
      rw [← Nat.div_add_mod block' phyBlockPerArea, ← Nat.div_add_mod block phyBlockPerArea]
      exact congrArg₂ (phyBlockPerArea * · + ·) hindex hoffset'
    refine (hdone.nand _ _ _ ((uses_mapped_tablesSet s free).mpr (Or.inr ⟨hplace, huse⟩))).trans ?_
    exact mtdErase_other (h.owned.exclusive.ne BlockUse.noConfusion huse hfreeUse)
  · exact (hdone.inUse harea hothers b).trans
      (inUse_eraseCommits harea hmapped hvalid hperm hfree₁ b)

/-! ## Requests -/

theorem Shows.mono (h : Shows d logical flash blocks tables free n) {n' : Nat} (hle : n ≤ n') :
    Shows d logical flash blocks tables free n' :=
  { h with
    rest := { h.rest with worn := h.rest.worn.mono hle } }

theorem Shows.erase (h : Shows d logical flash blocks tables free n) (hblock : logical block)
    (hn : n + 1 < invalidEc) (dieIndex : Nat) :
    ∃ d' tables' free', ubiEraseBlock d block dieIndex = .ok (.success, d') ∧
      Shows d' logical (mtdErase flash block) blocks tables' free' (n + 1) := by
  obtain ⟨d₁, hconfirm, h₁⟩ := h.confirm (h.held (dieIndex % totalDieCount)).logBlock (fun _ => 0) true
  obtain ⟨harea, hmapped⟩ := h₁.mapped block hblock
  obtain ⟨s', tables', free', herase, hdone⟩ :=
    h₁.rest.erase harea hmapped hn (dieIndex % totalDieCount)
  refine ⟨⟨s', d₁.diceHold⟩, tables', free', ?_, hdone.rest, fun block' hblock' => ?_,
    fun block' hblock' => ?_, h₁.first, h₁.held, fun b => (hdone.inUse b).trans (h₁.inUse b)⟩
  · unfold ubiEraseBlock
    simp only [hconfirm, bind, Except.bind, if_true, herase]
  · refine ⟨(h₁.mapped block' hblock').1, ?_⟩
    by_cases hsame : block' = block
    · rw [hsame]
      exact hdone.mapped
    · rw [hdone.others block' hsame]
      exact (h₁.mapped block' hblock').2
  · by_cases hsame : block' = block
    · rw [hsame, mtdErase, Function.update_self]
      exact hdone.erased
    · rw [hdone.others block' hsame, mtdErase_other hsame, ← h₁.pages block' hblock']
      exact hdone.kept block' hsame (h₁.mapped block' hblock').1 (h₁.mapped block' hblock').2

theorem Shows.read (h : Shows d logical flash blocks tables free n) {page : Nat}
    (hallows : FlashAllows logical flash (.read block page)) :
    ∃ s', ubiReadPage d.tables block page = .ok (flashAnswer flash (.read block page), s') ∧
      Shows { d with tables := s' } logical flash blocks tables free n := by
  rcases hallows with ⟨hblock, hpage⟩ | ⟨rfl, rfl⟩
  · obtain ⟨harea, hmapped⟩ := h.mapped block hblock
    have hvalid : block ≠ invalidBlock := by
      have hle := UbiGeometry.logicalBlocks_le
      have hdiv := Nat.div_lt_iff_lt_mul UbiGeometry.phyBlockPerArea_pos |>.mp harea
      simp only [invalidBlock]
      omega
    refine ⟨d.tables.caching tables (areaIndex block), ?_, h.caching harea⟩
    unfold ubiReadPage
    rw [if_pos ⟨hvalid, hpage⟩, h.rest.areaGetBlock_eq harea, flashAnswer, if_pos ⟨hvalid, hpage⟩]
    simp only [bind, Except.bind, if_pos hmapped]
    have hnand : (d.tables.caching tables (areaIndex block)).nand = d.tables.nand := rfl
    rw [hnand, h.pages block hblock]
    cases flash block page <;> rfl
  · refine ⟨d.tables, ?_, h⟩
    unfold ubiReadPage
    rw [if_neg (fun hvalid => hvalid.1 rfl), if_pos ⟨rfl, rfl⟩]
    rfl

theorem Shows.readStatus (h : Shows d logical flash blocks tables free n) (hblock : logical block) :
    ∃ s', ubiReadStatusOf d.tables block = .ok (.success, s') ∧
      Shows { d with tables := s' } logical flash blocks tables free n := by
  obtain ⟨harea, hmapped⟩ := h.mapped block hblock
  refine ⟨d.tables.caching tables (areaIndex block), ?_, h.caching harea⟩
  unfold ubiReadStatusOf
  rw [h.rest.areaGetBlock_eq harea]
  simp only [bind, Except.bind, if_pos hmapped]

end

section

variable [UbiLayout] {d : UbiDevice} {logical blocks : Nat → Prop} {flash : Nand}
  {tables : Nat → Words} {free : List FreeBlock} {n : Nat}

theorem Shows.remount (h : Shows d logical flash blocks tables free n) (hn : n + 1 < invalidEc) :
    ∃ d' free', ubiRemount d = .ok (.success, d') ∧
      Shows d' logical flash blocks tables free' (n + 1) := by
  have hpos : 0 < areaCount := Nat.pos_of_ne_zero fun hzero => by
    have hfirst := (h.mapped 0 h.first).1
    omega
  obtain ⟨s', free', hmount, hrest, huntouched, hinUse⟩ := @UbiRest.mount _ d.tables
    (.powerOn d.tables.nand) _ _ _ h.rest UbiLayout.areaCount_le_table UbiLayout.anchorLastBlock_lt
    hpos hn rfl
  refine ⟨⟨s', fun _ => ⟨0, invalidBlock, 0, 0, none, fun _ => 0⟩⟩, free', ?_, hrest, h.mapped,
    fun block hblock => ?_, h.first, fun _ => ⟨h.first, fun hheld => absurd rfl hheld⟩,
    fun b => (hinUse b).trans (h.inUse b)⟩
  · unfold ubiRemount
    simp only [hmount, bind, Except.bind, if_true]
  · rw [← h.pages block hblock]
    have huse : Uses d.tables tables free (.mapped (areaIndex block) (blockOffsetArea block))
        (physicalBlock tables block) := ⟨(h.mapped block hblock).1,
      Nat.mod_lt _ UbiGeometry.phyBlockPerArea_pos, rfl, (h.mapped block hblock).2⟩
    exact huntouched _ (h.rest.owned.untouched BlockUse.noConfusion BlockUse.noConfusion
      BlockUse.noConfusion huse)

/-- One request is answered as by the logical flash. -/
theorem Shows.serve (h : Shows d logical flash blocks tables free n) {request : UbiRequest}
    (hallows : FlashAllows logical flash request) (hn : n + 1 < invalidEc) :
    ∃ d' tables' free', d.serve request = .ok (flashAnswer flash request, d') ∧
      Shows d' logical (flashAfter flash request) blocks tables' free' (n + 1) := by
  cases request with
  | read block page =>
      obtain ⟨s', hread, h'⟩ := h.read hallows
      refine ⟨_, tables, free, ?_, h'.mono (Nat.le_succ n)⟩
      simp only [UbiDevice.serve, hread, bind, Except.bind]
  | write block page data spare async =>
      obtain ⟨hblock, hpage, herased⟩ := hallows
      obtain ⟨d', hwrite, h'⟩ := h.write hblock hpage herased data spare async
      refine ⟨d', tables, free, ?_, h'.mono (Nat.le_succ n)⟩
      simp only [UbiDevice.serve, hwrite, bind, Except.bind]
      rfl
  | erase block dieIndex =>
      obtain ⟨d', tables', free', herase, h'⟩ := h.erase hallows hn dieIndex
      refine ⟨d', tables', free', ?_, h'⟩
      simp only [UbiDevice.serve, herase, bind, Except.bind]
      rfl
  | flush =>
      obtain ⟨d', hflush, h'⟩ := h.flush totalDieCount
      refine ⟨d', tables, free, ?_, h'.mono (Nat.le_succ n)⟩
      simp only [UbiDevice.serve, ubiFlushAll, hflush, bind, Except.bind]
      rfl
  | readStatus block =>
      obtain ⟨s', hstatus, h'⟩ := h.readStatus hallows
      refine ⟨_, tables, free, ?_, h'.mono (Nat.le_succ n)⟩
      simp only [UbiDevice.serve, hstatus, bind, Except.bind]
      rfl
  | remount =>
      obtain ⟨d', free', hremount, h'⟩ := h.remount hn
      refine ⟨d', tables, free', ?_, h'⟩
      simp only [UbiDevice.serve, hremount, bind, Except.bind]
      rfl

/-- The device shows `flash`, and no block has been erased more than `n` times. -/
def ShowsFlash (d : UbiDevice) (logical : Nat → Prop) (flash : Nand) (blocks : Nat → Prop)
    (n : Nat) : Prop :=
  ∃ tables free, Shows d logical flash blocks tables free n

theorem ShowsFlash.run (h : ShowsFlash d logical flash blocks n) (requests : List UbiRequest)
    (haccepts : FlashAccepts logical flash requests)
    (hn : n + requests.length < invalidEc) :
    ∃ d', d.run requests = .ok (flashAnswers flash requests, d') ∧
      ShowsFlash d' logical (requests.foldl flashAfter flash) blocks (n + requests.length) := by
  induction requests generalizing d flash n with
  | nil => exact ⟨d, rfl, h⟩
  | cons request requests ih =>
      obtain ⟨tables, free, hshows⟩ := h
      rw [List.length_cons] at hn ⊢
      obtain ⟨d₁, tables₁, free₁, hserve, h₁⟩ := hshows.serve haccepts.1 (by omega)
      obtain ⟨d', hrun, h'⟩ := ih ⟨tables₁, free₁, h₁⟩ haccepts.2 (by omega)
      refine ⟨d', ?_, ?_⟩
      · simp only [UbiDevice.run, hserve, bind, Except.bind, hrun, flashAnswers]
      · have hcount : n + (requests.length + 1) = n + 1 + requests.length := by omega
        rw [hcount]
        exact h'

end

end RansomTag

import RansomTag.Ubi.WrittenTables

/-!
# The mount of the block layer

`UBI_Init` reads the anchor table, the index table and the area tables back from the
NAND, and writes the index table once more.  Whatever the RAM held before, a state
between two calls comes back with the same tables.
-/

namespace RansomTag

/-- `AREA_TABLE_SIZE` bounds the areas, and the anchor blocks have block numbers. -/
class UbiLayout extends UbiGeometry where
  areaCount_le_table : areaCount ≤ 256
  anchorLastBlock_lt : anchorLastBlock < 4294967295

@[reducible] def k9wag08Layout : UbiLayout where
  toUbiGeometry := k9wag08Ubi
  areaCount_le_table := by decide
  anchorLastBlock_lt := by decide

/-- The locals of `ANCHOR_Init` with what it changes. -/
structure AnchorScan where
  nand : Nand
  table : Words
  block : Nat
  page : Nat
  previous : Nat

section

variable [UbiGeometry]

/-- The words of an index page in `index_table`. -/
def loadIndexTable (s : UbiState) (words : Words) : UbiState :=
  { s with
    areaIndexTable := words
    areaIndexEct := fun area => words (256 + area)
    freeTable := fun i => ⟨words (512 + i), words (512 + freeBlockCount + i)⟩
    areaUpdatePlr := ⟨words (512 + 2 * freeBlockCount), words (512 + 2 * freeBlockCount + 1),
      words (512 + 2 * freeBlockCount + 2)⟩ }

/-- The loop of `ANCHOR_Init` over `n` anchor blocks from `block` on. -/
def anchorScan : Nat → Nat → AnchorScan → Except UbiStop AnchorScan
  | 0, _, a => .ok a
  | n + 1, block, a =>
      -- the first page says whether the block is empty
      if (tableReadPage a.nand block 0 a.table).status = .success then
        let last := tableReadPage a.nand block invalidPage a.table
        let found := { a with table := last.table }
        if last.status = .success then
          if a.block = invalidBlock then
            anchorScan n (block + 1)
              { found with block := block, page := last.page, previous := last.table 4 }
          else if a.previous = block then .ok { found with nand := mtdErase a.nand block }
          else if a.block = last.table 4 then
            .ok { found with nand := mtdErase a.nand a.block, block := block, page := last.page }
          else .error .assertion
        else anchorScan n (block + 1) found
      else anchorScan n (block + 1) a

/-- `ANCHOR_Init` -/
def anchorInit (s : UbiState) : Except UbiStop (Status × UbiState) := do
  let s := loadIndexTable s fun _ => 4294967295
  let a ← anchorScan (anchorLastBlock + 1 - anchorFirstBlock) anchorFirstBlock
    ⟨s.nand, fun _ => 4294967295, invalidBlock, invalidPage, invalidBlock⟩
  let s := { s with nand := a.nand, anchorTable := a.table }
  if a.block ≠ invalidBlock then
    let s := { s with anchorBlock := a.block, anchorNextPage := a.page + 1 }
    .ok (if anchorValid a.table then .success else .failure, s)
  else .ok (.failure, s)

/-- `INDEX_Init`; its results are the `area_update_plr` of the state. -/
def indexInit (s : UbiState) : Except UbiStop (Status × UbiState) :=
  if s.anchorTable 0 ≠ invalidBlock then
    let new := tableReadPage s.nand (s.anchorTable 0) invalidPage (indexTable s)
    let s := { loadIndexTable s new.table with isUpdatingArea := false }
    if new.status = .success then do
      let (_, s) ← indexUpdate { s with
        indexBlock := s.anchorTable 0
        indexBlockEc := s.anchorTable 1
        indexNextPage := new.page + 1 }
      .ok (.success, s)
    else if s.anchorTable 2 ≠ invalidBlock then
      let old := tableReadPage s.nand (s.anchorTable 2) invalidPage (indexTable s)
      let s := loadIndexTable s old.table
      if old.status = .success then
        indexUpdate { s with
          indexBlock := s.anchorTable 2
          indexBlockEc := s.anchorTable 3
          indexNextPage := pagePerPhyBlock }
      else .ok (old.status, s)
    else .error .assertion
  else .error .assertion

/-- `AREA_Init` -/
def areaInit (s : UbiState) (area : Nat) : Except UbiStop (Status × UbiState) :=
  areaRead { s with
    cachedAreaNumber := invalidArea
    areaOffsetTable := Function.update s.areaOffsetTable area invalidPage } area

/-- `AREA_CheckUpdatePLR` -/
def areaCheckUpdatePLR (s : UbiState) (plr : AreaUpdatePlr) : Bool × UbiState :=
  let offset := blockOffsetArea plr.logicalBlock
  if areaPhysicalBlock s.cachedAreaTable offset = plr.physicalBlock ∧
      areaPhysicalBlockEc s.cachedAreaTable offset = plr.blockEc then (false, s)
  else (true, { s with
    cachedAreaTable := areaSet s.cachedAreaTable offset plr.physicalBlock plr.blockEc })

/-- The update that `UBI_Init` makes up for in the area that `plr` names. -/
def areaContinueUpdate (s : UbiState) (plr : AreaUpdatePlr) :
    Except UbiStop (Status × UbiState) := do
  let (needPlr, s) := areaCheckUpdatePLR s plr
  if needPlr then
    let s ← indexUpdateAreaUpdate s plr.logicalBlock plr.physicalBlock plr.blockEc
    indexUpdateCommit s
  else .ok (.success, s)

/-- The loop of `UBI_Init` over the areas, with `ret` of the area before. -/
def ubiInitAreas (plr : AreaUpdatePlr) :
    List Nat → Status × UbiState → Except UbiStop (Status × UbiState)
  | [], r => .ok r
  | area :: areas, (_, s) => do
      let (ret, s) ← areaInit s area
      if ret = .success then
        let r ← if plr.logicalBlock ≠ invalidBlock ∧ area = areaIndex plr.logicalBlock then
            areaContinueUpdate s plr
          else .ok (ret, s)
        ubiInitAreas plr areas r
      else .ok (ret, s)

/-- `UBI_Init`, but for `dice_hold`. -/
def ubiInitTables (s : UbiState) : Except UbiStop (Status × UbiState) := do
  let (ret, s) ← anchorInit s
  if ret = .success then
    let (ret, s) ← indexInit s
    if ret = .success then
      ubiInitAreas s.areaUpdatePlr (List.range areaCount) (.success, s)
    else .ok (ret, s)
  else .ok (ret, s)

/-! ## The anchor table -/

variable {s ram : UbiState} {tables : Nat → Words} {free : List FreeBlock} {n : Nat}

omit [UbiGeometry] in
theorem anchorScan_unreadable {a : AnchorScan} {block m : Nat}
    (h : ∀ b, block ≤ b → b < block + m → ∀ data spare, a.nand b 0 ≠ .programmed data spare) :
    anchorScan m block a = .ok a := by
  induction m generalizing block with
  | zero => rfl
  | succ m ih =>
      have hstatus : (tableReadPage a.nand block 0 a.table).status = .failure :=
        tableReadPage_unreadable (h block le_rfl (by omega))
      have hfails : ¬(tableReadPage a.nand block 0 a.table).status = .success := by
        rw [hstatus]
        exact Status.noConfusion
      rw [anchorScan, if_neg hfails]
      exact ih fun b hle hlt => h b (by omega) (by omega)

omit [UbiGeometry] in
/-- The scan finds the one block that holds tables. -/
theorem anchorScan_found {a : AnchorScan} {current next : Nat} {table : Words}
    (hblock : a.block = invalidBlock) (htable : WrittenTable (a.nand current) next table)
    (m block : Nat) (hle : block ≤ current) (hlt : current < block + m)
    (h : ∀ b, block ≤ b → b < block + m → b ≠ current →
      ∀ data spare, a.nand b 0 ≠ .programmed data spare) :
    anchorScan m block a = .ok
      { a with table := table, block := current, page := next - 1, previous := table 4 } := by
  induction m generalizing block with
  | zero => omega
  | succ m ih =>
      rw [anchorScan]
      by_cases hsame : block = current
      · subst hsame
        obtain ⟨data, hdata⟩ := htable.written 0 htable.pos
        have hfirst : (tableReadPage a.nand block 0 a.table).status = .success := by
          rw [tableReadPage_stored (by decide) hdata (by decide)]
        rw [if_pos hfirst, htable.read a.table]
        simp only [if_true, if_pos hblock]
        exact anchorScan_unreadable fun b hle' hlt' =>
          h b (by omega) (by omega) (by omega)
      · have hfails : ¬(tableReadPage a.nand block 0 a.table).status = .success := by
          rw [tableReadPage_unreadable (h block le_rfl (by omega) hsame)]
          exact Status.noConfusion
        rw [if_neg hfails]
        exact ih (block + 1) (by omega) (by omega) fun b hle' hlt' =>
          h b (by omega) (by omega)

/-- What `ANCHOR_Init` makes of the state in RAM. -/
theorem AnchorStored.init (h : AnchorStored s) (hlast : anchorLastBlock < 4294967295)
    (hnand : ram.nand = s.nand) :
    anchorInit ram = .ok (.success, { loadIndexTable ram (fun _ => 4294967295) with
      anchorTable := s.anchorTable
      anchorBlock := s.anchorBlock
      anchorNextPage := s.anchorNextPage }) := by
  have hcurrent := h.current
  have hpos := h.stored.pos
  have hvalid : s.anchorBlock ≠ invalidBlock := by
    simp only [invalidBlock]
    omega
  have hscan := anchorScan_found (a := ⟨(loadIndexTable ram fun _ => 4294967295).nand,
    fun _ => 4294967295, invalidBlock, invalidPage, invalidBlock⟩) rfl (hnand ▸ h.stored)
    (anchorLastBlock + 1 - anchorFirstBlock) anchorFirstBlock hcurrent.1 (by omega)
    (fun b hfirst hlt hb => by
      change ∀ data spare, ram.nand b 0 ≠ _
      rw [hnand]
      exact h.others b hfirst (by omega) hb)
  have hnext : s.anchorNextPage - 1 + 1 = s.anchorNextPage := by omega
  unfold anchorInit
  simp only [bind, Except.bind, hscan, if_pos hvalid, h.valid, if_true, hnext]

/-! ## The index table -/

/-- What is read back is what was in RAM. -/
structure IndexLoaded (s ram : UbiState) : Prop where
  areaIndexTable : ∀ area < 256,
    (loadIndexTable ram (indexTable s)).areaIndexTable area = s.areaIndexTable area
  areaIndexEct : ∀ area < 256,
    (loadIndexTable ram (indexTable s)).areaIndexEct area = s.areaIndexEct area
  freeTable : ∀ i < freeBlockCount,
    (loadIndexTable ram (indexTable s)).freeTable i = s.freeTable i
  areaUpdatePlr : (loadIndexTable ram (indexTable s)).areaUpdatePlr = s.areaUpdatePlr

theorem indexLoaded (s ram : UbiState) : IndexLoaded s ram where
  areaIndexTable area harea := if_pos harea
  areaIndexEct area harea := by
    change indexTable s (256 + area) = _
    rw [indexTable, if_neg (by omega), if_pos (by omega), Nat.add_sub_cancel_left]
  freeTable i hi := by
    have hblock : indexTable s (512 + i) = (s.freeTable i).block := by
      rw [indexTable, if_neg (by omega), if_neg (by omega), if_pos (by omega),
        Nat.add_sub_cancel_left]
    have hec : indexTable s (512 + freeBlockCount + i) = (s.freeTable i).ec := by
      have hplace : 512 + freeBlockCount + i - 512 - freeBlockCount = i := by omega
      rw [indexTable, if_neg (by omega), if_neg (by omega), if_neg (by omega), if_pos (by omega),
        hplace]
    change FreeBlock.mk (indexTable s (512 + i)) (indexTable s (512 + freeBlockCount + i)) = _
    rw [hblock, hec]
  areaUpdatePlr := by
    have hplr (k : Nat) (hk : k ≤ 2) : indexTable s (512 + 2 * freeBlockCount + k) =
        if k = 0 then s.areaUpdatePlr.logicalBlock
        else if k = 1 then s.areaUpdatePlr.physicalBlock else s.areaUpdatePlr.blockEc := by
      rw [indexTable, if_neg (by omega), if_neg (by omega), if_neg (by omega), if_neg (by omega)]
      split_ifs <;> first | rfl | omega
    change AreaUpdatePlr.mk _ _ _ = _
    have hzero := hplr 0 (by decide)
    have hone := hplr 1 (by decide)
    have htwo := hplr 2 (by decide)
    rw [Nat.add_zero] at hzero
    rw [hzero, hone, htwo]
    rfl

theorem Represents.of_entries {t t' : FreeTable} {l : List FreeBlock} (h : Represents t l)
    (hsame : ∀ i < freeBlockCount, t' i = t i) : Represents t' l where
  fits := h.fits
  entry i hi := by
    rw [hsame i (hi.trans_le h.fits)]
    exact h.entry i hi
  block i hi := by
    rw [hsame i (hi.trans_le h.fits)]
    exact h.block i hi
  ec i hi := by
    rw [hsame i (hi.trans_le h.fits)]
    exact h.ec i hi
  sorted i j hij hj := by
    rw [hsame i ((hij.trans_lt hj).trans_le h.fits), hsame j (hj.trans_le h.fits)]
    exact h.sorted i j hij hj
  rest i hle hi := by
    rw [hsame i hi]
    exact h.rest i hle hi
  stop hlt := by
    rw [hsame _ hlt]
    exact h.stop hlt

/-- The tables are found and written again, whatever the RAM held. -/
theorem UbiOnNand.indexInit {last : Nat → Nat} (h : UbiOnNand s tables free last n)
    (hareas : areaCount ≤ 256) (hn : n + 1 < invalidEc) (hnand : ram.nand = s.nand)
    (htable : ram.anchorTable = s.anchorTable) (hblock : ram.anchorBlock = s.anchorBlock)
    (hpage : ram.anchorNextPage = s.anchorNextPage) :
    ∃ s' free', indexInit ram = .ok (.success, s') ∧
      UbiOnNand s' tables free' last (n + 1) ∧
      (∀ block, Untouched s tables free block → s'.nand block = s.nand block) ∧
      ∀ block, InUse s' tables free' block ↔ InUse s tables free block := by
  have hload := indexLoaded s ram
  have hpos := h.index.stored.pos
  obtain ⟨loaded, hloaded⟩ : ∃ loaded : UbiState, loaded = { loadIndexTable ram (indexTable s) with
    isUpdatingArea := false
    indexBlock := s.indexBlock
    indexBlockEc := s.indexBlockEc
    indexNextPage := s.indexNextPage } := ⟨_, rfl⟩
  have hblocks : ∀ area < areaCount, loaded.areaIndexTable area = s.areaIndexTable area := by
    intro area harea
    rw [hloaded]
    exact hload.areaIndexTable area (by omega)
  have huses : ∀ o b, Uses loaded tables free o b ↔ Uses s tables free o b := by
    intro o b
    cases o with
    | mapped area offset => exact Iff.rfl
    | areaTable area =>
        refine and_congr_right fun harea => ?_
        rw [hblocks area harea]
    | index => rw [hloaded]; exact Iff.rfl
    | free => exact Iff.rfl
    | anchor => exact Iff.rfl
  have howned : Owned loaded tables free := by
    refine ⟨h.owned.table.of_entries fun i hi => ?_, h.owned.nodup, fun o o' b hb hb' => ?_⟩
    · rw [hloaded]
      exact hload.freeTable i hi
    · exact h.owned.exclusive ((huses o b).mp hb) ((huses o' b).mp hb')
  have hnand' : loaded.nand = s.nand := by
    rw [hloaded]
    exact hnand
  have hpages : WrittenPages (loaded.nand loaded.indexBlock) loaded.indexNextPage := by
    rw [hnand', hloaded]
    exact h.index.stored.toWrittenPages
  have hanchor : AnchorStored loaded := by
    refine h.anchor.of_same ?_ ?_ ?_ ⟨?_, ?_⟩ fun b _ _ => congrFun hnand' b
    all_goals rw [hloaded]
    · exact htable
    · exact hblock
    · exact hpage
  have hindexBlock : loaded.indexBlock ≠ invalidBlock := by
    rw [hloaded]
    exact h.index.block
  have hindexWorn : loaded.indexBlockEc ≤ n := by
    rw [hloaded]
    exact h.worn.index
  obtain ⟨s', free', hupdate, hdone⟩ := indexUpdate_stored howned h.free_ne hindexBlock hpages
    hanchor h.worn.free hindexWorn hn
  have hwritten := hdone.written
  have huntouched : ∀ block, Untouched s tables free block → s'.nand block = s.nand block := by
    intro block hb
    rw [hwritten.nand block ⟨fun huse => hb.notFree ((huses _ _).mp huse),
      fun huse => hb.notIndex ((huses _ _).mp huse),
      fun huse => hb.notAnchor ((huses _ _).mp huse)⟩, hnand']
  refine ⟨s', free', ?_, ⟨hwritten.owned, hwritten.free_ne h.free_ne, fun area harea => ?_,
    fun area harea => ?_, hdone.index, hdone.anchor, ?_, ?_⟩, huntouched, fun block => ?_⟩
  · have hvalid : ram.anchorTable 0 ≠ invalidBlock := by
      rw [htable, h.anchor.indexBlock]
      exact h.index.block
    have hread : tableReadPage ram.nand (ram.anchorTable 0) invalidPage (indexTable ram) =
        ⟨.success, s.indexNextPage - 1, indexTable s⟩ := by
      rw [hnand, htable, h.anchor.indexBlock]
      exact h.index.stored.read _
    have hnext : s.indexNextPage - 1 + 1 = s.indexNextPage := by omega
    have hzero : (loadIndexTable ram (indexTable s)).anchorTable 0 = s.indexBlock := by
      change ram.anchorTable 0 = s.indexBlock
      rw [htable, h.anchor.indexBlock]
    have hone : (loadIndexTable ram (indexTable s)).anchorTable 1 = s.indexBlockEc := by
      change ram.anchorTable 1 = s.indexBlockEc
      rw [htable, h.anchor.indexBlockEc]
    unfold RansomTag.indexInit
    rw [if_pos hvalid]
    simp only [hread, if_true, hnext, hzero, hone, bind, Except.bind]
    rw [← hloaded, hupdate]
  · have huse : Uses s tables free (.areaTable area) (s.areaIndexTable area) := ⟨harea, rfl⟩
    refine (h.areas area harea).of_eq ?_ rfl
    rw [hwritten.same.areaIndexTable, hblocks area harea]
    exact huntouched _ (h.owned.untouched BlockUse.noConfusion BlockUse.noConfusion
      BlockUse.noConfusion huse)
  · rw [hwritten.same.areaIndexTable, hblocks area harea]
    exact h.areaBlock area harea
  · rw [hwritten.same.areaUpdatePlr, hloaded]
    change PlrDone (loadIndexTable ram (indexTable s)).areaUpdatePlr tables
    rw [hload.areaUpdatePlr]
    exact h.plr
  · refine ⟨hdone.freeWorn, fun area harea offset hoffset hmapped => Nat.le_succ_of_le
      (h.worn.mapped area harea offset hoffset hmapped), fun area harea => ?_, hdone.indexWorn⟩
    rw [hwritten.same.areaIndexEct, hloaded]
    change (loadIndexTable ram (indexTable s)).areaIndexEct area ≤ _
    rw [hload.areaIndexEct area (by omega)]
    exact Nat.le_succ_of_le (h.worn.areaTable area harea)
  · exact (hwritten.inUse block).trans (exists_congr fun o => huses o block)

/-! ## The area tables -/

theorem UbiOnNand.withAreas {last : Nat → Nat} (h : UbiOnNand s tables free last n)
    (offsets : Nat → Nat) (table : Words) (number : Nat) :
    UbiOnNand { s with
      areaOffsetTable := offsets, cachedAreaTable := table, cachedAreaNumber := number }
      tables free last n where
  owned := ⟨h.owned.table, h.owned.nodup, h.owned.exclusive⟩
  free_ne := h.free_ne
  areas := h.areas
  areaBlock := h.areaBlock
  index := ⟨h.index.block, h.index.stored⟩
  anchor := h.anchor.of_same rfl rfl rfl ⟨rfl, rfl⟩ fun _ _ _ => rfl
  plr := h.plr
  worn := ⟨h.worn.free, h.worn.mapped, h.worn.areaTable, h.worn.index⟩

theorem UbiOnNand.areaInit_eq {last : Nat → Nat} (h : UbiOnNand s tables free last n) {area : Nat}
    (harea : area < areaCount) :
    areaInit s area = .ok (.success, { s with
      areaOffsetTable := Function.update s.areaOffsetTable area (last area)
      cachedAreaTable := tables area
      cachedAreaNumber := area }) := by
  have hle := areaCount_le
  have hvalid : area ≠ invalidArea := by
    simp only [invalidArea]
    omega
  have hread := (h.areas area harea).read s.cachedAreaTable
  unfold areaInit areaRead
  simp only [if_pos hvalid, Function.update_self, hread, if_true, Function.update_idem,
    Nat.add_sub_cancel]

/-- The update that the index table names is in the area table. -/
theorem areaContinueUpdate_done {plr : AreaUpdatePlr} (hplr : PlrDone plr tables)
    (hblock : plr.logicalBlock ≠ invalidBlock) (harea : areaIndex plr.logicalBlock < areaCount)
    (hcached : s.cachedAreaTable = tables (areaIndex plr.logicalBlock)) :
    areaContinueUpdate s plr = .ok (.success, s) := by
  have hdone := hplr hblock harea
  rw [physicalBlock, ← hcached] at hdone
  unfold areaContinueUpdate areaCheckUpdatePLR
  rw [if_pos hdone]
  rfl

/-- The loop over the areas from `k` on finds each table in its last page. -/
theorem UbiOnNand.initAreas {last : Nat → Nat} (h : UbiOnNand s tables free last n)
    {plr : AreaUpdatePlr} (hplr : PlrDone plr tables) (m k : Nat) (ret : Status)
    (hk : k + m = areaCount) (hbefore : ∀ a < k, s.areaOffsetTable a = last a)
    (hcached : 0 < k → s.cachedAreaNumber < areaCount ∧
      s.cachedAreaTable = tables s.cachedAreaNumber) (hret : 0 < k → ret = .success)
    (hpos : 0 < areaCount) :
    ∃ s', ubiInitAreas plr (List.range' k m) (ret, s) = .ok (.success, s') ∧
      UbiOnNand s' tables free last n ∧ s'.nand = s.nand ∧
      (∀ o b, Uses s' tables free o b ↔ Uses s tables free o b) ∧
      (∀ a < areaCount, s'.areaOffsetTable a = last a) ∧
      s'.cachedAreaNumber < areaCount ∧ s'.cachedAreaTable = tables s'.cachedAreaNumber := by
  induction m generalizing k s ret with
  | zero =>
      have hkpos : 0 < k := by omega
      obtain ⟨hnumber, htable⟩ := hcached hkpos
      refine ⟨s, ?_, h, rfl, fun _ _ => Iff.rfl, fun a ha => hbefore a (by omega), hnumber, htable⟩
      rw [hret hkpos]
      rfl
  | succ m ih =>
      have harea : k < areaCount := by omega
      have hnext := h.withAreas (Function.update s.areaOffsetTable k (last k)) (tables k) k
      have huses : ∀ o b, Uses { s with
          areaOffsetTable := Function.update s.areaOffsetTable k (last k)
          cachedAreaTable := tables k
          cachedAreaNumber := k } tables free o b ↔ Uses s tables free o b := by
        intro o b
        cases o <;> exact Iff.rfl
      obtain ⟨s', hloop, hdone, hnand, hsame, hrest⟩ := ih hnext (k + 1) .success (by omega)
        (fun a ha => by
          by_cases hsame : a = k
          · rw [hsame]
            exact Function.update_self k _ _
          · exact (Function.update_of_ne hsame _ _).trans (hbefore a (by omega)))
        (fun _ => ⟨harea, rfl⟩) fun _ => rfl
      refine ⟨s', ?_, hdone, hnand, fun o b => (hsame o b).trans (huses o b), hrest⟩
      rw [List.range'_succ, ubiInitAreas, h.areaInit_eq harea]
      simp only [bind, Except.bind, if_true]
      split_ifs with hupdating
      · obtain ⟨hblock, hindex⟩ := hupdating
        subst hindex
        rw [areaContinueUpdate_done hplr hblock harea rfl]
        exact hloop
      · exact hloop

/-- Whatever the RAM holds, `UBI_Init` comes back to the tables on the NAND; the index table
has been written once more. -/
theorem UbiRest.mount (h : UbiRest s tables free n) (hareas : areaCount ≤ 256)
    (hlast : anchorLastBlock < 4294967295) (hpos : 0 < areaCount) (hn : n + 1 < invalidEc)
    (hnand : ram.nand = s.nand) :
    ∃ s' free', ubiInitTables ram = .ok (.success, s') ∧ UbiRest s' tables free' (n + 1) ∧
      (∀ block, Untouched s tables free block → s'.nand block = s.nand block) ∧
      ∀ block, InUse s' tables free' block ↔ InUse s tables free block := by
  obtain ⟨s₁, free₁, hindex, honNand, huntouched, hinUse⟩ := @UbiOnNand.indexInit _ s
    { loadIndexTable ram (fun _ => 4294967295) with
      anchorTable := s.anchorTable
      anchorBlock := s.anchorBlock
      anchorNextPage := s.anchorNextPage } tables free n _ h.toUbiOnNand hareas hn hnand rfl rfl rfl
  obtain ⟨s', hloop, hmounted, hsame, huses, hoffsets, hnumber, htable⟩ := honNand.initAreas
    honNand.plr areaCount 0 .success (Nat.zero_add _) (fun a ha => absurd ha (Nat.not_lt_zero a))
    (fun hzero => absurd hzero (Nat.lt_irrefl 0)) (fun _ => rfl) hpos
  refine ⟨s', free₁, ?_, ⟨?_, fun _ => ⟨hnumber, htable⟩⟩, fun block hblock => ?_, fun block => ?_⟩
  · unfold ubiInitTables
    rw [h.anchor.init hlast hnand]
    simp only [bind, Except.bind, if_true, hindex, List.range_eq_range']
    exact hloop
  · exact { hmounted with
      areas := fun a ha => by
        rw [hoffsets a ha]
        exact hmounted.areas a ha }
  · rw [hsame]
    exact huntouched block hblock
  · exact (exists_congr fun o => huses o block).trans (hinUse block)

end

end RansomTag

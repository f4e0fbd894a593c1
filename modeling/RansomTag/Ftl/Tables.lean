import RansomTag.Ftl.Ubi

/-!
# Hot-data table, block dirty table and root table

`ftl_hdi.c`, `ftl_bdt.c` and `ftl_root.c`.  Each table owns two blocks and
appends its pages to one of them until it is full; the other is then erased and
taken.  `BDT_PAGE_COUNT` is 1 in this configuration.
-/

namespace RansomTag

variable [Platform]

/-! ## Hot data identification -/

/-- `HDI_FUNCTION` -/
def hdiFunction (a i : Nat) : Nat := a / 2 ^ (i * 3) % mppSize

/-- One round of the loop in `HDI_IsHotPage`. -/
def hdiTouch (addr : Nat) (i : Nat) (acc : Ram Nat × Bool) : Ram Nat × Bool :=
  let slot := hdiFunction addr i
  let value := acc.1 slot
  let value' := if value ≠ maxUint8 then value + 1 else value
  (acc.1.set slot value', if value' < 0x60 then false else acc.2)

/-- `HDI_IsHotPage` -/
def hdiIsHotPage (addr : Nat) : Ftl Bool := do
  let s ← get
  let (table, ret) :=
    hdiTouch addr 3 (hdiTouch addr 2 (hdiTouch addr 1 (hdiTouch addr 0 (s.hdi.hashTable, true))))
  -- cold down the hash table after every `HDI_COLDDOWN_DELAY` accesses
  if s.hdi.count = 0x1000 then
    set { s with hdi := { s.hdi with
      hashTable := .ofFn fun i => table i / 2, count := 0 } }
  else
    set { s with hdi := { s.hdi with hashTable := table, count := s.hdi.count + 1 } }
  pure ret

/-- `HDI_Commit` -/
def hdiCommit : Ftl Status := do
  let s ← get
  let ret ←
    if s.hdi.currentPage = pagePerPhyBlock then do
      let nextBlock := s.hdi.currentBlock ^^^ 1
      let ret ← ubiErase nextBlock
      if ret = .success then
        modify fun s => { s with hdi := { s.hdi with
          currentPage := 0, currentBlock := nextBlock } }
      pure ret
    else pure .success
  let ret ←
    if ret = .success then do
      let s ← get
      ubiWrite s.hdi.currentBlock s.hdi.currentPage (.bytes s.hdi.hashTable) .null
    else pure ret
  if ret = .success then
    modify fun s => { s with
      rootTable := { s.rootTable with
        hdiCurrentJournal := pmNodeSetBlockPage s.hdi.currentBlock s.hdi.currentPage }
      hdi := { s.hdi with currentPage := s.hdi.currentPage + 1 } }
  pure ret

/-! ## Block dirty table -/

/-- `BDT_Commit` -/
def bdtCommit : Ftl Status := do
  let s ← get
  let ret ←
    if s.bdt.currentPage = pagePerPhyBlock then do
      let nextBlock := s.bdt.currentBlock ^^^ 1
      let ret ← ubiErase nextBlock
      if ret = .success then
        modify fun s => { s with bdt := ⟨nextBlock, 0⟩ }
      pure ret
    else pure .success
  let ret ←
    if ret = .success then do
      let s ← get
      ubiWrite s.bdt.currentBlock s.bdt.currentPage (.bytes s.blockDirtyTable) .null
    else pure ret
  if ret = .success then
    modify fun s => { s with
      rootTable := { s.rootTable with
        bdtCurrentJournal := pmNodeSetBlockPage s.bdt.currentBlock s.bdt.currentPage }
      bdt := { s.bdt with currentPage := s.bdt.currentPage + 1 } }
  pure ret

/-- The first page from `page` on, in a block of 64, that does not read. -/
def firstUnreadable (block : Nat) : Nat → Nat → Ftl Nat
  | 0, page => pure page
  | n + 1, page => do
      let r ← ubiRead block page
      if r.status = .success then firstUnreadable block n (page + 1) else pure page

/-- `BDT_Init` takes the flags off the table when the retained blocks have
reached the threshold. -/
def releaseFlags (table : Ram Nat) : Ram Nat :=
  .ofFn fun k =>
    if k < mppSize ∧ backupFlag ≤ table k then table k - backupFlag else table k

/-- `BDT_Init` -/
def bdtInit : Ftl Status := do
  modify fun s => { s with bdt :=
    ⟨pmNodeBlock s.rootTable.bdtCurrentJournal, pmNodePage s.rootTable.bdtCurrentJournal⟩ }
  let s ← get
  -- read out the valid page of the table
  let r ← ubiRead s.bdt.currentBlock s.bdt.currentPage
  assert (r.status = .success)
  modify fun s => { s with blockDirtyTable :=
    match r.data with
    | some d => .ofFn d.byte
    | none => s.blockDirtyTable }
  -- too much is retained: drop the flags and let the blocks be collected again
  modify fun s =>
    if threshold ≤ s.rootTable.backupBlockCount then
      { s with
        blockDirtyTable := releaseFlags s.blockDirtyTable
        rootTable := { s.rootTable with backupBlockCount := 0 } }
    else s
  let s ← get
  let page ← firstUnreadable s.bdt.currentBlock
    (pagePerPhyBlock - (s.bdt.currentPage + 1)) (s.bdt.currentPage + 1)
  modify fun s => { s with bdt := { s.bdt with currentPage := page } }
  let _ ← bdtCommit
  pure .success

/-- `BDT_Format` -/
def bdtFormat : Ftl Status := do
  modify fun s => { s with bdt := ⟨bdtBlock0, 0⟩ }
  let ret ← ubiErase bdtBlock0
  if ret = .success then bdtCommit else pure ret

/-- `HDI_Format` -/
def hdiFormat : Ftl Status := do
  modify fun s => { s with hdi := { s.hdi with
    hashTable := .const 0, currentBlock := hdiBlock0, currentPage := 0 } }
  let ret ← ubiErase hdiBlock0
  if ret = .success then hdiCommit else pure ret

/-- `HDI_Init`.  It ends with `BDT_Commit`, as the source does. -/
def hdiInit : Ftl Status := do
  modify fun s => { s with hdi := { s.hdi with
    currentBlock := pmNodeBlock s.rootTable.hdiCurrentJournal
    currentPage := pmNodePage s.rootTable.hdiCurrentJournal } }
  let s ← get
  let r ← ubiRead s.hdi.currentBlock s.hdi.currentPage
  modify fun s => { s with hdi := { s.hdi with hashTable :=
    match r.data with
    | some d => .ofFn d.byte
    | none => s.hdi.hashTable } }
  assert (r.status = .success)
  let s ← get
  let page ← firstUnreadable s.hdi.currentBlock
    (pagePerPhyBlock - (s.hdi.currentPage + 1)) (s.hdi.currentPage + 1)
  modify fun s => { s with hdi := { s.hdi with currentPage := page } }
  let _ ← bdtCommit
  pure .success

/-! ## Root table -/

/-- `ROOT_Commit` -/
def rootCommit : Ftl Status := do
  let s ← get
  let ret ←
    if s.root.currentPage = pagePerPhyBlock then do
      let nextBlock := s.root.currentBlock ^^^ 1
      let ret ← ubiErase nextBlock
      if ret = .success then
        modify fun s => { s with root := { s.root with
          currentPage := 0, currentBlock := nextBlock } }
      pure ret
    else pure .success
  let ret ←
    if ret = .success then do
      modify fun s => { s with
        rootTable := { s.rootTable with
          rootCurrentJournal := pmNodeSetBlockPage s.root.currentBlock s.root.currentPage
          rootEdition := s.root.edition }
        root := { s.root with edition := (s.root.edition + 1) % 4294967296 } }
      let s ← get
      ubiWrite s.root.currentBlock s.root.currentPage s.rootTable.toBuffer (.footprint 0)
    else pure ret
  if ret = .success then
    modify fun s => { s with root := { s.root with currentPage := s.root.currentPage + 1 } }
  pure ret

/-- `ROOT_Format` -/
def rootFormat : Ftl Status := do
  modify fun s => { s with
    root := ⟨rootBlock0, 0, 0⟩
    rootTable := { s.rootTable with backupBlockCount := 0 } }
  let ret ← ubiErase rootBlock0
  if ret = .success then rootCommit else pure ret

/-- Read a page into `root_table`; a failed read leaves the table alone. -/
def rootRead (block page : Nat) : Ftl ReadResult := do
  let r ← ubiRead block page
  modify fun s => { s with rootTable :=
    match r.data with
    | some d => .ofBuffer d
    | none => s.rootTable }
  pure r

/-- The loop of `ROOT_Init` over the pages of the current block: the page it
breaks at, and the last status. -/
def rootScan (block : Nat) : Nat → Nat → Ftl (Nat × Status)
  | 0, i => pure (i, .success)
  | n + 1, i => do
      let r ← rootRead block i
      if r.status ≠ .success ∨ (r.spare.getD .null).w0 = invalidIndex then
        pure (i, r.status)
      else rootScan block n (i + 1)

/-- `ROOT_Init` -/
def rootInit : Ftl Status := do
  -- choose the latest block
  let r ← rootRead rootBlock0 0
  if r.status = .success then
    modify fun s => { s with root := { s.root with
      edition := s.rootTable.rootEdition, currentBlock := rootBlock0 } }
    let r ← rootRead rootBlock1 0
    modify fun s => { s with root := { s.root with currentBlock :=
      if r.status = .success then
        if s.root.edition > s.rootTable.rootEdition then rootBlock0 else rootBlock1
      else rootBlock0 } }
  else
    modify fun s => { s with root := { s.root with currentBlock := rootBlock1 } }
  -- read out the latest valid page
  let s ← get
  let (i, ret) ← rootScan s.root.currentBlock pagePerPhyBlock 0
  if i = pagePerPhyBlock then assert (ret = .success) else assert (ret ≠ .success)
  let r ← rootRead s.root.currentBlock ((i + maxUint32) % 4294967296)
  if r.status = .success then
    modify fun s => { s with root := { s.root with
      currentPage := i, edition := (s.rootTable.rootEdition + 1) % 4294967296 } }
    -- skip one page for a possible power-loss issue
    let _ ← rootCommit
  pure r.status

end RansomTag

import RansomTag.Ftl.Pmt

/-!
# Data journals

`ftl_data.c`: writes to the hot and the cold journal, reclaiming of the
dirtiest data block, and replay of the journals at a mount.
-/

namespace RansomTag

variable [Platform]

/-- `DATA_IsFull` -/
def dataIsFull (r : Root) (isHot : Bool) : Bool :=
  !decide (pmNodePage (r.journal isHot) < pagePerPhyBlock - 1)

/-! ## Format -/

/-- One of the three loops of `DATA_Format`: erase a block for a journal. -/
def dataFormatBlock (block : Nat) (install : Root → Nat → Root) (ret : Status) :
    Ftl Status := do
  let ret ← if ret = .success then ubiErase block else pure ret
  if ret = .success then
    modify fun s => { s with
      rootTable := install s.rootTable (pmNodeSetBlockPage block 0)
      blockDirtyTable := s.blockDirtyTable.set block 0 }
  pure ret

/-- `DATA_Format` -/
def dataFormat : Ftl Status := do
  modify fun s => { s with
    blockDirtyTable :=
      .ofFn fun i => if i < cfgLogBlockCount then maxDirtyPages else s.blockDirtyTable i }
  let ret ← dataFormatBlock dataStartBlock (fun r w => { r with hotJournal := w }) .success
  let ret ← dataFormatBlock (dataStartBlock + 1) (fun r w => { r with coldJournal := w }) ret
  let _ ← dataFormatBlock (dataStartBlock + 2) (fun r w => { r with reclaimJournal := w }) ret
  pure .success

/-! ## Write -/

/-- The first part of `DATA_Write`: whether the old version is retained, the
link to it, and the last status.  For a page without an old version the link is
a local variable that is never set. -/
def dataOldVersion (addr : Nat) (flag mft : Bool) : Ftl (Bool × Nat × Status) := do
  if flag ∨ mft then
    let (ret, found) ← pmtSearch addr
    let (oldBlock, oldPage) ←
      match found with
      | some location => pure location
      | none => do
          let oldBlock ← unsetLocal
          let oldPage ← unsetLocal
          pure (oldBlock, oldPage)
    if oldBlock ≠ invalidBlock ∧ oldPage ≠ invalidPage then
      let r ← ubiRead oldBlock oldPage
      let oldLogicAddr := pmNodeSetBlockPage oldBlock oldPage
      match r.spare with
      | some oldSpare =>
          -- a tagged page keeps the link of its old version; an MFT page links to it
          if mft = false ∧ r.status = .success ∧ oldSpare.w2 ≠ invalidPmNode then
            pure (flag, oldSpare.w2, r.status)
          else pure (flag, oldLogicAddr, r.status)
      | none => pure (flag, oldLogicAddr, r.status)
    else
      let oldLogicAddr ← unsetLocal
      pure (false, oldLogicAddr, ret)
  else pure (flag, 0, .success)

/-- `DATA_Write`; no buffer is a trim. -/
def dataWrite (addr : Nat) (buffer : Option Buffer) (isHot flag mft : Bool) : Ftl Status := do
  let (isBackup, oldLogicAddr, ret) ← dataOldVersion addr flag mft
  let s ← get
  let dataJournal := s.rootTable.journal isHot
  -- find an idle non-full block
  let ret ←
    if pmNodePage dataJournal < pagePerPhyBlock - 1 then
      ubiReadStatus (pmNodeBlock dataJournal)
    else pure ret
  assert (ret = .success)
  match buffer with
  | some buffer =>
      let block := pmNodeBlock dataJournal
      let page := pmNodePage dataJournal
      let link :=
        if isBackup ∨ mft then
          if pmNodeBlock oldLogicAddr > 2048 then invalidPmNode else oldLogicAddr
        else invalidPmNode
      let isBackup :=
        if (isBackup ∨ mft) ∧ pmNodeBlock oldLogicAddr > 2048 then false else isBackup
      let s ← get
      let spare : Spare := ⟨addr, s.data.edition isHot, link, link⟩
      let edition := (s.data.edition isHot + 1) % 4294967296
      modify fun s => { s with data := (s.data.setMeta isHot page spare).setEdition isHot edition }
      -- write the page to the journal block
      let ret ← ubiWrite block page buffer spare
      let ret ← if ret = .success then pmtUpdate addr block page isBackup else pure ret
      if ret = .success then
        modify fun s => { s with
          rootTable := s.rootTable.setJournal isHot (pmNodeSetBlockPage block (page + 1)) }
      let s ← get
      if pmNodePage (s.rootTable.journal isHot) = pagePerPhyBlock - 1 then
        -- write meta data to the last page
        ubiWrite block (pagePerPhyBlock - 1) (.ofSpares (s.data.metaTable isHot)) .null
      else pure ret
  | none => pmtUpdate addr invalidBlock invalidPage isBackup

/-! ## Reclaim -/

/-- The passes of the victim search over `blocks`.  The target falls with every
pass until it is zero, and a pass with target zero repeats itself. -/
def dataVictimFrom (dirty : Ram Nat) (exclude : Nat) (blocks : List Nat) : Nat → Nat → Option Nat
  | 0, _ => none
  | fuel + 1, target =>
      match victimPass dirty (fun i => i == exclude) target blocks 0 with
      | (some i, _) => some i
      | (none, next) => dataVictimFrom dirty exclude blocks fuel next

/-- The block that `DATA_Reclaim` collects for a stream; `none` when the search
never ends. -/
def dataVictim (s : FtlState) (isHot : Bool) : Option Nat :=
  dataVictimFrom s.blockDirtyTable (pmNodeBlock (s.rootTable.journal !isHot)) dataBlocks
    (maxDirtyPages + 2) maxDirtyPages

/-- Copy one page of the dirty block when the mapping still points to it.
Returns the status and the number of pages reclaimed. -/
def dataReclaimPage (isHot : Bool) (dirtyBlock reclaimBlock : Nat) (pagesBuffer : Buffer)
    (page : Nat) (ret : Status) (reclaimPage : Nat) : Ftl (Status × Nat) := do
  if ret = .success then
    let addr := pagesBuffer.spareAddr page
    let (ret, found) ← pmtSearch addr
    if ret = .success ∧ found = some (dirtyBlock, page) then
      let r ← ubiRead dirtyBlock page
      -- the logical page address is not changed
      let spare := { r.spare.getD default with w1 := reclaimPage }
      let ret ←
        if r.status = .success then
          ubiWrite reclaimBlock reclaimPage (r.data.getD .zeros) spare
        else pure r.status
      let ret ←
        if ret = .success then do
          let ret ← pmtUpdate addr reclaimBlock reclaimPage false
          assert (spare.w0 = addr)
          modify fun s => { s with data := s.data.noteMeta isHot reclaimPage spare.w0 spare.w1 }
          pure ret
        else pure ret
      if ret = .success then
        modify fun s => { s with rootTable := { s.rootTable with
          reclaimJournal := pmNodeSetBlockPage reclaimBlock (reclaimPage + 1) } }
        pure (ret, reclaimPage + 1)
      else pure (ret, reclaimPage)
    else pure (ret, reclaimPage)
  else pure (ret, reclaimPage)

def dataReclaimPages (isHot : Bool) (dirtyBlock reclaimBlock : Nat) (pagesBuffer : Buffer) :
    List Nat → Status → Nat → Ftl (Status × Nat)
  | [], ret, reclaimPage => pure (ret, reclaimPage)
  | page :: pages, ret, reclaimPage => do
      let (ret, reclaimPage) ←
        dataReclaimPage isHot dirtyBlock reclaimBlock pagesBuffer page ret reclaimPage
      dataReclaimPages isHot dirtyBlock reclaimBlock pagesBuffer pages ret reclaimPage

/-- `DATA_Reclaim` -/
def dataReclaim (isHot : Bool) : Ftl Status := do
  -- flush and release all write buffers
  let _ ← ubiFlush
  let s ← get
  match dataVictim s isHot with
  | none => Program.stop .endless
  | some dirtyBlock =>
      let totalValidPage := maxDirtyPages - s.blockDirtyTable dirtyBlock
      let ret ←
        if totalValidPage ≠ 0 then do
          -- copy valid pages in the dirty block to the reclaim block
          let reclaimBlock := pmNodeBlock s.rootTable.reclaimJournal
          let r ← ubiRead dirtyBlock (pagePerPhyBlock - 1)
          let (ret, totalReclaimedPage) ←
            if r.status = .success then
              dataReclaimPages isHot dirtyBlock reclaimBlock (r.data.getD .zeros)
                (List.range (pagePerPhyBlock - 1)) .success 0
            else pure (r.status, 0)
          assert (totalValidPage = totalReclaimedPage)
          -- reclaim ==> journal, dirty ==> reclaim
          let ret ← if ret = .success then ubiErase dirtyBlock else pure ret
          if ret = .success then
            modify fun s =>
              let journal := s.rootTable.reclaimJournal
              { s with
                rootTable := { s.rootTable.setJournal isHot journal with
                  reclaimJournal := pmNodeSetBlockPage dirtyBlock 0 }
                blockDirtyTable :=
                  (s.blockDirtyTable.set dirtyBlock 0).set (pmNodeBlock journal) 0 }
          pure ret
        else do
          -- nothing to copy: dirty ==> journal, reclaim unchanged
          let ret ← ubiErase dirtyBlock
          if ret = .success then
            modify fun s => { s with
              rootTable := s.rootTable.setJournal isHot (pmNodeSetBlockPage dirtyBlock 0)
              blockDirtyTable := s.blockDirtyTable.set dirtyBlock 0 }
          pure ret
      if ret = .success then
        modify fun s => { s with data := s.data.setEdition isHot totalValidPage }
      pure ret

/-! ## Replay -/

/-- The loop of `DATA_Replay` from edition `edition` on; it is cut off, as a loop
that never ends, after `fuel` rounds. -/
def dataReplayLoop (isHot : Bool) : Nat → Nat → Ftl Unit
  | 0, _ => Program.stop .endless
  | fuel + 1, edition =>
      if edition = maxUint32 then pure ()
      else do
        let s ← get
        let journal := s.rootTable.journal isHot
        let block := pmNodeBlock journal
        let page := pmNodePage journal
        let r ← ubiRead block page
        let spare := r.spare.getD default
        if r.status = .success ∧ spare.w1 ≠ edition then
          -- replay pages in the edition order
          dataReplayLoop isHot fuel edition
        else do
          let ret ←
            if r.status = .success then pmtUpdate spare.w0 block page false
            else pure r.status
          if ret = .success then
            modify fun s => { s with
              rootTable := s.rootTable.setJournal isHot (pmNodeSetBlockPage block (page + 1)) }
            dataReplayLoop isHot fuel (edition + 1)
          else
            -- an empty page ends the replay: restore the edition
            modify fun s => { s with data := s.data.setEdition isHot edition }
            dataReplayLoop isHot fuel maxUint32

/-- The loop of `DATA_Replay` that builds up the meta table from page `page` on. -/
def dataReplayMeta (isHot : Bool) (block : Nat) : Nat → Nat → Ftl Status
  | 0, _ => pure .success
  | n + 1, page => do
      let r ← ubiRead block page
      match r.spare with
      | some spare => do
          modify fun s => { s with data := s.data.noteMeta isHot page spare.w0 spare.w1 }
          dataReplayMeta isHot block n (page + 1)
      | none =>
          if page = pagePerPhyBlock - 1 then do
            let s ← get
            -- write meta data to the last page
            ubiWrite block (pagePerPhyBlock - 1) (.ofSpares (s.data.metaTable isHot)) .null
          else pure .success

/-- `DATA_Replay` -/
def dataReplay (fuel : Nat) (isHot : Bool) : Ftl Status := do
  dataReplayLoop isHot fuel 0
  let s ← get
  dataReplayMeta isHot (pmNodeBlock (s.rootTable.journal isHot)) pagePerPhyBlock 0

end RansomTag

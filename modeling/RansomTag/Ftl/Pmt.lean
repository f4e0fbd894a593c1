import RansomTag.Ftl.Tables
import RansomTag.Ftl.Victim

/-!
# Page mapping table

`ftl_pmt.c`, and `DATA_Commit` of `ftl_data.c`, which `PMT_Load` calls when the
cache is full.  The root table points to one cluster of mapping words for each
1024 logical pages: to a page of the mapping blocks, or to one of four cache
slots in RAM.
-/

namespace RansomTag

variable [Platform]

/-- `PMT_CURRENT_BLOCK` -/
def Root.pmtBlock (r : Root) : Nat := pmNodeBlock r.pmtCurrentBlock
/-- `PMT_CURRENT_PAGE` -/
def Root.pmtPage (r : Root) : Nat := pmNodePage r.pmtCurrentBlock

/-- The word of a logical page in a page of mapping words. -/
def Buffer.node (d : Buffer) (k : Nat) : Nat := d.word k

/-- `PMT_Init` -/
def pmtInit : Ftl Status := do
  modify fun s => { s with pmt := { s.pmt with
    nodeCaches := .const (.const 0)
    cacheOrigin := .const invalidPmNode
    cacheCluster := .const invalidCluster } }
  pure .success

/-! ## Reclaiming a mapping block -/

/-- The search of `pmt_reclaim_blocks`.  The next target is not reset between
two passes, so that a second pass without a block is repeated for ever.
`UBI_ReadStatus` finds every die idle. -/
def pmtVictim (dirty : Ram Nat) : Option Nat :=
  let blocks := List.range' pmtStartBlock pmtBlockCount
  match victimPass dirty (fun _ => false) maxDirtyPages blocks 0 with
  | (some i, _) => some i
  | (none, next) => (victimPass dirty (fun _ => false) next blocks next).1

/-- The slot that caches a cluster. -/
def cachedSlot (pmt : PmtRam) (cluster : Nat) : Nat → Nat → Nat
  | 0, i => i
  | n + 1, i => if pmt.cacheCluster i = cluster then i else cachedSlot pmt cluster n (i + 1)

/-- Copy one page of the dirty block when it is still the valid copy of its
cluster.  Returns the status and the next page of the reclaim block. -/
def pmtReclaimPage (dirtyBlock reclaimBlock : Nat) (clusters : Buffer) (page : Nat)
    (ret : Status) (reclaimPage : Nat) : Ftl (Status × Nat) := do
  let s ← get
  let cluster := clusters.node page
  let pmNode := s.rootTable.pageMappingNodes cluster
  let (pmNode, cleared) ←
    if pmNodeIsCached pmNode then
      if pmNodeIsDirty pmNode then
        -- a dirty page will be written again by the commit
        pure (invalidPmNode, invalidIndex)
      else do
        let i := cachedSlot s.pmt cluster pmtCacheCount 0
        assert (i ≠ pmtCacheCount)
        pure (s.pmt.cacheOrigin i, i)
    else pure (pmNode, invalidIndex)
  if pmNode ≠ invalidPmNode ∧ pmNodeBlock pmNode = dirtyBlock ∧ pmNodePage pmNode = page then
    let r ← ubiRead dirtyBlock page
    let ret ←
      if r.status = .success then
        ubiWrite reclaimBlock reclaimPage (r.data.getD .zeros) .null
      else pure r.status
    if ret = .success then
      let node := pmNodeSetBlockPage reclaimBlock reclaimPage
      modify fun s => { s with
        rootTable := { s.rootTable with
          pageMappingNodes := s.rootTable.pageMappingNodes.set cluster node }
        pmt := { s.pmt with metaData := s.pmt.metaData.set reclaimPage cluster } }
      if cleared ≠ invalidIndex then
        modify fun s => { s with pmt := { s.pmt with
          nodeCaches := s.pmt.nodeCaches.set cleared (.const 0)
          cacheOrigin := s.pmt.cacheOrigin.set cleared invalidPmNode
          cacheCluster := s.pmt.cacheCluster.set cleared invalidCluster } }
      pure (ret, reclaimPage + 1)
    else pure (ret, reclaimPage)
  else pure (ret, reclaimPage)

def pmtReclaimPages (dirtyBlock reclaimBlock : Nat) (clusters : Buffer) :
    List Nat → Status → Nat → Ftl (Status × Nat)
  | [], ret, reclaimPage => pure (ret, reclaimPage)
  | page :: pages, ret, reclaimPage => do
      let (ret, reclaimPage) ←
        pmtReclaimPage dirtyBlock reclaimBlock clusters page ret reclaimPage
      pmtReclaimPages dirtyBlock reclaimBlock clusters pages ret reclaimPage

/-- `pmt_reclaim_blocks` -/
def pmtReclaimBlocks : Ftl Status := do
  let s ← get
  match pmtVictim s.blockDirtyTable with
  | none => Program.stop .endless
  | some i =>
      if maxDirtyPages - s.blockDirtyTable i ≠ 0 then
        let reclaimBlock := pmNodeBlock s.rootTable.pmtReclaimBlock
        let r ← ubiRead i (pagePerPhyBlock - 1)
        let (ret, reclaimPage) ←
          if r.status = .success then
            pmtReclaimPages i reclaimBlock (r.data.getD .zeros)
              (List.range (pagePerPhyBlock - 1)) .success 0
          else pure (r.status, 0)
        let ret ← if ret = .success then ubiErase i else pure ret
        if ret = .success then
          modify fun s => { s with
            rootTable := { s.rootTable with
              pmtCurrentBlock := pmNodeSetBlockPage reclaimBlock reclaimPage
              pmtReclaimBlock := pmNodeSetBlockPage i 0 }
            blockDirtyTable := (s.blockDirtyTable.set reclaimBlock 0).set i 0 }
        pure ret
      else
        let ret ← ubiErase i
        if ret = .success then
          modify fun s => { s with
            rootTable := { s.rootTable with pmtCurrentBlock := pmNodeSetBlockPage i 0 }
            blockDirtyTable := s.blockDirtyTable.set i 0 }
        pure ret

/-! ## Commit -/

/-- The first half of `PMT_Commit` for a dirty slot: append the node to the
current block. -/
def pmtAppendNode (i : Nat) (ret : Status) : Ftl Status := do
  let s ← get
  let cluster := s.pmt.cacheCluster i
  -- check empty page space
  if s.rootTable.pmtPage ≠ pagePerPhyBlock then do
    -- the last page is reserved
    assert (s.rootTable.pmtPage ≠ pagePerPhyBlock - 1)
    let ret ←
      if ret = .success then do
        let ret ← ubiWrite s.rootTable.pmtBlock s.rootTable.pmtPage
          (.words (s.pmt.nodeCaches i)) (.footprint cluster)
        if ret = .success then
          modify fun s => { s with pmt := { s.pmt with
            metaData := s.pmt.metaData.set s.rootTable.pmtPage cluster } }
        pure ret
      else pure ret
    if ret = .success then
      let oldPmBlock := pmNodeBlock (s.pmt.cacheOrigin i)
      modify fun s => { s with
        rootTable := { s.rootTable with
          pageMappingNodes := s.rootTable.pageMappingNodes.set cluster
            (pmNodeSetBlockPage s.rootTable.pmtBlock s.rootTable.pmtPage)
          pmtCurrentBlock :=
            pmNodeSetBlockPage s.rootTable.pmtBlock (s.rootTable.pmtPage + 1) }
        blockDirtyTable := s.blockDirtyTable.set oldPmBlock
          ((s.blockDirtyTable oldPmBlock + 1) % 256) }
      let s ← get
      assert (s.blockDirtyTable oldPmBlock ≤ maxDirtyPages)
    pure ret
  else pure ret

/-- The second half: close and replace the current block when its last data page
is written. -/
def pmtCloseBlock (ret : Status) : Ftl Status := do
  let s ← get
  if s.rootTable.pmtPage = pagePerPhyBlock - 1 then
    let ret ←
      if ret = .success then
        ubiWrite s.rootTable.pmtBlock s.rootTable.pmtPage (.words s.pmt.metaData) .null
      else pure ret
    let ret ← if ret = .success then ubiFlush else pure ret
    if ret = .success then pmtReclaimBlocks else pure ret
  else pure ret

def pmtCommitDirty (i : Nat) (ret : Status) : Ftl Status := do
  let ret ← pmtAppendNode i ret
  pmtCloseBlock ret

/-- One round of the loop of `PMT_Commit`. -/
def pmtCommitSlot (i : Nat) (ret : Status) : Ftl Status := do
  let s ← get
  let cluster := s.pmt.cacheCluster i
  if cluster = invalidCluster then pure ret
  else
    let pmNode := s.rootTable.pageMappingNodes cluster
    assert (pmNodeIsCached pmNode = true)
    if pmNodeIsDirty pmNode = false then
      modify fun s => { s with rootTable := { s.rootTable with
        pageMappingNodes :=
          s.rootTable.pageMappingNodes.set cluster (s.pmt.cacheOrigin i) } }
      pure ret
    else pmtCommitDirty i ret

/-- `PMT_Commit` -/
def pmtCommit : Ftl Status := do
  let ret ← pmtCommitSlot 0 .success
  let ret ← pmtCommitSlot 1 ret
  let ret ← pmtCommitSlot 2 ret
  let ret ← pmtCommitSlot 3 ret
  if ret = .success then pmtInit else pure ret

/-- `DATA_Commit` -/
def dataCommit : Ftl Status := do
  let ret ← hdiCommit
  let ret ← if ret = .success then pmtCommit else pure ret
  let ret ← if ret = .success then bdtCommit else pure ret
  let ret ← if ret = .success then rootCommit else pure ret
  if ret = .success then
    modify fun s => { s with data := { s.data with editionHot := 0, editionCold := 0 } }
  pure ret

/-! ## Lookup and update -/

/-- The first empty cache slot. -/
def emptySlot (pmt : PmtRam) : Nat → Nat → Nat
  | 0, i => i
  | n + 1, i => if pmt.cacheOrigin i = invalidPmNode then i else emptySlot pmt n (i + 1)

/-- The second half of `PMT_Load`: read the node into slot `i`. -/
def pmtLoadSlot (i block page cluster : Nat) : Ftl Status := do
  let r ← ubiRead block page
  if r.status = .success then
    modify fun s => { s with
      rootTable := { s.rootTable with
        pageMappingNodes := s.rootTable.pageMappingNodes.set cluster (pmCacheAddr i) }
      pmt := { s.pmt with
        nodeCaches := s.pmt.nodeCaches.set i (.ofFn (r.data.getD .zeros).node)
        cacheOrigin := s.pmt.cacheOrigin.set i (pmNodeSetBlockPage block page)
        cacheCluster := s.pmt.cacheCluster.set i cluster } }
  pure r.status

/-- `PMT_Load` -/
def pmtLoad (block page cluster : Nat) : Ftl Status := do
  let s ← get
  let i := emptySlot s.pmt pmtCacheCount 0
  if i = pmtCacheCount then do
    -- the cache is full: commit to nand, and release all of it
    let ret ← dataCommit
    if ret = .success then
      let s ← get
      let node := s.rootTable.pageMappingNodes cluster
      pmtLoadSlot 0 (pmNodeBlock node) (pmNodePage node) cluster
    else pure ret
  else pmtLoadSlot i block page cluster

/-- Bring the cluster into a cache slot unless it is there. -/
def pmtEnsureCached (cluster : Nat) : Ftl Status := do
  let s ← get
  let node := s.rootTable.pageMappingNodes cluster
  if pmNodeIsCached node = false then
    pmtLoad (pmNodeBlock node) (pmNodePage node) cluster
  else pure .success

/-- The dirty table after one more page of `block` went stale: a retained page
flags its block instead of being counted. -/
def markStale (table : Ram Nat) (block : Nat) (isBackup : Bool) : Ram Nat :=
  if isBackup then table.set block (table block ||| backupFlag)
  else table.set block ((table block + 1) % 256)

/-- `PMT_Update` once the cluster is in the cache. -/
def pmtSetWord (pageAddr block page : Nat) (isBackup : Bool) : Ftl Unit := do
  let cluster := clusterIndex pageAddr
  let s ← get
  let slot := pmCacheSlot (s.rootTable.pageMappingNodes cluster)
  let old := s.pmt.nodeCaches slot (pageInCluster pageAddr)
  if old ≠ invalidPmNode then
    let editBlock := pmNodeBlock old
    modify fun s => { s with
      rootTable := { s.rootTable with backupBlockCount :=
        if isBackup ∧ s.blockDirtyTable editBlock < backupFlag then
          (s.rootTable.backupBlockCount + 1) % 4294967296
        else s.rootTable.backupBlockCount }
      blockDirtyTable := markStale s.blockDirtyTable editBlock isBackup }
  -- no block is a trim
  if block ≠ invalidBlock then assert (page ≠ invalidPage) else assert (page = invalidPage)
  modify fun s =>
    let node := if block ≠ invalidBlock then pmNodeSetBlockPage block page else invalidPmNode
    let cache := (s.pmt.nodeCaches slot).set (pageInCluster pageAddr) node
    let clusterNode := pmNodeSetDirty (s.rootTable.pageMappingNodes cluster)
    { s with
      pmt := { s.pmt with nodeCaches := s.pmt.nodeCaches.set slot cache }
      rootTable := { s.rootTable with
        pageMappingNodes := s.rootTable.pageMappingNodes.set cluster clusterNode } }

/-- `PMT_Update` -/
def pmtUpdate (pageAddr block page : Nat) (isBackup : Bool) : Ftl Status := do
  let ret ← pmtEnsureCached (clusterIndex pageAddr)
  if ret = .success then
    pmtSetWord pageAddr block page isBackup
  pure ret

/-- `PMT_Search`: the status, and the location when it was stored. -/
def pmtSearch (pageAddr : Nat) : Ftl (Status × Option (Nat × Nat)) := do
  let cluster := clusterIndex pageAddr
  let ret ← pmtEnsureCached cluster
  if ret = .success then
    let s ← get
    assert (s.rootTable.pageMappingNodes cluster ≠ invalidPmNode)
    assert (pmNodeAddress (s.rootTable.pageMappingNodes cluster) ≠ 0)
    let slot := pmCacheSlot (s.rootTable.pageMappingNodes cluster)
    let pmNode := s.pmt.nodeCaches slot (pageInCluster pageAddr)
    if pmNode ≠ invalidPmNode then
      pure (ret, some (pmNodeBlock pmNode, pmNodePage pmNode))
    else pure (ret, some (invalidBlock, invalidPage))
  else pure (ret, none)

/-! ## Format -/

/-- The loop of `PMT_Format` over the clusters `i`, `i + 1`, …: the status, and
the next page of the mapping blocks. -/
def pmtFormatClusters : Nat → Nat → Status → Nat → Nat → Ftl (Status × Nat × Nat)
  | 0, _, ret, pmtBlock, pmtPage => pure (ret, pmtBlock, pmtPage)
  | n + 1, i, ret, pmtBlock, pmtPage => do
      let ret ←
        if ret = .success then
          ubiWrite pmtBlock pmtPage (.words (.const invalidPmNode)) (.footprint i)
        else pure ret
      if ret = .success then
        modify fun s => { s with
          pmt := { s.pmt with metaData := s.pmt.metaData.set pmtPage i }
          rootTable := { s.rootTable with pageMappingNodes :=
            s.rootTable.pageMappingNodes.set i (pmNodeSetBlockPage pmtBlock pmtPage) } }
        if pmtPage + 1 = pagePerPhyBlock - 1 then
          -- the last page is reserved for meta data
          let s ← get
          let ret ← ubiWrite pmtBlock (pmtPage + 1) (.words s.pmt.metaData) .null
          modify fun s => { s with blockDirtyTable := s.blockDirtyTable.set pmtBlock 0 }
          pmtFormatClusters n (i + 1) ret (pmtBlock + 1) 0
        else pmtFormatClusters n (i + 1) ret pmtBlock (pmtPage + 1)
      else pmtFormatClusters n (i + 1) ret pmtBlock pmtPage

/-- `MAX_PM_CLUSTERS`: the root page less its ten leading words. -/
@[simp, reducible] def maxPmClusters : Nat := 1014

/-- `PMT_Format` -/
def pmtFormat : Ftl Status := do
  assert (pmtClusterCount < maxPmClusters)
  let (ret, pmtBlock, pmtPage) ←
    pmtFormatClusters pmtClusterCount 0 .success pmtStartBlock 0
  if ret = .success then
    modify fun s => { s with
      rootTable := { s.rootTable with
        pmtCurrentBlock := pmNodeSetBlockPage pmtBlock pmtPage
        pmtReclaimBlock := pmNodeSetBlockPage (pmtBlock + 1) 0 }
      blockDirtyTable := (s.blockDirtyTable.set pmtBlock 0).set (pmtBlock + 1) 0 }
  pure ret

end RansomTag

import RansomTag.Ftl.Data

/-!
# Interface of the translation layer

`ftl_api.c`: format, mount, read, write, trim and flush.
-/

namespace RansomTag

variable [Platform]

/-- `FTL_Format` -/
def ftlFormat : Ftl Status := do
  let ret ← ubiFormat
  let ret ← if ret = .success then ubiInit else pure ret
  let ret ← if ret = .success then dataFormat else pure ret
  let ret ← if ret = .success then hdiFormat else pure ret
  let ret ← if ret = .success then pmtFormat else pure ret
  let ret ← if ret = .success then bdtFormat else pure ret
  if ret = .success then rootFormat else pure ret

/-- The check of `FTL_Init` whether a stream's journal is full. -/
def ftlInitReclaim (isHot : Bool) : Ftl Status := do
  let s ← get
  if dataIsFull s.rootTable isHot then
    let ret ← dataReclaim isHot
    if ret = .success then dataCommit else pure ret
  else pure .success

/-- `FTL_Init`; `fuel` bounds the rounds of each replay loop. -/
def ftlInit (fuel : Nat) : Ftl Status := do
  let ret ← ubiInit
  let ret ← if ret = .success then rootInit else pure ret
  let ret ← if ret = .success then bdtInit else pure ret
  let ret ← if ret = .success then pmtInit else pure ret
  let ret ← if ret = .success then hdiInit else pure ret
  let ret ← if ret = .success then dataReplay fuel true else pure ret
  let ret ← if ret = .success then dataReplay fuel false else pure ret
  if ret = .success then do
    -- a reclaim that lost power starts again and rewrites the same pages
    let ret ← ftlInitReclaim true
    let s ← get
    if dataIsFull s.rootTable false then ftlInitReclaim false else pure ret
  else pure ret

/-- `FTL_Write` after the hot-data check. -/
def ftlWriteStream (addr : Nat) (buffer : Option Buffer) (isHot flag mft : Bool) :
    Ftl Status := do
  let ret ← dataWrite addr buffer isHot flag mft
  if ret = .success then
    let s ← get
    if dataIsFull s.rootTable isHot then
      let ret ← dataReclaim isHot
      if ret = .success then dataCommit else pure ret
    else pure ret
  else pure ret

/-- `FTL_Write` -/
def ftlWrite (addr : Nat) (buffer : Option Buffer) (flag mft : Bool) : Ftl Status := do
  let isHot ← hdiIsHotPage addr
  ftlWriteStream addr buffer isHot flag mft

/-- The loop of `FTL_Trim` over `n` pages from `addr` on. -/
def ftlTrimFrom : Nat → Nat → Ftl Status
  | 0, _ => pure .success
  | n + 1, addr => do
      let ret ← ftlWrite addr none false false
      if ret = .success then ftlTrimFrom n (addr + 1) else pure ret

/-- `FTL_Trim` -/
def ftlTrim (start last : Nat) : Ftl Status := ftlTrimFrom (last + 1 - start) start

/-- `FTL_Flush` -/
def ftlFlush : Ftl Status := do
  let ret ← dataCommit
  if ret = .success then ubiFlush else pure ret

/-! ## Read -/

/-- The spare buffer after a read: a read that fills nothing leaves the local
variable as it is. -/
def spareAfter (r : ReadResult) : Ftl Nat :=
  match r.spare with
  | some spare => pure spare.w2
  | none => unsetLocal

/-- The MFT branch of `FTL_Read` for the page found at `block`, `page`: each
further read of the page goes one version back. -/
def ftlReadMft (addr block page : Nat) : Ftl (Status × Option Buffer) := do
  let s ← get
  -- if accessing consecutive addresses, skip the cursor
  if addr = (s.api.lastAddr + 1) % 4294967296 then
    let r ← ubiRead block page
    pure (r.status, r.data)
  else do
    modify fun s => { s with api := { s.api with lastAddr := addr } }
    if s.api.lastpage ≠ page ∨ s.api.lastblock ≠ block then
      modify fun s => { s with api := { s.api with lastblock := block, lastpage := page } }
      let r ← ubiRead block page
      let link ← spareAfter r
      let older :=
        if link = invalidPmNode ∨ pmNodeBlock link > 2048 then pmNodeSetBlockPage block page
        else link
      modify fun s => { s with api := { s.api with backupmft := older } }
      pure (r.status, r.data)
    else do
      let r ← ubiRead (pmNodeBlock s.api.backupmft) (pmNodePage s.api.backupmft)
      let link ← spareAfter r
      if pmNodeBlock link < 2049 then
        modify fun s => { s with api := { s.api with backupmft := link } }
      pure (r.status, r.data)

/-- The tagged branch of `FTL_Read`: the page that the current one links to. -/
def ftlReadBackup (block page : Nat) (ret : Status) : Ftl (Status × Option Buffer) := do
  let (block, page, ret) ←
    if block ≠ invalidBlock ∧ page ≠ invalidPage then do
      let r ← ubiRead block page
      let oldBlock ← spareAfter r
      if oldBlock ≠ invalidPmNode then
        pure (pmNodeBlock oldBlock, pmNodePage oldBlock, r.status)
      else pure (block, page, r.status)
    else pure (block, page, ret)
  if ret = .success then
    let r ← ubiRead block page
    pure (r.status, r.data)
  else pure (ret, none)

/-- `FTL_Read`: the status, and the buffer when it was filled. -/
def ftlRead (addr : Nat) (flag mft : Bool) : Ftl (Status × Option Buffer) := do
  let (ret, found) ← pmtSearch addr
  let (block, page) ←
    match found with
    | some location => pure location
    | none => do
        let block ← unsetLocal
        let page ← unsetLocal
        pure (block, page)
  if mft = false ∧ flag = false ∧ ret = .success then
    let r ← ubiRead block page
    pure (r.status, r.data)
  else if mft then ftlReadMft addr block page
  else ftlReadBackup block page ret

end RansomTag

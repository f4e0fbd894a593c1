import RansomTag.Library.Ram

/-!
# Configuration and page-mapping words

The compile-time configuration of `cfg.h` and `cmn.h` for `K9WAG08`, and the
32-bit words of `ftl_inc.h` that name either a NAND page or a RAM cache slot.
The configuration has one die, so that every loop over the journals
(`JOURNAL_BLOCK_COUNT`) runs once.
-/

namespace RansomTag

/-! ## Geometry -/

@[simp, reducible] def pagePerPhyBlock : Nat := 64
@[simp, reducible] def mppSize : Nat := 4096
@[simp, reducible] def sectorSize : Nat := 512
@[simp, reducible] def sectorPerMpp : Nat := 8
/-- `PM_PER_NODE`: mapping words in one page. -/
@[simp, reducible] def pmPerNode : Nat := 1024
@[simp, reducible] def cfgLogBlockCount : Nat := 2048

@[simp, reducible] def overProvisionRate : Nat := 3
@[simp, reducible] def pmtCacheCount : Nat := 4
@[simp, reducible] def journalBlockCount : Nat := 1
/-- `THRESHOLD`: flagged blocks from which a mount releases the flags. -/
@[simp, reducible] def threshold : Nat := 1024
/-- `BACKUPFLAG`: the bit that marks a block holding retained data. -/
@[simp, reducible] def backupFlag : Nat := 128
@[simp, reducible] def maxDirtyPages : Nat := 63

@[simp, reducible] def bdtBlock0 : Nat := 0
@[simp, reducible] def rootBlock0 : Nat := 2
@[simp, reducible] def rootBlock1 : Nat := 3
@[simp, reducible] def hdiBlock0 : Nat := 4
@[simp, reducible] def pmtStartBlock : Nat := 6
/-- `((CFG_LOG_BLOCK_COUNT+PM_PER_NODE-1)/PM_PER_NODE) * 5` -/
@[simp, reducible] def pmtBlockCount : Nat := 10
@[simp, reducible] def dataStartBlock : Nat := 16

@[simp, reducible] def maxUint8 : Nat := 255
@[simp, reducible] def maxUint32 : Nat := 4294967295
@[simp, reducible] def invalidBlock : Nat := 4294967295
@[simp, reducible] def invalidPage : Nat := 4294967295
@[simp, reducible] def invalidIndex : Nat := 4294967295
@[simp, reducible] def invalidCluster : Nat := 4294967295
@[simp, reducible] def invalidPmNode : Nat := 4294967295

/-- What is fixed before the firmware runs: the number of logical blocks that
`UBI_Format` found (`anchor_table.total_data_block`), and the link-time address
of `pm_node_caches`, which is not null and aligned to four bytes. -/
class Platform where
  ubiCapacity : Nat
  ubiCapacity_ge : 20 ≤ ubiCapacity
  ubiCapacity_le : ubiCapacity ≤ 1994
  pmNodeCaches : Nat
  pmNodeCaches_ne_null : 4 ≤ pmNodeCaches
  pmNodeCaches_aligned : pmNodeCaches % 4 = 0
  pmNodeCaches_fits : pmNodeCaches + 4 * 4096 < 4294967296

/-- The device without factory bad blocks, its caches in external RAM. -/
@[reducible] def k9wag08 : Platform where
  ubiCapacity := 1994
  ubiCapacity_ge := by decide
  ubiCapacity_le := by decide
  pmNodeCaches := 0x30000000
  pmNodeCaches_ne_null := by decide
  pmNodeCaches_aligned := by decide
  pmNodeCaches_fits := by decide

export Platform (ubiCapacity pmNodeCaches)

section

variable [Platform]

/-- `FTL_Capacity`: the number of logical pages. -/
def ftlCapacity : Nat :=
  let block := ubiCapacity - 3 * journalBlockCount - pmtBlockCount - 6
  let block := block - block / 100 * overProvisionRate
  block * (pagePerPhyBlock - 1)

/-- `ONFM_Capacity`: the number of sectors. -/
def onfmCapacity : Nat := (ftlCapacity - 1) * sectorPerMpp

def pmtClusterCount : Nat := (ftlCapacity + pmPerNode - 1) / pmPerNode

/-- The blocks from `DATA_START_BLOCK` to `DATA_LAST_BLOCK`. -/
def dataBlocks : List Nat :=
  List.range' dataStartBlock (ubiCapacity - dataStartBlock)

end

/-! ## Page-mapping words

Bit 0 is clear for a RAM address and set for a NAND page; bit 1 is the dirty
bit of a RAM address.
-/

def pmNodeIsCached (p : Nat) : Bool := p % 2 == 0
def pmNodeIsDirty (p : Nat) : Bool := p / 2 % 2 != 0
/-- `p & ~0x3` -/
def pmNodeAddress (p : Nat) : Nat := p / 4 * 4
def pmNodeBlock (p : Nat) : Nat := p / 4 / 64
def pmNodePage (p : Nat) : Nat := p / 4 % 64
/-- `p |= 0x2` -/
def pmNodeSetDirty (p : Nat) : Nat := if pmNodeIsDirty p then p else p + 2
/-- `PM_NODE_SET_BLOCKPAGE` in 32-bit arithmetic: a page past the block carries
into the block number. -/
def pmNodeSetBlockPage (block page : Nat) : Nat :=
  ((block * 64 + page) * 4 + 1) % 4294967296

def clusterIndex (pageAddr : Nat) : Nat := pageAddr / 1024
def pageInCluster (pageAddr : Nat) : Nat := pageAddr % 1024

/-- The address of `pm_node_caches[i]`. -/
def pmCacheAddr [Platform] (i : Nat) : Nat := pmNodeCaches + i * 4096
/-- The cache slot that a RAM address of the table points to. -/
def pmCacheSlot [Platform] (p : Nat) : Nat := (pmNodeAddress p - pmNodeCaches) / 4096

section Lemmas

variable {b p : Nat}

theorem pmNodeBlock_set (hb : b < 16777216) (hp : p < 64) :
    pmNodeBlock (pmNodeSetBlockPage b p) = b := by
  unfold pmNodeBlock pmNodeSetBlockPage; omega

theorem pmNodePage_set (hp : p < 64) :
    pmNodePage (pmNodeSetBlockPage b p) = p := by
  unfold pmNodePage pmNodeSetBlockPage; omega

@[simp] theorem pmNodeIsCached_set : pmNodeIsCached (pmNodeSetBlockPage b p) = false := by
  simp only [pmNodeIsCached, pmNodeSetBlockPage, beq_eq_false_iff_ne]; omega

/-- The low bits of a NAND word are `01`, those of `INVALID_PM_NODE` are `11`. -/
theorem pmNodeSetBlockPage_ne_invalid : pmNodeSetBlockPage b p ≠ 4294967295 := by
  unfold pmNodeSetBlockPage; omega

theorem pmNodeSetBlockPage_inj {b' p' : Nat} (hb : b < 16777216) (hp : p < 64)
    (hb' : b' < 16777216) (hp' : p' < 64) :
    pmNodeSetBlockPage b p = pmNodeSetBlockPage b' p' ↔ b = b' ∧ p = p' := by
  unfold pmNodeSetBlockPage; omega

@[simp] theorem pmNodeBlock_invalid : pmNodeBlock 4294967295 = 16777215 := rfl

variable [Platform]

theorem pmNodeIsCached_cacheAddr (i : Nat) : pmNodeIsCached (pmCacheAddr i) = true := by
  have := Platform.pmNodeCaches_aligned
  simp only [pmNodeIsCached, pmCacheAddr, beq_iff_eq]; omega

theorem pmNodeIsDirty_cacheAddr (i : Nat) : pmNodeIsDirty (pmCacheAddr i) = false := by
  have := Platform.pmNodeCaches_aligned
  simp only [pmNodeIsDirty, pmCacheAddr, bne_eq_false_iff_eq]; omega

theorem pmNodeIsCached_cacheAddr_dirty (i : Nat) :
    pmNodeIsCached (pmCacheAddr i + 2) = true := by
  have := Platform.pmNodeCaches_aligned
  simp only [pmNodeIsCached, pmCacheAddr, beq_iff_eq]; omega

theorem pmNodeIsDirty_cacheAddr_dirty (i : Nat) :
    pmNodeIsDirty (pmCacheAddr i + 2) = true := by
  have := Platform.pmNodeCaches_aligned
  simp only [pmNodeIsDirty, pmCacheAddr, bne_iff_ne]; omega

theorem pmCacheSlot_cacheAddr (i : Nat) : pmCacheSlot (pmCacheAddr i) = i := by
  have := Platform.pmNodeCaches_aligned
  unfold pmCacheSlot pmNodeAddress pmCacheAddr; omega

theorem pmCacheSlot_cacheAddr_dirty (i : Nat) : pmCacheSlot (pmCacheAddr i + 2) = i := by
  have := Platform.pmNodeCaches_aligned
  unfold pmCacheSlot pmNodeAddress pmCacheAddr; omega

theorem pmNodeSetDirty_cacheAddr (i : Nat) :
    pmNodeSetDirty (pmCacheAddr i) = pmCacheAddr i + 2 := by
  simp [pmNodeSetDirty, pmNodeIsDirty_cacheAddr]

theorem pmNodeSetDirty_cacheAddr_dirty (i : Nat) :
    pmNodeSetDirty (pmCacheAddr i + 2) = pmCacheAddr i + 2 := by
  simp [pmNodeSetDirty, pmNodeIsDirty_cacheAddr_dirty]

end Lemmas

end RansomTag

import RansomTag.Library.Program
import RansomTag.Ftl.Words
import Mathlib.Tactic.Simps.Basic

/-!
# Flash and firmware state

The flash as the translation layer sees it through `ubi.h`: logical blocks of
64 pages, each page with a spare area.  The RAM state has one record for each
source file, with its static variables under their names.
-/

namespace RansomTag

inductive Status where
  | success
  | failure
  deriving DecidableEq, Repr

/-- Why a call never returns. -/
inductive Stop where
  /-- `ASSERT(exp)` spins when `exp` is false. -/
  | assertion
  /-- A loop whose exit condition can no longer become true. -/
  | endless
  deriving DecidableEq, Repr

/-! ## Pages -/

/-- The four spare words of a page. -/
structure Spare where
  w0 : Nat
  w1 : Nat
  w2 : Nat
  w3 : Nat
  deriving DecidableEq, Repr, Inhabited

/-- The driver stores zeros for a `NULL` spare. -/
def Spare.null : Spare := ⟨0, 0, 0, 0⟩

/-- A spare of which only `spare[0]` is ever read back. -/
def Spare.footprint (w0 : Nat) : Spare := ⟨w0, 0, 0, 0⟩

/-- `spare[k]` -/
def Spare.word (spare : Spare) (k : Nat) : Nat :=
  if k = 0 then spare.w0 else if k = 1 then spare.w1
  else if k = 2 then spare.w2 else spare.w3

/-- The content of a page buffer, as the bytes or the 32-bit words that were
put there. -/
inductive Buffer where
  | bytes (b : Ram Nat)
  | words (w : Ram Nat)

namespace Buffer

def zeros : Buffer := .bytes (.const 0)

def byte : Buffer → Nat → Nat
  | bytes b, i => b i
  | words w, i => w (i / 4) / 256 ^ (i % 4) % 256

def word : Buffer → Nat → Nat
  | bytes b, i =>
      b (4 * i) + 256 * b (4 * i + 1) + 65536 * b (4 * i + 2) + 16777216 * b (4 * i + 3)
  | words w, i => w i

/-- A table of spare areas (`SPARE[]`) as a page. -/
def ofSpares (table : Ram Spare) : Buffer :=
  .words (.ofFn fun i => (table (i / 4)).word (i % 4))

/-- Word 0 of entry `k` of a page read as a table of spare areas. -/
def spareAddr (buffer : Buffer) (k : Nat) : Nat := buffer.word (4 * k)

theorem spareAddr_ofSpares (table : Ram Spare) (k : Nat) :
    (ofSpares table).spareAddr k = (table k).w0 := by
  simp [spareAddr, ofSpares, word, Spare.word]

/-- A buffer after `len` bytes were put at byte `first`. -/
def splice (d : Buffer) (first len : Nat) (bytes : Nat → Nat) : Buffer :=
  .bytes (.ofFn fun i => if first ≤ i ∧ i < first + len then bytes (i - first) else d.byte i)

theorem byte_splice (d : Buffer) (first len : Nat) (bytes : Nat → Nat) (i : Nat) :
    (d.splice first len bytes).byte i =
      if first ≤ i ∧ i < first + len then bytes (i - first) else d.byte i := rfl

def sameContent (d d' : Buffer) : Bool :=
  (List.range mppSize).all fun i => d.byte i == d'.byte i

end Buffer

/-- A page that was programmed twice with different contents is `torn`: the
error correction fails on every read. -/
inductive PageState where
  | erased
  | programmed (data : Buffer) (spare : Spare)
  | torn

namespace PageState

def program (old : PageState) (data : Buffer) (spare : Spare) : PageState :=
  match old with
  | erased => programmed data spare
  | programmed data' spare' =>
      if data.sameContent data' && spare == spare' then programmed data' spare' else torn
  | torn => torn

end PageState

/-! ## Flash -/

inductive NandOp where
  | program (block page : Nat)
  | erase (block : Nat)
  deriving DecidableEq, Repr

/-- The block of an operation. -/
@[simp] def NandOp.block : NandOp → Nat
  | program block _ => block
  | erase block => block

/-- The logical blocks, and the operations so far, the latest first. -/
structure Flash where
  pages : Ram (Ram PageState)
  log : List NandOp

namespace Flash

/-- Every block erased, as `UBI_Format` leaves it. -/
def blank : Flash where
  pages := .const (.const .erased)
  log := []

def page (flash : Flash) (block page : Nat) : PageState := flash.pages block page

def program (flash : Flash) (block page : Nat) (data : Buffer) (spare : Spare) : Flash where
  pages := flash.pages.set block
    ((flash.pages block).set page ((flash.pages block page).program data spare))
  log := .program block page :: flash.log

def erase (flash : Flash) (block : Nat) : Flash where
  pages := flash.pages.set block (.const .erased)
  log := .erase block :: flash.log

variable (flash : Flash) (b p b' p' : Nat) (data : Buffer) (spare : Spare)

theorem page_program :
    (flash.program b p data spare).page b' p' =
      if b' = b ∧ p' = p then (flash.page b p).program data spare else flash.page b' p' := by
  unfold page program
  by_cases hb : b' = b <;> by_cases hp : p' = p <;> simp [Ram.set_apply, hb, hp]

theorem page_erase :
    (flash.erase b).page b' p' = if b' = b then .erased else flash.page b' p' := by
  unfold page erase
  by_cases hb : b' = b <;> simp [Ram.set_apply, hb]

end Flash

/-! ## RAM -/

/-- `ROOT`, as it stands in RAM and in a page of the root blocks. -/
structure Root where
  hotJournal : Nat
  coldJournal : Nat
  reclaimJournal : Nat
  pmtCurrentBlock : Nat
  pmtReclaimBlock : Nat
  hdiCurrentJournal : Nat
  bdtCurrentJournal : Nat
  rootCurrentJournal : Nat
  rootEdition : Nat
  backupBlockCount : Nat
  pageMappingNodes : Ram Nat

namespace Root

/-- The ten leading words, then the page-mapping nodes to the end of the page. -/
def toBuffer (r : Root) : Buffer :=
  .words (.ofFn fun i =>
    match i with
    | 0 => r.hotJournal
    | 1 => r.coldJournal
    | 2 => r.reclaimJournal
    | 3 => r.pmtCurrentBlock
    | 4 => r.pmtReclaimBlock
    | 5 => r.hdiCurrentJournal
    | 6 => r.bdtCurrentJournal
    | 7 => r.rootCurrentJournal
    | 8 => r.rootEdition
    | 9 => r.backupBlockCount
    | i + 10 => r.pageMappingNodes i)

def ofBuffer (d : Buffer) : Root where
  hotJournal := d.word 0
  coldJournal := d.word 1
  reclaimJournal := d.word 2
  pmtCurrentBlock := d.word 3
  pmtReclaimBlock := d.word 4
  hdiCurrentJournal := d.word 5
  bdtCurrentJournal := d.word 6
  rootCurrentJournal := d.word 7
  rootEdition := d.word 8
  backupBlockCount := d.word 9
  pageMappingNodes := .ofFn fun i => d.word (i + 10)

/-- The statics of `ftl_root.c` before anything ran. -/
def zero : Root := ofBuffer .zeros

/-- `root_table.hot_journal` or `root_table.cold_journal` -/
def journal (r : Root) (isHot : Bool) : Nat :=
  if isHot then r.hotJournal else r.coldJournal

def setJournal (r : Root) (isHot : Bool) (w : Nat) : Root :=
  if isHot then { r with hotJournal := w } else { r with coldJournal := w }

end Root

/-- Statics of `ftl_bdt.c` besides the table. -/
structure BdtRam where
  currentBlock : Nat
  currentPage : Nat

/-- Statics of `ftl_root.c` besides the table. -/
structure RootRam where
  currentBlock : Nat
  currentPage : Nat
  edition : Nat

/-- Statics of `ftl_hdi.c`; `count` is the static of `HDI_IsHotPage`. -/
structure HdiRam where
  hashTable : Ram Nat
  currentBlock : Nat
  currentPage : Nat
  count : Nat

/-- Statics of `ftl_pmt.c`. -/
structure PmtRam where
  nodeCaches : Ram (Ram Nat)
  cacheOrigin : Ram Nat
  cacheCluster : Ram Nat
  metaData : Ram Nat

/-- Statics of `ftl_data.c`. -/
structure DataRam where
  editionHot : Nat
  editionCold : Nat
  hotMeta : Ram Spare
  coldMeta : Ram Spare

namespace DataRam

def edition (d : DataRam) (isHot : Bool) : Nat :=
  if isHot then d.editionHot else d.editionCold

def setEdition (d : DataRam) (isHot : Bool) (e : Nat) : DataRam :=
  if isHot then { d with editionHot := e } else { d with editionCold := e }

def metaTable (d : DataRam) (isHot : Bool) : Ram Spare :=
  if isHot then d.hotMeta else d.coldMeta

def setMetaTable (d : DataRam) (isHot : Bool) (m : Ram Spare) : DataRam :=
  if isHot then { d with hotMeta := m } else { d with coldMeta := m }

/-- `meta_data[page][0..3]` all set. -/
def setMeta (d : DataRam) (isHot : Bool) (page : Nat) (spare : Spare) : DataRam :=
  d.setMetaTable isHot ((d.metaTable isHot).set page spare)

/-- `meta_data[page][0]` and `[1]` set, the links of the entry left as they are. -/
def noteMeta (d : DataRam) (isHot : Bool) (page addr edition : Nat) : DataRam :=
  d.setMeta isHot page { d.metaTable isHot page with w0 := addr, w1 := edition }

end DataRam

/-- The read cursor, statics of `ftl_api.c`. -/
structure ApiRam where
  lastblock : Nat
  lastpage : Nat
  backupmft : Nat
  lastAddr : Nat

structure FtlState where
  flash : Flash
  /-- The flash before each operation since power-on, the latest first: where
  the power can fail. -/
  past : List Flash
  rootTable : Root
  blockDirtyTable : Ram Nat
  bdt : BdtRam
  root : RootRam
  hdi : HdiRam
  pmt : PmtRam
  data : DataRam
  api : ApiRam
  /-- What the next local variables hold that are read before they are set. -/
  unset : Nat → Nat

/-- One program operation: the power can fail before it. -/
@[simps] def FtlState.program (s : FtlState) (block page : Nat) (data : Buffer)
    (spare : Spare) : FtlState :=
  { s with flash := s.flash.program block page data spare, past := s.flash :: s.past }

/-- One erase operation. -/
@[simps] def FtlState.erase (s : FtlState) (block : Nat) : FtlState :=
  { s with flash := s.flash.erase block, past := s.flash :: s.past }

/-- Power-on: the flash stays, the statics are zero. -/
def FtlState.powerOn (flash : Flash) (unset : Nat → Nat) : FtlState where
  flash := flash
  past := []
  rootTable := .zero
  blockDirtyTable := .const 0
  bdt := ⟨0, 0⟩
  root := ⟨0, 0, 0⟩
  hdi := ⟨.const 0, 0, 0, 0⟩
  pmt := ⟨.const (.const 0), .const 0, .const 0, .const 0⟩
  data := ⟨0, 0, .const default, .const default⟩
  api := ⟨0, 0, 0, 0⟩
  unset := unset

/-- The firmware: it transforms the state and returns, or stops for good. -/
abbrev Ftl (α : Type) := Program FtlState Stop α

/-- `ASSERT(exp)` -/
def assert (p : Prop) [Decidable p] : Ftl Unit :=
  if p then pure () else Program.stop .assertion

/-- The content of a local variable that was not set. -/
def unsetLocal : Ftl Nat := fun s =>
  .ok (s.unset 0 % 4294967296, { s with unset := fun i => s.unset (i + 1) })

end RansomTag

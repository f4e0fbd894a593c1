import RansomTag.Library.Bisection
import RansomTag.Mtd.MultiPlane

/-!
# The last page of a table block

A table of the block layer is written to the next page of its block, and its
footprint marks the page as written.  `TABLE_Read` looks for the last page with a
footprint by bisection.
-/

namespace RansomTag

/-- `(UINT32)(-1)` in the first spare word: no footprint. -/
@[simp, reducible] def emptyFootprint : Nat := 4294967295

/-- What `TABLE_Read` leaves: the page is `*page`. -/
structure TableRead where
  status : Status
  page : Nat
  memory : CallerMemory

section

variable [NandGeometry]

/-- `TABLE_Write`; the words of `footprint` behind the first are not set. -/
def tableWrite (nand : Nat → PlanePage) (block page : Nat) (buffer : Buffer)
    (footprint : Nat → Nat) : Except Stop (Nat → PlanePage) :=
  mtdProgram nand block page buffer (Function.update footprint 0 0)

/-- The tables are written to the pages from `page` on. -/
def tableWrites (block : Nat) :
    Nat → (Nat → PlanePage) → List (Buffer × (Nat → Nat)) → Except Stop (Nat → PlanePage)
  | _, nand, [] => .ok nand
  | page, nand, table :: tables => do
      let nand ← tableWrite nand block page table.1 table.2
      tableWrites block (page + 1) nand tables

/-- The read of the page in the middle: whether the search goes on above it, and the reads
so far with the footprint that it leaves. -/
def probePage (nand : Nat → PlanePage) (report : Nat → Nat → Nat → Nat → Nat → SectorStatus)
    (block : Nat) (bytes : Buffer) (mid : Nat) (s : Nat × (Nat → Nat)) :
    Bool × (Nat × (Nat → Nat)) :=
  let (ret, m) := mtdRead nand (report s.1 mid) block mid false true (.before bytes s.2)
  (ret = .success ∧ m.spare 0 ≠ emptyFootprint, (s.1 + 1, m.spare))

/-- The read behind the search, of the page that it ended at. -/
def readFound (nand : Nat → PlanePage) (report : Nat → Nat → Nat → SectorStatus)
    (block mid : Nat) (buffer : Bool) (bytes : Buffer) (footprint : Nat → Nat) : TableRead :=
  let (ret, m) := mtdRead nand report block mid buffer true (.before bytes footprint)
  let ret := if ret = .success ∧ m.spare 0 = emptyFootprint then .failure else ret
  ⟨ret, if ret ≠ .success then invalidPage else mid, m⟩

/-- `TABLE_Read`; `report` is indexed by the read, the page, the attempt, the plane and the
sector, `footprint` is the local spare buffer before the first read. -/
def tableRead (nand : Nat → PlanePage) (report : Nat → Nat → Nat → Nat → Nat → SectorStatus)
    (block page : Nat) (buffer : Bool) (bytes : Buffer) (footprint : Nat → Nat) :
    Except Stop TableRead :=
  let (first, last) := if page ≠ invalidPage then (page, page) else (0, pagePerPhyBlock)
  let (head, tail, reads, footprint) :=
    Bisection.bisect (probePage nand report block bytes) first last (0, footprint)
  if tail = head ∨ tail = head + 1 then
    let mid := (head + tail) / 2
    .ok (readFound nand (report reads mid) block mid buffer bytes footprint)
  else .error .assertion

/-! ## One read -/

/-- In one of its attempts the read gets every plane. -/
def ReadSucceeds (report : Nat → Nat → Nat → SectorStatus) : Prop :=
  ∃ a < mtdMaxRetryTimes, planesPassed (report a) planePerDie 0 = planePerDie

instance (report : Nat → Nat → Nat → SectorStatus) : Decidable (ReadSucceeds report) :=
  inferInstanceAs
    (Decidable (∃ a < mtdMaxRetryTimes, planesPassed (report a) planePerDie 0 = planePerDie))

section

variable (report : Nat → Nat → Nat → SectorStatus) (nand : Nat → PlanePage)
  (block page : Nat) (buffer spare : Bool)

theorem readAttempts_status {n a : Nat} {m : CallerMemory} (hn : a + n = mtdMaxRetryTimes)
    (hpos : 0 < n) :
    (readAttempts nand report block page spare n a (destination report buffer a) m).1 =
        .success ↔
      ∃ a', a ≤ a' ∧ a' < mtdMaxRetryTimes ∧
        planesPassed (report a') planePerDie 0 = planePerDie := by
  induction n generalizing a m with
  | zero => cases hpos
  | succ n ih =>
      rw [readAttempts_succ]
      by_cases hall : planesPassed (report a) planePerDie 0 = planePerDie
      · rw [if_pos hall]
        exact ⟨fun _ => ⟨a, le_rfl, by omega, hall⟩, fun _ => rfl⟩
      · rw [if_neg hall]
        have hlater {a' : Nat} (hle : a ≤ a')
            (hall' : planesPassed (report a') planePerDie 0 = planePerDie) : a + 1 ≤ a' := by
          rcases Nat.lt_or_eq_of_le hle with hlt | rfl
          · exact hlt
          · exact absurd hall' hall
        by_cases hretry : a < mtdMaxRetryTimes - 1
        · rw [if_pos hretry, ih (by omega) (by omega)]
          constructor
          · rintro ⟨a', hle, hlt, hall'⟩
            exact ⟨a', by omega, hlt, hall'⟩
          · rintro ⟨a', hle, hlt, hall'⟩
            exact ⟨a', hlater hle hall', hlt, hall'⟩
        · rw [if_neg hretry]
          constructor
          · intro hstatus
            cases hstatus
          · rintro ⟨a', hle, hlt, hall'⟩
            have := hlater hle hall'
            omega

theorem mtdRead_status (m : CallerMemory) :
    (mtdRead nand report block page buffer spare m).1 = .success ↔ ReadSucceeds report := by
  rw [mtdRead_eq, readAttempts_status report nand block page buffer spare
    (Nat.zero_add mtdMaxRetryTimes) (by decide)]
  exact ⟨fun ⟨a, _, h⟩ => ⟨a, h⟩, fun ⟨a, h⟩ => ⟨a, Nat.zero_le a, h⟩⟩

end

/-! ## Pages of a table block -/

/-- The page holds a table with a footprint, and each read of it gets it. -/
structure GoodPage (nand : Nat → PlanePage) (report : Nat → Nat → Nat → Nat → Nat → SectorStatus)
    (block page : Nat) (table : Buffer) (words : Nat → Nat) : Prop where
  holds : HoldsPage nand block page table words
  footprint : words 0 ≠ emptyFootprint
  succeeds : ∀ read, ReadSucceeds (report read page)
  staysInPage : ∀ read, StaysInPage (report read page)

/-- The page is erased or torn: its reads fail, or it has no footprint. -/
def NoTable (nand : Nat → PlanePage) (report : Nat → Nat → Nat → Nat → Nat → SectorStatus)
    (block page : Nat) : Prop :=
  (∀ read, ¬ReadSucceeds (report read page)) ∨
    ∃ data words, HoldsPage nand block page data words ∧ words 0 = emptyFootprint

/-- The good pages of the block are its first `count` ones. -/
structure TableBlock (nand : Nat → PlanePage)
    (report : Nat → Nat → Nat → Nat → Nat → SectorStatus) (block : Nat)
    (tables : Nat → Buffer) (words : Nat → Nat → Nat) (count : Nat) : Prop where
  count_le : count ≤ pagePerPhyBlock
  good : ∀ page < count, GoodPage nand report block page (tables page) (words page)
  noTable : ∀ page, count ≤ page → page < pagePerPhyBlock → NoTable nand report block page

variable {nand : Nat → PlanePage} {report : Nat → Nat → Nat → Nat → Nat → SectorStatus}
  {block page : Nat} {table : Buffer} {words : Nat → Nat}

/-- The spare words do not move with the destination: they are right after any success. -/
theorem spare_mtdRead (h : HoldsPage nand block page table words)
    {report : Nat → Nat → Nat → SectorStatus} {buffer : Bool} {m : CallerMemory}
    (hstatus : (mtdRead nand report block page buffer true m).1 = .success) :
    (mtdRead nand report block page buffer true m).2.spare 0 = words 0 := by
  rw [mtdRead_eq] at hstatus ⊢
  obtain ⟨last, m', -, -, hall, hmem⟩ := readAttempts_success report nand block page true
    (Nat.zero_add mtdMaxRetryTimes) (by decide) (attemptMade_zero report) hstatus
  have hwords : ∀ p < planePerDie, ∀ j < spareWordsInPage,
      (nand (mtdRowAddress block (0 + p) page)).spare j = words j := by
    intro p hp j hj
    rw [Nat.zero_add]
    exact h.spare p hp j hj
  rw [hmem, afterAttempt, spare_readPlanes _ _ _ _ hall hwords 0 (by decide),
    if_neg planePerDie_pos.ne']

theorem GoodPage.read (h : GoodPage nand report block page table words) (read : Nat)
    (buffer : Bool) (m : CallerMemory) :
    (mtdRead nand (report read page) block page buffer true m).1 = .success ∧
      (mtdRead nand (report read page) block page buffer true m).2.spare 0 ≠ emptyFootprint := by
  have hstatus := (mtdRead_status (report read page) nand block page buffer true m).mpr
    (h.succeeds read)
  rw [spare_mtdRead h.holds hstatus]
  exact ⟨hstatus, h.footprint⟩

theorem NoTable.read (h : NoTable nand report block page) (read : Nat) (buffer : Bool)
    (m : CallerMemory) (hstatus : (mtdRead nand (report read page) block page buffer true m).1 =
      .success) :
    (mtdRead nand (report read page) block page buffer true m).2.spare 0 = emptyFootprint := by
  rcases h with hfails | ⟨data, words, hholds, hempty⟩
  · exact absurd ((mtdRead_status _ nand block page buffer true m).mp hstatus) (hfails read)
  · exact (spare_mtdRead hholds hstatus).trans hempty

theorem GoodPage.probe (h : GoodPage nand report block page table words) (bytes : Buffer)
    (s : Nat × (Nat → Nat)) : (probePage nand report block bytes page s).1 = true :=
  decide_eq_true (h.read s.1 false _)

theorem NoTable.probe (h : NoTable nand report block page) (bytes : Buffer)
    (s : Nat × (Nat → Nat)) : (probePage nand report block bytes page s).1 = false :=
  decide_eq_false fun ⟨hstatus, hspare⟩ => hspare (h.read s.1 false _ hstatus)

theorem GoodPage.readFound (h : GoodPage nand report block page table words) (read : Nat)
    (buffer : Bool) (bytes : Buffer) (footprint : Nat → Nat) :
    (readFound nand (report read page) block page buffer bytes footprint).status = .success ∧
      (readFound nand (report read page) block page buffer bytes footprint).page = page ∧
      (buffer → ∀ i < planePerDie * pageSize,
        (readFound nand (report read page) block page buffer bytes footprint).memory.bytes.byte i =
          table.byte i) := by
  obtain ⟨hstatus, hspare⟩ := h.read read buffer (.before bytes footprint)
  have hreads := (mtdRead_readsPage_iff (report read page) h.holds buffer true bytes
    footprint).mpr fun _ => h.staysInPage read
  simp only [RansomTag.readFound, hspare, and_false, if_false, hstatus, ne_eq,
    not_true_eq_false, true_and]
  exact hreads.data hstatus

theorem NoTable.readFound (h : NoTable nand report block page) (read : Nat) (buffer : Bool)
    (bytes : Buffer) (footprint : Nat → Nat) :
    (readFound nand (report read page) block page buffer bytes footprint).status = .failure ∧
      (readFound nand (report read page) block page buffer bytes footprint).page =
        invalidPage := by
  have hno := h.read read buffer (.before bytes footprint)
  have hfailure : (RansomTag.readFound nand (report read page) block page buffer bytes
      footprint).status = .failure := by
    unfold RansomTag.readFound
    cases hstatus : (mtdRead nand (report read page) block page buffer true
        (.before bytes footprint)).1 with
    | success => simp only [hno hstatus, and_self, if_true, hstatus]
    | failure => simp only [hstatus, reduceCtorEq, false_and, if_false]
  exact ⟨hfailure, if_pos (ne_of_eq_of_ne hfailure Status.noConfusion)⟩

/-! ## Written tables -/

theorem mtdRowAddress_ne {block page block' page' plane plane' : Nat}
    (hpage : page < pagePerPhyBlock) (hpage' : page' < pagePerPhyBlock) (hne : page ≠ page') :
    mtdRowAddress block plane page ≠ mtdRowAddress block' plane' page' := by
  unfold mtdRowAddress
  generalize block * planePerDie + plane = row
  generalize block' * planePerDie + plane' = row'
  simp only [pagePerPhyBlock] at *
  omega

theorem programPlane_other {nand' : Nat → PlanePage} {buffer : Buffer} {spare : Nat → Nat}
    {plane row : Nat} (h : programPlane block page buffer spare nand plane = .ok nand')
    (hrow : row ≠ mtdRowAddress block plane page) : nand' row = nand row := by
  unfold programPlane at h
  split_ifs at h
  · cases h
    exact Function.update_of_ne hrow _ nand
  · cases h
    exact Function.update_of_ne hrow _ nand

/-- A program leaves the rows of other pages alone. -/
theorem mtdProgram_other {nand' : Nat → PlanePage} {buffer : Buffer} {spare : Nat → Nat}
    {row : Nat} (h : mtdProgram nand block page buffer spare = .ok nand')
    (hrow : ∀ plane, row ≠ mtdRowAddress block plane page) : nand' row = nand row := by
  unfold mtdProgram at h
  generalize List.range planePerDie = planes at h
  induction planes generalizing nand with
  | nil =>
      cases h
      rfl
  | cons plane planes ih =>
      rw [List.foldlM_cons] at h
      cases hplane : programPlane block page buffer spare nand plane with
      | error stop =>
          rw [hplane] at h
          cases h
      | ok nand₁ =>
          rw [hplane] at h
          rw [ih h, programPlane_other hplane (hrow plane)]

theorem HoldsPage.of_rows {nand' : Nat → PlanePage} (h : HoldsPage nand block page table words)
    (hrows : ∀ plane, nand' (mtdRowAddress block plane page) =
      nand (mtdRowAddress block plane page)) : HoldsPage nand' block page table words := by
  constructor
  · intro plane hplane i hi
    rw [hrows]
    exact h.main plane hplane i hi
  · intro plane hplane j hj
    rw [hrows]
    exact h.spare plane hplane j hj

/-- Later tables go to later pages. -/
theorem tableWrites_other {nand' : Nat → PlanePage} {tables : List (Buffer × (Nat → Nat))}
    {first : Nat} (h : tableWrites block first nand tables = .ok nand') (hpage : page < first)
    (hlen : first + tables.length ≤ pagePerPhyBlock) (plane : Nat) :
    nand' (mtdRowAddress block plane page) = nand (mtdRowAddress block plane page) := by
  induction tables generalizing first nand with
  | nil =>
      cases h
      rfl
  | cons table tables ih =>
      rw [List.length_cons] at hlen
      rw [tableWrites] at h
      cases hwrite : tableWrite nand block first table.1 table.2 with
      | error stop =>
          rw [hwrite] at h
          cases h
      | ok nand₁ =>
          rw [hwrite] at h
          rw [ih h (by omega) (by omega)]
          exact mtdProgram_other hwrite fun plane' =>
            mtdRowAddress_ne (by omega) (by omega) (by omega)

/-- Tables written one after the other stay in their pages, each with its footprint. -/
theorem tableWrites_holds {nand' : Nat → PlanePage} {tables : List (Buffer × (Nat → Nat))}
    {first : Nat} (h : tableWrites block first nand tables = .ok nand')
    (hlen : first + tables.length ≤ pagePerPhyBlock) {i : Nat} {entry : Buffer × (Nat → Nat)}
    (hi : tables[i]? = some entry) :
    HoldsPage nand' block (first + i) entry.1 (Function.update entry.2 0 0) := by
  induction tables generalizing first nand i with
  | nil => cases hi
  | cons table tables ih =>
      rw [List.length_cons] at hlen
      rw [tableWrites] at h
      cases hwrite : tableWrite nand block first table.1 table.2 with
      | error stop =>
          rw [hwrite] at h
          cases h
      | ok nand₁ =>
          rw [hwrite] at h
          cases i with
          | zero =>
              cases hi
              exact (mtdProgram_holds hwrite).of_rows
                (tableWrites_other h (Nat.lt_succ_self first) (by omega))
          | succ i =>
              rw [← Nat.succ_add_eq_add_succ]
              exact ih h (by omega) hi

/-- The footprint that `TABLE_Write` leaves is one. -/
theorem tableWrites_good {nand' : Nat → PlanePage} {tables : List (Buffer × (Nat → Nat))}
    {i : Nat} {entry : Buffer × (Nat → Nat)}
    (h : tableWrites block 0 nand tables = .ok nand') (hlen : tables.length ≤ pagePerPhyBlock)
    (hi : tables[i]? = some entry) (hsucceeds : ∀ read, ReadSucceeds (report read i))
    (hstays : ∀ read, StaysInPage (report read i)) :
    GoodPage nand' report block i entry.1 (Function.update entry.2 0 0) where
  holds := by
    have hholds := tableWrites_holds h (by rwa [Nat.zero_add]) hi
    rwa [Nat.zero_add] at hholds
  footprint := by
    rw [Function.update_self]
    decide
  succeeds := hsucceeds
  staysInPage := hstays

/-! ## The search -/

/-- The search ends at the last good page, and at page 0 if there is none. -/
theorem TableBlock.bisect_eq {tables : Nat → Buffer} {words : Nat → Nat → Nat} {count : Nat}
    (h : TableBlock nand report block tables words count) (bytes : Buffer)
    (s : Nat × (Nat → Nat)) :
    ∃ s', Bisection.bisect (probePage nand report block bytes) 0 pagePerPhyBlock s =
      (count - 1, count - 1 + 1, s') := by
  have hcount := h.count_le
  simp only [pagePerPhyBlock] at hcount ⊢
  refine Bisection.bisect_eq (by decide) (Nat.zero_le _) (by omega) (fun p s _ hlt => ?_) s
  constructor
  · intro hyes
    by_contra hno
    rw [(h.noTable p (by omega) hlt).probe bytes s] at hyes
    cases hyes
  · intro hbelow
    exact (h.good p hbelow).probe bytes s

/-- What `TABLE_Read` leaves once the search ended at `mid`. -/
theorem tableRead_of_bisect {mid reads : Nat} {footprint spare : Nat → Nat} {buffer : Bool}
    {bytes : Buffer}
    (h : Bisection.bisect (probePage nand report block bytes) 0 pagePerPhyBlock (0, footprint) =
      (mid, mid + 1, reads, spare)) :
    tableRead nand report block invalidPage buffer bytes footprint =
      .ok (readFound nand (report reads mid) block mid buffer bytes spare) := by
  have hmid : (mid + (mid + 1)) / 2 = mid := by omega
  unfold tableRead
  rw [if_neg (not_not_intro rfl)]
  simp only [h, or_true, if_true, hmid]

end

section

attribute [local instance] twoPlanes

/-- Block 9 with two tables. -/
def twoTables : Nat → PlanePage :=
  match tableWrites 9 0 (fun _ => ⟨.zeros, fun _ => emptyFootprint⟩)
      [(.zeros, fun _ => 7), (numbered, fun _ => 7)] with
  | .ok nand => nand
  | .error _ => fun _ => ⟨.zeros, fun _ => 0⟩

/-- The third page is torn, and those behind it are erased. -/
def tornThird (_read page _attempt _plane _sector : Nat) : SectorStatus :=
  if page < 2 then .good else if page = 2 then .eccError else .erased

theorem twoTables_block : TableBlock twoTables tornThird 9
    (fun page => if page = 0 then .zeros else numbered)
    (fun _ => Function.update (fun _ => 7) 0 0) 2 where
  count_le := by decide
  good := by
    intro page hpage
    have hwritten : tableWrites 9 0 (fun _ => ⟨.zeros, fun _ => emptyFootprint⟩)
        [(.zeros, fun _ => 7), (numbered, fun _ => 7)] = .ok twoTables := rfl
    have hsucceeds : ∀ page < 2, ReadSucceeds (tornThird 0 page) := by decide
    have hstays : ∀ page < 2, StaysInPage (tornThird 0 page) := by decide
    obtain rfl | rfl : page = 0 ∨ page = 1 := by omega
    · exact tableWrites_good hwritten (by decide) rfl (fun _ => hsucceeds 0 hpage)
        fun _ => hstays 0 hpage
    · exact tableWrites_good hwritten (by decide) rfl (fun _ => hsucceeds 1 hpage)
        fun _ => hstays 1 hpage
  noTable := by
    have hfails : ∀ page < pagePerPhyBlock, 2 ≤ page → ¬ReadSucceeds (tornThird 0 page) := by
      decide
    exact fun page hle hlt => Or.inl fun _ => hfails page hlt hle

end

end RansomTag

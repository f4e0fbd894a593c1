import RansomTag.Usb.Command
import RansomTag.Library.Runs

/-!
# The cluster bitmap of the volume

Writes to the bitmap are compared with the stored one to mark the sectors of
freed clusters, buffer after buffer, and commands are looked up in the marks.
An index outside an array ends the run.  The products in 32 bits do not wrap
inside the arrays and are plain numbers.
-/

namespace RansomTag

@[simp, reducible] def volumeBitmapSize : Nat := 250000
@[simp, reducible] def compareResultSize : Nat := 4096

/-- The bits of `SectorPageBitmap`, `(1 + NN / WORD) * WORD`. -/
def sectorPageLimit : Nat := 16000008

/-- `bitmap`, `SectorPageBitmap` by its bits, and `bitmap_offset`; the comparison
is enabled. -/
structure ClusterMap where
  bitmap : Nat → Byte
  sectorPageBitmap : Nat → Bool
  bitmapOffset : Nat

/-! ## Functions -/

/-- `win_AddToSectorPageMap` -/
def winAddToSectorPageMap (marks : Nat → Bool) (sector : Nat) : Nat → Option (Nat → Bool)
  | 0 => some marks
  | length + 1 =>
      if sector < sectorPageLimit then
        winAddToSectorPageMap (Function.update marks sector true) (sector + 1) length
      else none

/-- The first loop of `win_CheckBitmap` from index `i` on: `CompareResult`, and
the bitmap after it. -/
def compareBytes (offset : Nat) : List Byte → Nat → (Nat → Byte) → Option (List Byte × (Nat → Byte))
  | [], _, bitmap => some ([], bitmap)
  | b :: buffer, i, bitmap =>
      if i < compareResultSize ∧ offset + i < volumeBitmapSize then
        (compareBytes offset buffer (i + 1) (Function.update bitmap (offset + i) b)).map
          fun (result, bitmap') => ((~~~b &&& bitmap (offset + i)) :: result, bitmap')
      else none

/-- The bit of `CompareResult` that the second loop tests. -/
def compareBit (result : List Byte) (j : Nat) : Bool := (result.getD (j / 8) 0).getLsbD (j % 8)

/-- The second loop: the runs for which it calls `win_AddToSectorPageMap`, by
`RunlistStartCluster` and `RunlistLength`. -/
def freedRuns (offset : Nat) (result : List Byte) (length : Nat) : List (Nat × Nat) :=
  (Runs.scan (offset * 8) (compareBit result) (length * 8)).closed

def markRun (marks : Nat → Bool) (run : Nat × Nat) : Option (Nat → Bool) :=
  winAddToSectorPageMap marks (run.1 * 8 + 2048) (run.2 * 8)

/-- `win_CheckBitmap` -/
def winCheckBitmap (s : ClusterMap) (buffer : List Byte) : Option ClusterMap :=
  (compareBytes s.bitmapOffset buffer 0 s.bitmap).bind fun (result, bitmap) =>
    ((freedRuns s.bitmapOffset result buffer.length).foldlM markRun s.sectorPageBitmap).map
      fun marks => { s with bitmap := bitmap, sectorPageBitmap := marks }

/-- A write to the bitmap in `win_ransomtag_storage_handle_sectors`, split into buffers. -/
def winCheckBuffers (s : ClusterMap) (buffers : List (List Byte)) : Option ClusterMap :=
  buffers.foldlM (fun s buffer =>
    (winCheckBitmap s buffer).map fun s =>
      { s with bitmapOffset := s.bitmapOffset + buffer.length }) s

/-- The loop of `win_SearchSectorMap`. -/
def searchSectors (marks : Nat → Bool) (lba : Nat) : Nat → Option Bool
  | 0 => some false
  | length + 1 =>
      if lba < sectorPageLimit then
        if marks lba then some true else searchSectors marks (lba + 1) length
      else none

/-- `win_SearchSectorMap`; the length of the transfer is in bytes. -/
def winSearchSectorMap (s : ClusterMap) (c : Cbw) : Option Bool :=
  searchSectors s.sectorPageBitmap c.lba c.dDataLength

/-! ## Freed clusters -/

/-- A sector with a bit in the map that is set. -/
def ClusterMap.isMarked (s : ClusterMap) (sector : Nat) : Prop :=
  sector < sectorPageLimit ∧ s.sectorPageBitmap sector = true

def clusterBit (bitmap : Nat → Byte) (cluster : Nat) : Bool :=
  (bitmap (cluster / 8)).getLsbD (cluster % 8)

/-- The bitmap with a content written at an offset. -/
def writtenBitmap (bitmap : Nat → Byte) (offset : Nat) (content : List Byte) : Nat → Byte :=
  fun element =>
    if offset ≤ element ∧ element < offset + content.length then content.getD (element - offset) 0
    else bitmap element

/-- The bit of the cluster changes from 1 to 0. -/
def Freed (bitmap : Nat → Byte) (offset : Nat) (content : List Byte) (cluster : Nat) : Prop :=
  clusterBit bitmap cluster = true ∧
    clusterBit (writtenBitmap bitmap offset content) cluster = false

/-- The sector is one of the eight of the cluster. -/
def inCluster (sector cluster : Nat) : Prop :=
  8 * cluster + 2048 ≤ sector ∧ sector < 8 * cluster + 2056

/-- The end of the buffer with the cluster's bit, in clusters. -/
def bufferEnd (offset : Nat) : List (List Byte) → Nat → Nat
  | [], _ => 8 * offset
  | buffer :: buffers, cluster =>
      if cluster < 8 * (offset + buffer.length) then 8 * (offset + buffer.length)
      else bufferEnd (offset + buffer.length) buffers cluster

/-- The clusters from this one to the end of its buffer are all freed. -/
def FreedToEnd (bitmap : Nat → Byte) (offset : Nat) (buffers : List (List Byte)) (cluster : Nat) :
    Prop :=
  ∀ c, cluster ≤ c → c < bufferEnd offset buffers cluster → Freed bitmap offset buffers.flatten c

/-! ## Marks -/

theorem winAddToSectorPageMap_eq (marks : Nat → Bool) (sector length : Nat) :
    winAddToSectorPageMap marks sector length =
      if length = 0 ∨ sector + length ≤ sectorPageLimit then
        some fun i => marks i || decide (sector ≤ i ∧ i < sector + length)
      else none := by
  induction length generalizing marks sector with
  | zero =>
      rw [if_pos (.inl rfl)]
      unfold winAddToSectorPageMap
      congr 1
      funext i
      simp
  | succ length ih =>
      unfold winAddToSectorPageMap
      by_cases hsector : sector < sectorPageLimit
      · rw [if_pos hsector, ih]
        by_cases hend : sector + (length + 1) ≤ sectorPageLimit
        · rw [if_pos (.inr (by omega)), if_pos (.inr hend)]
          congr 1
          funext i
          by_cases hi : i = sector
          · subst hi
            simp
          · rw [Function.update_of_ne hi]
            congr 1
            rw [decide_eq_decide]
            omega
        · have hlength : ¬(length = 0 ∨ sector + 1 + length ≤ sectorPageLimit) := by omega
          rw [if_neg hlength, if_neg (by omega)]
      · rw [if_neg hsector, if_neg (by omega)]

/-- The clusters of some runs. -/
def CoveredBy (runs : List (Nat × Nat)) (cluster : Nat) : Prop :=
  ∃ run ∈ runs, run.1 ≤ cluster ∧ cluster < run.1 + run.2

/-- One run is marked where each of its clusters has its sectors in the map. -/
theorem markRun_some (marks : Nat → Bool) (run : Nat × Nat)
    (hbound : ∀ c, run.1 ≤ c → c < run.1 + run.2 → 8 * c + 2056 ≤ sectorPageLimit) :
    ∃ marks', markRun marks run = some marks' ∧
      ∀ i, marks' i = true ↔
        marks i = true ∨ ∃ c, (run.1 ≤ c ∧ c < run.1 + run.2) ∧ inCluster i c := by
  have hends : run.2 * 8 = 0 ∨ run.1 * 8 + 2048 + run.2 * 8 ≤ sectorPageLimit := by
    by_cases hzero : run.2 = 0
    · exact .inl (by omega)
    · have hlast := hbound (run.1 + run.2 - 1) (by omega) (by omega)
      exact .inr (by omega)
  refine ⟨_, (winAddToSectorPageMap_eq _ _ _).trans (if_pos hends), fun i => ?_⟩
  rw [Bool.or_eq_true, decide_eq_true_eq]
  apply or_congr_right
  unfold inCluster
  constructor
  · intro hi
    exact ⟨(i - 2048) / 8, by omega, by omega⟩
  · rintro ⟨c, hc, hi⟩
    omega

theorem markRun_bound {marks marks' : Nat → Bool} {run : Nat × Nat}
    (h : markRun marks run = some marks') (c : Nat) (hlower : run.1 ≤ c)
    (hupper : c < run.1 + run.2) : 8 * c + 2056 ≤ sectorPageLimit := by
  unfold markRun at h
  rw [winAddToSectorPageMap_eq] at h
  split_ifs at h with hends
  omega

theorem markRuns_some (runs : List (Nat × Nat)) (marks : Nat → Bool)
    (hbound : ∀ c, CoveredBy runs c → 8 * c + 2056 ≤ sectorPageLimit) :
    ∃ marks', runs.foldlM markRun marks = some marks' ∧
      ∀ i, marks' i = true ↔ marks i = true ∨ ∃ c, CoveredBy runs c ∧ inCluster i c := by
  induction runs generalizing marks with
  | nil => exact ⟨marks, rfl, fun i => by simp [CoveredBy]⟩
  | cons run runs ih =>
      rcases markRun_some marks run (fun c hlower hupper =>
        hbound c ⟨run, List.mem_cons_self, hlower, hupper⟩) with ⟨marks₁, hfirst, hmarks₁⟩
      rcases ih marks₁ (fun c hc => hbound c (by
        rcases hc with ⟨run', hmem, hrange⟩
        exact ⟨run', List.mem_cons_of_mem _ hmem, hrange⟩)) with ⟨marks', hrest, hmarks'⟩
      refine ⟨marks', ?_, fun i => ?_⟩
      · rw [List.foldlM_cons, hfirst]
        exact hrest
      · rw [hmarks' i, hmarks₁ i, or_assoc, ← exists_or]
        apply or_congr_right
        apply exists_congr
        intro c
        unfold CoveredBy
        rw [List.exists_mem_cons_iff, or_and_right]

theorem markRuns_bound {runs : List (Nat × Nat)} {marks marks' : Nat → Bool}
    (h : runs.foldlM markRun marks = some marks') (c : Nat) (hc : CoveredBy runs c) :
    8 * c + 2056 ≤ sectorPageLimit := by
  induction runs generalizing marks with
  | nil =>
      rcases hc with ⟨run, hmem, -⟩
      cases hmem
  | cons run runs ih =>
      rw [List.foldlM_cons] at h
      rcases Option.bind_eq_some_iff.mp h with ⟨marks₁, hfirst, hrest⟩
      rcases hc with ⟨run', hmem, hlower, hupper⟩
      rcases List.mem_cons.mp hmem with rfl | hmem
      · exact markRun_bound hfirst c hlower hupper
      · exact ih hrest ⟨run', hmem, hlower, hupper⟩

/-! ## The written bitmap -/

section

variable {bitmap : Nat → Byte} {offset : Nat} {b : Byte} {buffer rest : List Byte}

theorem writtenBitmap_nil : writtenBitmap bitmap offset [] = bitmap := by
  funext element
  exact if_neg fun h => by
    have hempty := h.2
    rw [List.length_nil] at hempty
    omega

theorem writtenBitmap_cons :
    writtenBitmap bitmap offset (b :: buffer) =
      writtenBitmap (Function.update bitmap offset b) (offset + 1) buffer := by
  funext element
  unfold writtenBitmap
  by_cases heq : element = offset
  · subst heq
    rw [if_pos ⟨by omega, by rw [List.length_cons]; omega⟩, if_neg (by omega), Nat.sub_self,
      List.getD_cons_zero, Function.update_self]
  · rw [Function.update_of_ne heq]
    by_cases hin : offset ≤ element ∧ element < offset + (b :: buffer).length
    · have hlength := hin.2
      rw [List.length_cons] at hlength
      have hsub : element - offset = (element - (offset + 1)) + 1 := by omega
      rw [if_pos hin, if_pos ⟨by omega, by omega⟩, hsub, List.getD_cons_succ]
    · rw [if_neg hin, if_neg]
      rw [List.length_cons] at hin
      omega

theorem writtenBitmap_append :
    writtenBitmap bitmap offset (buffer ++ rest) =
      writtenBitmap (writtenBitmap bitmap offset buffer) (offset + buffer.length) rest := by
  induction buffer generalizing bitmap offset with
  | nil => rw [List.nil_append, writtenBitmap_nil, List.length_nil, Nat.add_zero]
  | cons b buffer ih =>
      rw [List.cons_append, writtenBitmap_cons, ih, writtenBitmap_cons, List.length_cons]
      congr 1
      omega

theorem writtenBitmap_outside {element : Nat}
    (h : ¬(offset ≤ element ∧ element < offset + buffer.length)) :
    writtenBitmap bitmap offset buffer element = bitmap element :=
  if_neg h

end

/-! ## One buffer -/

/-- A write inside the arrays of the first loop. -/
def BufferInside (offset : Nat) (buffer : List Byte) : Prop :=
  buffer.length ≤ compareResultSize ∧
    (buffer = [] ∨ offset + buffer.length ≤ volumeBitmapSize)

theorem compareBytes_some {offset : Nat} {buffer : List Byte} {i : Nat} (bitmap : Nat → Byte)
    (h : buffer = [] ∨ i + buffer.length ≤ compareResultSize ∧
      offset + i + buffer.length ≤ volumeBitmapSize) :
    ∃ result, compareBytes offset buffer i bitmap =
        some (result, writtenBitmap bitmap (offset + i) buffer) ∧
      ∀ k < buffer.length,
        result.getD k 0 = ~~~(buffer.getD k 0) &&& bitmap (offset + i + k) := by
  induction buffer generalizing i bitmap with
  | nil =>
      rw [writtenBitmap_nil]
      exact ⟨[], rfl, fun k hk => absurd hk (Nat.not_lt_zero k)⟩
  | cons b buffer ih =>
      rcases h with hempty | ⟨hsmall, hinside⟩
      · cases hempty
      · rw [List.length_cons] at hsmall hinside
        have hnext : buffer = [] ∨ i + 1 + buffer.length ≤ compareResultSize ∧
            offset + (i + 1) + buffer.length ≤ volumeBitmapSize := .inr ⟨by omega, by omega⟩
        rcases ih (Function.update bitmap (offset + i) b) hnext with
          ⟨result, hrest, hresult⟩
        refine ⟨(~~~b &&& bitmap (offset + i)) :: result, ?_, fun k hk => ?_⟩
        · unfold compareBytes
          rw [if_pos ⟨by omega, by omega⟩, hrest, writtenBitmap_cons]
          rfl
        · cases k with
          | zero => rfl
          | succ k =>
              rw [List.length_cons] at hk
              rw [List.getD_cons_succ, List.getD_cons_succ, hresult k (by omega),
                Function.update_of_ne (by omega)]
              congr 2
              omega

theorem compareBytes_inside {offset : Nat} {buffer : List Byte} {i : Nat} {bitmap : Nat → Byte}
    {result : List Byte × (Nat → Byte)} (h : compareBytes offset buffer i bitmap = some result) :
    buffer = [] ∨ i + buffer.length ≤ compareResultSize ∧
      offset + i + buffer.length ≤ volumeBitmapSize := by
  induction buffer generalizing i bitmap result with
  | nil => exact .inl rfl
  | cons b buffer ih =>
      unfold compareBytes at h
      split_ifs at h with hfirst
      rcases Option.map_eq_some_iff.mp h with ⟨rest, hrest, -⟩
      rw [List.length_cons]
      rcases ih hrest with hempty | ⟨hsmall, hinside⟩
      · rw [hempty, List.length_nil]
        exact .inr ⟨by omega, by omega⟩
      · exact .inr ⟨by omega, by omega⟩

/-- A freed cluster of the buffer with one behind it that is not freed. -/
def ClosedIn (bitmap : Nat → Byte) (offset : Nat) (buffer : List Byte) (cluster : Nat) : Prop :=
  Freed bitmap offset buffer cluster ∧
    ∃ c, cluster < c ∧ c < 8 * (offset + buffer.length) ∧ ¬Freed bitmap offset buffer c

/-- A cluster whose bit changes has it in the buffer. -/
theorem Freed.inside {bitmap : Nat → Byte} {offset cluster : Nat} {content : List Byte}
    (h : Freed bitmap offset content cluster) :
    8 * offset ≤ cluster ∧ cluster < 8 * (offset + content.length) := by
  by_contra houtside
  rcases h with ⟨hold, hnew⟩
  unfold clusterBit at hold hnew
  rw [writtenBitmap_outside (by omega), hold] at hnew
  cases hnew

/-- The bit of `CompareResult` says that the cluster is freed. -/
theorem compareBit_iff {bitmap : Nat → Byte} {offset j : Nat} {buffer result : List Byte}
    (hresult : ∀ k < buffer.length,
      result.getD k 0 = ~~~(buffer.getD k 0) &&& bitmap (offset + k))
    (hj : j < buffer.length * 8) :
    compareBit result j = true ↔ Freed bitmap offset buffer (j + offset * 8) := by
  have hbyte : (j + offset * 8) / 8 = offset + j / 8 := by omega
  have hbit : (j + offset * 8) % 8 = j % 8 := by omega
  have hnew : writtenBitmap bitmap offset buffer (offset + j / 8) = buffer.getD (j / 8) 0 := by
    unfold writtenBitmap
    rw [if_pos ⟨by omega, by omega⟩, Nat.add_sub_cancel_left]
  unfold compareBit Freed clusterBit
  rw [hresult (j / 8) (by omega), hbyte, hbit, hnew, BitVec.getLsbD_and, BitVec.getLsbD_not]
  have hlt : j % 8 < 8 := Nat.mod_lt _ (by decide)
  simp [hlt, and_comm]

theorem coveredBy_freedRuns {bitmap : Nat → Byte} {offset : Nat} {buffer result : List Byte}
    (hresult : ∀ k < buffer.length,
      result.getD k 0 = ~~~(buffer.getD k 0) &&& bitmap (offset + k)) (cluster : Nat) :
    CoveredBy (freedRuns offset result buffer.length) cluster ↔
      ClosedIn bitmap offset buffer cluster := by
  refine (Runs.scan_covers_iff _ _ _ _).trans ?_
  constructor
  · rintro ⟨j, rfl, hj, hflag, k, hjk, hk, hgap⟩
    refine ⟨(compareBit_iff hresult hj).mp hflag, k + offset * 8, by omega, by omega, ?_⟩
    rw [← compareBit_iff hresult hk, hgap]
    exact Bool.false_ne_true
  · rintro ⟨hfreed, c, hc, hend, hgap⟩
    have hinside := hfreed.inside
    have hcluster : cluster = (cluster - offset * 8) + offset * 8 := by omega
    have hc' : c = (c - offset * 8) + offset * 8 := by omega
    refine ⟨cluster - offset * 8, hcluster, by omega, ?_, c - offset * 8, by omega, by omega, ?_⟩
    · rw [compareBit_iff hresult (by omega), ← hcluster]
      exact hfreed
    · rw [hc'] at hgap
      rw [← compareBit_iff hresult (by omega)] at hgap
      simpa using hgap

variable {s s' : ClusterMap} {buffer : List Byte}

/-- A buffer inside the arrays is stored, and the closed runs of it are marked. -/
theorem winCheckBitmap_some (hinside : BufferInside s.bitmapOffset buffer)
    (hmap : ∀ c, ClosedIn s.bitmap s.bitmapOffset buffer c → 8 * c + 2056 ≤ sectorPageLimit) :
    ∃ marks, winCheckBitmap s buffer = some
        { s with
          bitmap := writtenBitmap s.bitmap s.bitmapOffset buffer
          sectorPageBitmap := marks } ∧
      ∀ i, marks i = true ↔ s.sectorPageBitmap i = true ∨
        ∃ c, ClosedIn s.bitmap s.bitmapOffset buffer c ∧ inCluster i c := by
  have hloop : buffer = [] ∨ 0 + buffer.length ≤ compareResultSize ∧
      s.bitmapOffset + 0 + buffer.length ≤ volumeBitmapSize :=
    hinside.2.imp_right fun h => ⟨by have := hinside.1; omega, h⟩
  rcases compareBytes_some s.bitmap hloop with ⟨result, hcompare, hresult⟩
  have hcovers : ∀ c, CoveredBy (freedRuns s.bitmapOffset result buffer.length) c ↔
      ClosedIn s.bitmap s.bitmapOffset buffer c := coveredBy_freedRuns hresult
  rcases markRuns_some (freedRuns s.bitmapOffset result buffer.length) s.sectorPageBitmap
    (fun c hc => hmap c ((hcovers c).mp hc)) with ⟨marks, hmark, hmarks⟩
  refine ⟨marks, ?_, fun i => ?_⟩
  · unfold winCheckBitmap
    rw [hcompare, Option.bind_some]
    simp only [hmark]
    rfl
  · rw [hmarks i]
    simp only [hcovers]

theorem winCheckBitmap_inside (h : winCheckBitmap s buffer = some s') :
    BufferInside s.bitmapOffset buffer ∧
    ∀ c, ClosedIn s.bitmap s.bitmapOffset buffer c → 8 * c + 2056 ≤ sectorPageLimit := by
  unfold winCheckBitmap at h
  rcases Option.bind_eq_some_iff.mp h with ⟨pair, hcompare, hmark⟩
  rcases Option.map_eq_some_iff.mp hmark with ⟨marks, hmarks, -⟩
  have hloop := compareBytes_inside hcompare
  rcases compareBytes_some s.bitmap hloop with ⟨result, hcompare', hresult⟩
  rw [hcompare'] at hcompare
  cases hcompare
  refine ⟨⟨?_, hloop.imp_right fun h => h.2⟩, fun c hc => ?_⟩
  · rcases hloop with hempty | ⟨hsmall, -⟩
    · rw [hempty]
      exact Nat.zero_le _
    · omega
  · exact markRuns_bound hmarks c ((coveredBy_freedRuns hresult c).mpr hc)

/-! ## All buffers -/

/-- The clusters of the closed runs of every buffer. -/
def ClosedCluster (bitmap : Nat → Byte) (offset : Nat) (buffers : List (List Byte))
    (cluster : Nat) : Prop :=
  Freed bitmap offset buffers.flatten cluster ∧ ¬FreedToEnd bitmap offset buffers cluster

/-- The buffers fit the array of the comparison, and the write the stored bitmap. -/
structure WriteInside (offset : Nat) (buffers : List (List Byte)) : Prop where
  small : ∀ buffer ∈ buffers, buffer.length ≤ compareResultSize
  stored : buffers.flatten = [] ∨ offset + buffers.flatten.length ≤ volumeBitmapSize

section

variable {bitmap : Nat → Byte} {offset cluster : Nat} {buffer rest : List Byte}
  {buffers : List (List Byte)}

theorem freed_append_left (hleft : cluster < 8 * (offset + buffer.length)) :
    Freed bitmap offset (buffer ++ rest) cluster ↔ Freed bitmap offset buffer cluster := by
  have hrest : ∀ before, writtenBitmap before (offset + buffer.length) rest (cluster / 8) =
      before (cluster / 8) := fun _ => writtenBitmap_outside (by omega)
  unfold Freed clusterBit
  rw [writtenBitmap_append, hrest]

theorem freed_append_right (hright : 8 * (offset + buffer.length) ≤ cluster) :
    Freed bitmap offset (buffer ++ rest) cluster ↔
      Freed (writtenBitmap bitmap offset buffer) (offset + buffer.length) rest cluster := by
  have hold : writtenBitmap bitmap offset buffer (cluster / 8) = bitmap (cluster / 8) :=
    writtenBitmap_outside (by omega)
  unfold Freed clusterBit
  rw [writtenBitmap_append, hold]

/-- A run is closed in the first buffer or in one of the others. -/
theorem closedCluster_cons :
    ClosedCluster bitmap offset (buffer :: buffers) cluster ↔
      ClosedIn bitmap offset buffer cluster ∨
      ClosedCluster (writtenBitmap bitmap offset buffer) (offset + buffer.length) buffers
        cluster := by
  have hend : bufferEnd offset (buffer :: buffers) cluster =
      if cluster < 8 * (offset + buffer.length) then 8 * (offset + buffer.length)
      else bufferEnd (offset + buffer.length) buffers cluster := rfl
  unfold ClosedCluster ClosedIn FreedToEnd
  rw [List.flatten_cons, hend]
  by_cases hleft : cluster < 8 * (offset + buffer.length)
  · have hright : ¬Freed (writtenBitmap bitmap offset buffer) (offset + buffer.length)
        buffers.flatten cluster := fun h => by
      have hinside := h.inside
      omega
    rw [if_pos hleft, freed_append_left hleft]
    constructor
    · rintro ⟨hfreed, hopen⟩
      push Not at hopen
      rcases hopen with ⟨c, hlower, hupper, hgap⟩
      rw [freed_append_left hupper] at hgap
      have hne : cluster ≠ c := by
        rintro rfl
        exact hgap hfreed
      exact .inl ⟨hfreed, c, by omega, hupper, hgap⟩
    · rintro (⟨hfreed, c, hlower, hupper, hgap⟩ | ⟨hfreed, -⟩)
      · refine ⟨hfreed, fun hopen => hgap ?_⟩
        exact (freed_append_left hupper).mp (hopen c hlower.le hupper)
      · exact absurd hfreed hright
  · have hleftFreed : ¬Freed bitmap offset buffer cluster := fun h => hleft h.inside.2
    rw [if_neg hleft, freed_append_right (by omega)]
    constructor
    · rintro ⟨hfreed, hopen⟩
      refine .inr ⟨hfreed, fun hall => hopen fun c hlower hupper => ?_⟩
      exact (freed_append_right (by omega)).mpr (hall c hlower hupper)
    · rintro (⟨hfreed, -⟩ | ⟨hfreed, hopen⟩)
      · exact absurd hfreed hleftFreed
      · refine ⟨hfreed, fun hall => hopen fun c hlower hupper => ?_⟩
        exact (freed_append_right (by omega)).mp (hall c hlower hupper)

theorem writeInside_cons :
    WriteInside offset (buffer :: buffers) ↔
      BufferInside offset buffer ∧ WriteInside (offset + buffer.length) buffers := by
  constructor
  · rintro ⟨hsmall, hstored⟩
    rcases List.forall_mem_cons.mp hsmall with ⟨hfirst, hrest⟩
    rw [List.flatten_cons, List.append_eq_nil_iff, List.length_append] at hstored
    refine ⟨⟨hfirst, ?_⟩, hrest, ?_⟩
    · rcases hstored with ⟨hempty, -⟩ | hinside
      · exact .inl hempty
      · exact .inr (by omega)
    · rcases hstored with ⟨-, hempty⟩ | hinside
      · exact .inl hempty
      · exact .inr (by omega)
  · rintro ⟨⟨hfirst, hstored⟩, hrest, hstored'⟩
    refine ⟨List.forall_mem_cons.mpr ⟨hfirst, hrest⟩, ?_⟩
    rw [List.flatten_cons, List.append_eq_nil_iff, List.length_append]
    rcases hstored' with hempty | hinside
    · rcases hstored with hempty' | hinside
      · exact .inl ⟨hempty', hempty⟩
      · rw [hempty, List.length_nil]
        exact .inr hinside
    · exact .inr (by omega)

end

theorem winCheckBuffers_cons {s : ClusterMap} {buffer : List Byte} {buffers : List (List Byte)} :
    winCheckBuffers s (buffer :: buffers) =
      (winCheckBitmap s buffer).bind fun s' =>
        winCheckBuffers { s' with bitmapOffset := s'.bitmapOffset + buffer.length } buffers := by
  unfold winCheckBuffers
  rw [List.foldlM_cons]
  cases winCheckBitmap s buffer <;> rfl

/-- The calls of one write store its content and mark the closed runs. -/
theorem winCheckBuffers_some {s : ClusterMap} {buffers : List (List Byte)}
    (hinside : WriteInside s.bitmapOffset buffers)
    (hmap : ∀ c, ClosedCluster s.bitmap s.bitmapOffset buffers c →
      8 * c + 2056 ≤ sectorPageLimit) :
    ∃ s', winCheckBuffers s buffers = some s' ∧
      s'.bitmap = writtenBitmap s.bitmap s.bitmapOffset buffers.flatten ∧
      ∀ i, s'.sectorPageBitmap i = true ↔ s.sectorPageBitmap i = true ∨
        ∃ c, ClosedCluster s.bitmap s.bitmapOffset buffers c ∧ inCluster i c := by
  induction buffers generalizing s with
  | nil =>
      refine ⟨s, rfl, writtenBitmap_nil.symm, fun i => ?_⟩
      have hnone : ∀ c, ¬ClosedCluster s.bitmap s.bitmapOffset [] c := fun c hc => by
        have hrange := hc.1.inside
        rw [List.flatten_nil, List.length_nil] at hrange
        omega
      simp [hnone]
  | cons buffer buffers ih =>
      rcases writeInside_cons.mp hinside with ⟨hfirst, hrest⟩
      rcases winCheckBitmap_some hfirst
        (fun c hc => hmap c (closedCluster_cons.mpr (.inl hc))) with ⟨marks, hcheck, hmarks⟩
      rcases ih (s := ⟨writtenBitmap s.bitmap s.bitmapOffset buffer, marks,
          s.bitmapOffset + buffer.length⟩) hrest
        (fun c hc => hmap c (closedCluster_cons.mpr (.inr hc))) with ⟨s', hrun, hbitmap, hmarks'⟩
      refine ⟨s', ?_, ?_, fun i => ?_⟩
      · rw [winCheckBuffers_cons, hcheck]
        exact hrun
      · rw [hbitmap, List.flatten_cons, writtenBitmap_append]
      · rw [hmarks' i]
        simp only [hmarks i, closedCluster_cons, or_and_right, exists_or, or_assoc]

theorem winCheckBuffers_inside {s s' : ClusterMap} {buffers : List (List Byte)}
    (h : winCheckBuffers s buffers = some s') :
    WriteInside s.bitmapOffset buffers ∧
    ∀ c, ClosedCluster s.bitmap s.bitmapOffset buffers c → 8 * c + 2056 ≤ sectorPageLimit := by
  induction buffers generalizing s with
  | nil =>
      refine ⟨⟨fun buffer hmem => absurd hmem List.not_mem_nil, .inl rfl⟩, fun c hc => ?_⟩
      have hrange := hc.1.inside
      rw [List.flatten_nil, List.length_nil] at hrange
      omega
  | cons buffer buffers ih =>
      rw [winCheckBuffers_cons] at h
      rcases Option.bind_eq_some_iff.mp h with ⟨s₁, hcheck, hrest⟩
      rcases winCheckBitmap_inside hcheck with ⟨hfirst, hbound⟩
      rcases winCheckBitmap_some hfirst hbound with ⟨marks, hcheck', -⟩
      rw [hcheck'] at hcheck
      cases hcheck
      rcases ih hrest with ⟨hinside, hbound'⟩
      refine ⟨writeInside_cons.mpr ⟨hfirst, hinside⟩, fun c hc => ?_⟩
      rcases closedCluster_cons.mp hc with hc | hc
      · exact hbound c hc
      · exact hbound' c hc

/-! ## The search -/

theorem searchSectors_true_iff {s : ClusterMap} {lba length : Nat} :
    searchSectors s.sectorPageBitmap lba length = some true ↔
      ∃ i < length, s.isMarked (lba + i) := by
  induction length generalizing lba with
  | zero => simp [searchSectors]
  | succ length ih =>
      unfold searchSectors
      by_cases hlimit : lba < sectorPageLimit
      · rw [if_pos hlimit]
        by_cases hmark : s.sectorPageBitmap lba = true
        · rw [if_pos hmark]
          exact ⟨fun _ => ⟨0, Nat.succ_pos _, hlimit, hmark⟩, fun _ => rfl⟩
        · rw [if_neg hmark, ih]
          constructor
          · rintro ⟨i, hi, hmarked⟩
            refine ⟨i + 1, by omega, ?_⟩
            rw [← Nat.add_assoc, Nat.add_right_comm]
            exact hmarked
          · rintro ⟨i, hi, hmarked⟩
            cases i with
            | zero => exact absurd hmarked.2 hmark
            | succ i =>
                refine ⟨i, by omega, ?_⟩
                rw [Nat.add_right_comm]
                exact hmarked
      · rw [if_neg hlimit]
        constructor
        · intro hnone
          cases hnone
        · rintro ⟨i, -, hi, -⟩
          omega

theorem searchSectors_false_iff {s : ClusterMap} {lba length : Nat} :
    searchSectors s.sectorPageBitmap lba length = some false ↔
      (length = 0 ∨ lba + length ≤ sectorPageLimit) ∧ ∀ i < length, ¬s.isMarked (lba + i) := by
  induction length generalizing lba with
  | zero => simp [searchSectors]
  | succ length ih =>
      unfold searchSectors
      by_cases hlimit : lba < sectorPageLimit
      · rw [if_pos hlimit]
        by_cases hmark : s.sectorPageBitmap lba = true
        · rw [if_pos hmark]
          constructor
          · intro htrue
            cases htrue
          · rintro ⟨-, hnone⟩
            exact absurd ⟨hlimit, hmark⟩ (hnone 0 (Nat.succ_pos _))
        · rw [if_neg hmark, ih]
          constructor
          · rintro ⟨hend, hnone⟩
            refine ⟨.inr (by omega), fun i hi => ?_⟩
            cases i with
            | zero => exact fun hmarked => hmark hmarked.2
            | succ i =>
                have hnext := hnone i (by omega)
                rw [Nat.add_right_comm] at hnext
                exact hnext
          · rintro ⟨hend, hnone⟩
            refine ⟨by omega, fun i hi => ?_⟩
            have hnext := hnone (i + 1) (by omega)
            rw [← Nat.add_assoc, Nat.add_right_comm] at hnext
            exact hnext
      · rw [if_neg hlimit]
        constructor
        · intro hnone
          cases hnone
        · rintro ⟨hend, -⟩
          omega

/-! ## The diff -/

section

variable (s : ClusterMap) (buffers : List (List Byte)) (c : Cbw)

/-- The sector was marked before the write, or belongs to a cluster that it frees. -/
def ClusterMap.markedAfter (sector : Nat) : Prop :=
  s.isMarked sector ∨
    ∃ cluster, Freed s.bitmap s.bitmapOffset buffers.flatten cluster ∧ inCluster sector cluster

/-- The write leaves its bytes in the bitmap and marks the sectors of the clusters that it
frees, and the search for a command after it finds the marked ones. -/
def MarksFreedClusters : Prop :=
  ∃ s', winCheckBuffers s buffers = some s' ∧
    s'.bitmap = writtenBitmap s.bitmap s.bitmapOffset buffers.flatten ∧
    (∀ sector, s'.isMarked sector ↔ s.markedAfter buffers sector) ∧
    ∃ found, winSearchSectorMap s' c = some found ∧
      (found = true ↔ ∃ i < c.dDataLength / mscBlockSize, s'.isMarked (c.lba + i))

/-- The write fits the arrays, a run that is open at the end of its buffer is
marked already, the sectors of the others fit the map, and the search ends where
the transfer does. -/
structure LosesNoRun : Prop where
  inside : WriteInside s.bitmapOffset buffers
  open_ : ∀ cluster, Freed s.bitmap s.bitmapOffset buffers.flatten cluster →
    FreedToEnd s.bitmap s.bitmapOffset buffers cluster →
      ∀ sector, inCluster sector cluster → s.isMarked sector
  closed : ∀ cluster, Freed s.bitmap s.bitmapOffset buffers.flatten cluster →
    ¬FreedToEnd s.bitmap s.bitmapOffset buffers cluster → 8 * cluster + 2056 ≤ sectorPageLimit
  search : (∃ i < c.dDataLength / mscBlockSize, s.markedAfter buffers (c.lba + i)) ∨
    (c.dDataLength = 0 ∨ c.lba + c.dDataLength ≤ sectorPageLimit) ∧
      ∀ i < c.dDataLength, ¬s.markedAfter buffers (c.lba + i)

end

theorem inCluster_unique {sector c c' : Nat} (h : inCluster sector c) (h' : inCluster sector c') :
    c = c' := by
  unfold inCluster at h h'
  omega

/-- The search answers for the transfer where it meets a mark of the transfer, or
none in the bytes that it counts as sectors. -/
theorem winSearchSectorMap_iff {s : ClusterMap} {c : Cbw} :
    (∃ found, winSearchSectorMap s c = some found ∧
      (found = true ↔ ∃ i < c.dDataLength / mscBlockSize, s.isMarked (c.lba + i))) ↔
    (∃ i < c.dDataLength / mscBlockSize, s.isMarked (c.lba + i)) ∨
      (c.dDataLength = 0 ∨ c.lba + c.dDataLength ≤ sectorPageLimit) ∧
        ∀ i < c.dDataLength, ¬s.isMarked (c.lba + i) := by
  have hfewer : c.dDataLength / mscBlockSize ≤ c.dDataLength := Nat.div_le_self _ _
  unfold winSearchSectorMap
  constructor
  · rintro ⟨found, hsearch, hfound⟩
    cases found with
    | true => exact .inl (hfound.mp rfl)
    | false => exact .inr (searchSectors_false_iff.mp hsearch)
  · rintro (⟨i, hi, hmarked⟩ | hnone)
    · exact ⟨true, searchSectors_true_iff.mpr ⟨i, by omega, hmarked⟩,
        fun _ => ⟨i, hi, hmarked⟩, fun _ => rfl⟩
    · refine ⟨false, searchSectors_false_iff.mpr hnone, fun hfalse => ?_, ?_⟩
      · cases hfalse
      · rintro ⟨i, hi, hmarked⟩
        exact absurd hmarked (hnone.2 i (by omega))

/-- The freed clusters are marked, and found, exactly when no run is lost. -/
theorem win_marks_freed_clusters_iff (s : ClusterMap) (buffers : List (List Byte)) (c : Cbw) :
    MarksFreedClusters s buffers c ↔ LosesNoRun s buffers c := by
  constructor
  · rintro ⟨s', hrun, hbitmap, hmarked, hsearch⟩
    rcases winCheckBuffers_inside hrun with ⟨hinside, hbound⟩
    rcases winCheckBuffers_some hinside hbound with ⟨s'', hrun', -, hmarks⟩
    rw [hrun] at hrun'
    cases hrun'
    refine ⟨hinside, fun cluster hfreed hopen sector hsector => ?_,
      fun cluster hfreed hclosed => hbound cluster ⟨hfreed, hclosed⟩, ?_⟩
    · rcases (hmarked sector).mpr (.inr ⟨cluster, hfreed, hsector⟩) with ⟨hlimit, hmark⟩
      rcases (hmarks sector).mp hmark with hold | ⟨cluster', hclosed, hsector'⟩
      · exact ⟨hlimit, hold⟩
      · rw [inCluster_unique hsector hsector'] at hopen
        exact absurd hopen hclosed.2
    · simp only [← hmarked]
      exact winSearchSectorMap_iff.mp hsearch
  · rintro ⟨hinside, hopen, hclosed, hsearch⟩
    rcases winCheckBuffers_some hinside fun cluster h => hclosed cluster h.1 h.2 with
      ⟨s', hrun, hbitmap, hmarks⟩
    have hmarked : ∀ sector, s'.isMarked sector ↔ s.markedAfter buffers sector := by
      intro sector
      unfold ClusterMap.isMarked
      rw [hmarks sector]
      constructor
      · rintro ⟨hlimit, hold | ⟨cluster, hcluster, hsector⟩⟩
        · exact .inl ⟨hlimit, hold⟩
        · exact .inr ⟨cluster, hcluster.1, hsector⟩
      · rintro (⟨hlimit, hold⟩ | ⟨cluster, hfreed, hsector⟩)
        · exact ⟨hlimit, .inl hold⟩
        · by_cases hend : FreedToEnd s.bitmap s.bitmapOffset buffers cluster
          · rcases hopen cluster hfreed hend sector hsector with ⟨hlimit, hold⟩
            exact ⟨hlimit, .inl hold⟩
          · have hbound := hclosed cluster hfreed hend
            exact ⟨by unfold inCluster at hsector; omega, .inr ⟨cluster, ⟨hfreed, hend⟩, hsector⟩⟩
    refine ⟨s', hrun, hbitmap, hmarked, winSearchSectorMap_iff.mpr ?_⟩
    simp only [hmarked]
    exact hsearch

/-! ## A run that reaches the end of its buffer -/

/-- One byte of ones is overwritten with zero: the run of its eight clusters is
open at the end of the buffer, and no sector is marked. -/
theorem win_open_run_lost :
    ¬MarksFreedClusters ⟨fun _ => 0xFF, fun _ => false, 0⟩ [[0]]
      (tenByteCommand scsiWrite10 2048 8) := by
  rintro ⟨s', hrun, -, hmarked, -⟩
  have hstored : winCheckBuffers ⟨fun _ => 0xFF, fun _ => false, 0⟩ [[0]] =
      some ⟨Function.update (fun _ => 0xFF) 0 0, fun _ => false, 1⟩ := rfl
  rw [hstored] at hrun
  cases hrun
  have hfreed : Freed (fun _ => 0xFF) 0 [[0]].flatten 0 := ⟨rfl, rfl⟩
  have hmark := (hmarked 2048).mpr (.inr ⟨0, hfreed, by unfold inCluster; omega⟩)
  exact Bool.false_ne_true hmark.2

end RansomTag

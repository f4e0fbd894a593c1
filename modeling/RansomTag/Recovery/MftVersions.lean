import RansomTag.Library.Pieces
import RansomTag.Library.Slices
import RansomTag.Recovery.NtfsRecords
import Mathlib.Data.List.Forall2

/-!
# Versions of the file table

`read_runlist_mft` reads each cluster of the table several times and puts out the
versions one after another, and `parse_mft` parses the records of all of them.
-/

namespace RansomTag

/-! ## Reading -/

/-- How often each cluster was read. -/
abbrev ReadCounts := Nat → Nat

/-- A disk that answers the reads of a cluster with versions of it. -/
structure VersionedDisk (bpc : Nat) where
  contents : Nat → Nat → List Byte
  length_contents : ∀ cluster j, (contents cluster j).length = bpc
  /-- What a read of some bytes at an offset, not of a cluster, does to the counts. -/
  afterReadat : Nat → Nat → ReadCounts → ReadCounts

section

variable {bpc : Nat} (disk : VersionedDisk bpc)

/-- `readat(f, cluster * bpc, 1 * bpc)`; a seek in front of the disk is refused. -/
def readatCluster (cluster : Int) (counts : ReadCounts) : Option (List Byte × ReadCounts) :=
  if cluster < 0 then none
  else
    let n := cluster.toNat
    some (disk.contents n (counts n), Function.update counts n (counts n + 1))

/-- `clusterlist[i]`, with the reads that fill it. -/
abbrev ReadVersions := Int → ReadCounts → Option (List (List Byte) × ReadCounts)

variable {disk} (readVersions : ReadVersions)

/-- `clusterlist` of a run -/
def readRun : Nat → Int → ReadCounts → Option (List (List (List Byte)) × ReadCounts)
  | 0, _, counts => some ([], counts)
  | rlen + 1, cluster, counts =>
      (readVersions cluster counts).bind fun row =>
        (readRun rlen (cluster + 1) row.2).map fun rows => (row.1 :: rows.1, rows.2)

/-- `runlists` -/
def readRuns : List (Nat × Int) → ReadCounts →
    Option (List (List (List (List Byte)) × Nat) × ReadCounts)
  | [], counts => some ([], counts)
  | (rlen, roff) :: runlist, counts =>
      (readRun readVersions rlen roff counts).bind fun clusterlist =>
        (readRuns runlist clusterlist.2).map fun runlists =>
          ((clusterlist.1, rlen) :: runlists.1, runlists.2)

end

/-- `out`: the entries of version 0, then those of version 1, and so on. -/
def putOut (versions : Nat) (runlists : List (List (List (List Byte)) × Nat)) : List Byte :=
  (List.range versions).flatMap fun c => runlists.flatMap fun r =>
    (List.range r.2).flatMap fun b => (r.1.getD b []).getD c []

namespace Ransomrecover

def versions : Nat := 10

def readVersions {bpc : Nat} (disk : VersionedDisk bpc) : Nat → ReadVersions
  | 0, _, counts => some ([], counts)
  | left + 1, cluster, counts =>
      (readatCluster disk cluster counts).bind fun entry =>
        (readVersions disk left cluster entry.2).map fun row => (entry.1 :: row.1, row.2)

/-- `read_runlist_mft` -/
def readRunlistMft {bpc : Nat} (disk : VersionedDisk bpc) (runlist : List (Nat × Int))
    (counts : ReadCounts) : Option (List Byte × ReadCounts) :=
  (readRuns (readVersions disk versions) runlist counts).map fun r =>
    (putOut versions r.1, r.2)

end Ransomrecover

namespace Scanmft

def versions : Nat := 15

/-- The two kinds of values that are compared: bytes are never equal to a list. -/
inductive PyValue where
  | bytes (bs : List Byte)
  | list (items : List Byte)
  deriving DecidableEq

/-- `clusterlist[i]` from version `j` on; entries behind a stop stay empty. -/
def readVersions {bpc : Nat} (disk : VersionedDisk bpc) (j : Nat) (clustertemp : PyValue) :
    Nat → ReadVersions
  | 0, _, counts => some ([], counts)
  | left + 1, cluster, counts =>
      (readatCluster disk cluster counts).bind fun entry =>
        if j ≠ 0 ∧ PyValue.bytes entry.1 = clustertemp then
          some (entry.1 :: List.replicate left [], entry.2)
        else
          (readVersions disk (j + 1) (.list entry.1) left cluster entry.2).map fun row =>
            (entry.1 :: row.1, row.2)

/-- `read_runlist_mft` -/
def readRunlistMft {bpc : Nat} (disk : VersionedDisk bpc) (runlist : List (Nat × Int))
    (counts : ReadCounts) : Option (List Byte × ReadCounts) :=
  (readRuns (readVersions disk 0 (.list []) versions) runlist
    (disk.afterReadat 3 8 counts)).map fun r =>
      (putOut versions r.1, disk.afterReadat 3 8 r.2)

end Scanmft

/-! ## Parsing -/

/-- `mft[i*1024:(i+1)*1024]` -/
def recordAt (mft : List Byte) (i : Nat) : List Byte := mft.extract (i * 1024) ((i + 1) * 1024)

/-- What `parse_mft` appends for a record. -/
def ParseEntry (chunk : List Byte) (entry : Option (List Attr)) : Prop :=
  if chunk.take 4 = [0x46, 0x49, 0x4C, 0x45] then
    ∃ attrs, entry = some attrs ∧ ParseFile chunk (some attrs)
  else entry = none

/-- `parse_mft` returns this list. -/
def ParseMft (mft : List Byte) (out : List (Option (List Attr))) : Prop :=
  List.Forall₂ (fun i entry => ParseEntry (recordAt mft i) entry)
    (List.range (mft.length / 1024)) out

/-! ## The versions -/

/-- The clusters of a run list. -/
def clustersOf (runlist : List (Nat × Int)) : List Nat :=
  runlist.flatMap fun run => List.range' run.2.toNat run.1

section

variable {bpc : Nat} (disk : VersionedDisk bpc) (versions : Nat)

/-- The `c`-th reads of the clusters, each read `versions` times in turn. -/
def versionOf (counts : ReadCounts) : List Nat → Nat → List Byte
  | [], _ => []
  | cluster :: clusters, c =>
      disk.contents cluster (counts cluster + c) ++
        versionOf (Function.update counts cluster (counts cluster + versions)) clusters c

end

/-- The entries are the parses of the records of the versions. -/
structure ParsesVersions (out : List (Option (List Attr))) (versions records : Nat)
    (version : Nat → List Byte) : Prop where
  length_eq : out.length = versions * records
  entry : ∀ i < versions * records, ∃ entry, out[i]? = some entry ∧
    ParseEntry (recordAt (version (i / records)) (i % records)) entry

/-! ## Rows of versions -/

section

variable {bpc : Nat} {disk : VersionedDisk bpc} {versions : Nat} {counts : ReadCounts}
  {cluster : Nat} {clusters : List Nat} {runlist : List (Nat × Int)}

variable (disk versions) in
/-- The reads of a cluster, from its count on. -/
def rowOf (counts : ReadCounts) (cluster : Nat) : List (List Byte) :=
  (List.range' (counts cluster) versions).map (disk.contents cluster)

variable (versions) in
def countsAfter (counts : ReadCounts) (clusters : List Nat) : ReadCounts :=
  clusters.foldl (fun n cluster => Function.update n cluster (n cluster + versions)) counts

variable (disk versions) in
def rowsOf (counts : ReadCounts) : List Nat → List (List (List Byte))
  | [] => []
  | cluster :: clusters =>
      rowOf disk versions counts cluster ::
        rowsOf (Function.update counts cluster (counts cluster + versions)) clusters

variable (disk versions) in
/-- The row of each cluster is that of its reads. -/
def ReadsRows (readVersions : ReadVersions) : Prop :=
  ∀ (cluster : Nat) (counts : ReadCounts), readVersions cluster counts =
    some (rowOf disk versions counts cluster,
      Function.update counts cluster (counts cluster + versions))

theorem readatCluster_natCast (cluster : Nat) (counts : ReadCounts) :
    readatCluster disk cluster counts = some (disk.contents cluster (counts cluster),
      Function.update counts cluster (counts cluster + 1)) := by
  unfold readatCluster
  rw [if_neg (by omega)]
  rfl

/-- The first read of a row, and the rest of it. -/
theorem rowOf_succ (cluster : Nat) (counts : ReadCounts) :
    rowOf disk (versions + 1) counts cluster = disk.contents cluster (counts cluster) ::
      rowOf disk versions (Function.update counts cluster (counts cluster + 1)) cluster := by
  unfold rowOf
  rw [List.range'_succ, List.map_cons, Function.update_self]

theorem update_succ (cluster : Nat) (counts : ReadCounts) :
    Function.update (Function.update counts cluster (counts cluster + 1)) cluster
        (Function.update counts cluster (counts cluster + 1) cluster + versions) =
      Function.update counts cluster (counts cluster + (versions + 1)) := by
  rw [Function.update_idem, Function.update_self, Nat.add_assoc, Nat.add_comm 1 versions]

variable (disk) in
theorem Ransomrecover.readsRows (versions : Nat) :
    ReadsRows disk versions (Ransomrecover.readVersions disk versions) := by
  intro cluster counts
  induction versions generalizing counts with
  | zero =>
      rw [Nat.add_zero, Function.update_eq_self]
      rfl
  | succ versions ih =>
      rw [Ransomrecover.readVersions, readatCluster_natCast, Option.bind_some, ih,
        Option.map_some, rowOf_succ, update_succ]

variable (disk) in
/-- The comparison is between bytes and a list, so the loop never stops early. -/
theorem Scanmft.readsRows (versions : Nat) (j : Nat) (items : List Byte) :
    ReadsRows disk versions (Scanmft.readVersions disk j (.list items) versions) := by
  intro cluster counts
  induction versions generalizing counts j items with
  | zero =>
      rw [Nat.add_zero, Function.update_eq_self]
      rfl
  | succ versions ih =>
      rw [Scanmft.readVersions, readatCluster_natCast, Option.bind_some, if_neg, ih,
        Option.map_some, rowOf_succ, update_succ]
      rintro ⟨-, hequal⟩
      cases hequal

/-! ## The table -/

theorem rowsOf_append (clusters' : List Nat) (counts : ReadCounts) :
    rowsOf disk versions counts (clusters ++ clusters') =
      rowsOf disk versions counts clusters ++
        rowsOf disk versions (countsAfter versions counts clusters) clusters' := by
  induction clusters generalizing counts with
  | nil => rfl
  | cons cluster clusters ih =>
      rw [List.cons_append, rowsOf, ih]
      rfl

theorem countsAfter_append (clusters' : List Nat) (counts : ReadCounts) :
    countsAfter versions counts (clusters ++ clusters') =
      countsAfter versions (countsAfter versions counts clusters) clusters' :=
  List.foldl_append

theorem length_rowsOf (counts : ReadCounts) :
    (rowsOf disk versions counts clusters).length = clusters.length := by
  induction clusters generalizing counts with
  | nil => rfl
  | cons cluster clusters ih => rw [rowsOf, List.length_cons, List.length_cons, ih]

theorem readRun_eq {readVersions : ReadVersions} (h : ReadsRows disk versions readVersions)
    (rlen cluster : Nat) (counts : ReadCounts) :
    readRun readVersions rlen cluster counts =
      some (rowsOf disk versions counts (List.range' cluster rlen),
        countsAfter versions counts (List.range' cluster rlen)) := by
  induction rlen generalizing cluster counts with
  | zero => rfl
  | succ rlen ih =>
      have hrest := ih (cluster + 1)
        (Function.update counts cluster (counts cluster + versions))
      rw [Nat.cast_succ] at hrest
      rw [readRun, h, Option.bind_some, hrest, Option.map_some, List.range'_succ]
      rfl

/-- The tables of the runs have the rows of all clusters, in the order of the run list. -/
theorem readRuns_eq {readVersions : ReadVersions} (h : ReadsRows disk versions readVersions)
    (hclusters : ∀ run ∈ runlist, 0 ≤ run.2) (counts : ReadCounts) :
    ∃ runlists, readRuns readVersions runlist counts =
        some (runlists, countsAfter versions counts (clustersOf runlist)) ∧
      (∀ r ∈ runlists, r.1.length = r.2) ∧
      runlists.flatMap Prod.fst = rowsOf disk versions counts (clustersOf runlist) := by
  induction runlist generalizing counts with
  | nil => exact ⟨[], rfl, fun r hr => absurd hr List.not_mem_nil, rfl⟩
  | cons run runlist ih =>
      rcases run with ⟨rlen, roff⟩
      rcases List.forall_mem_cons.mp hclusters with ⟨hfirst, hrest⟩
      obtain ⟨cluster, rfl⟩ := Int.eq_ofNat_of_zero_le hfirst
      have hsplit : clustersOf ((rlen, (cluster : Int)) :: runlist) =
          List.range' cluster rlen ++ clustersOf runlist := rfl
      rcases ih hrest (countsAfter versions counts (List.range' cluster rlen)) with
        ⟨runlists, hread, hlengths, hrows⟩
      refine ⟨(rowsOf disk versions counts (List.range' cluster rlen), rlen) :: runlists,
        ?_, ?_, ?_⟩
      · rw [readRuns, readRun_eq h, Option.bind_some, hread, Option.map_some, hsplit,
          countsAfter_append]
      · refine List.forall_mem_cons.mpr ⟨?_, hlengths⟩
        exact (length_rowsOf counts).trans List.length_range'
      · rw [hsplit, rowsOf_append, List.flatMap_cons, hrows]

/-! ## The versions one after another -/

theorem flatMap_getD_range {α β : Type} (xs : List α) (f : α → List β) (d : α) :
    ((List.range xs.length).flatMap fun b => f (xs.getD b d)) = xs.flatMap f := by
  have hrange : (List.range xs.length).map (fun b => xs.getD b d) = xs := by
    refine List.ext_getElem (by simp) fun b hb hb' => ?_
    simp [hb']
  rw [← List.flatMap_map, hrange]

theorem flatMap_rowsOf {c : Nat} (hc : c < versions) (counts : ReadCounts) :
    ((rowsOf disk versions counts clusters).flatMap fun row => row.getD c []) =
      versionOf disk versions counts clusters c := by
  induction clusters generalizing counts with
  | nil => rfl
  | cons cluster clusters ih =>
      have hentry : (rowOf disk versions counts cluster).getD c [] =
          disk.contents cluster (counts cluster + c) := by
        unfold rowOf
        rw [List.getD_eq_getElem?_getD, List.getElem?_map, List.getElem?_range' hc,
          Nat.one_mul]
        rfl
      rw [rowsOf, List.flatMap_cons, hentry, ih]
      rfl

theorem putOut_eq {runlists : List (List (List (List Byte)) × Nat)}
    (hlengths : ∀ r ∈ runlists, r.1.length = r.2)
    (hrows : runlists.flatMap Prod.fst = rowsOf disk versions counts clusters) :
    putOut versions runlists =
      (List.range versions).flatMap (versionOf disk versions counts clusters) := by
  unfold putOut
  refine List.flatMap_congr fun c hc => ?_
  have htable : ∀ r ∈ runlists, ((List.range r.2).flatMap fun b =>
      (r.1.getD b []).getD c []) = r.1.flatMap fun row => row.getD c [] := by
    intro r hr
    rw [← hlengths r hr]
    exact flatMap_getD_range r.1 (fun row => row.getD c []) []
  rw [List.flatMap_congr htable, ← List.flatMap_assoc, hrows,
    flatMap_rowsOf (List.mem_range.mp hc)]

theorem length_versionOf (counts : ReadCounts) (c : Nat) :
    (versionOf disk versions counts clusters c).length = clusters.length * bpc := by
  induction clusters generalizing counts with
  | nil => rw [List.length_nil, Nat.zero_mul]; rfl
  | cons cluster clusters ih =>
      rw [versionOf, List.length_append, disk.length_contents, ih, List.length_cons,
        Nat.succ_mul]
      omega

/-- Where no cluster comes twice, its reads are counted from the start. -/
theorem versionOf_of_nodup (hnodup : clusters.Nodup) (counts : ReadCounts) (c : Nat) :
    versionOf disk versions counts clusters c =
      clusters.flatMap fun cluster => disk.contents cluster (counts cluster + c) := by
  induction clusters generalizing counts with
  | nil => rfl
  | cons cluster clusters ih =>
      rcases List.nodup_cons.mp hnodup with ⟨hnew, hrest⟩
      have hsame : ∀ other ∈ clusters, disk.contents other
          (Function.update counts cluster (counts cluster + versions) other + c) =
            disk.contents other (counts other + c) := by
        intro other hother
        have hne : other ≠ cluster := fun heq => hnew (heq ▸ hother)
        rw [Function.update_of_ne hne]
      rw [versionOf, ih hrest, List.flatMap_cons, List.flatMap_congr hsame]

/-! ## The records of the versions -/

variable {records : Nat}

theorem recordAt_of_version {version : Nat → List Byte}
    (hlength : ∀ c, (version c).length = records * 1024) {c r : Nat} (hc : c < versions)
    (hr : r < records) :
    recordAt ((List.range versions).flatMap version) (c * records + r) =
      recordAt (version c) r := by
  have hwidth : ∀ n, (n + 1) * 1024 - n * 1024 = 1024 := by omega
  refine List.ext_getElem? fun k => ?_
  unfold recordAt
  rw [Slices.getElem?_extract, Slices.getElem?_extract, hwidth, hwidth]
  split_ifs with hk
  · have hindex : (c * records + r) * 1024 + k = c * (records * 1024) + (r * 1024 + k) := by
      rw [Nat.add_mul, Nat.mul_assoc, Nat.add_assoc]
    have hposition : r * 1024 + k < records * 1024 := by omega
    rw [hindex, Pieces.getElem?_flatMap hlength _ _ hposition, List.getElem?_range hc,
      Option.bind_some]
  · rfl

/-- Record `i` is record `i % records` of version `i / records`. -/
theorem recordAt_flatMap {version : Nat → List Byte}
    (hlength : ∀ c, (version c).length = records * 1024) {i : Nat}
    (hi : i < versions * records) :
    recordAt ((List.range versions).flatMap version) i =
      recordAt (version (i / records)) (i % records) := by
  have hrecords : 0 < records := Nat.pos_of_mul_pos_left (Nat.zero_lt_of_lt hi)
  have hversion : i / records < versions := Nat.div_lt_of_lt_mul (by rwa [Nat.mul_comm] at hi)
  have hparts : i / records * records + i % records = i := Nat.div_add_mod' i records
  have hrecord := recordAt_of_version hlength hversion (Nat.mod_lt i hrecords)
  rw [hparts] at hrecord
  exact hrecord

theorem parseMft_iff {version : Nat → List Byte}
    (hlength : ∀ c, (version c).length = records * 1024)
    (out : List (Option (List Attr))) :
    ParseMft ((List.range versions).flatMap version) out ↔
      ParsesVersions out versions records version := by
  have htotal : ((List.range versions).flatMap version).length / 1024 = versions * records := by
    rw [List.length_flatMap]
    simp only [hlength, List.map_const', List.length_range, List.sum_replicate_nat]
    rw [← Nat.mul_assoc, Nat.mul_div_cancel _ (by decide)]
  unfold ParseMft
  rw [htotal, List.forall₂_iff_get]
  constructor
  · rintro ⟨hcount, hentries⟩
    have hcount' : out.length = versions * records := by
      rw [← hcount, List.length_range]
    refine ⟨hcount', fun i hi => ?_⟩
    have hentry := hentries i (by rw [List.length_range]; exact hi) (by omega)
    refine ⟨out[i], List.getElem?_eq_getElem (by omega), ?_⟩
    rw [← recordAt_flatMap hlength hi]
    simpa using hentry
  · rintro ⟨hcount, hentries⟩
    refine ⟨by rw [hcount, List.length_range], fun i hi hi' => ?_⟩
    have hi'' : i < versions * records := by omega
    rcases hentries i hi'' with ⟨entry, hentry, hparse⟩
    rw [← recordAt_flatMap hlength hi''] at hparse
    rw [List.getElem?_eq_getElem hi'] at hentry
    cases hentry
    simpa using hparse

/-- A reader of rows puts out the versions one after another. -/
theorem putOut_readRuns {readVersions : ReadVersions}
    (h : ReadsRows disk versions readVersions) (hclusters : ∀ run ∈ runlist, 0 ≤ run.2)
    (counts : ReadCounts) :
    ∃ r, readRuns readVersions runlist counts = some r ∧
      putOut versions r.1 = (List.range versions).flatMap
        (versionOf disk versions counts (clustersOf runlist)) := by
  rcases readRuns_eq h hclusters counts with ⟨runlists, hread, hlengths, hrows⟩
  exact ⟨_, hread, putOut_eq hlengths hrows⟩

theorem parseMft_versions_iff (hwhole : (clustersOf runlist).length * bpc = records * 1024)
    (counts : ReadCounts) (out : List (Option (List Attr))) :
    ParseMft ((List.range versions).flatMap
        (versionOf disk versions counts (clustersOf runlist))) out ↔
      ParsesVersions out versions records
        (versionOf disk versions counts (clustersOf runlist)) :=
  parseMft_iff (fun c => (length_versionOf counts c).trans hwhole) out

end

/-- A disk whose answers to the reads of a cluster count up, but for two equal ones. -/
def countingDisk : VersionedDisk 1024 where
  contents cluster j := List.replicate 1024 (BitVec.ofNat 8 (cluster + if j = 1 then 0 else j))
  length_contents _ _ := List.length_replicate
  afterReadat _ _ counts := Function.update counts 0 (counts 0 + 1)

end RansomTag

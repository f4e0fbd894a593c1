import RansomTag.Recovery.Ext4Snapshot
import RansomTag.Library.Paths

/-!
# Names of recovered files

`recover_file` writes each version of each file of a snapshot to a file in the working
directory, with a name from the path, the name and the number of the version.  Its
arguments for the path and for the output are not used.
-/

namespace RansomTag

/-- The number of a version comes behind this. -/
def versionTag : List Char := ['_', 'v', 'e', 'r', 's', 'i', 'o', 'n']

/-- `output`: the path and the name are put together without a separator. -/
def outputName (filenameFull : List Char) (nameIdx : Nat) : List Char :=
  let (path, filenameExt) := Paths.split filenameFull
  let (filename, extension) := Paths.splitext filenameExt
  Paths.basename (path ++ filename ++ versionTag ++ Paths.digits nameIdx ++ extension)

/-- A version that is written, by `get_file_from_chunks`. -/
structure RecoveredVersion where
  filenameFull : List Char
  nameIdx : Nat
  output : List Char
  tupItem : FileVersion

/-- `recover_file` -/
def recoverFile (snapshot : Snapshot) : List RecoveredVersion :=
  snapshot.dirs.flatMap fun item =>
    (snapshot.inodes item.2).zipIdx.map fun tup =>
      ⟨item.1.toList, tup.2, outputName item.1.toList tup.2, tup.1⟩

/-- Equal outputs are of one directory path, file name and version. -/
def Snapshot.KeepsOutputs (snapshot : Snapshot) : Prop :=
  ∀ v ∈ recoverFile snapshot, ∀ w ∈ recoverFile snapshot, v.output = w.output →
    Paths.split v.filenameFull = Paths.split w.filenameFull ∧ v.nameIdx = w.nameIdx

/-! ## The parts of a name -/

/-- The last component of the directory path and, at once behind it, the name. -/
def outputFront (filenameFull : List Char) : List Char :=
  Paths.basename (Paths.split filenameFull).1 ++
    (Paths.splitext (Paths.split filenameFull).2).1

def outputExtension (filenameFull : List Char) : List Char :=
  (Paths.splitext (Paths.split filenameFull).2).2

/-- The name of a version of `f`, which has an extension, is that of a version of `g`,
which has none: both contain the number of the other. -/
def Interleave (f : List Char) (m : Nat) (g : List Char) (n : Nat) : Prop :=
  outputExtension g = [] ∧ ∃ ext,
    outputExtension f = '.' :: (ext ++ (versionTag ++ Paths.digits n)) ∧
      outputFront g = outputFront f ++ (versionTag ++ Paths.digits m) ++ '.' :: ext

/-- There is a version with this number of a file with this path. -/
def Snapshot.HasVersion (snapshot : Snapshot) (filenameFull : List Char) (nameIdx : Nat) :
    Prop :=
  ∃ item ∈ snapshot.dirs, item.1.toList = filenameFull ∧
    nameIdx < (snapshot.inodes item.2).length

variable {snapshot : Snapshot} {f g : List Char} {m n : Nat}

theorem outputName_eq (f : List Char) (n : Nat) :
    outputName f n =
      outputFront f ++ (versionTag ++ Paths.digits n) ++ outputExtension f := by
  have hname : '/' ∉ (Paths.splitext (Paths.split f).2).1 ++
      (Paths.splitext (Paths.split f).2).2 := by
    rw [Paths.splitext_append]
    exact Paths.slash_notMem_basename
  rw [List.mem_append, not_or] at hname
  have htag : '/' ∉ versionTag := by decide
  have hdigits : '/' ∉ Paths.digits n := Paths.notMem_digits (by decide) n
  have hback : '/' ∉ (Paths.splitext (Paths.split f).2).1 ++
      (versionTag ++ Paths.digits n ++ (Paths.splitext (Paths.split f).2).2) := by
    simp only [List.mem_append, not_or]
    exact ⟨hname.1, ⟨htag, hdigits⟩, hname.2⟩
  unfold outputName outputFront outputExtension
  dsimp only
  rw [List.append_assoc, List.append_assoc, List.append_assoc, ← List.append_assoc versionTag,
    Paths.basename_append hback]
  simp only [List.append_assoc]

theorem tagged_eq (xs : List Char) (n : Nat) :
    xs ++ (versionTag ++ Paths.digits n) =
      (xs ++ ['_', 'v', 'e', 'r', 's', 'i', 'o']) ++ 'n' :: Paths.digits n := by
  simp [versionTag]

/-- What is in front of the tag and the number of the version can be told apart. -/
theorem tagged_inj {xs ys : List Char}
    (h : xs ++ (versionTag ++ Paths.digits m) = ys ++ (versionTag ++ Paths.digits n)) :
    xs = ys ∧ m = n := by
  rw [tagged_eq, tagged_eq] at h
  rcases Paths.numbered_inj (by decide) (by decide) h with ⟨hfront, hsame⟩
  exact ⟨List.append_cancel_right (List.append_cancel_right hfront), hsame⟩

theorem dot_notMem_tagged : '.' ∉ versionTag ++ Paths.digits n := by
  rw [List.mem_append, not_or]
  exact ⟨by decide, Paths.notMem_digits (by decide) n⟩

theorem ne_dot_of_notMem {cs : List Char} (hcs : '.' ∉ cs) :
    ∀ c ∈ cs, decide (c ≠ '.') = true :=
  fun _ hc => decide_eq_true fun hdot => hcs (hdot ▸ hc)

theorem interleave_of_eq {xs ys ext : List Char} (hext : '.' ∉ ext)
    (h : xs ++ (versionTag ++ Paths.digits m) ++ '.' :: ext =
      ys ++ (versionTag ++ Paths.digits n)) :
    ∃ mid, ext = mid ++ (versionTag ++ Paths.digits n) ∧
      ys = xs ++ (versionTag ++ Paths.digits m) ++ '.' :: mid := by
  -- The extension is what is behind the last dot, also on the right.
  have hsuffix := congrArg (List.rtakeWhile (· ≠ '.')) h
  rw [Paths.rtakeWhile_append_cons (by decide) (ne_dot_of_notMem hext),
    Paths.rtakeWhile_append (ne_dot_of_notMem dot_notMem_tagged)] at hsuffix
  refine ⟨ys.rtakeWhile (· ≠ '.'), hsuffix, ?_⟩
  have hfront : ys ++ (versionTag ++ Paths.digits n) =
      (xs ++ (versionTag ++ Paths.digits m) ++ '.' :: ys.rtakeWhile (· ≠ '.')) ++
        (versionTag ++ Paths.digits n) := by
    rw [← h, List.append_assoc _ ('.' :: _), List.cons_append, ← hsuffix]
  exact List.append_cancel_right hfront

theorem outputExtension_cases (f : List Char) : outputExtension f = [] ∨
    ∃ ext, outputExtension f = '.' :: ext ∧ '.' ∉ ext :=
  Paths.splitext_ext

theorem outputName_of_interleave (h : Interleave f m g n) : outputName f m = outputName g n := by
  rcases h with ⟨hg, ext, hf, hfront⟩
  rw [outputName_eq, outputName_eq, hf, hg, hfront, List.append_nil]
  simp only [List.append_assoc, List.cons_append]

/-- When two versions have one name. -/
theorem outputName_eq_iff :
    outputName f m = outputName g n ↔
      (outputFront f = outputFront g ∧ outputExtension f = outputExtension g ∧ m = n) ∨
        Interleave f m g n ∨ Interleave g n f m := by
  constructor
  · intro h
    rw [outputName_eq, outputName_eq] at h
    rcases outputExtension_cases f with hf | ⟨extF, hf, hdotF⟩
    · rcases outputExtension_cases g with hg | ⟨extG, hg, hdotG⟩
      · rw [hf, hg, List.append_nil, List.append_nil] at h
        rcases tagged_inj h with ⟨hfront, hsame⟩
        exact .inl ⟨hfront, hf.trans hg.symm, hsame⟩
      · rw [hf, hg, List.append_nil] at h
        rcases interleave_of_eq hdotG h.symm with ⟨mid, hmid, hfront⟩
        exact .inr (.inr ⟨hf, mid, hg.trans (congrArg _ hmid), hfront⟩)
    · rcases outputExtension_cases g with hg | ⟨extG, hg, hdotG⟩
      · rw [hf, hg, List.append_nil] at h
        rcases interleave_of_eq hdotF h with ⟨mid, hmid, hfront⟩
        exact .inr (.inl ⟨hg, mid, hf.trans (congrArg _ hmid), hfront⟩)
      · rw [hf, hg] at h
        have hext : extF = extG := by
          have hsuffix := congrArg (List.rtakeWhile (· ≠ '.')) h
          rwa [Paths.rtakeWhile_append_cons (by decide) (ne_dot_of_notMem hdotF),
            Paths.rtakeWhile_append_cons (by decide) (ne_dot_of_notMem hdotG)] at hsuffix
        rw [hext] at h
        rcases tagged_inj (List.append_cancel_right h) with ⟨hfront, hsame⟩
        exact .inl ⟨hfront, by rw [hf, hg, hext], hsame⟩
  · rintro (⟨hfront, hext, hsame⟩ | hfg | hgf)
    · rw [outputName_eq, outputName_eq, hfront, hext, hsame]
    · exact outputName_of_interleave hfg
    · exact (outputName_of_interleave hgf).symm

/-! ## The files of a snapshot -/

theorem hasVersion_of_mem {v : RecoveredVersion} (hv : v ∈ recoverFile snapshot) :
    snapshot.HasVersion v.filenameFull v.nameIdx ∧
      v.output = outputName v.filenameFull v.nameIdx := by
  rw [recoverFile, List.mem_flatMap] at hv
  rcases hv with ⟨item, hitem, hmem⟩
  rcases List.mem_map.mp hmem with ⟨tup, htup, hversion⟩
  have hlt : tup.2 < (snapshot.inodes item.2).length := (List.mem_zipIdx' htup).1
  constructor
  · rw [← hversion]
    exact ⟨item, hitem, rfl, hlt⟩
  · rw [← hversion]

theorem exists_mem_of_hasVersion (h : snapshot.HasVersion f n) :
    ∃ v ∈ recoverFile snapshot, v.filenameFull = f ∧ v.nameIdx = n := by
  rcases h with ⟨item, hitem, rfl, hn⟩
  refine ⟨⟨item.1.toList, n, outputName item.1.toList n, (snapshot.inodes item.2)[n]⟩, ?_, rfl,
    rfl⟩
  refine List.mem_flatMap.mpr ⟨item, hitem, List.mem_map.mpr ⟨((snapshot.inodes item.2)[n], n),
    ?_, rfl⟩⟩
  exact List.mk_mem_zipIdx_iff_getElem?.mpr (List.getElem?_eq_getElem hn)

theorem keepsOutputs_iff :
    snapshot.KeepsOutputs ↔
      ∀ f m g n, snapshot.HasVersion f m → snapshot.HasVersion g n →
        outputName f m = outputName g n → Paths.split f = Paths.split g ∧ m = n := by
  constructor
  · intro hkeeps f m g n hf hg hsame
    rcases exists_mem_of_hasVersion hf with ⟨v, hv, rfl, rfl⟩
    rcases exists_mem_of_hasVersion hg with ⟨w, hw, rfl, rfl⟩
    refine hkeeps v hv w hw ?_
    rw [(hasVersion_of_mem hv).2, (hasVersion_of_mem hw).2, hsame]
  · intro hnames v hv w hw hsame
    rcases hasVersion_of_mem hv with ⟨hversion, hname⟩
    rcases hasVersion_of_mem hw with ⟨hversion', hname'⟩
    exact hnames _ _ _ _ hversion hversion' (hname.symm.trans (hsame.trans hname'))

theorem Snapshot.HasVersion.first (h : snapshot.HasVersion f n) : snapshot.HasVersion f 0 := by
  rcases h with ⟨item, hitem, hf, hn⟩
  exact ⟨item, hitem, hf, by omega⟩

/-- No output replaces another exactly where different files differ in the name with
the last component of their directory in front or in the extension, and no name with an
extension interleaves with one without. -/
theorem recoverFile_keepsOutputs_iff (snapshot : Snapshot) :
    snapshot.KeepsOutputs ↔
      (∀ f g, snapshot.HasVersion f 0 → snapshot.HasVersion g 0 →
        outputFront f = outputFront g → outputExtension f = outputExtension g →
          Paths.split f = Paths.split g) ∧
      ∀ f m g n, snapshot.HasVersion f m → snapshot.HasVersion g n → ¬Interleave f m g n := by
  rw [keepsOutputs_iff]
  constructor
  · intro hnames
    constructor
    · intro f g hf hg hfront hext
      exact (hnames f 0 g 0 hf hg (outputName_eq_iff.mpr (.inl ⟨hfront, hext, rfl⟩))).1
    · intro f m g n hf hg hinter
      have hsplit := (hnames f m g n hf hg (outputName_of_interleave hinter)).1
      rcases hinter with ⟨hnone, ext, hext, -⟩
      have hsame : outputExtension f = outputExtension g := by
        unfold outputExtension
        rw [hsplit]
      rw [hext, hnone] at hsame
      cases hsame
  · rintro ⟨hdiffer, hinter⟩ f m g n hf hg hsame
    rcases outputName_eq_iff.mp hsame with ⟨hfront, hext, hnumber⟩ | hfg | hgf
    · exact ⟨hdiffer f g hf.first hg.first hfront hext, hnumber⟩
    · exact absurd hfg (hinter f m g n hf hg)
    · exact absurd hgf (hinter g n f m hg hf)

/-- Two files of one name, in directories of one name. -/
def sameNames : Snapshot where
  dirs := [("/a/x.txt", 12), ("/b/a/x.txt", 13)]
  inodes := fun inodeId => if inodeId = 12 ∨ inodeId = 13 then [(0, [])] else []

/-- The second file replaces the first. -/
theorem recoverFile_sameNames : ¬sameNames.KeepsOutputs := by
  intro hkeeps
  have hversions : sameNames.HasVersion "/a/x.txt".toList 0 ∧
      sameNames.HasVersion "/b/a/x.txt".toList 0 :=
    ⟨⟨("/a/x.txt", 12), by decide, rfl, by decide⟩,
      ⟨("/b/a/x.txt", 13), by decide, rfl, by decide⟩⟩
  have hsame : outputName "/a/x.txt".toList 0 = outputName "/b/a/x.txt".toList 0 := by
    decide
  have hsplit := (keepsOutputs_iff.mp hkeeps _ _ _ _ hversions.1 hversions.2 hsame).1
  exact absurd hsplit (by decide)

end RansomTag

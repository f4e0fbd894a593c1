import RansomTag.Hypervisor.LinuxMetadata
import RansomTag.Hypervisor.Ext4Parsing

/-!
# Discovery of directory blocks

Data that belongs to a command on an inode table names directory blocks: those
of the extents that its directory inodes store.  The code records the first
block of the first extent of every inode with the directory bit, in the data of
each command after the first on a table.
-/

namespace RansomTag

/-! ## Inodes -/

section

variable (buf : GuestBuffer) (p : Nat)

/-- The file type of the inode at `p`. -/
def isDirectoryInode : Prop := le16 buf p &&& 0xF000 = 0x4000

/-- `eh_magic` of the extent header in the inode. -/
def hasExtents : Prop := le16 buf (p + 40) = 0xF30A

def ehEntries : Nat := le16 buf (p + 42)
def ehDepth : Nat := le16 buf (p + 46)

/-- The number of blocks of a stored extent; an unwritten one has a high number. -/
def eeLen (k : Nat) : Nat :=
  let len := le16 buf (p + 56 + 12 * k)
  if len ≤ 32768 then len else len - 32768

/-- The first block of a stored extent. -/
def eeStart (k : Nat) : Nat :=
  le16 buf (p + 58 + 12 * k) * 4294967296 + le32 buf (p + 60 + 12 * k)

/-- The block is in an extent that the inode stores; there is space for four. -/
def storesBlock (block : Nat) : Prop :=
  hasExtents buf p ∧ ehDepth buf p = 0 ∧ ∃ k < min 4 (ehEntries buf p),
    eeStart buf p k ≤ block ∧ block < eeStart buf p k + eeLen buf p k

/-- Where the code takes a block from the inode, the inode is a directory that
stores this block alone; or there is none to take. -/
def OneBlock : Prop :=
  le16 buf p &&& 0x4000 ≠ 0 → hasExtents buf p →
    (isDirectoryInode buf p ∧ ehDepth buf p = 0 ∧ ehEntries buf p = 1 ∧ eeLen buf p 0 = 1 ∧
        le16 buf (p + 58) = 0 ∧ le32 buf (p + 60) ≠ 0) ∨
      le32 buf (p + 60) = 0 ∧ ∀ block, ¬(isDirectoryInode buf p ∧ storesBlock buf p block)

end

theorem isDirectoryInode_bit {buf : GuestBuffer} {p : Nat} (h : isDirectoryInode buf p) :
    le16 buf p &&& 0x4000 ≠ 0 := by
  have hbit : le16 buf p &&& 0x4000 = (le16 buf p &&& 0xF000) &&& 0x4000 := by
    rw [Nat.and_assoc]
    rfl
  rw [hbit, h]
  decide

theorem OneBlock.contributes {buf : GuestBuffer} {p : Nat} (h : OneBlock buf p) (block : Nat) :
    (block ≠ 0 ∧ LinuxFs.firstBlock buf p = some block) ↔
      isDirectoryInode buf p ∧ storesBlock buf p block := by
  unfold LinuxFs.firstBlock
  by_cases hbit : le16 buf p &&& 0x4000 = 0
  · rw [if_pos hbit]
    constructor
    · rintro ⟨-, hnone⟩
      cases hnone
    · rintro ⟨hdirectory, -⟩
      exact absurd hbit (isDirectoryInode_bit hdirectory)
  · rw [if_neg hbit]
    by_cases hmagic : le16 buf (p + 40) = 0xF30A
    · rw [if_pos hmagic]
      rcases h hbit hmagic with ⟨hdirectory, hdepth, hentries, hlen, hhigh, hlow⟩ | ⟨hlow, hnone⟩
      · have hstart : eeStart buf p 0 = le32 buf (p + 60) := by
          unfold eeStart
          rw [Nat.mul_zero, Nat.add_zero, Nat.add_zero, hhigh, Nat.zero_mul, Nat.zero_add]
        constructor
        · rintro ⟨-, hblock⟩
          cases hblock
          refine ⟨hdirectory, hmagic, hdepth, 0, by rw [hentries]; decide, ?_⟩
          rw [hstart, hlen]
          omega
        · rintro ⟨-, -, -, k, hk, hlower, hupper⟩
          rw [hentries] at hk
          have hzero : k = 0 := by omega
          subst hzero
          rw [hstart] at hlower hupper
          rw [hlen] at hupper
          have heq : block = le32 buf (p + 60) := by omega
          rw [heq]
          exact ⟨hlow, rfl⟩
      · constructor
        · rintro ⟨hne, hblock⟩
          cases hblock
          exact absurd hlow hne
        · intro hstores
          exact absurd hstores (hnone block)
    · rw [if_neg hmagic]
      constructor
      · rintro ⟨-, hnone⟩
        cases hnone
      · rintro ⟨-, hextents, -⟩
        exact absurd hextents hmagic

/-! ## The list of blocks -/

/-- The searches for the blocks, one after the other, end inside the list. -/
def RoomFor : List Nat → SlotTable Nat 500 → Prop
  | [], _ => True
  | block :: blocks, t =>
      (block = 0 ∨ t.Ends isUnused (· == block)) ∧
        ∀ t' ret, linuxAddToDirInodeExtentBlock t block = .ok (t', ret) → RoomFor blocks t'

/-- An addition that ends records its block, if there is one. -/
theorem linuxAddToDirInodeExtentBlock_records {t : SlotTable Nat 500} {block : Nat}
    (hpacked : t.Packed isUnused) (hroom : block = 0 ∨ t.Ends isUnused (· == block)) :
    ∃ t' ret, linuxAddToDirInodeExtentBlock t block = .ok (t', ret) ∧ t'.Packed isUnused ∧
      ∀ b, t'.Found isUnused (· == b) ↔
        t.Found isUnused (· == b) ∨ (block ≠ 0 ∧ b = block) := by
  unfold linuxAddToDirInodeExtentBlock
  by_cases hblock : block = 0
  · rw [if_pos hblock]
    exact ⟨t, -1, rfl, hpacked, fun b => by simp [hblock]⟩
  · rcases SlotTable.Ends.add (hroom.resolve_left hblock) block with ⟨t', old, hadd⟩
    have hused : isUnused block = false := by simpa using hblock
    rw [if_neg hblock, hadd]
    refine ⟨t', 1, rfl, hpacked.add hadd hused, fun b => ?_⟩
    have hhit : (block == block) = true := beq_self_eq_true block
    rw [hpacked.found_add_iff hadd hused hhit fun y hy => eq_of_beq hy]
    apply or_congr_right
    constructor
    · intro hb
      exact ⟨hblock, (eq_of_beq hb).symm⟩
    · rintro ⟨-, rfl⟩
      exact beq_self_eq_true b

namespace LinuxFs

variable {fs fs' : LinuxFs} {a : SectorAccess}

/-- One inode. -/
theorem parseInode_records {p : Nat} (hinside : InodeInside a p)
    (hpacked : fs.dirInodeExtentBlock.Packed isUnused)
    (hroom : RoomFor (firstBlock a.content p).toList fs.dirInodeExtentBlock) :
    ∃ t, parseInode a fs p = .ok { fs with dirInodeExtentBlock := t } ∧ t.Packed isUnused ∧
      ∀ b, t.Found isUnused (· == b) ↔
        fs.isDirBlock b ∨ (b ≠ 0 ∧ firstBlock a.content p = some b) := by
  unfold parseInode
  rw [inodeContribution_inside hinside, Faults.bind_ok]
  cases hblock : firstBlock a.content p with
  | none => exact ⟨_, rfl, hpacked, fun b => by simp [isDirBlock]⟩
  | some block =>
      rw [hblock] at hroom
      rcases linuxAddToDirInodeExtentBlock_records hpacked hroom.1 with
        ⟨t, ret, hadd, hpacked', hfound⟩
      refine ⟨t, ?_, hpacked', fun b => ?_⟩
      · rw [recordContribution_some, hadd]
        rfl
      · rw [hfound b]
        apply or_congr_right
        constructor
        · rintro ⟨hne, rfl⟩
          exact ⟨hne, rfl⟩
        · rintro ⟨hne, heq⟩
          cases heq
          exact ⟨hne, rfl⟩

theorem parseInodes_loop_records {offsets : List Nat}
    (hinside : ∀ p ∈ offsets, InodeInside a p)
    (hpacked : fs.dirInodeExtentBlock.Packed isUnused)
    (hroom : RoomFor (offsets.filterMap (firstBlock a.content)) fs.dirInodeExtentBlock) :
    ∃ t, offsets.foldlM (parseInode a) fs = .ok { fs with dirInodeExtentBlock := t } ∧
      t.Packed isUnused ∧
      ∀ b, t.Found isUnused (· == b) ↔
        fs.isDirBlock b ∨ ∃ p ∈ offsets, b ≠ 0 ∧ firstBlock a.content p = some b := by
  induction offsets generalizing fs with
  | nil => exact ⟨_, rfl, hpacked, fun b => by simp [isDirBlock]⟩
  | cons p offsets ih =>
      rcases List.forall_mem_cons.mp hinside with ⟨hfirst, hrest⟩
      have hrooms : RoomFor (firstBlock a.content p).toList fs.dirInodeExtentBlock ∧
          ∀ t, parseInode a fs p = .ok { fs with dirInodeExtentBlock := t } →
            RoomFor (offsets.filterMap (firstBlock a.content)) t := by
        cases hblock : firstBlock a.content p with
        | none =>
            rw [List.filterMap_cons_none hblock] at hroom
            refine ⟨trivial, fun t ht => ?_⟩
            unfold parseInode at ht
            rw [inodeContribution_inside hfirst, Faults.bind_ok, hblock] at ht
            have hsame := congrArg LinuxFs.dirInodeExtentBlock (Except.ok.inj ht)
            rw [← show fs.dirInodeExtentBlock = t from hsame]
            exact hroom
        | some block =>
            rw [List.filterMap_cons_some hblock] at hroom
            refine ⟨⟨hroom.1, fun _ _ _ => trivial⟩, fun t ht => ?_⟩
            unfold parseInode at ht
            rw [inodeContribution_inside hfirst, Faults.bind_ok, hblock,
              recordContribution_some] at ht
            cases hadd : linuxAddToDirInodeExtentBlock fs.dirInodeExtentBlock block with
            | error f =>
                rw [hadd] at ht
                cases ht
            | ok pair =>
                rw [hadd] at ht
                have hsame := congrArg LinuxFs.dirInodeExtentBlock (Except.ok.inj ht)
                rw [← show pair.1 = t from hsame]
                exact hroom.2 pair.1 pair.2 hadd
      rcases parseInode_records hfirst hpacked hrooms.1 with ⟨t, hround, hpacked', hfound⟩
      have hnext : ({ fs with dirInodeExtentBlock := t } : LinuxFs).dirInodeExtentBlock.Packed
          isUnused := hpacked'
      rcases ih hrest hnext (hrooms.2 t hround) with ⟨t', hrun, hpacked'', hfound'⟩
      refine ⟨t', ?_, hpacked'', fun b => ?_⟩
      · rw [Faults.foldlM_cons_eq, hround]
        exact hrun
      · rw [hfound' b, List.exists_mem_cons_iff, ← or_assoc, ← hfound b]
        rfl

/-- The loop over the inodes records the blocks that the code takes. -/
theorem parseInodes_records (hsize : fs.superBlock.sInodeSize ≠ 0)
    (hinside : ∀ i < a.length / fs.superBlock.sInodeSize,
      InodeInside a (i * fs.superBlock.sInodeSize))
    (hpacked : fs.dirInodeExtentBlock.Packed isUnused)
    (hroom : RoomFor (((List.range (a.length / fs.superBlock.sInodeSize)).map
      (· * fs.superBlock.sInodeSize)).filterMap (firstBlock a.content)) fs.dirInodeExtentBlock) :
    ∃ t, fs.parseInodes a = .ok { fs with dirInodeExtentBlock := t } ∧ t.Packed isUnused ∧
      ∀ b, t.Found isUnused (· == b) ↔
        fs.isDirBlock b ∨ ∃ i < a.length / fs.superBlock.sInodeSize,
          b ≠ 0 ∧ firstBlock a.content (i * fs.superBlock.sInodeSize) = some b := by
  have hoffsets : ∀ p ∈ (List.range (a.length / fs.superBlock.sInodeSize)).map
      (· * fs.superBlock.sInodeSize), InodeInside a p := by
    intro p hp
    rcases List.mem_map.mp hp with ⟨i, hi, rfl⟩
    exact hinside i (List.mem_range.mp hi)
  rcases parseInodes_loop_records hoffsets hpacked hroom with ⟨t, hrun, hpacked', hfound⟩
  refine ⟨t, ?_, hpacked', fun b => ?_⟩
  · unfold parseInodes
    rw [if_neg hsize]
    exact hrun
  · rw [hfound b]
    simp only [List.mem_map, List.mem_range, exists_exists_and_eq_and]

/-! ## What the parsers leave alone -/

/-- The parsers do not touch the list, and without a super block to come they do
not touch the geometry. -/
theorem loadGroupDescs_keeps {remaining p : Nat} {complete : Bool}
    (h : loadGroupDescs a remaining p fs = .ok (fs', complete)) :
    fs'.dirInodeExtentBlock = fs.dirInodeExtentBlock ∧ fs'.superBlock = fs.superBlock := by
  induction remaining generalizing p fs with
  | zero =>
      cases h
      exact ⟨rfl, rfl⟩
  | succ remaining ih =>
      unfold loadGroupDescs at h
      split_ifs at h
      · cases h
        exact ⟨rfl, rfl⟩
      · have hrest := ih h
        exact hrest

theorem linuxParseExt4GroupDesc_keeps (h : fs.linuxParseExt4GroupDesc a = .ok fs') :
    fs'.dirInodeExtentBlock = fs.dirInodeExtentBlock ∧ fs'.superBlock = fs.superBlock := by
  unfold linuxParseExt4GroupDesc at h
  split_ifs at h
  cases hload : loadMissingGroupDescs { fs with groupTotal := fs.countGroups } a with
  | error f =>
      rw [hload] at h
      cases h
  | ok pair =>
      rcases pair with ⟨fs₁, complete⟩
      rw [hload] at h
      have hkeeps : fs₁.dirInodeExtentBlock = fs.dirInodeExtentBlock ∧
          fs₁.superBlock = fs.superBlock := by
        unfold loadMissingGroupDescs at hload
        split_ifs at hload
        · have hloop := loadGroupDescs_keeps hload
          exact hloop
        · cases hload
          exact ⟨rfl, rfl⟩
      cases complete with
      | true =>
          cases h
          exact hkeeps
      | false =>
          cases h
          exact hkeeps

theorem linuxParseExt4Superblock_keeps (h : fs.linuxParseExt4Superblock a = .ok fs') :
    fs'.dirInodeExtentBlock = fs.dirInodeExtentBlock := by
  unfold linuxParseExt4Superblock at h
  split_ifs at h
  · cases h
    rfl
  · cases h
    rfl

theorem parseMetadata_keeps (h : fs.parseMetadata a = .ok fs') :
    fs'.dirInodeExtentBlock = fs.dirInodeExtentBlock ∧
      (fs.readExt4Metadata = false → fs'.superBlock = fs.superBlock) := by
  unfold parseMetadata at h
  have hsecond : ∀ fs₁ : LinuxFs,
      (if fs₁.readGroupDescMetadata && fs₁.superBlockLoaded then fs₁.linuxParseExt4GroupDesc a
        else .ok fs₁) = .ok fs' →
      fs'.dirInodeExtentBlock = fs₁.dirInodeExtentBlock ∧ fs'.superBlock = fs₁.superBlock := by
    intro fs₁ h₁
    split_ifs at h₁
    · exact linuxParseExt4GroupDesc_keeps h₁
    · cases h₁
      exact ⟨rfl, rfl⟩
  by_cases hread : fs.readExt4Metadata = true
  · rw [if_pos hread] at h
    cases hparse : fs.linuxParseExt4Superblock a with
    | error f =>
        rw [hparse] at h
        cases h
    | ok fs₁ =>
        rw [hparse, Faults.bind_ok] at h
        refine ⟨(hsecond fs₁ h).1.trans (linuxParseExt4Superblock_keeps hparse), fun hfalse => ?_⟩
        rw [hread] at hfalse
        cases hfalse
  · rw [if_neg hread, Faults.bind_ok] at h
    exact ⟨(hsecond fs h).1, fun _ => (hsecond fs h).2⟩

/-! ## Data phases -/

/-- The command transfers a sector of an inode table. -/
def CoversTable (fs : LinuxFs) (current : Option Cbw) : Prop :=
  ∃ c, current = some c ∧ (c.opcode = scsiRead10 ∨ c.opcode = scsiWrite10) ∧
    ∃ i < c.blocks, ∃ group, fs.isLoaded group ∧ fs.inInodeTable group (c.lba + i)

/-- Data of the command names a directory block. -/
def Contributes (fs : LinuxFs) (current : Option Cbw) (a : SectorAccess) (block : Nat) : Prop :=
  fs.CoversTable current ∧ ∃ i < a.length / fs.superBlock.sInodeSize,
    isDirectoryInode a.content (i * fs.superBlock.sInodeSize) ∧
      storesBlock a.content (i * fs.superBlock.sInodeSize) block

/-- The blocks that the code takes from the data. -/
def takenBlocks (fs : LinuxFs) (a : SectorAccess) : List Nat :=
  ((List.range (a.length / fs.superBlock.sInodeSize)).map
    (· * fs.superBlock.sInodeSize)).filterMap (firstBlock a.content)

/-- Data that is taken for inodes: each lies in the buffer, has at most one block
to contribute, and there is room for the blocks. -/
structure InodesFit (fs : LinuxFs) (a : SectorAccess) : Prop where
  noSuperBlock : fs.readExt4Metadata = false
  size : fs.superBlock.sInodeSize ≠ 0
  inside : ∀ i < a.length / fs.superBlock.sInodeSize,
    InodeInside a (i * fs.superBlock.sInodeSize)
  one : ∀ i < a.length / fs.superBlock.sInodeSize,
    OneBlock a.content (i * fs.superBlock.sInodeSize)
  room : RoomFor (fs.takenBlocks a) fs.dirInodeExtentBlock

/-- Copied data is parsed without fault, is taken for inodes just where its
command covers an inode table, and then its inodes fit. -/
structure CopiedFits (fs : LinuxFs) (current : Option Cbw) (a : SectorAccess) (fs' : LinuxFs) :
    Prop where
  parsed : fs.parseMetadata a = .ok fs'
  taken : fs'.takesInodes = true ↔ fs.CoversTable current
  inodes : fs'.takesInodes = true → fs.InodesFit a

/-- The condition on a data phase; data that is not copied belongs to no table. -/
def DataFits (fs : LinuxFs) (current : Option Cbw) (a : SectorAccess) : Prop :=
  if 0 < a.count ∧ a.inPlace = false then ∃ fs', fs.CopiedFits current a fs'
  else ¬fs.CoversTable current

theorem CopiedFits.records {current : Option Cbw} (h : fs.CopiedFits current a fs')
    (hpacked : fs.dirInodeExtentBlock.Packed isUnused) :
    ∃ fs'', fs.handleData a = .ok fs'' ∧ fs''.dirInodeExtentBlock.Packed isUnused ∧
      ∀ b, fs''.isDirBlock b ↔ fs.isDirBlock b ∨ fs.Contributes current a b := by
  rcases parseMetadata_keeps h.parsed with ⟨hlist, hgeometry⟩
  have hdata : fs.handleData a =
      if fs'.takesInodes = true then fs'.parseInodes a else .ok fs' := by
    unfold handleData
    rw [h.parsed, Faults.bind_ok]
  by_cases htakes : fs'.takesInodes = true
  · have hfit := h.inodes htakes
    have hsuper := hgeometry hfit.noSuperBlock
    have hpacked' : fs'.dirInodeExtentBlock.Packed isUnused := by rw [hlist]; exact hpacked
    have hsize : fs'.superBlock.sInodeSize ≠ 0 := by rw [hsuper]; exact hfit.size
    have hinside : ∀ i < a.length / fs'.superBlock.sInodeSize,
        InodeInside a (i * fs'.superBlock.sInodeSize) := by
      rw [hsuper]
      exact hfit.inside
    have hroom : RoomFor (fs'.takenBlocks a) fs'.dirInodeExtentBlock := by
      unfold takenBlocks
      rw [hlist, hsuper]
      exact hfit.room
    rcases parseInodes_records hsize hinside hpacked' hroom with ⟨t, hrun, hpackedT, hfound⟩
    refine ⟨_, hdata.trans ((if_pos htakes).trans hrun), hpackedT, fun b => ?_⟩
    have hold : fs'.isDirBlock b ↔ fs.isDirBlock b := by
      unfold isDirBlock
      rw [hlist]
    refine (hfound b).trans (or_congr hold ?_)
    rw [hsuper]
    constructor
    · rintro ⟨i, hi, hblock⟩
      exact ⟨h.taken.mp htakes, i, hi, ((hfit.one i hi).contributes b).mp hblock⟩
    · rintro ⟨-, i, hi, hstores⟩
      exact ⟨i, hi, ((hfit.one i hi).contributes b).mpr hstores⟩
  · refine ⟨fs', hdata.trans (if_neg htakes), by rw [hlist]; exact hpacked, fun b => ?_⟩
    have hold : fs'.isDirBlock b ↔ fs.isDirBlock b := by
      unfold isDirBlock
      rw [hlist]
    rw [hold]
    constructor
    · exact Or.inl
    · rintro (hb | hcontributes)
      · exact hb
      · exact absurd (h.taken.mpr hcontributes.1) htakes

/-- One data phase records what its command contributes. -/
theorem DataFits.records {current : Option Cbw} (h : fs.DataFits current a)
    (hpacked : fs.dirInodeExtentBlock.Packed isUnused) :
    ∃ fs'', fs.linuxRansomtagStorageHandleSectors a = .ok fs'' ∧
      fs''.dirInodeExtentBlock.Packed isUnused ∧
      ∀ b, fs''.isDirBlock b ↔ fs.isDirBlock b ∨ fs.Contributes current a b := by
  unfold DataFits at h
  unfold linuxRansomtagStorageHandleSectors
  by_cases hcopy : 0 < a.count ∧ a.inPlace = false
  · rw [if_pos hcopy] at h ⊢
    rcases h with ⟨fs', hfits⟩
    rcases hfits.records hpacked with ⟨fs'', hdata, hpacked', hrecords⟩
    rw [hdata]
    exact ⟨_, rfl, hpacked', hrecords⟩
  · rw [if_neg hcopy] at h ⊢
    refine ⟨_, rfl, hpacked, fun b => ?_⟩
    constructor
    · exact Or.inl
    · rintro (hb | hcontributes)
      · exact hb
      · exact absurd hcontributes.1 h

end LinuxFs

/-! ## Commands -/

theorem expectMetadata_list {fs : LinuxFs} {c : Cbw} :
    (fs.expectMetadata c).dirInodeExtentBlock = fs.dirInodeExtentBlock := by
  unfold LinuxFs.expectMetadata
  split_ifs <;> rfl

theorem expectInodes_list {fs : LinuxFs} {c : Cbw} :
    (fs.expectInodes c).dirInodeExtentBlock = fs.dirInodeExtentBlock := by
  unfold LinuxFs.expectInodes
  split_ifs <;> rfl

/-- A command leaves the list alone. -/
theorem linuxAnalyseCbw_list (s : LinuxState) (c : Cbw) :
    (linuxAnalyseCbw s c).1.fs.dirInodeExtentBlock = s.fs.dirInodeExtentBlock := by
  by_cases hread : c.opcode = scsiRead10
  · rw [linuxAnalyseCbw_read s hread]
    exact expectInodes_list.trans expectMetadata_list
  · by_cases hwrite : c.opcode = scsiWrite10
    · rw [linuxAnalyseCbw_write s hwrite]
      exact expectInodes_list
    · rw [linuxAnalyseCbw_other s hread hwrite]

/-- The search that a write makes ends inside the list. -/
def LinuxState.CommandFits (s : LinuxState) (c : Cbw) : Prop :=
  c.opcode = scsiWrite10 → ¬s.fs.linuxIsInodeTableSector c.lba →
    ¬s.fs.linuxIsInodeBitmapBlocks c.lba →
      s.fs.dirInodeExtentBlock.Ends isUnused (· == sectorToExt4Block c.lba)

theorem LinuxState.CommandFits.ok {s : LinuxState} {c : Cbw} (h : s.CommandFits c) :
    ∃ c', (linuxAnalyseCbw s c).2 = .ok c' := by
  by_cases hread : c.opcode = scsiRead10
  · rw [linuxAnalyseCbw_read s hread]
    exact ⟨_, rfl⟩
  · by_cases hwrite : c.opcode = scsiWrite10
    · rw [linuxAnalyseCbw_write s hwrite]
      have htag : ∃ tag, s.fs.writeTag c.lba = .ok tag := by
        unfold LinuxFs.writeTag
        by_cases htable : s.fs.linuxIsInodeTableSector c.lba
        · rw [if_pos htable]
          exact ⟨_, rfl⟩
        · by_cases hbitmap : s.fs.linuxIsInodeBitmapBlocks c.lba
          · rw [if_neg htable, if_pos hbitmap]
            exact ⟨_, rfl⟩
          · rw [if_neg htable, if_neg hbitmap]
            have hsearch := mt SlotTable.search_none_iff.mp
              (not_not.mpr (h hwrite htable hbitmap))
            rcases Option.ne_none_iff_exists'.mp hsearch with ⟨found, hfound⟩
            rw [linuxTraverseDirInodeExtentBlock_iff.mpr hfound]
            exact ⟨_, rfl⟩
      rcases htag with ⟨tag, htag⟩
      refine ⟨linuxAddTag c tag, ?_⟩
      change (s.fs.writeTag c.lba).map _ = _
      rw [htag]
      rfl
    · rw [linuxAnalyseCbw_other s hread hwrite]
      exact ⟨_, rfl⟩

/-! ## Runs -/

/-- The state, the command that is being served, and the blocks that the data so
far has named. -/
structure DirectorySession where
  state : LinuxState
  current : Option Cbw
  discovered : Nat → Prop

namespace DirectorySession

def initial : DirectorySession := ⟨.initial, none, fun _ => False⟩

def step (q : DirectorySession) (e : LinuxEvent) : Except LinuxFault DirectorySession :=
  (q.state.step e).map fun s =>
    match e with
    | .command c => ⟨s, some c, q.discovered⟩
    | .data a => ⟨s, q.current, fun b => q.discovered b ∨ q.state.fs.Contributes q.current a b⟩

def run (q : DirectorySession) (events : List LinuxEvent) : Except LinuxFault DirectorySession :=
  events.foldlM step q

/-- The recorded blocks are the discovered ones. -/
structure Records (q : DirectorySession) : Prop where
  packed : q.state.fs.dirInodeExtentBlock.Packed isUnused
  recorded : ∀ b, q.state.fs.isDirBlock b ↔ q.discovered b

def Fits (q : DirectorySession) : LinuxEvent → Prop
  | .command c => q.state.CommandFits c
  | .data a => q.state.fs.DataFits q.current a

theorem Records.initial : DirectorySession.initial.Records where
  packed := SlotTable.packed_fill 0
  recorded b := by
    refine iff_of_false ?_ not_false
    rintro ⟨i, hfound⟩
    cases hfound

/-- One event. -/
theorem Records.step {q : DirectorySession} {e : LinuxEvent} (h : q.Records) (hfits : q.Fits e) :
    ∃ q', q.step e = .ok q' ∧ q'.Records := by
  cases e with
  | command c =>
      have hcommand : q.state.CommandFits c := hfits
      rcases hcommand.ok with ⟨c', hc'⟩
      have hstate : q.state.step (.command c) = .ok (linuxAnalyseCbw q.state c).1 := by
        change (linuxAnalyseCbw q.state c).2.map _ = _
        rw [hc']
        rfl
      refine ⟨⟨(linuxAnalyseCbw q.state c).1, some c, q.discovered⟩, ?_, ?_⟩
      · unfold DirectorySession.step
        rw [hstate]
        rfl
      · have hlist := linuxAnalyseCbw_list q.state c
        refine ⟨?_, fun b => ?_⟩
        · change (linuxAnalyseCbw q.state c).1.fs.dirInodeExtentBlock.Packed isUnused
          rw [hlist]
          exact h.packed
        · rw [← h.recorded b]
          change (linuxAnalyseCbw q.state c).1.fs.dirInodeExtentBlock.Found _ _ ↔ _
          rw [hlist]
          rfl
  | data a =>
      have hdata : q.state.fs.DataFits q.current a := hfits
      rcases hdata.records h.packed with ⟨fs, hhandle, hpacked, hrecords⟩
      have hstate : q.state.step (.data a) = .ok { q.state with fs := fs } := by
        change (q.state.fs.linuxRansomtagStorageHandleSectors a).map _ = _
        rw [hhandle]
        rfl
      refine ⟨⟨{ q.state with fs := fs }, q.current,
        fun b => q.discovered b ∨ q.state.fs.Contributes q.current a b⟩, ?_, hpacked, fun b => ?_⟩
      · unfold DirectorySession.step
        rw [hstate]
        rfl
      · exact (hrecords b).trans (or_congr_left (h.recorded b))

/-- At every point of the run the recorded blocks are those that the data has named. -/
def Discovers (events : List LinuxEvent) : Prop :=
  ∀ n, ∃ q, initial.run (events.take n) = .ok q ∧ ∀ b, q.state.fs.isDirBlock b ↔ q.discovered b

theorem linux_discovers_directories (events : List LinuxEvent)
    (h : ∀ n q e, initial.run (events.take n) = .ok q → events[n]? = some e → q.Fits e) :
    Discovers events := by
  intro n
  have hrun := Faults.foldlM_take_ok Records.initial
    (fun m q e hprefix hrecords he => hrecords.step (h m q e hprefix he)) n
  rcases hrun with ⟨q, hrun, hrecords⟩
  exact ⟨q, hrun, hrecords.recorded⟩

/-- The command that is served behind an event. -/
def serves (current : Option Cbw) : LinuxEvent → Option Cbw
  | .command c => some c
  | .data _ => current

theorem step_state {q q' : DirectorySession} {e : LinuxEvent} (h : q.step e = .ok q') :
    q.state.step e = .ok q'.state ∧ q'.current = serves q.current e := by
  unfold step at h
  cases hstate : q.state.step e with
  | error f =>
      rw [hstate] at h
      cases h
  | ok s =>
      rw [hstate] at h
      rw [← Except.ok.inj h]
      cases e with
      | command c => exact ⟨rfl, rfl⟩
      | data a => exact ⟨rfl, rfl⟩

/-- A session runs through the states of the hypervisor. -/
theorem run_state {q q' : DirectorySession} {events : List LinuxEvent}
    (h : q.run events = .ok q') :
    q.state.run events = .ok q'.state ∧ q'.current = events.foldl serves q.current := by
  induction events generalizing q with
  | nil =>
      cases h
      exact ⟨rfl, rfl⟩
  | cons e events ih =>
      unfold run at h
      rw [Faults.foldlM_cons_eq] at h
      rcases Faults.bind_eq_ok_iff.mp h with ⟨q₁, hstep, hrest⟩
      rcases step_state hstep with ⟨hstate, hcurrent⟩
      rcases ih hrest with ⟨hrun, hserved⟩
      refine ⟨?_, ?_⟩
      · unfold LinuxState.run
        rw [Faults.foldlM_cons_eq, hstate]
        exact hrun
      · rw [hserved, List.foldl_cons, hcurrent]

/-- The inodes of the block are one directory and free ones. -/
theorem directoryInode_oneBlock {i : Nat} (hi : i < 16) : OneBlock directoryInode (i * 256) := by
  have hfree : ∀ i < 16, i ≠ 0 → le16 directoryInode (i * 256) &&& 0x4000 = 0 := by
    decide +kernel
  intro hbit _
  by_cases hzero : i = 0
  · subst hzero
    refine .inl ⟨?_, ?_, ?_, ?_, ?_, ?_⟩
    · change le16 directoryInode 0 &&& 0xF000 = 0x4000
      decide +kernel
    all_goals decide +kernel
  · exact absurd (hfree i hi hzero) hbit

theorem mount_directory_fits : LinuxFs.DataFits (mountState 5)
    (some (tenByteCommand scsiRead10 8000 8)) (blockOf directoryInode) := by
  unfold LinuxFs.DataFits
  rw [if_pos ⟨by decide, rfl⟩]
  have hsize : (mountState 5).superBlock.sInodeSize = 256 := by decide +kernel
  have hcovers : (mountState 5).CoversTable (some (tenByteCommand scsiRead10 8000 8)) := by
    refine ⟨_, rfl, .inl rfl, 0, by decide +kernel, 0, ?_, ?_, ?_⟩
    all_goals decide +kernel
  refine ⟨{ mountedGroup with
    sectorIndex := 8000, readGroupDescMetadata := false, groupDescLoaded := true },
    by decide +kernel, iff_of_true (by decide +kernel) hcovers, fun _ => ?_⟩
  constructor
  · decide +kernel
  · rw [hsize]
    decide
  · intro i hi
    rw [hsize] at hi ⊢
    exact blockOf_inodeInside hi
  · intro i hi
    rw [hsize] at hi ⊢
    exact directoryInode_oneBlock hi
  · have htaken : (mountState 5).takenBlocks (blockOf directoryInode) = [2000] := by
      decide +kernel
    rw [htaken]
    exact ⟨.inr ⟨0, List.mem_replicate.mpr ⟨by decide, rfl⟩, .inl rfl⟩, fun _ _ _ => trivial⟩

/-- The super block and the descriptors name no directory block, and the first inode
table names block 2000. -/
theorem linux_discovers_directories_mount :
    Discovers mountEvents ∧ ∃ q, initial.run mountEvents = .ok q ∧
      q.discovered 2000 ∧ ∀ b, q.state.fs.isDirBlock b ↔ q.discovered b := by
  have hdiscovers : Discovers mountEvents := by
    apply linux_discovers_directories
    intro n q e hrun he
    rcases run_state hrun with ⟨hstate, hcurrent⟩
    have hfs : q.state.fs = mountState n :=
      congrArg LinuxState.fs (Except.ok.inj (hstate.symm.trans (mountEvents_run n)))
    have hnone : ∀ n < 4, ∀ current, ¬(mountState n).CoversTable current := by
      rintro n hn current ⟨c, -, -, i, -, group, hloaded, -⟩
      have hcount : ∀ n < 4, (mountState n).loadedGroupDescCount = 0 := by decide +kernel
      unfold LinuxFs.isLoaded at hloaded
      rw [hcount n hn] at hloaded
      exact absurd hloaded (Nat.not_lt_zero _)
    rcases n with _ | _ | _ | _ | _ | _ | n
    · rw [← Option.some.inj he]
      exact fun hwrite => absurd hwrite (by decide)
    · rw [← Option.some.inj he]
      change LinuxFs.DataFits q.state.fs q.current _
      rw [hfs]
      unfold LinuxFs.DataFits
      rw [if_pos ⟨by decide, rfl⟩]
      exact ⟨{ mountedSuperBlock with sectorIndex := 0 }, by decide +kernel,
        iff_of_false (by decide +kernel) (hnone 1 (by decide) _),
        fun htakes => absurd htakes (by decide +kernel)⟩
    · rw [← Option.some.inj he]
      exact fun hwrite => absurd hwrite (by decide)
    · rw [← Option.some.inj he]
      change LinuxFs.DataFits q.state.fs q.current _
      rw [hfs]
      unfold LinuxFs.DataFits
      rw [if_pos ⟨by decide, rfl⟩]
      exact ⟨{ mountedGroup with sectorIndex := 8 }, by decide +kernel,
        iff_of_false (by decide +kernel) (hnone 3 (by decide) _),
        fun htakes => absurd htakes (by decide +kernel)⟩
    · rw [← Option.some.inj he]
      exact fun hwrite => absurd hwrite (by decide)
    · rw [← Option.some.inj he]
      change LinuxFs.DataFits q.state.fs q.current _
      rw [hfs, show q.current = some (tenByteCommand scsiRead10 8000 8) from hcurrent]
      exact mount_directory_fits
    · rw [List.getElem?_eq_none (by simp [mountEvents])] at he
      cases he
  rcases hdiscovers 6 with ⟨q, hrun, hrecorded⟩
  refine ⟨hdiscovers, q, hrun, (hrecorded 2000).mp ?_, hrecorded⟩
  have hfs : q.state.fs = mountedDirectory :=
    congrArg LinuxState.fs (Except.ok.inj ((run_state hrun).1.symm.trans (mountEvents_run 6)))
  rw [hfs]
  exact ⟨0, by decide +kernel⟩

/-- What one data phase does to the session. -/
theorem step_data {q q' : DirectorySession} {a : SectorAccess} (h : q.step (.data a) = .ok q') :
    q.state.step (.data a) = .ok q'.state ∧
      q'.discovered = fun b => q.discovered b ∨ q.state.fs.Contributes q.current a b := by
  unfold step at h
  cases hstate : q.state.step (.data a) with
  | error f =>
      rw [hstate] at h
      cases h
  | ok s =>
      rw [hstate] at h
      rw [← Except.ok.inj h]
      exact ⟨rfl, rfl⟩

theorem run_pair (q : DirectorySession) (e e' : LinuxEvent) :
    q.run [e, e'] = (q.step e).bind fun q' => q'.step e' := by
  unfold run
  rw [Faults.foldlM_cons_eq]
  cases q.step e with
  | error f => rfl
  | ok q' => exact Faults.bind_ok_right (q'.step e')

/-- The start of a disk with bytes that look like a directory inode before the
super block. -/
def directoryLookalike : GuestBuffer := fun i =>
  if i = 1 then 0x40 else if i = 40 then 0x0A else if i = 41 then 0xF3 else if i = 60 then 99
  else if i = 1057 then 0x80 else if i = 1113 then 1 else 0

/-- The first sixteen sectors of the disk are taken for inodes. -/
theorem linux_superBlock_taken_for_inodes :
    ¬Discovers [.command (tenByteCommand scsiRead10 0 16),
      .data ⟨16, 512, false, directoryLookalike, by decide⟩] := by
  intro h
  rcases h 2 with ⟨q, hrun, hrecorded⟩
  have hfirst : initial.step (.command (tenByteCommand scsiRead10 0 16)) =
      .ok ⟨(linuxAnalyseCbw .initial (tenByteCommand scsiRead10 0 16)).1,
        some (tenByteCommand scsiRead10 0 16), fun _ => False⟩ := rfl
  have hsecond : step ⟨(linuxAnalyseCbw .initial (tenByteCommand scsiRead10 0 16)).1,
        some (tenByteCommand scsiRead10 0 16), fun _ => False⟩
      (.data ⟨16, 512, false, directoryLookalike, by decide⟩) = .ok q := by
    rw [List.take_of_length_le (Nat.le_refl 2), run_pair, hfirst, Faults.bind_ok] at hrun
    exact hrun
  rcases step_data hsecond with ⟨hstate, hdiscovered⟩
  have hrecords : ∃ s, (linuxAnalyseCbw .initial (tenByteCommand scsiRead10 0 16)).1.step
      (.data ⟨16, 512, false, directoryLookalike, by decide⟩) = .ok s ∧ s.fs.isDirBlock 99 :=
    ⟨_, rfl, 0, rfl⟩
  rcases hrecords with ⟨s, hs, hblock⟩
  have hsame : s = q.state := Except.ok.inj (hs.symm.trans hstate)
  rw [hsame, hrecorded 99, hdiscovered] at hblock
  rcases hblock with hnone | ⟨⟨c, -, -, i, -, group, hloaded, -⟩, -⟩
  · exact hnone
  · exact absurd hloaded (Nat.not_lt_zero _)

end DirectorySession

end RansomTag

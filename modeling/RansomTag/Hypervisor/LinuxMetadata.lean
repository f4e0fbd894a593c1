import RansomTag.Hypervisor.Ext4Parsing
import Mathlib.Algebra.Group.Nat.Defs

/-!
# Writes to the metadata of the file system

The sectors of the inode tables, of the inode bitmaps and of the recorded
directory blocks, and when the tag of a write says whether it transfers one of
them.  The code looks at the first sector alone, takes every group for loaded
and every block for eight sectors.
-/

namespace RansomTag

/-- The number of sectors in a block. -/
def Ext4SuperBlock.sectorsPerBlock (sb : Ext4SuperBlock) : Nat := 2 * 2 ^ sb.sLogBlockSize

/-- The length of an inode table in bytes. -/
def Ext4SuperBlock.tableBytes (sb : Ext4SuperBlock) : Nat := sb.sInodeSize * sb.sInodesPerGroup

/-! ## Sectors with metadata -/

namespace LinuxFs

variable (fs : LinuxFs)

def isLoaded (group : Fin 4) : Prop := group.val < fs.loadedGroupDescCount

instance (group : Fin 4) : Decidable (fs.isLoaded group) := inferInstanceAs (Decidable (_ < _))

/-- The sector holds inodes of a group. -/
def inInodeTable (group : Fin 4) (sector : Nat) : Prop :=
  let first := fs.superBlock.sectorsPerBlock * (fs.groupDesc group).bgInodeTableLo
  first ≤ sector ∧ sector * 512 < first * 512 + fs.superBlock.tableBytes

def inInodeBitmap (group : Fin 4) (sector : Nat) : Prop :=
  sector / fs.superBlock.sectorsPerBlock = (fs.groupDesc group).bgInodeBitmapLo

/-- A directory block that was recorded. -/
def isDirBlock (block : Nat) : Prop := fs.dirInodeExtentBlock.Found isUnused (· == block)

def isMetadataSector (sector : Nat) : Prop :=
  (∃ group, fs.isLoaded group ∧ (fs.inInodeTable group sector ∨ fs.inInodeBitmap group sector)) ∨
    fs.isDirBlock (sector / fs.superBlock.sectorsPerBlock)

/-- The sectors from `lba` on meet the metadata. -/
def meetsMetadata (lba sectors : Nat) : Prop := ∃ i < sectors, fs.isMetadataSector (lba + i)

/-! ## The tests without wrapping -/

/-- The four tables as the code sees them, with the first sector behind each. -/
def startsInTable (lba : Nat) : Prop :=
  ∃ group : Fin 4, fs.inodeTableStartSector group ≤ lba ∧
    lba ≤ (fs.inodeTableStartSector group / 8 + fs.superBlock.tableBytes / 4096) * 8

def startsInBitmap (lba : Nat) : Prop := ∃ group : Fin 4, lba / 8 = fs.inodeBitmapBlocks group

/-- The computations of a write at `lba` stay in their type. -/
structure NoWrap (lba : Nat) : Prop where
  loaded : ∀ group, fs.isLoaded group → (fs.groupDesc group).bgInodeTableLo * 8 < 4294967296
  table : fs.superBlock.tableBytes < 4294967296
  start : ∀ group, fs.inodeTableStartSector group * 512 < 2147483648
  behind : ∀ group,
    (fs.inodeTableStartSector group / 8 + fs.superBlock.tableBytes / 4096) * 8 < 4294967296
  first : ¬fs.startsInTable lba → lba * 512 < 4294967296

/-- The first sector is in one of the four tables or bitmaps as the code sees them,
or in the eight sectors of a recorded directory block. -/
def startsInMetadata (lba : Nat) : Prop :=
  fs.startsInTable lba ∨ fs.startsInBitmap lba ∨ fs.isDirBlock (lba / 8)

/-- A table, a bitmap or a directory block begins at this sector. -/
def areaBegins (first : Nat) : Prop :=
  (∃ group, fs.isLoaded group ∧
    (first = fs.superBlock.sectorsPerBlock * (fs.groupDesc group).bgInodeTableLo ∧
        0 < fs.superBlock.tableBytes ∨
      first = fs.superBlock.sectorsPerBlock * (fs.groupDesc group).bgInodeBitmapLo)) ∨
    ∃ block, fs.isDirBlock block ∧ first = fs.superBlock.sectorsPerBlock * block

/-- The condition on the address and the length of a write, for the tables and the
list.  A byte 6 that has the bits of both tags shows neither. -/
structure FirstSectorDecides (c : Cbw) : Prop where
  noWrap : fs.NoWrap c.lba
  ends : ¬fs.startsInTable c.lba → ¬fs.startsInBitmap c.lba →
    fs.dirInodeExtentBlock.Ends isUnused (· == c.lba / 8)
  misses : c.cb 6 ||| ransomTag ≠ c.cb 6 ||| ransomTagMft → ¬fs.startsInMetadata c.lba →
    0 < c.blocks → ¬fs.isMetadataSector c.lba ∧
      ∀ first, fs.areaBegins first → first ≤ c.lba ∨ c.lba + c.blocks ≤ first
  hits : c.cb 6 ||| ransomTag ≠ c.cb 6 ||| ransomTagMft → fs.startsInMetadata c.lba →
    0 < c.blocks ∧ (fs.isMetadataSector c.lba ∨
      ∃ first, fs.areaBegins first ∧ c.lba < first ∧ first < c.lba + c.blocks)

end LinuxFs

/-- A write leaves with the tag for metadata if it transfers some, and with the
other one if not; nothing wraps. -/
structure LinuxState.ClassifiesWrite (s : LinuxState) (c : Cbw) : Prop where
  noWrap : s.fs.NoWrap c.lba
  metadata : s.fs.meetsMetadata c.lba c.blocks →
    ∃ c', (linuxAnalyseCbw s c).2 = .ok c' ∧ c.CarriesTag ransomTagMft c'
  others : ¬s.fs.meetsMetadata c.lba c.blocks →
    ∃ c', (linuxAnalyseCbw s c).2 = .ok c' ∧ c.CarriesTag ransomTag c'

/-! ## Areas -/

theorem Ext4SuperBlock.sectorsPerBlock_pos (sb : Ext4SuperBlock) : 0 < sb.sectorsPerBlock :=
  Nat.mul_pos (by decide) (Nat.two_pow_pos _)

/-- The blocks that hold the sectors from a first one up to another. -/
theorem div_eq_of_between {s x y block : Nat} (hx : x / s = block) (hfirst : s * block ≤ y)
    (hy : y ≤ x) : y / s = block := by
  apply Nat.le_antisymm
  · rw [← hx]
    exact Nat.div_le_div_right hy
  · rcases Nat.eq_zero_or_pos s with rfl | hs
    · rw [Nat.div_zero] at hx ⊢
      exact hx.ge
    · rw [Nat.le_div_iff_mul_le hs, Nat.mul_comm]
      exact hfirst

namespace LinuxFs

variable {fs : LinuxFs} {lba first sector sectors : Nat}

theorem areaBegins.isMetadataSector (h : fs.areaBegins first) : fs.isMetadataSector first := by
  have hpos := fs.superBlock.sectorsPerBlock_pos
  rcases h with ⟨group, hloaded, ⟨rfl, hbytes⟩ | rfl⟩ | ⟨block, hdir, rfl⟩
  · refine .inl ⟨group, hloaded, .inl ?_⟩
    unfold inInodeTable
    exact ⟨Nat.le_refl _, Nat.lt_add_of_pos_right hbytes⟩
  · exact .inl ⟨group, hloaded, .inr (Nat.mul_div_cancel_left _ hpos)⟩
  · refine .inr ?_
    rw [Nat.mul_div_cancel_left _ hpos]
    exact hdir

/-- A sector of the metadata is in an area that begins before it. -/
theorem isMetadataSector.begins (h : fs.isMetadataSector sector) :
    ∃ first, fs.areaBegins first ∧ first ≤ sector ∧
      ∀ x, first ≤ x → x ≤ sector → fs.isMetadataSector x := by
  rcases h with ⟨group, hloaded, ⟨hfirst, hlast⟩ | hbitmap⟩ | hdir
  · have hpos : ∀ first bytes : Nat, first ≤ sector → sector * 512 < first * 512 + bytes →
        0 < bytes := fun _ _ _ _ => by omega
    refine ⟨_, .inl ⟨group, hloaded, .inl ⟨rfl, hpos _ _ hfirst hlast⟩⟩, hfirst,
      fun x hx hle => .inl ⟨group, hloaded, .inl ?_⟩⟩
    unfold inInodeTable
    exact ⟨hx, (Nat.mul_le_mul_right 512 hle).trans_lt hlast⟩
  · have hfirst : fs.superBlock.sectorsPerBlock * (fs.groupDesc group).bgInodeBitmapLo ≤ sector := by
      rw [← hbitmap]
      exact Nat.mul_div_le _ _
    refine ⟨_, .inl ⟨group, hloaded, .inr rfl⟩, hfirst, fun x hx hle => ?_⟩
    exact .inl ⟨group, hloaded, .inr (div_eq_of_between hbitmap hx hle)⟩
  · refine ⟨_, .inr ⟨_, hdir, rfl⟩, Nat.mul_div_le _ _, fun x hx hle => ?_⟩
    refine .inr ?_
    rw [div_eq_of_between rfl hx hle]
    exact hdir

/-- Sectors meet the metadata with their first one, or where an area begins behind it. -/
theorem meetsMetadata_iff : fs.meetsMetadata lba sectors ↔
    0 < sectors ∧ (fs.isMetadataSector lba ∨
      ∃ first, fs.areaBegins first ∧ lba < first ∧ first < lba + sectors) := by
  constructor
  · rintro ⟨i, hi, hsector⟩
    obtain ⟨first, hbegins, hle, hall⟩ := hsector.begins
    refine ⟨by omega, ?_⟩
    rcases Nat.lt_or_ge lba first with hlt | hge
    · exact .inr ⟨first, hbegins, hlt, by omega⟩
    · exact .inl (hall lba hge (by omega))
  · rintro ⟨hpos, hfirst | ⟨first, hbegins, hlt, hbehind⟩⟩
    · exact ⟨0, hpos, hfirst⟩
    · refine ⟨first - lba, by omega, ?_⟩
      rw [show lba + (first - lba) = first by omega]
      exact hbegins.isMetadataSector

end LinuxFs

/-! ## Arithmetic without wrapping -/

theorem sectorToExt4Block_eq {sector : Nat} (h : sector * 512 < 4294967296) :
    sectorToExt4Block sector = sector / 8 := by
  unfold sectorToExt4Block
  omega

theorem sectorToExt4BlockInt_eq {sector : Nat} (h : sector * 512 < 2147483648) :
    sectorToExt4BlockInt sector = sector / 8 := by
  have hmsb : (BitVec.ofNat 32 (sector * 512)).msb = false := by
    rw [BitVec.msb_eq_false_iff_two_mul_lt, BitVec.toNat_ofNat]
    omega
  unfold sectorToExt4BlockInt
  rw [BitVec.sdiv_eq, hmsb]
  have hdivisor : (4096 : BitVec 32).msb = false := by decide
  rw [hdivisor]
  have hvalue : BitVec.toNat (4096 : BitVec 32) = 4096 := rfl
  simp only [BitVec.udiv_eq, BitVec.toNat_udiv, BitVec.toNat_ofNat, hvalue]
  omega

namespace LinuxFs

variable {fs : LinuxFs} {lba : Nat}

theorem NoWrap.table_iff (h : fs.NoWrap lba) :
    fs.linuxIsInodeTableSector lba ↔ fs.startsInTable lba := by
  have hcount : fs.itableBlocksCount = fs.superBlock.tableBytes / 4096 := by
    have htable := h.table
    unfold itableBlocksCount
    unfold Ext4SuperBlock.tableBytes at htable ⊢
    rw [Nat.mod_eq_of_lt htable]
  apply exists_congr
  intro group
  have hend : fs.inodeTableEndSector group =
      (fs.inodeTableStartSector group / 8 + fs.superBlock.tableBytes / 4096) * 8 := by
    have hbehind := h.behind group
    unfold inodeTableEndSector ext4BlockToSectorStart
    rw [sectorToExt4BlockInt_eq (h.start group), hcount]
    omega
  rw [hend]

theorem NoWrap.bitmap_iff (h : fs.NoWrap lba) (htable : ¬fs.startsInTable lba) :
    fs.linuxIsInodeBitmapBlocks lba ↔ fs.startsInBitmap lba := by
  unfold linuxIsInodeBitmapBlocks
  rw [sectorToExt4Block_eq (h.first htable)]
  rfl

end LinuxFs

/-! ## The search for a directory block -/

theorem linuxTraverseDirInodeExtentBlock_iff {t : SlotTable Nat 500} {block : Nat}
    {found : Bool} :
    linuxTraverseDirInodeExtentBlock t block = .ok found ↔
      t.search isUnused (· == block) = some found := by
  unfold linuxTraverseDirInodeExtentBlock
  cases t.search isUnused (· == block) <;> simp

/-! ## Classification -/

namespace LinuxFs

variable {fs : LinuxFs} {lba : Nat}

theorem NoWrap.writeTag_of_starts (h : fs.NoWrap lba)
    (hstarts : fs.startsInTable lba ∨ fs.startsInBitmap lba) :
    fs.writeTag lba = .ok ransomTagMft := by
  unfold writeTag
  by_cases htable : fs.startsInTable lba
  · rw [if_pos (h.table_iff.mpr htable)]
  · have hbitmap := hstarts.resolve_left htable
    rw [if_neg (mt h.table_iff.mp htable), if_pos ((h.bitmap_iff htable).mpr hbitmap)]

theorem NoWrap.writeTag_of_not_starts (h : fs.NoWrap lba) (htable : ¬fs.startsInTable lba)
    (hbitmap : ¬fs.startsInBitmap lba) :
    fs.writeTag lba =
      (linuxTraverseDirInodeExtentBlock fs.dirInodeExtentBlock (lba / 8)).map
        fun found => if found then ransomTagMft else ransomTag := by
  unfold writeTag
  rw [if_neg (mt h.table_iff.mp htable), if_neg (mt (h.bitmap_iff htable).mp hbitmap),
    sectorToExt4Block_eq (h.first htable)]

theorem NoWrap.writeTag_mft_iff (h : fs.NoWrap lba) :
    fs.writeTag lba = .ok ransomTagMft ↔ fs.startsInMetadata lba := by
  unfold startsInMetadata
  by_cases htable : fs.startsInTable lba
  · exact ⟨fun _ => .inl htable, fun _ => h.writeTag_of_starts (.inl htable)⟩
  · by_cases hbitmap : fs.startsInBitmap lba
    · exact ⟨fun _ => .inr (.inl hbitmap), fun _ => h.writeTag_of_starts (.inr hbitmap)⟩
    · rw [h.writeTag_of_not_starts htable hbitmap]
      have hfound : fs.isDirBlock (lba / 8) ↔
          linuxTraverseDirInodeExtentBlock fs.dirInodeExtentBlock (lba / 8) = .ok true :=
        (linuxTraverseDirInodeExtentBlock_iff.trans SlotTable.search_true_iff).symm
      rw [hfound, or_iff_right htable, or_iff_right hbitmap]
      rcases linuxTraverseDirInodeExtentBlock fs.dirInodeExtentBlock (lba / 8) with fault | found
      · simp [Except.map]
      · cases found <;> simp [Except.map, ransomTag, ransomTagMft]

theorem NoWrap.writeTag_ransom_iff (h : fs.NoWrap lba) :
    fs.writeTag lba = .ok ransomTag ↔
      ¬fs.startsInMetadata lba ∧ fs.dirInodeExtentBlock.Ends isUnused (· == lba / 8) := by
  have hne : ransomTagMft ≠ ransomTag := by decide
  unfold startsInMetadata
  by_cases hstarts : fs.startsInTable lba ∨ fs.startsInBitmap lba
  · rw [h.writeTag_of_starts hstarts]
    constructor
    · intro htag
      exact absurd (Except.ok.inj htag) hne
    · rintro ⟨hnone, -⟩
      exact absurd (hstarts.imp_right Or.inl) hnone
  · rcases not_or.mp hstarts with ⟨htable, hbitmap⟩
    rw [h.writeTag_of_not_starts htable hbitmap, or_iff_right htable, or_iff_right hbitmap,
      and_comm]
    have hmissed : (fs.dirInodeExtentBlock.Ends isUnused (· == lba / 8) ∧
          ¬fs.isDirBlock (lba / 8)) ↔
        linuxTraverseDirInodeExtentBlock fs.dirInodeExtentBlock (lba / 8) = .ok false :=
      (linuxTraverseDirInodeExtentBlock_iff.trans SlotTable.search_false_iff).symm
    rw [hmissed]
    rcases linuxTraverseDirInodeExtentBlock fs.dirInodeExtentBlock (lba / 8) with fault | found
    · simp [Except.map]
    · cases found <;> simp [Except.map, ransomTag, ransomTagMft]

theorem writeTag_cases {tag : Byte} (h : fs.writeTag lba = .ok tag) :
    tag = ransomTag ∨ tag = ransomTagMft := by
  unfold writeTag at h
  split_ifs at h
  · exact .inr (Except.ok.inj h).symm
  · exact .inr (Except.ok.inj h).symm
  · cases hsearch : linuxTraverseDirInodeExtentBlock fs.dirInodeExtentBlock
        (sectorToExt4Block lba) with
    | error fault =>
        rw [hsearch] at h
        cases h
    | ok found =>
        rw [hsearch] at h
        cases found
        · exact .inl (Except.ok.inj h).symm
        · exact .inr (Except.ok.inj h).symm

end LinuxFs

section

variable {s : LinuxState} {c : Cbw}

/-- What the wrapper shows of the tag that the write was given. -/
theorem carriesTag_iff {tag : Byte} (hwrite : c.opcode = scsiWrite10) :
    (∃ c', (linuxAnalyseCbw s c).2 = .ok c' ∧ c.CarriesTag tag c') ↔
      ∃ given, s.fs.writeTag c.lba = .ok given ∧ c.cb 6 ||| given = c.cb 6 ||| tag := by
  rw [show (linuxAnalyseCbw s c).2 = (s.fs.writeTag c.lba).map (linuxAddTag c) from
    congrArg Prod.snd (linuxAnalyseCbw_write s hwrite)]
  cases hgiven : s.fs.writeTag c.lba with
  | error fault => simp [Except.map]
  | ok given =>
      have hcarries : c.CarriesTag given (linuxAddTag c given) :=
        winAddTag_carriesTag ((LinuxFs.writeTag_cases hgiven).imp_right Or.inl)
      constructor
      · rintro ⟨c', hc', htag⟩
        rw [← Except.ok.inj hc'] at htag
        exact ⟨given, rfl, hcarries.byte.symm.trans htag.byte⟩
      · rintro ⟨given', hgiven', hbyte⟩
        rw [← Except.ok.inj hgiven'] at hbyte
        exact ⟨_, rfl, hcarries.byte.trans hbyte, hcarries.bytes, hcarries.wrapper⟩

theorem carriesTag_mft_iff (hwrite : c.opcode = scsiWrite10) (h : s.fs.NoWrap c.lba) :
    (∃ c', (linuxAnalyseCbw s c).2 = .ok c' ∧ c.CarriesTag ransomTagMft c') ↔
      s.fs.startsInMetadata c.lba ∨ s.fs.dirInodeExtentBlock.Ends isUnused (· == c.lba / 8) ∧
        c.cb 6 ||| ransomTag = c.cb 6 ||| ransomTagMft := by
  rw [carriesTag_iff hwrite]
  constructor
  · rintro ⟨given, hgiven, hbyte⟩
    rcases LinuxFs.writeTag_cases hgiven with rfl | rfl
    · exact .inr ⟨(h.writeTag_ransom_iff.mp hgiven).2, hbyte⟩
    · exact .inl (h.writeTag_mft_iff.mp hgiven)
  · rintro (hstarts | ⟨hends, hbyte⟩)
    · exact ⟨_, h.writeTag_mft_iff.mpr hstarts, rfl⟩
    · by_cases hstarts : s.fs.startsInMetadata c.lba
      · exact ⟨_, h.writeTag_mft_iff.mpr hstarts, rfl⟩
      · exact ⟨_, h.writeTag_ransom_iff.mpr ⟨hstarts, hends⟩, hbyte⟩

theorem carriesTag_ransom_iff (hwrite : c.opcode = scsiWrite10) (h : s.fs.NoWrap c.lba) :
    (∃ c', (linuxAnalyseCbw s c).2 = .ok c' ∧ c.CarriesTag ransomTag c') ↔
      ¬s.fs.startsInMetadata c.lba ∧ s.fs.dirInodeExtentBlock.Ends isUnused (· == c.lba / 8) ∨
        s.fs.startsInMetadata c.lba ∧ c.cb 6 ||| ransomTag = c.cb 6 ||| ransomTagMft := by
  rw [carriesTag_iff hwrite]
  constructor
  · rintro ⟨given, hgiven, hbyte⟩
    rcases LinuxFs.writeTag_cases hgiven with rfl | rfl
    · exact .inl (h.writeTag_ransom_iff.mp hgiven)
    · exact .inr ⟨h.writeTag_mft_iff.mp hgiven, hbyte.symm⟩
  · rintro (hmisses | ⟨hstarts, hbyte⟩)
    · exact ⟨_, h.writeTag_ransom_iff.mpr hmisses, rfl⟩
    · exact ⟨_, h.writeTag_mft_iff.mpr hstarts, hbyte.symm⟩

end

theorem initial_not_isMetadataSector (sector : Nat) :
    ¬LinuxFs.initial.isMetadataSector sector := by
  rintro (⟨group, hloaded, -⟩ | ⟨i, hfound⟩)
  · exact absurd hloaded (Nat.not_lt_zero _)
  · cases hfound

theorem initial_not_meetsMetadata (lba sectors : Nat) :
    ¬LinuxFs.initial.meetsMetadata lba sectors := by
  rintro ⟨i, -, hsector⟩
  exact initial_not_isMetadataSector _ hsector

theorem mountedDirectory_noWrap {lba : Nat} (h : lba * 512 < 4294967296) :
    mountedDirectory.NoWrap lba where
  loaded := by decide +kernel
  table := by decide +kernel
  start := by decide +kernel
  behind := by decide +kernel
  first := fun _ => h

theorem mountedDirectory_isDirBlock_iff {block : Nat} :
    mountedDirectory.isDirBlock block ↔ block = 2000 := by
  have hentries : mountedDirectory.dirInodeExtentBlock.entries =
      2000 :: 0 :: List.replicate 498 0 := by decide +kernel
  constructor
  · rintro ⟨i, hscan⟩
    by_contra hne
    unfold SlotTable.scan at hscan
    rw [hentries] at hscan
    simp [SlotTable.scanList, Scan.next, Ne.symm hne] at hscan
  · rintro rfl
    exact ⟨0, by decide +kernel⟩

end RansomTag

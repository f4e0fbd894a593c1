import RansomTag.Recovery.BlockGroups
import RansomTag.Library.Removals
import RansomTag.Library.Slices

/-!
# Deleted inodes

`is_inode_deleted` looks up the bit of one inode, and `check_if_deleted_inodes`
removes the used inodes of all groups from a list.
-/

namespace RansomTag

section

variable (fs : Nat → Byte) (sb : Ext4Layout)

/-- `is_inode_deleted`; a group that is not there ends it by an exception. -/
def isInodeDeleted (bgs : BlockGroups) (inodeId : Nat) : Option Bool :=
  let bgIndex := ((inodeId : Int) - 1) / sb.inodesPerGroup
  let bitmapIndex := ((inodeId : Int) - 1) % sb.inodesPerGroup
  (Slices.item bgs.rows bgIndex).bind fun bg =>
    if testBlockGroupsFlag sb "INODE_UNINIT" bg.group then some true
    else (accessBit (blockBytes sb.toExt4Super fs bg.ibitmap) bitmapIndex.toNat).map (· = 0)

/-- The loop of `check_if_deleted_inodes` over the used inodes of a group. -/
def removeUsed (sb : Ext4Layout) (group : Nat) (indexes availableInodeIds : List Nat) :
    List Nat :=
  indexes.foldl (fun available index =>
    let inodeId := index + sb.inodesPerGroup * group + 1
    if inodeId ∈ available then available.erase inodeId else available) availableInodeIds

/-- The loop of `check_if_deleted_inodes` over the groups. -/
def checkGroups : List BlockGroup → List Nat → List Nat
  | [], availableInodeIds => availableInodeIds
  | bg :: bgs, availableInodeIds =>
      if testBlockGroupsFlag sb "INODE_UNINIT" bg.group then checkGroups bgs availableInodeIds
      else
        let bitmap := blockBytes sb.toExt4Super fs bg.ibitmap
        let available := removeUsed sb bg.group (parseBitmap bitmap sb.inodesPerGroup)
          availableInodeIds
        if available.length = 0 then available else checkGroups bgs available

/-- `check_if_deleted_inodes` -/
def checkIfDeletedInodes (bgs : BlockGroups) (inodeIds : List Nat) : List Nat :=
  checkGroups fs sb bgs.rows inodeIds

end

/-! ## The used inodes -/

section

variable (fs : Nat → Byte) (sb : Ext4Layout) (bgs : BlockGroups)

/-- Bit `k` of the inode bitmaps, one behind the other. -/
def InodeBit (k : Nat) : Prop :=
  ∃ bg, bgs.rows[k / sb.inodesPerGroup]? = some bg ∧
    BitSet (blockBytes sb.toExt4Super fs bg.ibitmap) (k % sb.inodesPerGroup)

/-- The inode numbers of the file system. -/
def InodeNumber (inodeId : Nat) : Prop :=
  1 ≤ inodeId ∧ inodeId ≤ sb.inodesPerGroup * bgs.rows.length

instance (inodeId : Nat) : Decidable (InodeNumber sb bgs inodeId) :=
  inferInstanceAs (Decidable (_ ∧ _))

/-- The used inodes of a group, by their numbers. -/
def usedIds (bg : BlockGroup) : List Nat :=
  (parseBitmap (blockBytes sb.toExt4Super fs bg.ibitmap) sb.inodesPerGroup).map fun index =>
    index + sb.inodesPerGroup * bg.group + 1

end

section

variable {fs : Nat → Byte} {sb : Ext4Layout} {bgs : BlockGroups} {inodeId : Nat}
  {ids : List Nat}

variable (fs) in
/-- The single test reads the bit of the inode. -/
theorem isInodeDeleted_eq (hid : InodeNumber sb bgs inodeId) :
    ∃ deleted, isInodeDeleted fs sb bgs inodeId = some deleted ∧
      (deleted = true ↔ ¬InodeBit fs sb bgs (inodeId - 1)) := by
  rcases hid with ⟨hpos, hlast⟩
  have hgroup : ((inodeId : Int) - 1) / sb.inodesPerGroup =
      ((inodeId - 1) / sb.inodesPerGroup : Nat) := by
    rw [Int.natCast_ediv, Int.ofNat_sub hpos]
    rfl
  have hindex : (((inodeId : Int) - 1) % sb.inodesPerGroup).toNat =
      (inodeId - 1) % sb.inodesPerGroup := by
    have hcast : ((inodeId : Int) - 1) % sb.inodesPerGroup =
        ((inodeId - 1) % sb.inodesPerGroup : Nat) := by
      rw [Int.natCast_emod, Int.ofNat_sub hpos]
      rfl
    rw [hcast, Int.toNat_natCast]
  have hrange : (inodeId - 1) / sb.inodesPerGroup < bgs.rows.length := by
    rw [Nat.div_lt_iff_lt_mul sb.inodesPerGroup_pos, Nat.mul_comm]
    omega
  have hbg := List.getElem?_eq_getElem hrange
  have hbit : (inodeId - 1) % sb.inodesPerGroup <
      (blockBytes sb.toExt4Super fs
        (bgs.rows[(inodeId - 1) / sb.inodesPerGroup].ibitmap)).length * 8 := by
    rw [length_blockBytes]
    exact Nat.lt_of_lt_of_le (Nat.mod_lt _ sb.inodesPerGroup_pos) sb.inodesPerGroup_le
  rcases accessBit_eq_zero_iff hbit with ⟨bit, haccess, hzero⟩
  refine ⟨decide (bit = 0), ?_, ?_⟩
  · unfold isInodeDeleted
    dsimp only
    rw [hgroup, hindex, Slices.item_natCast, hbg]
    simp only [Option.bind_some, testBlockGroupsFlag_eq_false, Bool.false_eq_true, if_false,
      haccess, Option.map_some]
  · rw [decide_eq_true_iff, hzero]
    unfold InodeBit
    rw [hbg]
    simp only [Option.some.injEq, exists_eq_left']

theorem mem_usedIds_iff {bg : BlockGroup} :
    inodeId ∈ usedIds fs sb bg ↔
      ∃ index ∈ parseBitmap (blockBytes sb.toExt4Super fs bg.ibitmap) sb.inodesPerGroup,
        index + sb.inodesPerGroup * bg.group + 1 = inodeId :=
  List.mem_map

/-- The number of a used inode tells its group. -/
theorem group_of_mem_usedIds {bg : BlockGroup} (h : inodeId ∈ usedIds fs sb bg) :
    (inodeId - 1) / sb.inodesPerGroup = bg.group := by
  rcases mem_usedIds_iff.mp h with ⟨index, hindex, rfl⟩
  have hlt := (mem_parseBitmap.mp hindex).1
  rw [Nat.add_sub_cancel, Nat.add_mul_div_left _ _ sb.inodesPerGroup_pos,
    Nat.div_eq_of_lt hlt, Nat.zero_add]

theorem nodup_usedIds (bg : BlockGroup) : (usedIds fs sb bg).Nodup := by
  refine List.Nodup.map ?_ nodup_parseBitmap
  intro i j hsame
  exact Nat.add_right_cancel (Nat.succ_injective hsame)

variable (fs sb bgs) in
theorem nodup_flatMap_usedIds : (bgs.rows.flatMap (usedIds fs sb)).Nodup := by
  refine List.nodup_flatMap.mpr ⟨fun bg _ => nodup_usedIds bg, ?_⟩
  rw [List.pairwise_iff_getElem]
  intro i j hi hj hlt id hidI hidJ
  have hgroupI := bgs.numbered i _ (List.getElem?_eq_getElem hi)
  have hgroupJ := bgs.numbered j _ (List.getElem?_eq_getElem hj)
  have hsame := (group_of_mem_usedIds hidI).symm.trans (group_of_mem_usedIds hidJ)
  omega

theorem mem_flatMap_usedIds (hid : 1 ≤ inodeId) :
    inodeId ∈ bgs.rows.flatMap (usedIds fs sb) ↔ InodeBit fs sb bgs (inodeId - 1) := by
  unfold InodeBit
  rw [List.mem_flatMap, ← mem_groups_iff sb.inodesPerGroup_pos]
  refine exists_congr fun bg => and_congr_right fun _ => ?_
  rw [mem_usedIds_iff]
  refine exists_congr fun index => and_congr_right fun _ => ?_
  omega

/-! ## The list of available inodes -/

theorem removeUsed_eq (bg : BlockGroup) (ids : List Nat) :
    removeUsed sb bg.group
      (parseBitmap (blockBytes sb.toExt4Super fs bg.ibitmap) sb.inodesPerGroup) ids =
        ids.diff (usedIds fs sb bg) := by
  have herase : ∀ (available : List Nat) (id : Nat),
      (if id ∈ available then available.erase id else available) = available.erase id := by
    intro available id
    split_ifs with hmem
    · rfl
    · exact (List.erase_of_not_mem hmem).symm
  unfold removeUsed usedIds
  rw [List.diff_eq_foldl, List.foldl_map]
  simp only [herase]

theorem checkGroups_eq (rows : List BlockGroup) (ids : List Nat) :
    checkGroups fs sb rows ids = ids.diff (rows.flatMap (usedIds fs sb)) := by
  induction rows generalizing ids with
  | nil => rfl
  | cons bg rows ih =>
      rw [checkGroups, testBlockGroupsFlag_eq_false, if_neg Bool.false_ne_true]
      dsimp only
      rw [removeUsed_eq, List.flatMap_cons, List.diff_append, ih]
      split_ifs with hempty
      · rw [List.eq_nil_of_length_eq_zero hempty, List.nil_diff]
      · rfl

end

/-- The list of the batch test is that of the single test exactly where each used inode
is in the list once. -/
theorem checkIfDeletedInodes_eq_iff (fs : Nat → Byte) (sb : Ext4Layout) (bgs : BlockGroups)
    (ids : List Nat) (hids : ∀ id ∈ ids, InodeNumber sb bgs id) :
    checkIfDeletedInodes fs sb bgs ids =
        ids.filter (fun id => isInodeDeleted fs sb bgs id = some true) ↔
      ∀ id ∈ ids, isInodeDeleted fs sb bgs id = some false → ids.count id = 1 := by
  have hused : ∀ id ∈ ids,
      (id ∈ bgs.rows.flatMap (usedIds fs sb) ↔ isInodeDeleted fs sb bgs id = some false) ∧
      (isInodeDeleted fs sb bgs id = some true ↔ id ∉ bgs.rows.flatMap (usedIds fs sb)) := by
    intro id hid
    rcases isInodeDeleted_eq fs (hids id hid) with ⟨deleted, hdeleted, hbit⟩
    rw [mem_flatMap_usedIds (hids id hid).1, hdeleted]
    cases deleted with
    | true => simpa using hbit
    | false => simpa using hbit
  have hfilter : ids.filter (fun id => isInodeDeleted fs sb bgs id = some true) =
      ids.filter (· ∉ bgs.rows.flatMap (usedIds fs sb)) :=
    List.filter_congr fun id hid => decide_eq_decide.mpr (hused id hid).2
  rw [checkIfDeletedInodes, checkGroups_eq, hfilter,
    Removals.diff_eq_filter_iff (nodup_flatMap_usedIds fs sb bgs)]
  exact forall₂_congr fun id hid => imp_congr_left (hused id hid).1

/-- A device whose inode bitmap, in block 6, marks inode 12. -/
def inodeTwelveUsed (a : Nat) : Byte := if a = 6145 then 8 else 0

/-- Used and deleted inodes, each once. -/
theorem checkIfDeletedInodes_once :
    checkIfDeletedInodes inodeTwelveUsed smallBlocks oneGroup [12, 13] =
      [12, 13].filter fun id =>
        isInodeDeleted inodeTwelveUsed smallBlocks oneGroup id = some true := by
  refine (checkIfDeletedInodes_eq_iff inodeTwelveUsed smallBlocks oneGroup [12, 13] ?_).mpr ?_
  · decide
  · decide

/-- A used inode that is in the list twice is returned. -/
theorem checkIfDeletedInodes_twice :
    checkIfDeletedInodes inodeTwelveUsed smallBlocks oneGroup [12, 12] ≠
      [12, 12].filter fun id =>
        isInodeDeleted inodeTwelveUsed smallBlocks oneGroup id = some true := by
  decide +kernel

end RansomTag

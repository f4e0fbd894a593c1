import RansomTag.Library.Slices
import RansomTag.Usb.Command

/-!
# Update-sequence fix-up

NTFS writes a number into the last two bytes of each sector of a record and keeps the
bytes that were there in an array behind the number.  `usa_fixup` puts them back, in
the sectors that have the number.
-/

namespace RansomTag

/-! ## The fix-up -/

/-- The loop body of `usa_fixup`: `upos` is behind the words of the sectors before. -/
def fixSector (usaNum : List Byte) (usaOfs : Nat) (chunk : List Byte) (i : Nat) : List Byte :=
  let cpos := i * 512 + 510
  let upos := usaOfs + 2 + i * 2
  if chunk.extract cpos (cpos + 2) ≠ usaNum then chunk
  else Slices.splice chunk cpos (cpos + 2) (chunk.extract upos (upos + 2))

/-- `usa_fixup` -/
def usaFixup (chunk : List Byte) (usaOfs usaCount : Nat) : List Byte :=
  if usaOfs = 0 ∨ usaCount = 0 then chunk
  else
    let usaNum := chunk.extract usaOfs (usaOfs + 2)
    (List.range (chunk.length / 512)).foldl (fixSector usaNum usaOfs) chunk

/-! ## What is put back -/

/-- The sector ends with the number in front of the array. -/
def CarriesNumber (chunk : List Byte) (usaOfs i : Nat) : Prop :=
  chunk.extract (i * 512 + 510) (i * 512 + 510 + 2) = chunk.extract usaOfs (usaOfs + 2)

instance (chunk : List Byte) (usaOfs i : Nat) : Decidable (CarriesNumber chunk usaOfs i) :=
  inferInstanceAs (Decidable (_ = _))

/-- Where the saved byte of position `k`, at the end of its sector, is in the array. -/
def savedPosition (usaOfs k : Nat) : Nat := usaOfs + 2 + k / 512 * 2 + (k % 512 - 510)

/-- The position of the byte that is saved at `j` of the array. -/
def trailerPosition (usaOfs j : Nat) : Nat :=
  (j - usaOfs - 2) / 2 * 512 + 510 + (j - usaOfs - 2) % 2

/-- The protected form of a record: the number and the saved bytes are in the array, and
the number is at the end of each sector. -/
def protect (usaOfs : Nat) (usaNum original : List Byte) : List Byte :=
  (List.range original.length).map fun k =>
    if usaOfs ≤ k ∧ k < usaOfs + 2 then usaNum.getD (k - usaOfs) 0
    else if usaOfs + 2 ≤ k ∧ k < usaOfs + 2 + original.length / 512 * 2 then
      original.getD (trailerPosition usaOfs k) 0
    else if 510 ≤ k % 512 then usaNum.getD (k % 512 - 510) 0
    else original.getD k 0

section

variable {chunk : List Byte} {usaOfs usaCount n m : Nat}

/-- After the first `m` sectors, their ends are put back, where they had the number. -/
structure FixedUpTo (chunk : List Byte) (usaOfs m : Nat) (fixed : List Byte) : Prop where
  length_eq : fixed.length = chunk.length
  getElem?_eq : ∀ k, fixed[k]? =
    if k / 512 < m ∧ 510 ≤ k % 512 ∧ CarriesNumber chunk usaOfs (k / 512) then
      chunk[savedPosition usaOfs k]?
    else chunk[k]?

theorem FixedUpTo.extract_eq {fixed : List Byte} (h : FixedUpTo chunk usaOfs m fixed) {i j : Nat}
    (hkeep : ∀ k, i ≤ k → k < j → m ≤ k / 512 ∨ k % 512 < 510) :
    fixed.extract i j = chunk.extract i j := by
  refine Slices.extract_congr fun k hi hj => ?_
  rw [h.getElem?_eq, if_neg]
  rintro ⟨hsector, htrailer, -⟩
  rcases hkeep k hi hj with hle | hlt
  · omega
  · omega

/-- One pass of the loop, over a record of whole sectors with the array in the first. -/
theorem FixedUpTo.fixSector {fixed : List Byte} (h : FixedUpTo chunk usaOfs m fixed)
    (hlength : chunk.length = n * 512) (hfits : usaOfs + 2 + n * 2 ≤ 510) (hm : m < n) :
    FixedUpTo chunk usaOfs (m + 1)
      (fixSector (chunk.extract usaOfs (usaOfs + 2)) usaOfs fixed m) := by
  have hinside : m * 512 + 510 + 2 ≤ fixed.length := by
    rw [h.length_eq, hlength]
    omega
  have htrailer : fixed.extract (m * 512 + 510) (m * 512 + 510 + 2) =
      chunk.extract (m * 512 + 510) (m * 512 + 510 + 2) :=
    h.extract_eq fun k hi hj => .inl (by omega)
  have hword : fixed.extract (usaOfs + 2 + m * 2) (usaOfs + 2 + m * 2 + 2) =
      chunk.extract (usaOfs + 2 + m * 2) (usaOfs + 2 + m * 2 + 2) :=
    h.extract_eq fun k hi hj => .inr (by omega)
  have hwordLength : (chunk.extract (usaOfs + 2 + m * 2) (usaOfs + 2 + m * 2 + 2)).length =
      m * 512 + 510 + 2 - (m * 512 + 510) := by
    rw [Slices.length_extract (by omega)]
    omega
  unfold RansomTag.fixSector
  simp only [htrailer, hword]
  by_cases hcarries : chunk.extract (m * 512 + 510) (m * 512 + 510 + 2) =
      chunk.extract usaOfs (usaOfs + 2)
  · rw [if_neg (not_not_intro hcarries)]
    constructor
    · rw [Slices.length_splice (Nat.le_add_right _ _) hinside hwordLength, h.length_eq]
    · intro k
      rw [Slices.getElem?_splice (Nat.le_add_right _ _) hinside hwordLength, h.getElem?_eq,
        Slices.getElem?_extract]
      by_cases hsector : k / 512 = m
      · by_cases hend : 510 ≤ k % 512
        · have hsaved : usaOfs + 2 + m * 2 + (k - (m * 512 + 510)) = savedPosition usaOfs k := by
            unfold savedPosition
            omega
          rw [if_pos (by omega), if_pos (by omega), hsaved,
            if_pos ⟨by omega, hend, by rw [hsector]; exact hcarries⟩]
        · rw [if_neg (by omega), if_neg (fun hk => hend hk.2.1),
            if_neg (fun hk => hend hk.2.1)]
      · have hother : k / 512 < m ↔ k / 512 < m + 1 := by omega
        rw [if_neg (by omega)]
        simp only [hother]
  · rw [if_pos hcarries]
    refine ⟨h.length_eq, fun k => ?_⟩
    rw [h.getElem?_eq]
    by_cases hsector : k / 512 = m
    · have hkept : ¬CarriesNumber chunk usaOfs (k / 512) := by
        rw [hsector]
        exact hcarries
      rw [if_neg (fun hk => hkept hk.2.2), if_neg (fun hk => hkept hk.2.2)]
    · have hother : k / 512 < m ↔ k / 512 < m + 1 := by omega
      simp only [hother]

theorem fixedUpTo_foldl (hlength : chunk.length = n * 512) (hfits : usaOfs + 2 + n * 2 ≤ 510)
    (hm : m ≤ n) :
    FixedUpTo chunk usaOfs m
      ((List.range m).foldl (RansomTag.fixSector (chunk.extract usaOfs (usaOfs + 2)) usaOfs)
        chunk) := by
  induction m with
  | zero =>
      refine ⟨rfl, fun k => ?_⟩
      rw [if_neg (fun hk => Nat.not_lt_zero _ hk.1)]
      rfl
  | succ m ih =>
      have hlast := (ih (Nat.le_of_succ_le hm)).fixSector hlength hfits hm
      rw [List.range_succ, List.foldl_append, List.foldl_cons, List.foldl_nil]
      exact hlast

/-- The sectors with the number get their saved bytes, and all else is kept. -/
theorem fixedUpTo_usaFixup (hlength : chunk.length = n * 512)
    (hfits : usaOfs + 2 + n * 2 ≤ 510) (hofs : usaOfs ≠ 0) (hcount : usaCount ≠ 0) :
    FixedUpTo chunk usaOfs n (usaFixup chunk usaOfs usaCount) := by
  have hsectors : chunk.length / 512 = n := by omega
  have hfixed := fixedUpTo_foldl hlength hfits (Nat.le_refl n)
  unfold usaFixup
  rw [if_neg (not_or_intro hofs hcount)]
  dsimp only
  rw [hsectors]
  exact hfixed

theorem getElem?_usaFixup (hlength : chunk.length = n * 512)
    (hfits : usaOfs + 2 + n * 2 ≤ 510) (hofs : usaOfs ≠ 0) (hcount : usaCount ≠ 0) {k : Nat}
    (hk : k < chunk.length) :
    (usaFixup chunk usaOfs usaCount)[k]? =
      if 510 ≤ k % 512 ∧ CarriesNumber chunk usaOfs (k / 512) then
        chunk[savedPosition usaOfs k]?
      else chunk[k]? := by
  have hsector : k / 512 < n := by omega
  rw [(fixedUpTo_usaFixup hlength hfits hofs hcount).getElem?_eq]
  simp only [hsector, true_and]

/-! ## The protected form -/

variable {usaNum original : List Byte}

@[simp] theorem length_protect : (protect usaOfs usaNum original).length = original.length := by
  simp [protect]

theorem getElem?_protect {k : Nat} (hk : k < original.length) :
    (protect usaOfs usaNum original)[k]? = some
      (if usaOfs ≤ k ∧ k < usaOfs + 2 then usaNum.getD (k - usaOfs) 0
      else if usaOfs + 2 ≤ k ∧ k < usaOfs + 2 + original.length / 512 * 2 then
        original.getD (trailerPosition usaOfs k) 0
      else if 510 ≤ k % 512 then usaNum.getD (k % 512 - 510) 0
      else original.getD k 0) := by
  unfold protect
  rw [List.getElem?_map, List.getElem?_range hk]
  rfl

/-- Each sector of the protected form has the number. -/
theorem carriesNumber_protect (hlength : original.length = n * 512)
    (hfits : usaOfs + 2 + n * 2 ≤ 510) {i : Nat} (hi : i < n) :
    CarriesNumber (protect usaOfs usaNum original) usaOfs i := by
  unfold CarriesNumber
  refine List.ext_getElem? fun j => ?_
  rw [Slices.getElem?_extract, Slices.getElem?_extract]
  by_cases hj : j < 2
  · have hindex : (i * 512 + 510 + j) % 512 - 510 = usaOfs + j - usaOfs := by omega
    rw [if_pos (by omega), if_pos (by omega), getElem?_protect (by omega),
      getElem?_protect (by omega), if_neg (by omega), if_neg (by omega), if_pos (by omega),
      if_pos (by omega), hindex]
  · rw [if_neg (by omega), if_neg (by omega)]

/-- The saved byte of a position is its own. -/
theorem getElem?_savedPosition (hlength : original.length = n * 512)
    (hfits : usaOfs + 2 + n * 2 ≤ 510) {k : Nat} (hk : k < original.length)
    (hend : 510 ≤ k % 512) :
    (protect usaOfs usaNum original)[savedPosition usaOfs k]? = original[k]? := by
  have hsaved : savedPosition usaOfs k - usaOfs - 2 = k / 512 * 2 + (k % 512 - 510) := by
    unfold savedPosition
    omega
  have htrailer : trailerPosition usaOfs (savedPosition usaOfs k) = k := by
    unfold trailerPosition
    rw [hsaved]
    omega
  have hlow : usaOfs + 2 ≤ savedPosition usaOfs k := by
    unfold savedPosition
    omega
  have hhigh : savedPosition usaOfs k < usaOfs + 2 + original.length / 512 * 2 := by
    unfold savedPosition
    omega
  rw [getElem?_protect (by omega), if_neg (by omega), if_pos ⟨hlow, hhigh⟩, htrailer,
    List.getD_eq_getElem?_getD, List.getElem?_eq_getElem hk]
  rfl

/-- Outside of the array and of the ends of the sectors, the record is as it was. -/
theorem getElem?_protect_of_body {k : Nat} (hk : k < original.length)
    (harray : k < usaOfs ∨ usaOfs + 2 + original.length / 512 * 2 ≤ k) (hbody : k % 512 < 510) :
    (protect usaOfs usaNum original)[k]? = original[k]? := by
  rw [getElem?_protect hk, if_neg (by omega), if_neg (by omega), if_neg (by omega),
    List.getD_eq_getElem?_getD, List.getElem?_eq_getElem hk]
  rfl

theorem usaFixup_protect (hlength : original.length = n * 512)
    (hfits : usaOfs + 2 + n * 2 ≤ 510) (hofs : usaOfs ≠ 0) (hcount : usaCount ≠ 0) {k : Nat}
    (hk : k < original.length)
    (harray : k < usaOfs ∨ usaOfs + 2 + original.length / 512 * 2 ≤ k) :
    (usaFixup (protect usaOfs usaNum original) usaOfs usaCount)[k]? = original[k]? := by
  have hprotected : (protect usaOfs usaNum original).length = n * 512 :=
    length_protect.trans hlength
  rw [getElem?_usaFixup hprotected hfits hofs hcount (by rw [length_protect]; exact hk)]
  by_cases hend : 510 ≤ k % 512
  · have hcarries : CarriesNumber (protect usaOfs usaNum original) usaOfs (k / 512) :=
      carriesNumber_protect hlength hfits (by omega)
    rw [if_pos ⟨hend, hcarries⟩, getElem?_savedPosition hlength hfits hk hend]
  · rw [if_neg fun h => hend h.1, getElem?_protect_of_body hk harray (by omega)]

end

/-- With the array behind the first byte, the protected form gets all bytes outside of
the array back; and in any record, the sectors with the number get their saved bytes
while the others are kept. -/
theorem usaFixup_restores (n usaOfs usaCount : Nat) (hofs : usaOfs ≠ 0)
    (hfits : usaOfs + 2 + n * 2 ≤ 510) (hcount : usaCount ≠ 0) :
    (∀ original usaNum : List Byte, original.length = n * 512 →
      ∀ k < original.length, (k < usaOfs ∨ usaOfs + 2 + n * 2 ≤ k) →
        (usaFixup (protect usaOfs usaNum original) usaOfs usaCount)[k]? = original[k]?) ∧
    ∀ chunk : List Byte, chunk.length = n * 512 →
      (usaFixup chunk usaOfs usaCount).length = chunk.length ∧
      ∀ k < chunk.length, (usaFixup chunk usaOfs usaCount)[k]? =
        if 510 ≤ k % 512 ∧ CarriesNumber chunk usaOfs (k / 512) then
          chunk[savedPosition usaOfs k]?
        else chunk[k]? := by
  constructor
  · intro original usaNum hlength k hk harray
    have hsectors : original.length / 512 = n := by omega
    rw [← hsectors] at harray
    exact usaFixup_protect hlength hfits hofs hcount hk harray
  · intro chunk hlength
    exact ⟨(fixedUpTo_usaFixup hlength hfits hofs hcount).length_eq,
      fun k hk => getElem?_usaFixup hlength hfits hofs hcount hk⟩

/-- A record of two sectors with its array at offset 48. -/
theorem usaFixup_two_sectors :
    (∀ original usaNum : List Byte, original.length = 2 * 512 →
      ∀ k < original.length, (k < 48 ∨ 48 + 2 + 2 * 2 ≤ k) →
        (usaFixup (protect 48 usaNum original) 48 3)[k]? = original[k]?) ∧
    ∀ chunk : List Byte, chunk.length = 2 * 512 →
      (usaFixup chunk 48 3).length = chunk.length ∧
      ∀ k < chunk.length, (usaFixup chunk 48 3)[k]? =
        if 510 ≤ k % 512 ∧ CarriesNumber chunk 48 (k / 512) then chunk[savedPosition 48 k]?
        else chunk[k]? :=
  usaFixup_restores 2 48 3 (by decide) (by decide) (by decide)

/-- With the array at offset 0, the record is left in its protected form. -/
theorem usaFixup_offset_zero :
    ¬∀ original usaNum : List Byte, original.length = 1 * 512 → usaNum.length = 2 →
      ∀ k < original.length, (k < 0 ∨ 0 + 2 + 1 * 2 ≤ k) →
        (usaFixup (protect 0 usaNum original) 0 2)[k]? = original[k]? := by
  intro hrestores
  have hlength : (List.replicate 512 (7 : Byte)).length = 512 := List.length_replicate
  have hinside : 510 < (List.replicate 512 (7 : Byte)).length := by
    rw [hlength]
    decide
  have hkept := hrestores (List.replicate 512 7) [1, 1] hlength rfl 510 hinside
    (.inr (by decide))
  exact absurd hkept (by decide +kernel)

end RansomTag

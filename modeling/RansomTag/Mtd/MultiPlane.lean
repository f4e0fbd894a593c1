import RansomTag.Ftl.State

/-!
# Multi-plane pages

`MTD_Read` and `MTD_Program` of `mtd_api.c` over the transfers of `drv_nand.c`.
A page of the layers above is one NAND page in each plane of a die, and what the
controller reports for each sector of each transfer is a parameter.
-/

namespace RansomTag

@[simp, reducible] def sectorPerPage : Nat := 4
def pageSize : Nat := sectorSize * sectorPerPage
@[simp, reducible] def spareWordsInPage : Nat := 4
@[simp, reducible] def mtdMaxRetryTimes : Nat := 3

/-- `PLANE_PER_DIE_SHIFT`; the loops over the planes count in a `UINT8`. -/
class NandGeometry where
  planePerDieShift : Nat
  planePerDieShift_lt : planePerDieShift < 8

def planePerDie [NandGeometry] : Nat := 2 ^ NandGeometry.planePerDieShift

/-- `K9WAG08` has two planes. -/
@[reducible] def twoPlanes : NandGeometry where
  planePerDieShift := 1
  planePerDieShift_lt := by decide

/-! ## Transfers -/

/-- A page of one plane. -/
structure PlanePage where
  main : Buffer
  spare : Nat → Nat

/-- What the controller flags once a sector has arrived. -/
inductive SectorStatus where
  | good
  | erased
  | eccError
  deriving DecidableEq

/-- The statuses of a transfer. -/
inductive TransferStatus where
  | success
  | failure
  | eccError
  deriving DecidableEq

/-- The memory around the caller's buffers: `bytes` counts from the start of
the page buffer and goes on behind its end, `stored` are the places at which a
sector was stored, the latest first. -/
structure CallerMemory where
  bytes : Buffer
  stored : List Nat
  spare : Nat → Nat

/-- The memory before a call. -/
def CallerMemory.before (bytes : Buffer) (spare : Nat → Nat) : CallerMemory where
  bytes := bytes
  stored := []
  spare := spare

/-- Sector `i` of a page copied out of the controller; either buffer may be
`NULL`. -/
def CallerMemory.copySector (m : CallerMemory) (cell : PlanePage) (readBuffer : Option Nat)
    (spareData : Bool) (i : Nat) : CallerMemory where
  bytes :=
    match readBuffer with
    | none => m.bytes
    | some dest =>
        m.bytes.splice (dest + i * sectorSize) sectorSize
          fun k => cell.main.byte (i * sectorSize + k)
  stored :=
    match readBuffer with
    | none => m.stored
    | some dest => (dest + i * sectorSize) :: m.stored
  spare :=
    if spareData ∧ i < spareWordsInPage then fun j => if j = i then cell.spare i else m.spare j
    else m.spare

/-- The sectors of a page from `i` on, `n` of them. -/
def receiveSectors (cell : PlanePage) (report : Nat → SectorStatus) (readBuffer : Option Nat)
    (spareData : Bool) : Nat → Nat → CallerMemory → TransferStatus × CallerMemory
  | 0, _, m => (.success, m)
  | n + 1, i, m =>
      match report i with
      | .erased => (.failure, m)
      | .eccError => (.eccError, m)
      | .good =>
          receiveSectors cell report readBuffer spareData n (i + 1)
            (m.copySector cell readBuffer spareData i)

def nandReceiveData (cell : PlanePage) (report : Nat → SectorStatus) (readBuffer : Option Nat)
    (spareData : Bool) (m : CallerMemory) : TransferStatus × CallerMemory :=
  receiveSectors cell report readBuffer spareData sectorPerPage 0 m

/-- The driver does not correct errors. -/
def nandEccStatus : Bool := false

/-- What a plane latches from `NAND_SendData`. -/
def nandSendData (writeBuffer : Buffer) (first : Nat) (spareData : Nat → Nat) : PlanePage where
  main := .bytes (.ofFn fun i => writeBuffer.byte (first + i))
  spare := fun i => if i < spareWordsInPage then spareData i else 0

/-! ## Pages -/

section

variable [NandGeometry]

def mtdRowAddress (block plane page : Nat) : Nat :=
  (block * planePerDie + plane) * pagePerPhyBlock + page

/-- The planes from `plane` on, `n` of them, of one attempt.  The destination
moves to the next page after each plane that arrives. -/
def readPlanes (nand : Nat → PlanePage) (report : Nat → Nat → SectorStatus) (block page : Nat)
    (spare : Bool) : Nat → Nat → Option Nat → CallerMemory → Status × Option Nat × CallerMemory
  | 0, _, buffer, m => (.success, buffer, m)
  | n + 1, plane, buffer, m =>
      let (ret, m) := nandReceiveData (nand (mtdRowAddress block plane page)) (report plane)
        buffer spare m
      if ret ≠ .success ∧ nandEccStatus = false then (.failure, buffer, m)
      else readPlanes nand report block page spare n (plane + 1) (buffer.map (· + pageSize)) m

/-- The attempts from `retryTimes` on, `n` of them.  The next attempt goes on
with the destination where this one left it. -/
def readAttempts (nand : Nat → PlanePage) (report : Nat → Nat → Nat → SectorStatus)
    (block page : Nat) (spare : Bool) :
    Nat → Nat → Option Nat → CallerMemory → Status × CallerMemory
  | 0, _, _, m => (.success, m)
  | n + 1, retryTimes, buffer, m =>
      let (ret, buffer, m) :=
        readPlanes nand (report retryTimes) block page spare planePerDie 0 buffer m
      if ret = .failure ∧ retryTimes < mtdMaxRetryTimes - 1 then
        readAttempts nand report block page spare n (retryTimes + 1) buffer m
      else (ret, m)

/-- `MTD_Read`; `report` is indexed by the attempt, the plane and the sector,
`buffer` and `spare` say whether the caller passed one. -/
def mtdRead (nand : Nat → PlanePage) (report : Nat → Nat → Nat → SectorStatus)
    (block page : Nat) (buffer spare : Bool) (m : CallerMemory) : Status × CallerMemory :=
  readAttempts nand report block page spare mtdMaxRetryTimes 0 (if buffer then some 0 else none) m

/-- One plane of `MTD_Program`, on an erased page. -/
def programPlane (block page : Nat) (buffer : Buffer) (spare : Nat → Nat)
    (nand : Nat → PlanePage) (plane : Nat) : Except Stop (Nat → PlanePage) :=
  if plane = 0 then
    .ok (Function.update nand (mtdRowAddress block plane page) (nandSendData buffer 0 spare))
  else if planePerDie = 2 then
    .ok (Function.update nand (mtdRowAddress block plane page)
      (nandSendData buffer pageSize spare))
  else .error .assertion

def mtdProgram (nand : Nat → PlanePage) (block page : Nat) (buffer : Buffer)
    (spare : Nat → Nat) : Except Stop (Nat → PlanePage) :=
  (List.range planePerDie).foldlM (programPlane block page buffer spare) nand

/-! ## What a page holds -/

/-- The planes of a page hold `data`, cut into pages, and each of them the
spare words. -/
structure HoldsPage (nand : Nat → PlanePage) (block page : Nat) (data : Buffer)
    (spare : Nat → Nat) : Prop where
  main : ∀ plane < planePerDie, ∀ i < pageSize,
    (nand (mtdRowAddress block plane page)).main.byte i = data.byte (plane * pageSize + i)
  spare : ∀ plane < planePerDie, ∀ j < spareWordsInPage,
    (nand (mtdRowAddress block plane page)).spare j = spare j

theorem planePerDie_pos : 0 < planePerDie := Nat.pow_pos (by decide)

/-- Both planes of a programmed page carry the caller's spare words. -/
theorem mtdProgram_holds {nand nand' : Nat → PlanePage} {block page : Nat} {buffer : Buffer}
    {spare : Nat → Nat} (h : mtdProgram nand block page buffer spare = .ok nand') :
    HoldsPage nand' block page buffer spare := by
  unfold mtdProgram at h
  have hpos := planePerDie_pos
  rcases Nat.lt_or_ge planePerDie 2 with hone | htwo
  · obtain hone : planePerDie = 1 := by omega
    rw [hone] at h
    cases h
    constructor
    · intro plane hplane i hi
      obtain rfl : plane = 0 := by omega
      simp [nandSendData, Buffer.byte]
    · intro plane hplane j hj
      obtain rfl : plane = 0 := by omega
      simp [nandSendData, hj]
  · obtain ⟨n, hn⟩ : ∃ n, planePerDie = n + 2 := ⟨planePerDie - 2, by omega⟩
    rw [hn, List.range_eq_range', List.range'_succ, List.range'_succ] at h
    by_cases htwo : planePerDie = 2
    · obtain rfl : n = 0 := by omega
      simp only [programPlane, htwo, List.range'_zero, List.foldlM_cons, List.foldlM_nil, bind,
        Except.bind, pure, Except.pure, if_true] at h
      rw [if_neg (by decide)] at h
      cases h
      have hrow : mtdRowAddress block 0 page ≠ mtdRowAddress block 1 page := by
        simp only [mtdRowAddress, pagePerPhyBlock]
        omega
      constructor
      · intro plane hplane i hi
        obtain rfl | rfl : plane = 0 ∨ plane = 1 := by omega
        · rw [Function.update_of_ne hrow, Function.update_self]
          simp [nandSendData, Buffer.byte]
        · rw [Function.update_self]
          simp [nandSendData, Buffer.byte]
      · intro plane hplane j hj
        obtain rfl | rfl : plane = 0 ∨ plane = 1 := by omega
        · rw [Function.update_of_ne hrow, Function.update_self]
          simp [nandSendData, hj]
        · rw [Function.update_self]
          simp [nandSendData, hj]
    · simp [programPlane, htwo, bind, Except.bind] at h

end

/-! ## What arrives -/

section

variable (cell : PlanePage) (report : Nat → SectorStatus) (spare : Bool)

def PlaneArrives : Prop := ∀ k < sectorPerPage, report k = .good

instance : Decidable (PlaneArrives report) :=
  inferInstanceAs (Decidable (∀ k < sectorPerPage, report k = .good))

theorem receiveSectors_status (buffer : Option Nat) (n i : Nat) (m : CallerMemory) :
    (receiveSectors cell report buffer spare n i m).1 = .success ↔
      ∀ k, i ≤ k → k < i + n → report k = .good := by
  induction n generalizing i m with
  | zero =>
      simp only [receiveSectors, true_iff]
      intro k hk hlt
      omega
  | succ n ih =>
      have hsplit : (∀ k, i ≤ k → k < i + (n + 1) → report k = .good) ↔
          report i = .good ∧ ∀ k, i + 1 ≤ k → k < i + 1 + n → report k = .good := by
        constructor
        · intro h
          exact ⟨h i (by omega) (by omega), fun k hk hlt => h k (by omega) (by omega)⟩
        · rintro ⟨hi, h⟩ k hk hlt
          rcases Nat.lt_or_eq_of_le hk with hik | hik
          · exact h k hik (by omega)
          · exact hik ▸ hi
      rw [hsplit, receiveSectors]
      cases hr : report i <;> simp [ih]

theorem nandReceiveData_status (buffer : Option Nat) (m : CallerMemory) :
    (nandReceiveData cell report buffer spare m).1 = .success ↔ PlaneArrives report := by
  rw [nandReceiveData, receiveSectors_status]
  simp [PlaneArrives]

/-- The sectors before the first one that fails are stored, one after the other. -/
theorem mem_stored_receiveSectors (dest n i d : Nat) (m : CallerMemory) :
    d ∈ (receiveSectors cell report (some dest) spare n i m).2.stored ↔
      d ∈ m.stored ∨ ∃ k, k < n ∧ (∀ j ≤ k, report (i + j) = .good) ∧
        d = dest + (i + k) * sectorSize := by
  induction n generalizing i m with
  | zero => simp [receiveSectors]
  | succ n ih =>
      rw [receiveSectors]
      by_cases hr : report i = .good
      · rw [hr]
        simp only [ih, CallerMemory.copySector, List.mem_cons]
        constructor
        · rintro ((hd | hd) | ⟨k, hk, hgood, hd⟩)
          · refine Or.inr ⟨0, by omega, ?_, hd⟩
            intro j hj
            obtain rfl : j = 0 := by omega
            exact hr
          · exact Or.inl hd
          · refine Or.inr ⟨k + 1, by omega, ?_, by rw [hd, Nat.add_right_comm, Nat.add_assoc]⟩
            intro j hj
            cases j with
            | zero => exact hr
            | succ j =>
                have := hgood j (by omega)
                rwa [Nat.add_right_comm, Nat.add_assoc] at this
        · rintro (hd | ⟨k, hk, hgood, hd⟩)
          · exact Or.inl (Or.inr hd)
          · cases k with
            | zero => exact Or.inl (Or.inl hd)
            | succ k =>
                refine Or.inr ⟨k, by omega, ?_, by rw [hd, Nat.add_right_comm, Nat.add_assoc]⟩
                intro j hj
                have := hgood (j + 1) (by omega)
                rwa [← Nat.add_assoc, Nat.add_right_comm] at this
      · have hnone : ¬ ∃ k, k < n + 1 ∧ (∀ j ≤ k, report (i + j) = .good) ∧
            d = dest + (i + k) * sectorSize := by
          rintro ⟨k, -, hgood, -⟩
          exact hr (hgood 0 (Nat.zero_le k))
        simp only [hnone, or_false]
        cases h : report i with
        | good => exact absurd h hr
        | erased => rfl
        | eccError => rfl

theorem stored_receiveSectors_null (n i : Nat) (m : CallerMemory) :
    (receiveSectors cell report none spare n i m).2.stored = m.stored := by
  induction n generalizing i m with
  | zero => rfl
  | succ n ih =>
      rw [receiveSectors]
      cases report i with
      | good => exact ih (i + 1) _
      | erased => rfl
      | eccError => rfl

/-- A page that arrives fills its part of the buffer and nothing else. -/
theorem bytes_receiveSectors {dest n i : Nat} {m : CallerMemory}
    (h : (receiveSectors cell report (some dest) spare n i m).1 = .success) (x : Nat) :
    (receiveSectors cell report (some dest) spare n i m).2.bytes.byte x =
      if dest + i * sectorSize ≤ x ∧ x < dest + (i + n) * sectorSize then cell.main.byte (x - dest)
      else m.bytes.byte x := by
  induction n generalizing i m with
  | zero =>
      have : ¬ (dest + i * sectorSize ≤ x ∧ x < dest + (i + 0) * sectorSize) := by
        rw [Nat.add_zero]
        omega
      rw [if_neg this]
      rfl
  | succ n ih =>
      rw [receiveSectors] at h ⊢
      cases hr : report i with
      | erased => rw [hr] at h; cases h
      | eccError => rw [hr] at h; cases h
      | good =>
          rw [hr] at h
          simp only at h ⊢
          rw [ih h]
          simp only [CallerMemory.copySector, Buffer.byte_splice, sectorSize]
          split_ifs with h1 h2 h3 h4 h5
          all_goals first
            | rfl
            | omega
            | exact congrArg _ (by omega)

theorem spare_copySector (buffer : Option Nat) (i j : Nat) (m : CallerMemory)
    (hj : j < spareWordsInPage) :
    (m.copySector cell buffer true i).spare j = if j = i then cell.spare i else m.spare j := by
  by_cases hi : i < spareWordsInPage
  · simp only [CallerMemory.copySector, true_and, hi, if_true]
  · have hne : j ≠ i := by omega
    simp only [CallerMemory.copySector, true_and, hi, if_false, hne]

theorem spare_receiveSectors {buffer : Option Nat} {n i : Nat} {m : CallerMemory}
    (h : (receiveSectors cell report buffer true n i m).1 = .success) (j : Nat)
    (hj : j < spareWordsInPage) :
    (receiveSectors cell report buffer true n i m).2.spare j =
      if i ≤ j ∧ j < i + n then cell.spare j else m.spare j := by
  induction n generalizing i m with
  | zero =>
      rw [if_neg (by omega)]
      rfl
  | succ n ih =>
      rw [receiveSectors] at h ⊢
      cases hr : report i with
      | erased => rw [hr] at h; cases h
      | eccError => rw [hr] at h; cases h
      | good =>
          rw [hr] at h
          simp only at h ⊢
          rw [ih h, spare_copySector cell buffer i j m hj]
          by_cases hji : j = i
          · subst hji
            rw [if_neg (by omega), if_pos rfl, if_pos (by omega)]
          · rw [if_neg hji]
            by_cases hin : i + 1 ≤ j ∧ j < i + 1 + n
            · rw [if_pos hin, if_pos (by omega)]
            · rw [if_neg hin, if_neg (by omega)]

end

/-! ## Attempts -/

section

variable (report : Nat → Nat → SectorStatus)

/-- The planes of one attempt that arrive before the first that does not. -/
def planesPassed (report : Nat → Nat → SectorStatus) : Nat → Nat → Nat
  | 0, _ => 0
  | n + 1, plane =>
      if PlaneArrives (report plane) then planesPassed report n (plane + 1) + 1 else 0

theorem planesPassed_le (n plane : Nat) : planesPassed report n plane ≤ n := by
  induction n generalizing plane with
  | zero => rfl
  | succ n ih =>
      rw [planesPassed]
      have := ih (plane + 1)
      split <;> omega

variable [NandGeometry] (nand : Nat → PlanePage) (block page : Nat) (spare : Bool)
variable {report}

theorem readPlanes_passes {n plane : Nat} {buffer : Option Nat} {m : CallerMemory}
    (h : PlaneArrives (report plane)) :
    readPlanes nand report block page spare (n + 1) plane buffer m =
      readPlanes nand report block page spare n (plane + 1) (buffer.map (· + pageSize))
        (nandReceiveData (nand (mtdRowAddress block plane page)) (report plane)
          buffer spare m).2 := by
  have hret := (nandReceiveData_status (nand (mtdRowAddress block plane page)) (report plane)
    spare buffer m).mpr h
  rw [readPlanes]
  simp [hret]

theorem readPlanes_fails {n plane : Nat} {buffer : Option Nat} {m : CallerMemory}
    (h : ¬ PlaneArrives (report plane)) :
    readPlanes nand report block page spare (n + 1) plane buffer m =
      (.failure, buffer,
        (nandReceiveData (nand (mtdRowAddress block plane page)) (report plane)
          buffer spare m).2) := by
  have hret := mt (nandReceiveData_status (nand (mtdRowAddress block plane page)) (report plane)
    spare buffer m).mp h
  rw [readPlanes]
  simp [hret, nandEccStatus]

variable (report)

theorem readPlanes_status (n plane : Nat) (buffer : Option Nat) (m : CallerMemory) :
    (readPlanes nand report block page spare n plane buffer m).1 =
      if planesPassed report n plane = n then .success else .failure := by
  induction n generalizing plane buffer m with
  | zero => rfl
  | succ n ih =>
      by_cases h : PlaneArrives (report plane)
      · rw [readPlanes_passes nand block page spare h, ih, planesPassed, if_pos h]
        simp
      · rw [readPlanes_fails nand block page spare h, planesPassed, if_neg h]
        simp

theorem readPlanes_buffer (n plane : Nat) (buffer : Option Nat) (m : CallerMemory) :
    (readPlanes nand report block page spare n plane buffer m).2.1 =
      buffer.map (· + planesPassed report n plane * pageSize) := by
  induction n generalizing plane buffer m with
  | zero => cases buffer <;> simp [readPlanes, planesPassed]
  | succ n ih =>
      by_cases h : PlaneArrives (report plane)
      · rw [readPlanes_passes nand block page spare h, ih, planesPassed, if_pos h]
        cases buffer with
        | none => simp
        | some dest =>
            simp only [Option.map_some, Option.some.injEq]
            ring
      · rw [readPlanes_fails nand block page spare h, planesPassed, if_neg h]
        cases buffer <;> simp

/-- Every plane up to the first that fails stores the sectors that reach it. -/
theorem mem_stored_readPlanes (n plane dest d : Nat) (m : CallerMemory) :
    d ∈ (readPlanes nand report block page spare n plane (some dest) m).2.2.stored ↔
      d ∈ m.stored ∨ ∃ p k, p < n ∧ p ≤ planesPassed report n plane ∧ k < sectorPerPage ∧
        (∀ j ≤ k, report (plane + p) j = .good) ∧ d = dest + p * pageSize + k * sectorSize := by
  have hplane (cell : PlanePage) (report : Nat → SectorStatus) (dest : Nat) (m : CallerMemory) :
      d ∈ (nandReceiveData cell report (some dest) spare m).2.stored ↔
        d ∈ m.stored ∨ ∃ k, k < sectorPerPage ∧ (∀ j ≤ k, report j = .good) ∧
          d = dest + k * sectorSize := by
    rw [nandReceiveData, mem_stored_receiveSectors]
    simp only [Nat.zero_add]
  induction n generalizing plane dest m with
  | zero => simp [readPlanes]
  | succ n ih =>
      by_cases h : PlaneArrives (report plane)
      · rw [readPlanes_passes nand block page spare h, Option.map_some]
        refine (ih (plane + 1) (dest + pageSize) _).trans ?_
        rw [hplane, planesPassed, if_pos h]
        constructor
        · rintro ((hd | ⟨k, hk, hgood, hd⟩) | ⟨p, k, hp, hle, hk, hgood, hd⟩)
          · exact Or.inl hd
          · exact Or.inr ⟨0, k, by omega, by omega, hk, hgood, by omega⟩
          · refine Or.inr ⟨p + 1, k, by omega, by omega, hk, ?_, ?_⟩
            · rwa [Nat.add_right_comm, Nat.add_assoc] at hgood
            · rw [hd, Nat.succ_mul]
              omega
        · rintro (hd | ⟨p, k, hp, hle, hk, hgood, hd⟩)
          · exact Or.inl (Or.inl hd)
          · cases p with
            | zero => exact Or.inl (Or.inr ⟨k, hk, hgood, by omega⟩)
            | succ p =>
                refine Or.inr ⟨p, k, by omega, by omega, hk, ?_, ?_⟩
                · rwa [← Nat.add_assoc, Nat.add_right_comm] at hgood
                · rw [hd, Nat.succ_mul]
                  omega
      · rw [readPlanes_fails nand block page spare h, hplane, planesPassed, if_neg h]
        constructor
        · rintro (hd | ⟨k, hk, hgood, hd⟩)
          · exact Or.inl hd
          · exact Or.inr ⟨0, k, by omega, le_rfl, hk, hgood, by omega⟩
        · rintro (hd | ⟨p, k, hp, hle, hk, hgood, hd⟩)
          · exact Or.inl hd
          · obtain rfl : p = 0 := by omega
            exact Or.inr ⟨k, hk, hgood, by omega⟩

theorem stored_readPlanes_null (n plane : Nat) (m : CallerMemory) :
    (readPlanes nand report block page spare n plane none m).2.2.stored = m.stored := by
  have hplane (cell : PlanePage) (report : Nat → SectorStatus) (m : CallerMemory) :
      (nandReceiveData cell report none spare m).2.stored = m.stored :=
    stored_receiveSectors_null cell report spare sectorPerPage 0 m
  induction n generalizing plane m with
  | zero => rfl
  | succ n ih =>
      by_cases h : PlaneArrives (report plane)
      · rw [readPlanes_passes nand block page spare h, Option.map_none, ih, hplane]
      · rw [readPlanes_fails nand block page spare h, hplane]

/-- An attempt in which every plane arrives puts them one after the other from
the destination on. -/
theorem bytes_readPlanes {n plane dest : Nat} {m : CallerMemory}
    (h : planesPassed report n plane = n) (x : Nat) :
    (readPlanes nand report block page spare n plane (some dest) m).2.2.bytes.byte x =
      if dest ≤ x ∧ x < dest + n * pageSize then
        (nand (mtdRowAddress block (plane + (x - dest) / pageSize) page)).main.byte
          ((x - dest) % pageSize)
      else m.bytes.byte x := by
  induction n generalizing plane dest m with
  | zero =>
      rw [if_neg (by omega)]
      rfl
  | succ n ih =>
      have harr : PlaneArrives (report plane) := by
        by_contra hno
        rw [planesPassed, if_neg hno] at h
        omega
      rw [planesPassed, if_pos harr] at h
      have hret := (nandReceiveData_status (nand (mtdRowAddress block plane page)) (report plane)
        spare (some dest) m).mpr harr
      rw [readPlanes_passes nand block page spare harr, Option.map_some, ih (by omega)]
      have hbytes : (nandReceiveData (nand (mtdRowAddress block plane page)) (report plane)
          (some dest) spare m).2.bytes.byte x =
          if dest ≤ x ∧ x < dest + pageSize then
            (nand (mtdRowAddress block plane page)).main.byte (x - dest)
          else m.bytes.byte x := by
        rw [nandReceiveData] at hret ⊢
        rw [bytes_receiveSectors _ _ _ hret]
        simp only [Nat.zero_add, Nat.zero_mul, Nat.add_zero, pageSize, Nat.mul_comm]
      have hpos : 0 < pageSize := by decide
      rw [hbytes, Nat.succ_mul]
      by_cases hfirst : dest ≤ x ∧ x < dest + pageSize
      · rw [if_neg (by omega), if_pos hfirst, if_pos (by omega),
          Nat.div_eq_of_lt (by omega), Nat.mod_eq_of_lt (by omega), Nat.add_zero]
      · rw [if_neg hfirst]
        by_cases hrest : dest + pageSize ≤ x ∧ x < dest + pageSize + n * pageSize
        · have hx : x - dest = (x - (dest + pageSize)) + pageSize := by omega
          rw [if_pos hrest, if_pos (by omega), hx, Nat.add_div_right _ hpos, Nat.add_mod_right,
            Nat.add_assoc, Nat.add_comm 1]
        · rw [if_neg hrest, if_neg (by omega)]

theorem spare_readPlanes {n plane : Nat} {buffer : Option Nat} {m : CallerMemory}
    {words : Nat → Nat} (h : planesPassed report n plane = n)
    (hwords : ∀ p < n, ∀ j < spareWordsInPage,
      (nand (mtdRowAddress block (plane + p) page)).spare j = words j)
    (j : Nat) (hj : j < spareWordsInPage) :
    (readPlanes nand report block page true n plane buffer m).2.2.spare j =
      if n = 0 then m.spare j else words j := by
  induction n generalizing plane buffer m with
  | zero => rfl
  | succ n ih =>
      have harr : PlaneArrives (report plane) := by
        by_contra hno
        rw [planesPassed, if_neg hno] at h
        omega
      rw [planesPassed, if_pos harr] at h
      have hret := (nandReceiveData_status (nand (mtdRowAddress block plane page)) (report plane)
        true buffer m).mpr harr
      have hlater : ∀ p < n, ∀ j < spareWordsInPage,
          (nand (mtdRowAddress block (plane + 1 + p) page)).spare j = words j := by
        intro p hp j hj
        have := hwords (p + 1) (by omega) j hj
        rwa [← Nat.add_assoc, Nat.add_right_comm] at this
      rw [readPlanes_passes nand block page true harr, ih (by omega) hlater,
        if_neg (Nat.succ_ne_zero n)]
      by_cases hn : n = 0
      · rw [if_pos hn]
        rw [nandReceiveData] at hret ⊢
        rw [spare_receiveSectors _ _ hret j hj, if_pos ⟨Nat.zero_le j, by simpa using hj⟩]
        exact hwords 0 (by omega) j hj
      · rw [if_neg hn]

end

section

variable [NandGeometry] (report : Nat → Nat → Nat → SectorStatus)

/-- Attempt `a` takes place: no attempt before it got all planes. -/
def AttemptMade (a : Nat) : Prop :=
  ∀ a' < a, planesPassed (report a') planePerDie 0 < planePerDie

instance (a : Nat) : Decidable (AttemptMade report a) :=
  inferInstanceAs
    (Decidable (∀ a' < a, planesPassed (report a') planePerDie 0 < planePerDie))

/-- The planes that arrived in the attempts before `a`, counted once for each attempt. -/
def earlierPassed : Nat → Nat
  | 0 => 0
  | a + 1 => earlierPassed a + planesPassed (report a) planePerDie 0

/-- Where attempt `a` starts to store. -/
def destination (buffer : Bool) (a : Nat) : Option Nat :=
  if buffer then some (earlierPassed report a * pageSize) else none

theorem destination_succ (buffer : Bool) (a : Nat) :
    (destination report buffer a).map (· + planesPassed (report a) planePerDie 0 * pageSize) =
      destination report buffer (a + 1) := by
  cases buffer with
  | false => rfl
  | true => simp [destination, earlierPassed, Nat.add_mul]

variable (nand : Nat → PlanePage) (block page : Nat) (spare : Bool)

/-- What attempt `a` makes of the memory. -/
def afterAttempt (buffer : Bool) (a : Nat) (m : CallerMemory) : CallerMemory :=
  (readPlanes nand (report a) block page spare planePerDie 0 (destination report buffer a) m).2.2

theorem readAttempts_succ (n a : Nat) (buffer : Bool) (m : CallerMemory) :
    readAttempts nand report block page spare (n + 1) a (destination report buffer a) m =
      if planesPassed (report a) planePerDie 0 = planePerDie then
        (.success, afterAttempt report nand block page spare buffer a m)
      else if a < mtdMaxRetryTimes - 1 then
        readAttempts nand report block page spare n (a + 1) (destination report buffer (a + 1))
          (afterAttempt report nand block page spare buffer a m)
      else (.failure, afterAttempt report nand block page spare buffer a m) := by
  have hstatus := readPlanes_status (report a) nand block page spare planePerDie 0
    (destination report buffer a) m
  have hbuffer := readPlanes_buffer (report a) nand block page spare planePerDie 0
    (destination report buffer a) m
  rw [destination_succ] at hbuffer
  rw [readAttempts]
  simp only [hstatus, hbuffer, afterAttempt]
  by_cases hall : planesPassed (report a) planePerDie 0 = planePerDie
  · simp only [hall, if_true]
    rfl
  · simp only [hall, if_false, true_and]

theorem AttemptMade.next {a : Nat} (h : AttemptMade report a)
    (hfail : planesPassed (report a) planePerDie 0 ≠ planePerDie) :
    AttemptMade report (a + 1) := by
  intro a' ha'
  rcases Nat.lt_or_eq_of_le (Nat.lt_succ_iff.mp ha') with hlt | rfl
  · exact h a' hlt
  · exact Nat.lt_of_le_of_ne (planesPassed_le (report a') planePerDie 0) hfail

/-- A successful read ends with an attempt that got every plane. -/
theorem readAttempts_success {n a : Nat} {buffer : Bool} {m : CallerMemory}
    (hn : a + n = mtdMaxRetryTimes) (hpos : 0 < n) (hmade : AttemptMade report a)
    (h : (readAttempts nand report block page spare n a (destination report buffer a) m).1 =
      .success) :
    ∃ last m', last < mtdMaxRetryTimes ∧ AttemptMade report last ∧
      planesPassed (report last) planePerDie 0 = planePerDie ∧
      (readAttempts nand report block page spare n a (destination report buffer a) m).2 =
        afterAttempt report nand block page spare buffer last m' := by
  induction n generalizing a m with
  | zero => omega
  | succ n ih =>
      rw [readAttempts_succ] at h ⊢
      by_cases hall : planesPassed (report a) planePerDie 0 = planePerDie
      · rw [if_pos hall]
        exact ⟨a, m, by omega, hmade, hall, rfl⟩
      · rw [if_neg hall] at h ⊢
        by_cases hretry : a < mtdMaxRetryTimes - 1
        · rw [if_pos hretry] at h ⊢
          exact ih (by omega) (by omega) (hmade.next report hall) h
        · rw [if_neg hretry] at h
          cases h

/-- Each attempt stores where the one before it stopped. -/
theorem mem_stored_readAttempts {n a : Nat} {m : CallerMemory} (hn : a + n = mtdMaxRetryTimes)
    (hmade : AttemptMade report a) (d : Nat) :
    d ∈ (readAttempts nand report block page spare n a (destination report true a) m).2.stored ↔
      d ∈ m.stored ∨ ∃ a' plane k, a ≤ a' ∧ a' < mtdMaxRetryTimes ∧ AttemptMade report a' ∧
        plane < planePerDie ∧ plane ≤ planesPassed (report a') planePerDie 0 ∧
        k < sectorPerPage ∧ (∀ j ≤ k, report a' plane j = .good) ∧
        d = (earlierPassed report a' + plane) * pageSize + k * sectorSize := by
  induction n generalizing a m with
  | zero =>
      simp only [readAttempts]
      constructor
      · exact Or.inl
      · rintro (hd | ⟨a', plane, k, hle, hlt, -⟩)
        · exact hd
        · omega
  | succ n ih =>
      have hattempt : d ∈ (afterAttempt report nand block page spare true a m).stored ↔
          d ∈ m.stored ∨ ∃ plane k, plane < planePerDie ∧
            plane ≤ planesPassed (report a) planePerDie 0 ∧ k < sectorPerPage ∧
            (∀ j ≤ k, report a plane j = .good) ∧
            d = (earlierPassed report a + plane) * pageSize + k * sectorSize := by
        refine (mem_stored_readPlanes (report a) nand block page spare planePerDie 0
          (earlierPassed report a * pageSize) d m).trans ?_
        simp only [Nat.zero_add, Nat.add_mul]
      rw [readAttempts_succ]
      by_cases hall : planesPassed (report a) planePerDie 0 = planePerDie
      · rw [if_pos hall, hattempt]
        constructor
        · rintro (hd | ⟨plane, k, h⟩)
          · exact Or.inl hd
          · exact Or.inr ⟨a, plane, k, le_rfl, by omega, hmade, h⟩
        · rintro (hd | ⟨a', plane, k, hle, -, hmade', h⟩)
          · exact Or.inl hd
          · rcases Nat.lt_or_eq_of_le hle with hlt | rfl
            · exact absurd hall (Nat.ne_of_lt (hmade' a hlt))
            · exact Or.inr ⟨plane, k, h⟩
      · rw [if_neg hall]
        by_cases hretry : a < mtdMaxRetryTimes - 1
        · rw [if_pos hretry]
          refine (ih (by omega) (hmade.next report hall)).trans ?_
          rw [hattempt]
          constructor
          · rintro ((hd | ⟨plane, k, h⟩) | ⟨a', plane, k, hle, hlt, h⟩)
            · exact Or.inl hd
            · exact Or.inr ⟨a, plane, k, le_rfl, by omega, hmade, h⟩
            · exact Or.inr ⟨a', plane, k, by omega, hlt, h⟩
          · rintro (hd | ⟨a', plane, k, hle, hlt, hmade', h⟩)
            · exact Or.inl (Or.inl hd)
            · rcases Nat.lt_or_eq_of_le hle with hlater | rfl
              · exact Or.inr ⟨a', plane, k, hlater, hlt, hmade', h⟩
              · exact Or.inl (Or.inr ⟨plane, k, h⟩)
        · rw [if_neg hretry, hattempt]
          constructor
          · rintro (hd | ⟨plane, k, h⟩)
            · exact Or.inl hd
            · exact Or.inr ⟨a, plane, k, le_rfl, by omega, hmade, h⟩
          · rintro (hd | ⟨a', plane, k, hle, hlt, hmade', h⟩)
            · exact Or.inl hd
            · obtain rfl : a' = a := by simp only [mtdMaxRetryTimes] at *; omega
              exact Or.inr ⟨plane, k, h⟩

theorem stored_readAttempts_null (n a : Nat) (m : CallerMemory) :
    (readAttempts nand report block page spare n a (destination report false a) m).2.stored =
      m.stored := by
  have hattempt (a : Nat) (m : CallerMemory) :
      (afterAttempt report nand block page spare false a m).stored = m.stored :=
    stored_readPlanes_null (report a) nand block page spare planePerDie 0 m
  induction n generalizing a m with
  | zero => rfl
  | succ n ih =>
      rw [readAttempts_succ]
      split_ifs with hall hretry
      · exact hattempt a m
      · rw [ih, hattempt]
      · exact hattempt a m

end

/-! ## Whole reads -/

section

variable [NandGeometry]

/-- What a reader of a page relies on. -/
structure ReadsPage (data : Buffer) (words : Nat → Nat) (buffer spare : Bool)
    (r : Status × CallerMemory) : Prop where
  data : r.1 = .success → buffer → ∀ i < planePerDie * pageSize, r.2.bytes.byte i = data.byte i
  spare : r.1 = .success → spare → ∀ j < spareWordsInPage, r.2.spare j = words j
  inside : ∀ d ∈ r.2.stored, d + sectorSize ≤ planePerDie * pageSize

/-- No plane of an attempt starts to arrive whose place, counted on from all
planes that arrived in the attempts before, lies behind the buffer. -/
def StaysInPage (report : Nat → Nat → Nat → SectorStatus) : Prop :=
  ∀ a < mtdMaxRetryTimes, AttemptMade report a → ∀ plane < planePerDie,
    plane ≤ planesPassed (report a) planePerDie 0 → report a plane 0 = .good →
      earlierPassed report a + plane < planePerDie

instance (report : Nat → Nat → Nat → SectorStatus) : Decidable (StaysInPage report) :=
  inferInstanceAs (Decidable (∀ a < mtdMaxRetryTimes, AttemptMade report a →
    ∀ plane < planePerDie, plane ≤ planesPassed (report a) planePerDie 0 →
      report a plane 0 = .good → earlierPassed report a + plane < planePerDie))

variable {nand : Nat → PlanePage} {block page : Nat} {data : Buffer} {words : Nat → Nat}
variable (report : Nat → Nat → Nat → SectorStatus)

theorem attemptMade_zero : AttemptMade report 0 := by
  intro a ha
  omega

theorem mtdRead_eq (nand : Nat → PlanePage) (block page : Nat) (buffer spare : Bool)
    (m : CallerMemory) :
    mtdRead nand report block page buffer spare m =
      readAttempts nand report block page spare mtdMaxRetryTimes 0 (destination report buffer 0)
        m := by
  simp [mtdRead, destination, earlierPassed]

/-- An attempt that gets every plane stays in the buffer only if it starts at
its beginning. -/
theorem StaysInPage.earlierPassed_eq_zero (hstays : StaysInPage report) {a : Nat}
    (ha : a < mtdMaxRetryTimes) (hmade : AttemptMade report a)
    (hall : planesPassed (report a) planePerDie 0 = planePerDie) : earlierPassed report a = 0 := by
  have harrives : ∀ n plane, planesPassed (report a) n plane = n → ∀ p < n,
      PlaneArrives (report a (plane + p)) := by
    intro n
    induction n with
    | zero =>
        intro plane _ p hp
        omega
    | succ n ih =>
        intro plane hn p hp
        have harr : PlaneArrives (report a plane) := by
          by_contra hno
          rw [planesPassed, if_neg hno] at hn
          omega
        rw [planesPassed, if_pos harr] at hn
        cases p with
        | zero => exact harr
        | succ p =>
            have := ih (plane + 1) (by omega) p (by omega)
            rwa [Nat.add_right_comm, Nat.add_assoc] at this
  have hpos := planePerDie_pos
  have hlast := harrives planePerDie 0 hall (planePerDie - 1) (by omega) 0 (by decide)
  rw [Nat.zero_add] at hlast
  have := hstays a ha hmade (planePerDie - 1) (by omega) (by omega) hlast
  omega

/-- A read through all its attempts is right, and stays inside the page
buffer, just when no sector arrives behind the buffer's end; without a buffer
it always is. -/
theorem mtdRead_readsPage_iff (h : HoldsPage nand block page data words)
    (buffer spare : Bool) (bytes : Buffer) (before : Nat → Nat) :
    ReadsPage data words buffer spare
        (mtdRead nand report block page buffer spare (.before bytes before)) ↔
      (buffer → StaysInPage report) := by
  rw [mtdRead_eq]
  constructor
  · rintro hreads rfl a ha hmade plane hplane hle hgood
    have honly : ∀ j ≤ 0, report a plane j = .good := by
      intro j hj
      obtain rfl : j = 0 := by omega
      exact hgood
    have hstored := (mem_stored_readAttempts report nand block page spare
      (m := .before bytes before) (Nat.zero_add mtdMaxRetryTimes) (attemptMade_zero report)
      ((earlierPassed report a + plane) * pageSize)).mpr
        (Or.inr ⟨a, plane, 0, Nat.zero_le a, ha, hmade, hplane, hle, by decide, honly,
          by omega⟩)
    have hinside := hreads.inside _ hstored
    have hlt : (earlierPassed report a + plane) * pageSize < planePerDie * pageSize := by
      simp only [sectorSize] at hinside
      omega
    exact Nat.lt_of_mul_lt_mul_right hlt
  · intro hstays
    constructor
    · rintro hstatus rfl i hi
      obtain ⟨last, m', hlast, hmade, hall, hmem⟩ := readAttempts_success report nand block page
        spare (Nat.zero_add mtdMaxRetryTimes) (by decide) (attemptMade_zero report) hstatus
      have hzero := (hstays rfl).earlierPassed_eq_zero report hlast hmade hall
      have hplane : i / pageSize < planePerDie := Nat.div_lt_of_lt_mul (by rwa [Nat.mul_comm])
      rw [hmem, afterAttempt, destination, if_pos rfl, hzero, Nat.zero_mul,
        bytes_readPlanes _ _ _ _ _ hall, if_pos ⟨Nat.zero_le i, by rwa [Nat.zero_add]⟩,
        Nat.zero_add, Nat.sub_zero, h.main _ hplane _ (Nat.mod_lt i (by decide)),
        Nat.div_add_mod']
    · rintro hstatus rfl j hj
      obtain ⟨last, m', hlast, hmade, hall, hmem⟩ := readAttempts_success report nand block page
        true (Nat.zero_add mtdMaxRetryTimes) (by decide) (attemptMade_zero report) hstatus
      have hwords : ∀ p < planePerDie, ∀ j < spareWordsInPage,
          (nand (mtdRowAddress block (0 + p) page)).spare j = words j := by
        intro p hp j hj
        rw [Nat.zero_add]
        exact h.spare p hp j hj
      rw [hmem, afterAttempt, spare_readPlanes _ _ _ _ hall hwords j hj,
        if_neg planePerDie_pos.ne']
    · intro d hd
      cases buffer with
      | false =>
          rw [stored_readAttempts_null] at hd
          cases hd
      | true =>
          rw [mem_stored_readAttempts report nand block page spare
            (Nat.zero_add mtdMaxRetryTimes) (attemptMade_zero report)] at hd
          rcases hd with hd | ⟨a, plane, k, -, ha, hmade, hplane, hle, hk, hgood, rfl⟩
          · cases hd
          · have hlt := hstays rfl a ha hmade plane hplane hle (hgood 0 (Nat.zero_le k))
            have := Nat.mul_le_mul_right pageSize (Nat.succ_le_of_lt hlt)
            rw [Nat.succ_mul] at this
            simp only [pageSize, sectorSize, sectorPerPage] at *
            omega

end

section

attribute [local instance] twoPlanes

/-- Bytes that tell the two planes apart. -/
def numbered : Buffer := .bytes (.ofFn fun i => i / pageSize)

/-- The page programmed with `numbered` and the spare words `5, 6, 7, 8`. -/
def programmedPage : Nat → PlanePage :=
  match mtdProgram (fun _ => ⟨.zeros, fun _ => 0⟩) 9 3 numbered (· + 5) with
  | .ok nand => nand
  | .error _ => fun _ => ⟨.zeros, fun _ => 0⟩

theorem programmedPage_holds : HoldsPage programmedPage 9 3 numbered (· + 5) :=
  mtdProgram_holds rfl

/-- The second plane has an error in the first attempt. -/
def transientError (attempt plane sector : Nat) : SectorStatus :=
  if attempt = 0 ∧ plane = 1 ∧ sector = 0 then .eccError else .good

/-- After one error in the second plane the read succeeds with plane 0 in place
of plane 1, and plane 1 is stored behind the buffer. -/
theorem mtdRead_retry_overruns :
    HoldsPage programmedPage 9 3 numbered (· + 5) ∧
      ¬ ReadsPage numbered (· + 5) true true
        (mtdRead programmedPage transientError 9 3 true true (.before .zeros fun _ => 0)) := by
  refine ⟨programmedPage_holds, fun hreads => ?_⟩
  have hstored : 4096 ∈ (mtdRead programmedPage transientError 9 3 true true
      (.before .zeros fun _ => 0)).2.stored := by decide
  exact absurd (hreads.inside 4096 hstored) (by decide)

/-- The first plane has an error in two attempts: they are repeated as they
should be. -/
theorem mtdRead_readsPage_first_plane :
    ReadsPage numbered (· + 5) true true
      (mtdRead programmedPage
        (fun attempt plane sector =>
          if attempt < 2 ∧ plane = 0 ∧ sector = 2 then .eccError else .good)
        9 3 true true (.before .zeros fun _ => 0)) :=
  (mtdRead_readsPage_iff _ programmedPage_holds true true .zeros fun _ => 0).mpr
    fun _ => by decide

end

end RansomTag

import RansomTag.Onfm.Reads

/-!
# Writes of sectors

A write of sectors as the writes of its pages one by one.  A page that the
request covers only in part is read first, with the flags of the request, and
the sectors of the request are put over what was read.
-/

namespace RansomTag

open Program

/-- The arguments of `ONFM_Write`. -/
structure WriteRequest where
  addr : Nat
  count : Nat
  data : Buffer
  flag : Bool
  mft : Bool

namespace WriteRequest

variable (w : WriteRequest)

/-- The sector is one of the request. -/
def Writes (x : Nat) : Prop := w.addr ≤ x ∧ x < w.addr + w.count

instance (x : Nat) : Decidable (w.Writes x) := by
  unfold Writes
  infer_instance

/-- The byte of the request for byte `k` of a page. -/
def byte (page k : Nat) : Nat := w.data.byte (page * mppSize + k - w.addr * sectorSize)

/-- The request covers the whole page. -/
def Covers (page : Nat) : Prop := ∀ j, j < sectorPerMpp → w.Writes (page * sectorPerMpp + j)

/-- The first page of the request, and how many it has. -/
def firstPage : Nat := w.addr / sectorPerMpp

def pages : Nat := pageCount w.addr w.count

end WriteRequest

/-- The page with the sectors of the request over what was read; nothing is put
over a page that could not be read. -/
def WriteRequest.Merged (w : WriteRequest) (page : Nat) (r : Status × Option Buffer)
    (buffer : Buffer) : Prop :=
  ∃ stale : Buffer, ∀ k, k < mppSize → buffer.byte k =
    if r.1 = .success ∧ w.Writes (page * sectorPerMpp + k / sectorSize) then w.byte page k
    else (r.2.getD stale).byte k

section

variable [Platform]

/-- From `s` to `t` the page that the request writes at `page` is gathered. -/
structure Gathered (w : WriteRequest) (page : Nat) (s t : FtlState) (buffer : Buffer) :
    Prop where
  whole : w.Covers page → t = s ∧ ∀ k, k < mppSize → buffer.byte k = w.byte page k
  part : ¬ w.Covers page → ∃ r, ftlRead page w.flag w.mft s = .ok (r, t) ∧ w.Merged page r buffer

/-- `s'` is left by the writes of `n` pages of the request from `page` on. -/
inductive PagesWritten (w : WriteRequest) : Nat → Nat → FtlState → FtlState → Prop where
  | nil {page : Nat} {s : FtlState} : PagesWritten w 0 page s s
  | cons {n page : Nat} {s t s₁ s' : FtlState} {buffer : Buffer} :
      Gathered w page s t buffer → StartsNonFull t page →
      ftlWrite page (some buffer) w.flag w.mft t = .ok (.success, s₁) →
      PagesWritten w n (page + 1) s₁ s' → PagesWritten w (n + 1) page s s'

/-- `P` holds of the states before and after every page is gathered. -/
def EachPage (w : WriteRequest) (P : Nat → FtlState → FtlState → Prop) :
    Nat → Nat → FtlState → Prop
  | 0, _, _ => True
  | n + 1, page, s => ∀ t buffer, Gathered w page s t buffer → P page s t ∧
      ∀ s', ftlWrite page (some buffer) w.flag w.mft t = .ok (.success, s') →
        EachPage w P n (page + 1) s'

/-- No `FTL_Write` of the request starts with a full journal. -/
def WritesNonFull (w : WriteRequest) (s : FtlState) : Prop :=
  EachPage w (fun page _ t => StartsNonFull t page) w.pages w.firstPage s

end

/-! ## Merge -/

theorem byte_mergeSectors (written : Nat → Bool) (write : Buffer) (is : List Nat)
    (merge : Buffer) (k : Nat) :
    (mergeSectors written write is merge).byte k =
      if k / sectorSize ∈ is ∧ written (k / sectorSize) = true then write.byte k
      else merge.byte k := by
  induction is generalizing merge with
  | nil => simp [mergeSectors]
  | cons i is ih =>
      unfold mergeSectors
      rw [ih]
      by_cases htail : k / sectorSize ∈ is ∧ written (k / sectorSize) = true
      · rw [if_pos htail, if_pos ⟨List.mem_cons_of_mem _ htail.1, htail.2⟩]
      · rw [if_neg htail]
        by_cases hi : k / sectorSize = i
        · subst hi
          by_cases hw : written (k / sectorSize) = true
          · rw [if_pos hw, if_pos ⟨List.mem_cons_self, hw⟩, Buffer.byte_splice]
            simp only [sectorSize]
            rw [if_pos (by omega), show k / 512 * 512 + (k - k / 512 * 512) = k by omega]
          · rw [if_neg hw, if_neg fun h => hw h.2]
        · have hout : ¬ (k / sectorSize ∈ i :: is ∧ written (k / sectorSize) = true) := by
            rintro ⟨hmem, hw⟩
            rcases List.mem_cons.mp hmem with h | h
            · exact hi h
            · exact htail ⟨h, hw⟩
          rw [if_neg hout]
          split
          · rw [Buffer.byte_splice, if_neg]
            simp only [sectorSize] at *
            omega
          · rfl

/-! ## Write buffer -/

/-- The sectors of the request on `page` and before sector `x` are in the write buffer. -/
structure Pending (o : OnfmState) (w : WriteRequest) (page x : Nat) : Prop where
  starting : o.startingSector = page * sectorPerMpp
  start : o.bufStartAddr = page * sectorPerMpp
  last : o.bufEndAddr = page * sectorPerMpp + (sectorPerMpp - 1)
  written : ∀ j, j < sectorPerMpp → (o.sectorWritten j = true ↔
    w.addr ≤ page * sectorPerMpp + j ∧ page * sectorPerMpp + j < x)
  bytes : ∀ k, k < mppSize → w.addr ≤ page * sectorPerMpp + k / sectorSize →
    page * sectorPerMpp + k / sectorSize < x → o.writeBuffer.byte k = w.byte page k

/-- The write buffer after `BUF_PutSector` of a sector of `page`. -/
def OnfmState.put (o : OnfmState) (page j : Nat) (sector : Nat → Nat) : OnfmState :=
  { o with
    bufStartAddr := page * sectorPerMpp
    bufEndAddr := page * sectorPerMpp + (sectorPerMpp - 1)
    writeBuffer := o.writeBuffer.splice (j * sectorSize) sectorSize sector
    sectorWritten := fun i => if i = j then true else o.sectorWritten i }

section

variable {o : OnfmState} {w : WriteRequest} {addr page x : Nat} {sector : Nat → Nat}
  {E : Stop → Prop} {Q : Unit → OnfmState → Prop}

theorem wp_bufPutSector_idle (h : o.bufEndAddr = invalidLsaddr) :
    wp (bufPutSector addr sector) Q E o ↔
      Q () (o.put (addr / sectorPerMpp) (addr % sectorPerMpp) sector) := by
  have hsector : addr - addr / sectorPerMpp * sectorPerMpp = addr % sectorPerMpp := by
    simp only [sectorPerMpp]
    omega
  have hin : addr / sectorPerMpp * sectorPerMpp ≤ addr ∧
      addr ≤ addr / sectorPerMpp * sectorPerMpp + (sectorPerMpp - 1) := by
    simp only [sectorPerMpp]
    omega
  unfold bufPutSector OnfmState.put
  rw [wp_bind, wp_get]
  simp only [h, if_true, wp_bind, wp_modify, wp_get, wp_callFtl_assert, hin, and_self, hsector]

theorem wp_bufPutSector_pending (h : Pending o w page x) (hpage : page < 536870911)
    (haddr : addr / sectorPerMpp = page) :
    wp (bufPutSector addr sector) Q E o ↔ Q () (o.put page (addr % sectorPerMpp) sector) := by
  have hsector : addr - page * sectorPerMpp = addr % sectorPerMpp := by
    simp only [sectorPerMpp] at *
    omega
  have hin : page * sectorPerMpp ≤ addr ∧ addr ≤ page * sectorPerMpp + (sectorPerMpp - 1) := by
    simp only [sectorPerMpp] at *
    omega
  have hend : o.bufEndAddr ≠ invalidLsaddr := by
    rw [h.last]
    simp only [sectorPerMpp, invalidLsaddr]
    omega
  unfold bufPutSector OnfmState.put
  rw [wp_bind, wp_get, if_neg hend]
  simp only [wp_bind, wp_modify, wp_get, wp_callFtl_assert, h.start, h.last, hin, and_self,
    if_true, hsector]

/-- The first sector of a page. -/
theorem Pending.first (hwritten : ∀ i, o.sectorWritten i = false) (hpage : addr / sectorPerMpp = page)
    (hstart : o.startingSector = page * sectorPerMpp)
    (haddr : w.addr ≤ addr) (hfirst : w.addr = addr ∨ addr % sectorPerMpp = 0)
    (hsector : sector = fun k => w.data.byte ((addr - w.addr) * sectorSize + k)) :
    Pending (o.put page (addr % sectorPerMpp) sector) w page (addr + 1) := by
  subst hsector
  refine ⟨hstart, rfl, rfl, fun j hj => ?_, fun k hk hlow hhigh => ?_⟩
  · change (if j = addr % sectorPerMpp then true else o.sectorWritten j) = true ↔ _
    rw [hwritten j]
    simp only [sectorPerMpp] at *
    by_cases hjs : j = addr % 8
    · rw [if_pos hjs]
      exact iff_of_true rfl (by omega)
    · rw [if_neg hjs]
      exact iff_of_false Bool.false_ne_true (by omega)
  · change (o.writeBuffer.splice (addr % sectorPerMpp * sectorSize) sectorSize
      fun k => w.data.byte ((addr - w.addr) * sectorSize + k)).byte k = _
    unfold WriteRequest.byte
    rw [Buffer.byte_splice]
    simp only [sectorPerMpp, sectorSize, mppSize] at *
    rw [if_pos (by omega)]
    congr 1
    omega

theorem Pending.next (h : Pending o w page addr) (hpage : addr / sectorPerMpp = page)
    (haddr : w.addr ≤ addr)
    (hsector : sector = fun k => w.data.byte ((addr - w.addr) * sectorSize + k)) :
    Pending (o.put page (addr % sectorPerMpp) sector) w page (addr + 1) := by
  subst hsector
  refine ⟨h.starting, rfl, rfl, fun j hj => ?_, fun k hk hlow hhigh => ?_⟩
  · change (if j = addr % sectorPerMpp then true else o.sectorWritten j) = true ↔ _
    have hold := h.written j hj
    simp only [sectorPerMpp] at *
    by_cases hjs : j = addr % 8
    · rw [if_pos hjs]
      exact iff_of_true rfl (by omega)
    · rw [if_neg hjs, hold]
      omega
  · change (o.writeBuffer.splice (addr % sectorPerMpp * sectorSize) sectorSize
      fun k => w.data.byte ((addr - w.addr) * sectorSize + k)).byte k = _
    have hold := h.bytes k hk hlow
    unfold WriteRequest.byte at *
    rw [Buffer.byte_splice]
    simp only [sectorPerMpp, sectorSize, mppSize] at *
    by_cases hks : addr % 8 * 512 ≤ k ∧ k < addr % 8 * 512 + 512
    · rw [if_pos hks]
      congr 1
      omega
    · rw [if_neg hks]
      apply hold
      omega

end

/-! ## One page -/

/-- `BUF_GetPage` hands the page out and empties the write buffer. -/
structure Emptied (o o' : OnfmState) : Prop where
  start : o'.bufStartAddr = invalidLsaddr
  last : o'.bufEndAddr = invalidLsaddr
  written : ∀ i, o'.sectorWritten i = false
  starting : o'.startingSector = o.startingSector
  readStart : o'.readBufferStartSector = o.readBufferStartSector

section

variable [Platform] {o : OnfmState} {w : WriteRequest} {page x : Nat}

/-- The write buffer when it is handed out. -/
structure Complete (o : OnfmState) (w : WriteRequest) (page x : Nat) : Prop
    extends Pending o w page x where
  all : ∀ j, j < sectorPerMpp → (w.Writes (page * sectorPerMpp + j) ↔
    w.addr ≤ page * sectorPerMpp + j ∧ page * sectorPerMpp + j < x)

omit [Platform] in
theorem Complete.written_iff (h : Complete o w page x) {j : Nat} (hj : j < sectorPerMpp) :
    o.sectorWritten j = true ↔ w.Writes (page * sectorPerMpp + j) :=
  (h.written j hj).trans (h.all j hj).symm

omit [Platform] in
theorem Complete.byte (h : Complete o w page x) {k : Nat} (hk : k < mppSize)
    (hw : w.Writes (page * sectorPerMpp + k / sectorSize)) :
    o.writeBuffer.byte k = w.byte page k := by
  have hj : k / sectorSize < sectorPerMpp := by
    simp only [mppSize, sectorSize, sectorPerMpp] at *
    omega
  obtain ⟨hlow, hhigh⟩ := (h.all _ hj).mp hw
  exact h.bytes k hk hlow hhigh

omit [Platform] in
theorem Complete.byte_merged (h : Complete o w page x) {k : Nat} {merge : Buffer}
    (hk : k < mppSize) :
    (mergeSectors o.sectorWritten o.writeBuffer (List.range sectorPerMpp) merge).byte k =
      if w.Writes (page * sectorPerMpp + k / sectorSize) then w.byte page k
      else merge.byte k := by
  have hj : k / sectorSize < sectorPerMpp := by
    simp only [mppSize, sectorSize, sectorPerMpp] at *
    omega
  rw [byte_mergeSectors]
  by_cases hw : w.Writes (page * sectorPerMpp + k / sectorSize)
  · rw [if_pos hw, if_pos ⟨List.mem_range.mpr hj, (h.written_iff hj).mpr hw⟩]
    exact h.byte hk hw
  · rw [if_neg hw, if_neg fun hyes => hw ((h.written_iff hj).mp hyes.2)]

omit [Platform] in
theorem Complete.any_iff (h : Complete o w page x) :
    ((List.range sectorPerMpp).any fun i => !o.sectorWritten i) = true ↔ ¬ w.Covers page := by
  rw [List.any_eq_true]
  constructor
  · rintro ⟨j, hj, hno⟩ hall
    have hwritten := (h.written_iff (List.mem_range.mp hj)).mpr (hall j (List.mem_range.mp hj))
    rw [hwritten] at hno
    exact nomatch hno
  · intro hno
    by_contra hall
    apply hno
    intro j hj
    rw [← h.written_iff hj]
    by_contra hwritten
    apply hall
    refine ⟨j, List.mem_range.mpr hj, ?_⟩
    simpa using hwritten

theorem bufGetPage_spec (h : Complete o w page x) (hs : FtlInv o.ftl)
    (hpage : page < ftlCapacity) (hx : page < 536870911) :
    wp (bufGetPage w.flag w.mft) (fun r o' => r.1 = page ∧ Gathered w page o.ftl o'.ftl r.2 ∧
      FtlInv o'.ftl ∧ Emptied o o') (fun _ => True) o := by
  have hstart : o.bufStartAddr ≠ invalidLsaddr := by
    rw [h.start]
    simp only [sectorPerMpp, invalidLsaddr]
    omega
  have haddr : o.bufStartAddr / sectorPerMpp = page := by
    rw [h.start]
    simp only [sectorPerMpp]
    omega
  unfold bufGetPage
  rw [wp_bind, wp_get]
  simp only [haddr]
  rw [wp_bind, wp_callFtl_assert, if_pos hstart]
  by_cases hcovers : w.Covers page
  · have hany := mt h.any_iff.mp (not_not.mpr hcovers)
    rw [if_neg hany, wp_bind, wp_pure, wp_bind, wp_modify, wp_bind, wp_bufAllocate, wp_bind,
      wp_modify, wp_pure]
    refine ⟨rfl, ⟨fun _ => ⟨rfl, fun k hk => h.byte hk ?_⟩, fun hno => absurd hcovers hno⟩, hs,
      rfl, rfl, fun _ => rfl, rfl, rfl⟩
    apply hcovers
    simp only [mppSize, sectorSize, sectorPerMpp] at *
    omega
  · rw [if_pos (h.any_iff.mpr hcovers), wp_bind, wp_bufAllocate, wp_bind, wp_callFtl]
    refine wp_of_ok_imp ?_
    rintro ⟨ret, data⟩ s hread
    have hdone := of_wp_ok (ftlRead_any hs.base hpage) hread
    rw [wp_bind, wp_pure, wp_bind, wp_modify, wp_bind, wp_bufAllocate, wp_bind, wp_modify, wp_pure]
    refine ⟨rfl, ⟨fun hyes => absurd hyes hcovers, fun _ => ⟨(ret, data), hread, o.stale 0, ?_⟩⟩,
      hdone.inv hs, rfl, rfl, fun _ => rfl, rfl, rfl⟩
    intro k hk
    by_cases hret : ret = .success
    · simp only [hret, if_true, true_and]
      exact h.byte_merged hk
    · rw [if_neg hret, if_neg fun hyes => hret hyes.1]

/-- What the flush of a page leaves. -/
structure Flushed (w : WriteRequest) (page : Nat) (o o' : OnfmState) : Prop
    extends Emptied o o' where
  inv : FtlInv o'.ftl
  page_written : ∃ t buffer, Gathered w page o.ftl t buffer ∧ StartsNonFull t page ∧
    ftlWrite page (some buffer) w.flag w.mft t = .ok (.success, o'.ftl)

theorem flushPage_spec (h : Complete o w page x) (hs : FtlInv o.ftl) (hpage : page < ftlCapacity)
    (hx : page < 536870911)
    (hq : ∀ t buffer, Gathered w page o.ftl t buffer → StartsNonFull t page) :
    wp (onfmFlushPage w.flag w.mft) (fun ret o' => ret = .success ∧ Flushed w page o o')
      (fun _ => True) o := by
  unfold onfmFlushPage
  rw [wp_bind]
  refine wp_mono_post (bufGetPage_spec h hs hpage hx) ?_
  rintro ⟨_, buffer⟩ o₁ ⟨rfl, hgathered, hinv, hempty⟩
  rw [wp_callFtl]
  refine wp_of_ok_imp ?_
  intro ret s hwrite
  have hnonFull := hq _ _ hgathered
  obtain ⟨rfl, hwritten⟩ := of_wp_ok
    (ftlWrite_spec (E := fun _ => True) hinv hpage hnonFull fun _ _ => trivial) hwrite
  exact ⟨rfl, ⟨hempty.start, hempty.last, hempty.written, hempty.starting, hempty.readStart⟩,
    hwritten.inv hinv hpage hnonFull, _, _, hgathered, hnonFull, hwrite⟩

end

/-! ## All pages -/

/-- The rest of a write from the `i`-th sector on, with the last flush. -/
def WriteRequest.rest [Platform] (w : WriteRequest) (n i : Nat) : Sector Status := do
  let ret ← onfmWriteSectors w.addr w.data w.flag w.mft n i
  if ret = .success then onfmWriteSector 4294967295 none w.flag w.mft else pure ret

/-- The `i`-th sector of the request. -/
def WriteRequest.sector (w : WriteRequest) (i : Nat) (k : Nat) : Nat :=
  w.data.byte (i * sectorSize + k)

/-- What a write leaves, of which `n` pages from `page` on were to be written. -/
structure WriteDone [Platform] (w : WriteRequest) (n page : Nat) (o o' : OnfmState) : Prop where
  pages : PagesWritten w n page o.ftl o'.ftl
  inv : FtlInv o'.ftl
  idle : o'.Idle
  readStart : o'.readBufferStartSector = o.readBufferStartSector

section

variable [Platform] {o : OnfmState} {w : WriteRequest} {page x n i : Nat}
  {Q : Status → OnfmState → Prop} {E : Stop → Prop}

theorem wp_rest_succ : wp (w.rest (n + 1) i) Q E o ↔
    wp (onfmWriteSector (w.addr + i) (some (w.sector i)) w.flag w.mft) (fun ret o' =>
      if ret = .success then wp (w.rest n (i + 1)) Q E o' else Q ret o') E o := by
  unfold WriteRequest.rest
  rw [wp_bind, onfmWriteSectors, wp_bind]
  apply wp_congr
  intro ret o'
  by_cases hret : ret = .success
  · rw [if_pos hret, if_pos hret, wp_bind]
  · rw [if_neg hret, if_neg hret, wp_pure, if_neg hret, wp_pure]

theorem wp_writeSector_first {sector : Nat → Nat} (h : o.Idle) :
    wp (onfmWriteSector x (some sector) w.flag w.mft) Q E o ↔
      Q .success ({ o with startingSector := x / sectorPerMpp * sectorPerMpp }.put
        (x / sectorPerMpp) (x % sectorPerMpp) sector) := by
  unfold onfmWriteSector
  rw [wp_bind, wp_get]
  simp only [h.starting, if_true, wp_bind, wp_modify]
  exact wp_bufPutSector_idle h.last

theorem wp_writeSector_same {sector : Nat → Nat} (h : Pending o w page x)
    (hpage : page < 536870910) (hx : x / sectorPerMpp = page) :
    wp (onfmWriteSector x (some sector) w.flag w.mft) Q E o ↔
      Q .success (o.put page (x % sectorPerMpp) sector) := by
  have hstart : o.startingSector ≠ invalidLsaddr := by
    rw [h.starting]
    simp only [sectorPerMpp, invalidLsaddr]
    omega
  have hin : o.startingSector ≤ x ∧ x < (o.startingSector + sectorPerMpp) % 4294967296 := by
    rw [h.starting]
    simp only [sectorPerMpp] at *
    omega
  unfold onfmWriteSector
  rw [wp_bind, wp_get]
  simp only [hstart, hin, and_self, if_false, if_true, wp_bind]
  exact wp_bufPutSector_pending h (by omega) hx

theorem writeSector_next {sector : Nat → Nat} (h : Complete o w page x) (hs : FtlInv o.ftl)
    (hpage : page < ftlCapacity) (hlt : page < 536870910)
    (hq : ∀ t buffer, Gathered w page o.ftl t buffer → StartsNonFull t page)
    (hx : x = (page + 1) * sectorPerMpp) :
    wp (onfmWriteSector x (some sector) w.flag w.mft) (fun ret o' => ret = .success ∧
      ∃ o₁, Flushed w page o o₁ ∧
        o' = { o₁ with startingSector := (page + 1) * sectorPerMpp }.put (page + 1) 0 sector)
      (fun _ => True) o := by
  have hstart : o.startingSector ≠ invalidLsaddr := by
    rw [h.starting]
    simp only [sectorPerMpp, invalidLsaddr]
    omega
  have hout : ¬ (o.startingSector ≤ x ∧
      x < (o.startingSector + sectorPerMpp) % 4294967296) := by
    rw [h.starting]
    simp only [sectorPerMpp] at *
    omega
  have hnext : x = (o.startingSector + sectorPerMpp) % 4294967296 := by
    rw [h.starting]
    simp only [sectorPerMpp] at *
    omega
  have hdiv : x / sectorPerMpp = page + 1 := by
    simp only [sectorPerMpp] at *
    omega
  have hmod : x % sectorPerMpp = 0 := by
    simp only [sectorPerMpp] at *
    omega
  unfold onfmWriteSector
  rw [wp_bind, wp_get]
  simp only [hstart, hout, if_false]
  rw [wp_bind, wp_callFtl_assert, if_pos hnext, wp_bind]
  refine wp_mono_post (flushPage_spec h hs hpage (by omega) hq) ?_
  rintro _ o₁ ⟨rfl, hflushed⟩
  rw [if_pos rfl, wp_bind, wp_modify, wp_bind, hdiv]
  have hput : wp (bufPutSector x sector) (fun _ o' =>
      o' = { o₁ with startingSector := (page + 1) * sectorPerMpp }.put (page + 1) 0 sector)
      (fun _ => True) { o₁ with startingSector := (page + 1) * sectorPerMpp } := by
    have hlast : ({ o₁ with startingSector := (page + 1) * sectorPerMpp } : OnfmState).bufEndAddr =
        invalidLsaddr := hflushed.last
    rw [wp_bufPutSector_idle hlast, hdiv, hmod]
  refine wp_mono_post hput ?_
  rintro _ _ rfl
  exact ⟨rfl, o₁, hflushed, rfl⟩

theorem writeSector_last (h : Complete o w page x) (hs : FtlInv o.ftl)
    (hpage : page < ftlCapacity) (hlt : page < 536870910)
    (hq : ∀ t buffer, Gathered w page o.ftl t buffer → StartsNonFull t page) :
    wp (onfmWriteSector 4294967295 none w.flag w.mft) (fun ret o' => ret = .success ∧
      WriteDone w 1 page o o') (fun _ => True) o := by
  have hstart : o.startingSector ≠ invalidLsaddr := by
    rw [h.starting]
    simp only [sectorPerMpp, invalidLsaddr]
    omega
  unfold onfmWriteSector
  rw [wp_bind, wp_get]
  simp only [hstart, if_false]
  rw [wp_bind]
  refine wp_mono_post (flushPage_spec h hs hpage (by omega) hq) ?_
  rintro _ o₁ ⟨rfl, hflushed⟩
  rw [if_pos rfl, wp_bind, wp_callFtl_assert, if_pos rfl, wp_bind, wp_modify, wp_pure]
  obtain ⟨t, buffer, hgathered, hnonFull, hwrite⟩ := hflushed.page_written
  exact ⟨rfl, .cons hgathered hnonFull hwrite .nil, hflushed.inv,
    ⟨rfl, hflushed.start, hflushed.last, hflushed.written⟩, hflushed.readStart⟩

omit [Platform] in
/-- The write buffer is complete at the end of the request and of a page. -/
theorem Pending.complete (h : Pending o w page x)
    (hx : x = w.addr + w.count ∨ x = (page + 1) * sectorPerMpp ∧ x ≤ w.addr + w.count) :
    Complete o w page x := by
  refine ⟨h, fun j hj => ?_⟩
  unfold WriteRequest.Writes
  simp only [sectorPerMpp] at *
  omega

theorem rest_spec {c : Nat} (h : Pending o w page (w.addr + i)) (hcount : i + n = w.count)
    (hlow : page * sectorPerMpp < w.addr + i) (hhigh : w.addr + i ≤ (page + 1) * sectorPerMpp)
    (hs : FtlInv o.ftl) (hcap : w.addr + w.count ≤ onfmCapacity)
    (hc : c = (w.addr + w.count - 1) / sectorPerMpp - page + 1)
    (hq : EachPage w (fun page _ t => StartsNonFull t page) c page o.ftl) :
    wp (w.rest n i) (fun ret o' => ret = .success ∧ WriteDone w c page o o')
      (fun _ => True) o := by
  have hlt := onfmCapacity_lt
  induction n generalizing o i page c with
  | zero =>
      have hpage : page < ftlCapacity := by
        have hlast : (w.addr + i - 1) / sectorPerMpp < ftlCapacity :=
          onfmCapacity_page (by omega)
        simp only [sectorPerMpp] at *
        omega
      obtain rfl : c = 1 := by
        simp only [sectorPerMpp] at *
        omega
      have hcomplete := h.complete (.inl (by omega))
      unfold WriteRequest.rest onfmWriteSectors
      rw [wp_bind, wp_pure, if_pos rfl]
      refine writeSector_last hcomplete hs hpage ?_ fun t buffer hg => (hq t buffer hg).1
      simp only [sectorPerMpp] at *
      omega
  | succ n ih =>
      have hpage : page < ftlCapacity := by
        have hlast : (w.addr + i - 1) / sectorPerMpp < ftlCapacity :=
          onfmCapacity_page (by omega)
        simp only [sectorPerMpp] at *
        omega
      have hpage' : page < 536870910 := by
        simp only [sectorPerMpp] at *
        omega
      have hsector : w.sector i =
          fun k => w.data.byte ((w.addr + i - w.addr) * sectorSize + k) := by
        rw [Nat.add_sub_cancel_left]
        rfl
      rw [wp_rest_succ]
      by_cases hsame : w.addr + i < (page + 1) * sectorPerMpp
      · have hx : (w.addr + i) / sectorPerMpp = page := by
          simp only [sectorPerMpp] at *
          omega
        rw [wp_writeSector_same h hpage' hx, if_pos rfl]
        have hrest := ih (o := o.put page ((w.addr + i) % sectorPerMpp) (w.sector i)) (i := i + 1)
          (h.next hx (Nat.le_add_right _ _) hsector) (by omega) (by omega) hsame hs hc hq
        refine wp_mono_post hrest ?_
        rintro ret o' ⟨hret, hdone⟩
        exact ⟨hret, hdone.pages, hdone.inv, hdone.idle, hdone.readStart⟩
      · have hx : w.addr + i = (page + 1) * sectorPerMpp := by omega
        obtain ⟨c, rfl⟩ : ∃ c', c = c' + 1 := ⟨_, hc⟩
        have hcomplete := h.complete (.inr ⟨hx, by omega⟩)
        refine wp_mono_post (writeSector_next hcomplete hs hpage hpage'
          (fun t buffer hg => (hq t buffer hg).1) hx) ?_
        rintro _ _ ⟨rfl, o₁, hflushed, rfl⟩
        obtain ⟨t, buffer, hgathered, hnonFull, hwrite⟩ := hflushed.page_written
        have hmod : (w.addr + i) % sectorPerMpp = 0 := by
          simp only [sectorPerMpp] at *
          omega
        have hdiv : (w.addr + i) / sectorPerMpp = page + 1 := by
          simp only [sectorPerMpp] at *
          omega
        have hfirst := Pending.first
          (o := { o₁ with startingSector := (page + 1) * sectorPerMpp }) (w := w)
          hflushed.written hdiv rfl (Nat.le_add_right _ _) (.inr hmod) hsector
        rw [hmod] at hfirst
        rw [if_pos rfl]
        have hrest := ih (i := i + 1) hfirst (by omega)
          (by simp only [sectorPerMpp] at *; omega) (by simp only [sectorPerMpp] at *; omega)
          hflushed.inv (c := c) (by simp only [sectorPerMpp] at *; omega)
          ((hq t buffer hgathered).2 _ hwrite)
        refine wp_mono_post hrest ?_
        rintro ret o' ⟨hret, hdone⟩
        exact ⟨hret, .cons hgathered hnonFull hwrite hdone.pages, hdone.inv, hdone.idle,
          hdone.readStart.trans hflushed.readStart⟩

omit [Platform] in
theorem gathered_wholePage [Platform] {s : FtlState} (h : WholePage w.addr w.count) :
    Gathered w w.firstPage s s w.data := by
  obtain ⟨haddr, hcount⟩ := h
  have hcovers : w.Covers w.firstPage := by
    intro j hj
    unfold WriteRequest.Writes WriteRequest.firstPage
    simp only [sectorPerMpp] at *
    omega
  refine ⟨fun _ => ⟨rfl, fun k hk => ?_⟩, fun hno => absurd hcovers hno⟩
  unfold WriteRequest.byte WriteRequest.firstPage
  simp only [sectorPerMpp, sectorSize, mppSize] at *
  rw [show w.addr / 8 * 4096 + k - w.addr * 512 = k by omega]

/-- A write that returns has written all its pages. -/
theorem onfmWrite_spec (hs : FtlInv o.ftl) (hidle : o.Idle)
    (hcap : w.addr + w.count ≤ onfmCapacity) (hq : WritesNonFull w o.ftl) :
    wp (onfmWrite w.addr w.count w.data w.flag w.mft) (fun ret o' => ret = .success ∧
      WriteDone w w.pages w.firstPage { o with readBufferStartSector := invalidLsaddr } o')
      (fun _ => True) o := by
  have hlt := onfmCapacity_lt
  unfold onfmWrite
  rw [wp_bind, wp_modify]
  by_cases hwhole : WholePage w.addr w.count
  · have hgathered := gathered_wholePage (s := o.ftl) hwhole
    have hpages : w.pages = 1 := by
      obtain ⟨haddr, hcount⟩ := hwhole
      unfold WriteRequest.pages pageCount
      simp only [sectorPerMpp] at *
      rw [if_neg (by omega)]
      omega
    have hpage : w.firstPage < ftlCapacity := by
      obtain ⟨_, hcount⟩ := hwhole
      have haddr : w.addr < onfmCapacity := by
        simp only [sectorPerMpp] at hcount
        omega
      exact onfmCapacity_page haddr
    unfold WritesNonFull at hq
    rw [hpages] at hq ⊢
    have hnonFull := (hq _ _ hgathered).1
    rw [if_pos hwhole, wp_callFtl]
    refine wp_of_ok_imp ?_
    intro ret s hwrite
    obtain ⟨rfl, hwritten⟩ := of_wp_ok
      (ftlWrite_spec (E := fun _ => True) hs hpage hnonFull fun _ _ => trivial) hwrite
    exact ⟨rfl, .cons hgathered hnonFull hwrite .nil, hwritten.inv hs hpage hnonFull,
      ⟨hidle.starting, hidle.start, hidle.last, hidle.written⟩, rfl⟩
  · rw [if_neg hwhole]
    change wp (w.rest w.count 0) _ _ _
    cases hcount : w.count with
    | zero =>
        have hpages : w.pages = 0 := by
          unfold WriteRequest.pages pageCount
          rw [if_pos hcount]
        unfold WriteRequest.rest onfmWriteSectors onfmWriteSector
        rw [wp_bind, wp_pure, if_pos rfl, wp_bind, wp_get, hpages]
        simp only [hidle.starting, if_true, wp_pure, true_and]
        exact ⟨.nil, hs, ⟨rfl, hidle.start, hidle.last, hidle.written⟩, rfl⟩
    | succ n =>
        have hidle' : ({ o with readBufferStartSector := invalidLsaddr } : OnfmState).Idle :=
          ⟨hidle.starting, hidle.start, hidle.last, hidle.written⟩
        have hpages : w.pages = (w.addr + w.count - 1) / sectorPerMpp - w.firstPage + 1 := by
          unfold WriteRequest.pages pageCount
          rw [if_neg (by omega)]
          rfl
        have hsector : w.sector 0 = fun k => w.data.byte ((w.addr - w.addr) * sectorSize + k) := by
          rw [Nat.sub_self]
          rfl
        have hfirst : Pending ({ o with
            readBufferStartSector := invalidLsaddr
            startingSector := w.firstPage * sectorPerMpp }.put w.firstPage
              (w.addr % sectorPerMpp) (w.sector 0)) w w.firstPage (w.addr + 1) :=
          .first hidle.written rfl rfl le_rfl (.inl rfl) hsector
        unfold WritesNonFull at hq
        rw [wp_rest_succ, Nat.add_zero, wp_writeSector_first hidle', if_pos rfl]
        have hin : w.firstPage * sectorPerMpp < w.addr + 1 ∧
            w.addr + 1 ≤ (w.firstPage + 1) * sectorPerMpp := by
          unfold WriteRequest.firstPage
          simp only [sectorPerMpp]
          omega
        have hrest := rest_spec (i := 1) (n := n) (c := w.pages) hfirst (by omega) hin.1 hin.2 hs hcap hpages hq
        refine wp_mono_post hrest ?_
        rintro ret o' ⟨hret, hdone⟩
        exact ⟨hret, hdone.pages, hdone.inv, hdone.idle, hdone.readStart⟩

end

end RansomTag

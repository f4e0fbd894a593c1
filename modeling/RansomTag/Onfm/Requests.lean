import RansomTag.Onfm.Writes

/-!
# Runs of sector requests

Reads and writes of sectors in any order after a mount: what a read delivers
against the pages below the read buffer, and what a write leaves for the reads
after it.
-/

namespace RansomTag

open Program

section

variable [Platform]

/-! ## Runs -/

/-- The storage is formatted and mounted. -/
def onfmStart (fuel : Nat) : Sector Status := do
  let ret ← onfmFormat
  if ret = .success then onfmMount fuel else pure ret

/-- The state that `main` leaves before the first request. -/
structure Mounted (o : OnfmState) : Prop where
  start : ∃ flash unset stale fuel, 2 ≤ fuel ∧
    onfmStart fuel (.powerOn (.powerOn flash unset) stale) = .ok (.success, o)

/-- A run of requests on the device, with the flags of the page in the read
buffer.  No page write of the run finds its journal full: that is what a
reclaim without a stale page leaves behind. -/
inductive OnfmRun : OnfmState → Bool × Bool → Prop where
  | mounted {o : OnfmState} : Mounted o → OnfmRun o (false, false)
  | read {o o' : OnfmState} {fill : Bool × Bool} {addr count : Nat} {out : Buffer}
      {flag mft : Bool} {r : Status × Buffer} :
      OnfmRun o fill → addr + count ≤ onfmCapacity →
      onfmRead addr count out flag mft o = .ok (r, o') →
      OnfmRun o' (o.fillAfter o' fill addr count flag mft)
  | write {o o' : OnfmState} {fill : Bool × Bool} {w : WriteRequest} {ret : Status} :
      OnfmRun o fill → w.addr + w.count ≤ onfmCapacity → WritesNonFull w o.ftl →
      onfmWrite w.addr w.count w.data w.flag w.mft o = .ok (ret, o') →
      OnfmRun o' (false, false)

variable {o o' : OnfmState} {fill : Bool × Bool} {w : WriteRequest} {addr count : Nat}
  {flag mft : Bool} {out : Buffer}

omit [Platform] in
theorem readBuffer_invalid (h : o.readBufferStartSector = invalidLsaddr) {page : Nat} :
    o.readBufferStartSector ≠ page * sectorPerMpp := by
  rw [h]
  simp only [invalidLsaddr, sectorPerMpp]
  omega

/-- Without a page in the read buffer its flags do not matter. -/
theorem OnfmInv.of_empty (hs : FtlInv o.ftl) (hidle : o.Idle)
    (hread : o.readBufferStartSector = invalidLsaddr) : OnfmInv o fill :=
  ⟨hs, hidle, .inl hread, fun _ h => absurd h (readBuffer_invalid hread),
    fun _ h => absurd h (readBuffer_invalid hread)⟩

theorem onfmStart_spec {flash : Flash} {unset : Nat → Nat} {stale : Nat → Buffer} {fuel : Nat}
    {E : Stop → Prop} (hfuel : 2 ≤ fuel) :
    wp (onfmStart fuel) (fun ret o => ret = .success ∧ FirstMounted o.ftl ∧ o.Idle ∧
      o.readBufferStartSector = invalidLsaddr) E
      (.powerOn (.powerOn flash unset) stale) := by
  have hmeta : ∀ p, (FtlState.powerOn flash unset).pmt.metaData p < pmtClusterCount := by
    intro p
    exact pmtClusterCount_pos
  have hstart := ftlFormatAndMount_spec (E := E) hmeta hfuel
  unfold ftlFormatAndMount at hstart
  rw [wp_bind] at hstart
  unfold onfmStart onfmFormat
  rw [wp_bind, wp_callFtl]
  refine wp_mono_post hstart ?_
  intro ret s hrest
  by_cases hret : ret = .success
  · rw [if_pos hret] at hrest ⊢
    unfold onfmMount bufInit
    rw [wp_bind, wp_modify, wp_bind, wp_bind, wp_modify, wp_bind, wp_bufAllocate, wp_modify,
      wp_callFtl]
    refine wp_mono_post hrest ?_
    rintro ret' s' ⟨hret', hmounted⟩
    exact ⟨hret', hmounted, ⟨rfl, rfl, rfl, fun _ => rfl⟩, rfl⟩
  · rw [if_neg hret] at hrest ⊢
    exact absurd hrest.1 hret

theorem Mounted.inv (h : Mounted o) : OnfmInv o (false, false) := by
  obtain ⟨flash, unset, stale, fuel, hfuel, hstart⟩ := h.start
  obtain ⟨_, hmounted, hidle, hread⟩ :=
    of_wp_ok (onfmStart_spec (E := fun _ => True) hfuel) hstart
  exact .of_empty hmounted.inv hidle hread

theorem WriteDone.onfmInv {n page : Nat} {o₁ : OnfmState} (h : WriteDone w n page o₁ o')
    (hread : o₁.readBufferStartSector = invalidLsaddr) : OnfmInv o' fill :=
  .of_empty h.inv h.idle (h.readStart.trans hread)

theorem OnfmRun.inv (h : OnfmRun o fill) : OnfmInv o fill := by
  induction h with
  | mounted h => exact h.inv
  | read _ hcap hread ih => exact (of_wp_ok (onfmRead_keeps ih hcap) hread).1
  | write _ hcap hq hwrite ih =>
      exact (of_wp_ok (onfmWrite_spec ih.ftl ih.idle hcap hq) hwrite).2.onfmInv rfl

/-! ## The read buffer -/

/-- The sectors in `d` are those that the pages of the request, read one by one
with its flags, deliver. -/
def DeliversPages (s : FtlState) (addr count : Nat) (flag mft : Bool) (d : Buffer) : Prop :=
  ∃ pages s', ftlReadPages flag mft (pageCount addr count) (addr / sectorPerMpp) s =
    .ok (pages, s') ∧ FromPages pages addr count 0 d

/-- The first page of a read is not in the read buffer, or it was read there
with the same flag, and neither moves the version cursor; a read with `mft` of the
page behind the cursor does not move it. -/
def OnfmState.Unmixed (o : OnfmState) (fill : Bool × Bool) (addr count : Nat)
    (flag mft : Bool) : Prop :=
  count = 0 ∨ WholePage addr count ∨ ¬ o.Buffered addr ∨
    (mft = false ∧ fill = (flag, false) ∧
      (flag = true → ∀ j, j < count → o.ftl.view.LinksData ((addr + j) / sectorPerMpp))) ∨
    mft = true ∧ fill = (false, false) ∧ o.BuffersNext ∧ pageCount addr count = 1

omit [Platform] in
theorem pageCount_wholePage (h : WholePage addr count) : pageCount addr count = 1 := by
  obtain ⟨haddr, hcount⟩ := h
  unfold pageCount
  simp only [sectorPerMpp] at *
  rw [if_neg (by omega)]
  omega

/-- The buffered page and the pages after it, as they are read now. -/
theorem deliversPages_buffered {d : Buffer} {rs : List (Status × Option Buffer)} {s : FtlState}
    (hinv : OnfmInv o (flag, false)) (hcap : addr + count ≤ onfmCapacity)
    (hcount : count ≠ 0) (hbuffered : o.Buffered addr)
    (hlink : flag = true → ∀ j, j < count → o.ftl.view.LinksData ((addr + j) / sectorPerMpp))
    (hrest : ftlReadPages flag false (pageCount addr count - 1) (addr / sectorPerMpp + 1) o.ftl =
      .ok (rs, s))
    (hfrom : FromPages ((.success, some o.readBuffer) :: rs) addr count 0 d) :
    DeliversPages o.ftl addr count flag false d := by
  have hlt := onfmCapacity_lt
  have hlink₀ : flag = true → o.ftl.view.LinksData (addr / sectorPerMpp) := by
    intro hflag
    have h := hlink hflag 0 (by omega)
    rwa [Nat.add_zero] at h
  have hstart := (hinv.aligned.buffered_iff (by omega)).mp hbuffered
  have hresult := hinv.buffered _ hstart rfl hlink₀
  obtain ⟨t, hread, hdone⟩ := ftlRead_same hinv.ftl (s := o.ftl) rfl
    (onfmCapacity_page (by omega)) hlink₀ hresult
  have hpages : ∀ q, addr / sectorPerMpp + 1 ≤ q →
      q < addr / sectorPerMpp + 1 + (pageCount addr count - 1) →
      q < ftlCapacity ∧ (flag = true → o.ftl.view.LinksData q) := by
    intro q hq hq'
    unfold pageCount at hq'
    rw [if_neg hcount] at hq'
    have hsector : (addr + (q * sectorPerMpp - addr)) / sectorPerMpp = q := by
      simp only [sectorPerMpp] at *
      omega
    have hin : q * sectorPerMpp - addr < count := by
      simp only [sectorPerMpp] at *
      omega
    refine ⟨?_, fun hflag => ?_⟩
    · rw [← hsector]
      exact onfmCapacity_page (by omega)
    · rw [← hsector]
      exact hlink hflag _ hin
  obtain ⟨t', hrest'⟩ := ftlReadPages_same hinv.ftl (hdone.inv hinv.ftl)
    (hdone.same hinv.ftl.base) hpages hrest
  have hsucc : pageCount addr count = pageCount addr count - 1 + 1 := by
    unfold pageCount
    rw [if_neg hcount]
    omega
  refine ⟨_, t', ?_, hfrom⟩
  rw [hsucc]
  exact ftlReadPages_cons hread hrest'

/-- The buffered page, as it is read now without moving the cursor. -/
theorem deliversPages_next {d : Buffer} {rs : List (Status × Option Buffer)} {s : FtlState}
    (hinv : OnfmInv o (false, false)) (hcap : addr + count ≤ onfmCapacity)
    (hcount : count ≠ 0) (hbuffered : o.Buffered addr) (hnext : o.BuffersNext)
    (hone : pageCount addr count = 1)
    (hrest : ftlReadPages flag true (pageCount addr count - 1) (addr / sectorPerMpp + 1) o.ftl =
      .ok (rs, s))
    (hfrom : FromPages ((.success, some o.readBuffer) :: rs) addr count 0 d) :
    DeliversPages o.ftl addr count flag true d := by
  have hlt := onfmCapacity_lt
  have hstart := (hinv.aligned.buffered_iff (by omega)).mp hbuffered
  have hpage : addr / sectorPerMpp = (o.ftl.api.lastAddr + 1) % 4294967296 := by
    have hsame := hstart.symm.trans hnext
    simp only [sectorPerMpp] at hsame ⊢
    omega
  have hwp : wp (ftlRead (addr / sectorPerMpp) flag true) _ (fun _ => False) o.ftl :=
    ftlRead_next_spec hinv.ftl.base hinv.ftl.data (onfmCapacity_page (by omega)) hpage
  obtain ⟨_, t, hread, rfl, -⟩ := exists_ok_of_wp hwp
  have hbuffer := hinv.buffered _ hstart rfl fun h => absurd h Bool.false_ne_true
  rw [DataView.result_plain] at hbuffer
  rw [Except.ok.inj hbuffer] at hread
  rw [hone] at hrest
  obtain ⟨rfl, rfl⟩ : [] = rs ∧ o.ftl = s := Prod.mk.inj (Except.ok.inj hrest)
  refine ⟨_, t, ?_, hfrom⟩
  rw [hone]
  exact ftlReadPages_cons hread rfl

omit [Platform] in
/-- The page of a request for a whole page is delivered as it was read. -/
theorem fromPages_wholePage (h : WholePage addr count) (d : Buffer) :
    FromPages [(.success, some d)] addr count 0 d := by
  obtain ⟨haddr, hcount⟩ := h
  simp only [sectorPerMpp] at haddr hcount
  refine fun j hj => ⟨d, ?_, fun k _ => ?_⟩
  · simp only [sectorPerMpp] at *
    rw [show (addr + j) / 8 - addr / 8 = 0 by omega]
    rfl
  · simp only [sectorPerMpp] at *
    rw [show (addr + j) % 8 = 0 + j by omega]

/-- Byte `k` of the content of a page. -/
def DataView.plainByte (v : DataView) (page k : Nat) : Nat :=
  ((v.plain page).getD .zeros).byte k

/-- The `n` sectors from the `first`-th on in `d` are the plain content at `addr` and on. -/
def FromPlain (v : DataView) (addr n first : Nat) (d : Buffer) : Prop :=
  ∀ j, j < n → ∀ k, k < sectorSize → d.byte ((first + j) * sectorSize + k) =
    v.plainByte ((addr + j) / sectorPerMpp) ((addr + j) % sectorPerMpp * sectorSize + k)

theorem SameData.plainByte {s t : FtlState} (h : SameData s t) {page k : Nat} :
    t.view.plainByte page k = s.view.plainByte page k := by
  rw [h]
  rfl

omit [Platform] in
theorem FromPlain.cons {v : DataView} {n i : Nat} {d bytes : Buffer} {sector : Nat → Nat}
    (hsector : ∀ k, k < sectorSize → sector k = v.plainByte (addr / sectorPerMpp)
      (addr % sectorPerMpp * sectorSize + k))
    (hkeep : ∀ k, k < (i + 1) * sectorSize →
      d.byte k = (bytes.splice (i * sectorSize) sectorSize sector).byte k)
    (h : FromPlain v (addr + 1) n (i + 1) d) : FromPlain v addr (n + 1) i d := by
  intro j hj k hk
  cases j with
  | zero =>
      have hlow : (i + 0) * sectorSize + k < (i + 1) * sectorSize := by
        simp only [sectorSize] at *
        omega
      have hin : i * sectorSize ≤ (i + 0) * sectorSize + k ∧
          (i + 0) * sectorSize + k < i * sectorSize + sectorSize := by
        simp only [sectorSize] at *
        omega
      rw [hkeep _ hlow, Buffer.byte_splice, if_pos hin]
      simp only [Nat.add_zero, Nat.add_sub_cancel_left]
      exact hsector k hk
  | succ j =>
      have hnext := h j (by omega) k hk
      rw [Nat.add_assoc i 1 j, Nat.add_comm 1 j, Nat.add_assoc addr 1 j,
        Nat.add_comm 1 j] at hnext
      exact hnext

/-- The read buffer of a plain read. -/
theorem OnfmInv.plain_buffered (h : OnfmInv o (false, false)) {page : Nat}
    (hpage : o.readBufferStartSector = page * sectorPerMpp) :
    o.readBuffer = (o.ftl.view.plain page).getD .zeros := by
  have hresult := h.buffered page hpage rfl fun h => nomatch h
  unfold DataView.result at hresult
  unfold DataView.plain
  cases hentry : o.ftl.view.entry page with
  | none =>
      rw [hentry] at hresult
      simpa using hresult.symm
  | some e =>
      rw [hentry] at hresult
      simpa using hresult.symm

theorem readSectors_plain {n i : Nat} {E : Stop → Prop} (h : OnfmInv o (false, false))
    (haddr : addr + i + n ≤ onfmCapacity) :
    wp (onfmReadSectors addr false false n i out) (fun r _ => r.1 = .success ∧
      FromPlain o.ftl.view (addr + i) n i r.2 ∧ ∀ k, k < i * sectorSize → r.2.byte k = out.byte k)
      E o := by
  have hlt := onfmCapacity_lt
  induction n generalizing o i out with
  | zero => exact ⟨rfl, fun j hj => absurd hj (Nat.not_lt_zero j), fun _ _ => rfl⟩
  | succ n ih =>
      -- the sector that is read, and then the sectors after it
      have hstep : ∀ {o₁ : OnfmState}, OnfmInv o₁ (false, false) → SameData o.ftl o₁.ftl →
          o₁.Buffered (addr + i) →
          wp (onfmReadSectors addr false false n (i + 1) (out.splice (i * sectorSize) sectorSize
            (o₁.sectorBytes (addr + i)))) (fun r _ => r.1 = .success ∧
              FromPlain o.ftl.view (addr + i) (n + 1) i r.2 ∧
              ∀ k, k < i * sectorSize → r.2.byte k = out.byte k) E o₁ := by
        intro o₁ h₁ hsame hbuffered
        have hstart := (h₁.aligned.buffered_iff (by omega)).mp hbuffered
        refine wp_mono_post (ih (i := i + 1) h₁ (by omega)) ?_
        rintro r _ ⟨hret, hfrom, hkeep⟩
        refine ⟨hret, FromPlain.cons (fun k hk => ?_) hkeep fun j hj k hk => ?_, fun k hk => ?_⟩
        · unfold OnfmState.sectorBytes
          rw [h₁.plain_buffered hstart]
          exact hsame.plainByte
        · rw [hfrom j hj k hk]
          exact hsame.plainByte
        · have hout : ¬ (i * sectorSize ≤ k ∧ k < i * sectorSize + sectorSize) :=
            fun hin => absurd hin.1 (Nat.not_le.mpr hk)
          rw [hkeep k (Nat.lt_of_lt_of_le hk (Nat.mul_le_mul_right _ (Nat.le_succ i))),
            Buffer.byte_splice, if_neg hout]
      unfold onfmReadSectors
      rw [wp_bind]
      by_cases hbuffered : o.Buffered (addr + i)
      · rw [wp_readSector_buffered h.aligned (by omega) hbuffered]
        exact hstep h rfl hbuffered
      · have hpage : (addr + i) / sectorPerMpp < ftlCapacity := onfmCapacity_page (by omega)
        have htotal : wp (ftlRead ((addr + i) / sectorPerMpp) false false) _ (fun _ => False)
            o.ftl := ftlRead_plain_spec h.ftl.base h.ftl.data hpage
        obtain ⟨_, s, hread, rfl, _⟩ := exists_ok_of_wp htotal
        obtain ⟨hinv, hsame⟩ := h.fetched (by omega) hread
        rw [wp_readSector_miss hbuffered, wp_iff_of_ok hread, if_pos rfl]
        exact hstep hinv hsame (OnfmState.fetched_buffered (by omega))

/-- A plain read succeeds and delivers the plain content, unless a tagged read
filled the read buffer. -/
theorem onfmRead_plain {E : Stop → Prop} (h : OnfmInv o (false, false))
    (haddr : addr + count ≤ onfmCapacity) :
    wp (onfmRead addr count out false false)
      (fun r _ => r.1 = .success ∧ FromPlain o.ftl.view addr count 0 r.2) E o := by
  rw [wp_onfmRead]
  by_cases hwhole : WholePage addr count
  · obtain ⟨hstart, hcount⟩ := hwhole
    have hpage : addr / sectorPerMpp < ftlCapacity := by
      apply onfmCapacity_page
      simp only [sectorPerMpp] at hcount
      omega
    rw [if_pos ⟨hstart, hcount⟩]
    refine wp_mono_post (ftlRead_plain_spec h.ftl.base h.ftl.data hpage) ?_
    rintro _ s ⟨rfl, _⟩
    rw [if_pos rfl]
    refine ⟨rfl, fun j hj k hk => ?_⟩
    simp only [sectorPerMpp, sectorSize] at *
    rw [show (addr + j) / 8 = addr / 8 by omega, show (addr + j) % 8 = 0 + j by omega]
    rfl
  · rw [if_neg hwhole]
    refine wp_mono_post (readSectors_plain (i := 0) h (by omega)) ?_
    rintro r _ ⟨hret, hfrom, _⟩
    rw [if_pos hret]
    exact ⟨hret, hfrom⟩

/-! ## What a write leaves -/

/-- A page that the request covers only in part is read with its flags as a plain
read reads it, where the request writes no sector. -/
def MergesPlain (w : WriteRequest) (page : Nat) (s : FtlState) : Prop :=
  ¬ w.Covers page → ∀ r t, ftlRead page w.flag w.mft s = .ok (r, t) → r.1 = .success ∧
    ∀ content, r.2 = some content → ∀ k, k < mppSize →
      ¬ w.Writes (page * sectorPerMpp + k / sectorSize) →
      content.byte k = s.view.plainByte page k

/-- So it is for every page of the request, when the request comes to it. -/
def WriteRequest.Merges (w : WriteRequest) (s : FtlState) : Prop :=
  EachPage w (fun page s _ => MergesPlain w page s) w.pages w.firstPage s

theorem Gathered.byte {page k : Nat} {s t : FtlState} {buffer : Buffer}
    (h : Gathered w page s t buffer) (hm : MergesPlain w page s) (hk : k < mppSize) :
    buffer.byte k = if w.Writes (page * sectorPerMpp + k / sectorSize) then w.byte page k
      else s.view.plainByte page k := by
  by_cases hcovers : w.Covers page
  · have hj : k / sectorSize < sectorPerMpp := by
      simp only [mppSize, sectorSize, sectorPerMpp] at *
      omega
    rw [if_pos (hcovers _ hj)]
    exact (h.whole hcovers).2 k hk
  · obtain ⟨r, hread, stale, hmerged⟩ := h.part hcovers
    obtain ⟨hret, hcontent⟩ := hm hcovers r t hread
    obtain ⟨content, hsome⟩ := of_wp_ok ftlRead_fills hread hret
    rw [hmerged k hk, hsome]
    by_cases hw : w.Writes (page * sectorPerMpp + k / sectorSize)
    · rw [if_pos ⟨hret, hw⟩, if_pos hw]
    · rw [if_neg fun h => hw h.2, if_neg hw]
      exact hcontent content hsome k hk hw

theorem Gathered.same {page : Nat} {s t : FtlState} {buffer : Buffer}
    (h : Gathered w page s t buffer) (hs : FtlInv s) (hpage : page < ftlCapacity) :
    FtlInv t ∧ SameData s t := by
  by_cases hcovers : w.Covers page
  · rw [(h.whole hcovers).1]
    exact ⟨hs, rfl⟩
  · obtain ⟨r, hread, _⟩ := h.part hcovers
    have hdone := of_wp_ok (ftlRead_any hs.base hpage) hread
    exact ⟨hdone.inv hs, hdone.same hs.base⟩

/-- One page write changes the plain content of its page alone. -/
theorem Gathered.written {page q k : Nat} {s t s' : FtlState} {buffer : Buffer}
    (h : Gathered w page s t buffer) (hm : MergesPlain w page s) (hs : FtlInv s)
    (hpage : page < ftlCapacity) (hnonFull : StartsNonFull t page)
    (hwrite : ftlWrite page (some buffer) w.flag w.mft t = .ok (.success, s'))
    (hq : q < ftlCapacity) (hk : k < mppSize) :
    s'.view.plainByte q k =
      if q = page ∧ w.Writes (q * sectorPerMpp + k / sectorSize) then w.byte q k
      else s.view.plainByte q k := by
  obtain ⟨ht, hsame⟩ := h.same hs hpage
  obtain ⟨_, hwritten⟩ := of_wp_ok
    (ftlWrite_spec (E := fun _ => True) ht hpage hnonFull fun _ _ => trivial) hwrite
  have hplain := hwritten.plain ht hpage hnonFull hq
  unfold DataView.plainByte at *
  rw [hplain]
  by_cases hqp : q = page
  · subst hqp
    rw [if_pos rfl]
    simp only [true_and, Option.getD_some]
    exact h.byte hm hk
  · rw [if_neg hqp, if_neg fun h => hqp h.1]
    exact hsame.plainByte

theorem PagesWritten.plainByte {n page q k : Nat} {s s' : FtlState}
    (h : PagesWritten w n page s s') (hs : FtlInv s) (hcap : page + n ≤ ftlCapacity)
    (hm : EachPage w (fun page s _ => MergesPlain w page s) n page s)
    (hq : q < ftlCapacity) (hk : k < mppSize) :
    s'.view.plainByte q k =
      if (page ≤ q ∧ q < page + n) ∧ w.Writes (q * sectorPerMpp + k / sectorSize) then
        w.byte q k
      else s.view.plainByte q k := by
  induction h with
  | nil => rw [if_neg (by omega)]
  | @cons n page s t s₁ s' buffer hgathered hnonFull hwrite _ ih =>
      obtain ⟨hmerges, hrest⟩ := hm t buffer hgathered
      obtain ⟨ht, _⟩ := hgathered.same hs (by omega)
      have hinv : FtlInv s₁ := by
        obtain ⟨_, hwritten⟩ := of_wp_ok (ftlWrite_spec (E := fun _ => True) ht (by omega)
          hnonFull fun _ _ => trivial) hwrite
        exact hwritten.inv ht (by omega) hnonFull
      rw [ih hinv (by omega) (hrest s₁ hwrite),
        hgathered.written hmerges hs (by omega) hnonFull hwrite hq hk]
      by_cases hw : w.Writes (q * sectorPerMpp + k / sectorSize)
      · by_cases hqp : q = page
        · rw [if_neg fun h => absurd h.1.1 (by omega), if_pos ⟨hqp, hw⟩,
            if_pos ⟨by omega, hw⟩]
        · by_cases hlater : page + 1 ≤ q ∧ q < page + 1 + n
          · rw [if_pos ⟨hlater, hw⟩, if_pos ⟨by omega, hw⟩]
          · rw [if_neg fun h => hlater h.1, if_neg fun h => hqp h.1,
              if_neg fun h => hlater (by omega)]
      · rw [if_neg fun h => hw h.2, if_neg fun h => hw h.2, if_neg fun h => hw h.2]

/-- A page of an untagged request is merged with its plain content. -/
theorem mergesPlain_untagged {page : Nat} {s : FtlState} (hs : FtlInv s)
    (hpage : page < ftlCapacity) (hflag : w.flag = false) (hmft : w.mft = false) :
    MergesPlain w page s := by
  intro _ r t hread
  rw [hflag, hmft] at hread
  obtain ⟨rfl, _⟩ := of_wp_ok
    (ftlRead_plain_spec (E := fun _ => True) hs.base hs.data hpage) hread
  refine ⟨rfl, fun content hcontent k _ _ => ?_⟩
  obtain rfl : (s.view.plain page).getD .zeros = content := by simpa using hcontent
  rfl

theorem eachPage_untagged {n page : Nat} {s : FtlState} (hs : FtlInv s)
    (hcap : page + n ≤ ftlCapacity) (hflag : w.flag = false) (hmft : w.mft = false)
    (hq : EachPage w (fun page _ t => StartsNonFull t page) n page s) :
    EachPage w (fun page s _ => MergesPlain w page s) n page s := by
  induction n generalizing page s with
  | zero => trivial
  | succ n ih =>
      intro t buffer hgathered
      obtain ⟨hnonFull, hrest⟩ := hq t buffer hgathered
      obtain ⟨ht, _⟩ := hgathered.same hs (by omega)
      refine ⟨mergesPlain_untagged hs (by omega) hflag hmft, fun s' hwrite => ?_⟩
      obtain ⟨_, hwritten⟩ := of_wp_ok (ftlWrite_spec (E := fun _ => True) ht (by omega)
        hnonFull fun _ _ => trivial) hwrite
      exact ih (hwritten.inv ht (by omega) hnonFull) (by omega) (hrest s' hwrite)

omit [Platform] in
theorem WriteRequest.lastPage_le (hcap : w.addr + w.count ≤ (x : Nat) * sectorPerMpp) :
    w.firstPage + w.pages ≤ x := by
  unfold WriteRequest.firstPage WriteRequest.pages pageCount
  simp only [sectorPerMpp] at *
  split
  · omega
  · omega

theorem WriteRequest.pages_le (hcap : w.addr + w.count ≤ onfmCapacity) :
    w.firstPage + w.pages ≤ ftlCapacity :=
  (w.lastPage_le hcap).trans (Nat.sub_le _ _)

theorem WriteRequest.merges_untagged {s : FtlState} (hs : FtlInv s)
    (hcap : w.addr + w.count ≤ onfmCapacity) (hflag : w.flag = false) (hmft : w.mft = false)
    (hq : WritesNonFull w s) : w.Merges s :=
  eachPage_untagged hs (w.pages_le hcap) hflag hmft hq

/-- Reads in any number. -/
inductive ReadsOnly : OnfmState → Bool × Bool → OnfmState → Bool × Bool → Prop where
  | refl {o : OnfmState} {fill : Bool × Bool} : ReadsOnly o fill o fill
  | read {o o₁ o' : OnfmState} {fill fill₁ : Bool × Bool} {addr count : Nat} {out : Buffer}
      {flag mft : Bool} {r : Status × Buffer} :
      ReadsOnly o fill o₁ fill₁ → addr + count ≤ onfmCapacity →
      onfmRead addr count out flag mft o₁ = .ok (r, o') →
      ReadsOnly o fill o' (o₁.fillAfter o' fill₁ addr count flag mft)

theorem ReadsOnly.inv {fill' : Bool × Bool} (h : ReadsOnly o fill o' fill')
    (ho : OnfmInv o fill) : OnfmInv o' fill' ∧ SameData o.ftl o'.ftl := by
  induction h with
  | refl => exact ⟨ho, rfl⟩
  | read _ hcap hread ih =>
      obtain ⟨h₁, hsame₁⟩ := ih ho
      obtain ⟨h', hsame'⟩ := of_wp_ok (onfmRead_keeps h₁ hcap) hread
      exact ⟨h', hsame₁.trans hsame'⟩

/-- Plain reads from `o'` succeed, and deliver the sectors of the request and on
every other sector what plain reads from `o` deliver. -/
def StoreLaw (w : WriteRequest) (o o' : OnfmState) : Prop :=
  ∀ a' n' out', a' + n' ≤ onfmCapacity → ∃ d' o₂,
    onfmRead a' n' out' false false o' = .ok ((.success, d'), o₂) ∧
    ∀ x k, a' ≤ x → x < a' + n' → k < sectorSize →
      (w.Writes x → d'.byte ((x - a') * sectorSize + k) =
        w.data.byte ((x - w.addr) * sectorSize + k)) ∧
      ∀ a n out d o₁, a + n ≤ onfmCapacity →
        onfmRead a n out false false o = .ok ((.success, d), o₁) →
        ¬ w.Writes x → a ≤ x → x < a + n →
        d'.byte ((x - a') * sectorSize + k) = d.byte ((x - a) * sectorSize + k)

omit [Platform] in
theorem FromPlain.sector {v : DataView} {a n x k : Nat} {d : Buffer} (h : FromPlain v a n 0 d)
    (hlow : a ≤ x) (hhigh : x < a + n) (hk : k < sectorSize) :
    d.byte ((x - a) * sectorSize + k) =
      v.plainByte (x / sectorPerMpp) (x % sectorPerMpp * sectorSize + k) := by
  have hj := h (x - a) (by omega) k hk
  rw [Nat.zero_add, Nat.add_sub_cancel' hlow] at hj
  exact hj

theorem WriteRequest.plainByte_written {s s' : FtlState} {x k : Nat}
    (h : PagesWritten w w.pages w.firstPage s s') (hs : FtlInv s)
    (hcap : w.addr + w.count ≤ onfmCapacity) (hm : w.Merges s) (hx : x < onfmCapacity)
    (hk : k < sectorSize) :
    s'.view.plainByte (x / sectorPerMpp) (x % sectorPerMpp * sectorSize + k) =
      if w.Writes x then w.data.byte ((x - w.addr) * sectorSize + k)
      else s.view.plainByte (x / sectorPerMpp) (x % sectorPerMpp * sectorSize + k) := by
  have hsector : x / sectorPerMpp * sectorPerMpp +
      (x % sectorPerMpp * sectorSize + k) / sectorSize = x := by
    simp only [sectorPerMpp, sectorSize] at *
    omega
  have hin : x % sectorPerMpp * sectorSize + k < mppSize := by
    simp only [sectorPerMpp, sectorSize, mppSize] at *
    omega
  rw [h.plainByte hs (w.pages_le hcap) hm (onfmCapacity_page hx) hin, hsector]
  by_cases hw : w.Writes x
  · have hpage : w.firstPage ≤ x / sectorPerMpp ∧
        x / sectorPerMpp < w.firstPage + w.pages := by
      obtain ⟨hlow, hhigh⟩ := hw
      unfold WriteRequest.firstPage WriteRequest.pages pageCount
      simp only [sectorPerMpp] at *
      rw [if_neg (by omega)]
      omega
    rw [if_pos ⟨hpage, hw⟩, if_pos hw]
    obtain ⟨hlow, _⟩ := hw
    unfold WriteRequest.byte
    congr 1
    simp only [sectorPerMpp, sectorSize, mppSize] at *
    omega
  · rw [if_neg fun h => hw h.2, if_neg hw]

/-- In every run a write whose partly covered pages are merged with their plain
content leaves its sectors for the plain reads after it, and nothing else. -/
theorem onfmWrite_store {o'' : OnfmState} {ret : Status} (hrun : OnfmRun o (false, false))
    (hcap : w.addr + w.count ≤ onfmCapacity) (hq : WritesNonFull w o.ftl) (hm : w.Merges o.ftl)
    (hwrite : onfmWrite w.addr w.count w.data w.flag w.mft o = .ok (ret, o'))
    (hreads : ReadsOnly o' (false, false) o'' (false, false)) : StoreLaw w o o'' := by
  have hinv := hrun.inv
  obtain ⟨_, hdone⟩ := of_wp_ok (onfmWrite_spec hinv.ftl hinv.idle hcap hq) hwrite
  obtain ⟨hinv'', hsame⟩ := hreads.inv (hdone.onfmInv rfl)
  intro a' n' out' hcap'
  obtain ⟨⟨_, d'⟩, o₂, hread', rfl, hfrom'⟩ := exists_ok_of_wp (onfmRead_plain hinv'' hcap')
  refine ⟨d', o₂, hread', fun x k hlow' hhigh' hk => ?_⟩
  have hafter : d'.byte ((x - a') * sectorSize + k) = if w.Writes x then
      w.data.byte ((x - w.addr) * sectorSize + k)
      else o.ftl.view.plainByte (x / sectorPerMpp) (x % sectorPerMpp * sectorSize + k) := by
    rw [hfrom'.sector hlow' hhigh' hk, hsame.plainByte,
      w.plainByte_written hdone.pages hinv.ftl hcap hm (by omega) hk]
  refine ⟨fun hw => ?_, fun a n out d o₁ hcap₁ hread hw hlow hhigh => ?_⟩
  · rw [hafter, if_pos hw]
  · obtain ⟨_, hfrom⟩ := of_wp_ok (onfmRead_plain (E := fun _ => True) hinv hcap₁) hread
    rw [hafter, if_neg hw, hfrom.sector hlow hhigh hk]

end

/-! ## Runs that can be computed -/

/-- The state of a call that succeeded. -/
def succeeded : Except Stop (Status × OnfmState) → Option OnfmState
  | .ok (.success, o) => some o
  | _ => none

/-- What a read delivered, and its state. -/
def delivered : Except Stop ((Status × Buffer) × OnfmState) → Option (Buffer × OnfmState)
  | .ok ((.success, d), o) => some (d, o)
  | _ => none

theorem succeeded_eq_some {r : Except Stop (Status × OnfmState)} {o : OnfmState}
    (h : succeeded r = some o) : r = .ok (.success, o) := by
  unfold succeeded at h
  split at h
  · rw [Option.some.inj h]
  · exact absurd h (by simp)

theorem delivered_eq_some {r : Except Stop ((Status × Buffer) × OnfmState)} {d : Buffer}
    {o : OnfmState} (h : delivered r = some (d, o)) : r = .ok ((.success, d), o) := by
  unfold delivered at h
  split at h
  · obtain ⟨rfl, rfl⟩ := Prod.mk.inj (Option.some.inj h)
    rfl
  · exact absurd h (by simp)

section

variable [Platform] {o o' : OnfmState} {fill : Bool × Bool} {w : WriteRequest}

/-- Neither journal is full. -/
def OnfmState.NonFull (o : OnfmState) : Prop :=
  dataIsFull o.ftl.rootTable true = false ∧ dataIsFull o.ftl.rootTable false = false

instance : Decidable o.NonFull := by
  unfold OnfmState.NonFull
  infer_instance

/-- The state after a write on one page that starts with neither journal full. -/
def OnfmState.afterWrite (o : OnfmState) (w : WriteRequest) : Option OnfmState :=
  if o.NonFull ∧ w.pages = 1 ∧ w.addr + w.count ≤ onfmCapacity then
    succeeded (onfmWrite w.addr w.count w.data w.flag w.mft o)
  else none

omit [Platform] in
theorem SameData.journalPage {s t : FtlState} [Platform] (h : SameData s t) (isHot : Bool) :
    t.view.journalPage isHot = s.view.journalPage isHot := by
  rw [h]
  rfl

theorem writesNonFull_onePage (hs : FtlInv o.ftl) (h : o.NonFull) (hpages : w.pages = 1)
    (hcap : w.addr + w.count ≤ onfmCapacity) : WritesNonFull w o.ftl := by
  have hpage : w.firstPage + 1 ≤ ftlCapacity := by
    rw [← hpages]
    exact w.pages_le hcap
  unfold WritesNonFull
  rw [hpages]
  intro t buffer hgathered
  refine ⟨?_, fun _ _ => trivial⟩
  obtain ⟨_, hsame⟩ := hgathered.same hs hpage
  rw [startsNonFull_iff, hsame.journalPage]
  obtain ⟨hhot, hcold⟩ := h
  rw [dataIsFull_eq] at hhot hcold
  cases t.isHot w.firstPage with
  | true => simpa using hhot
  | false => simpa using hcold

theorem OnfmRun.afterWrite (hrun : OnfmRun o fill) (h : o.afterWrite w = some o') :
    WritesNonFull w o.ftl ∧ w.addr + w.count ≤ onfmCapacity ∧
      onfmWrite w.addr w.count w.data w.flag w.mft o = .ok (.success, o') ∧
      OnfmRun o' (false, false) := by
  obtain ⟨⟨hnonFull, hpages, hcap⟩, hwrite⟩ := Option.ite_none_right_eq_some.mp h
  have hq := writesNonFull_onePage hrun.inv.ftl hnonFull hpages hcap
  have hok := succeeded_eq_some hwrite
  exact ⟨hq, hcap, hok, .write hrun hcap hq hok⟩

end

section

attribute [local instance] k9wag08

/-- A whole page of one value, tagged. -/
def pageOf (value : Nat) : WriteRequest := ⟨0, 8, .bytes (.const value), true, false⟩

/-- The storage as it is first mounted. -/
def firstMount : Option OnfmState :=
  succeeded (onfmStart 2 (.powerOn (.powerOn .blank fun _ => 0) fun _ => .zeros))

/-- The storage after two tagged writes of its first page. -/
def rewritten : Option OnfmState :=
  firstMount.bind fun o => (o.afterWrite (pageOf 1)).bind fun o => o.afterWrite (pageOf 2)

theorem firstMount_run {o : OnfmState} (h : firstMount = some o) : OnfmRun o (false, false) := by
  apply OnfmRun.mounted
  exact ⟨.blank, fun _ => 0, fun _ => .zeros, 2, Nat.le_refl 2, succeeded_eq_some h⟩

theorem rewritten_run {o : OnfmState} (h : rewritten = some o) : OnfmRun o (false, false) := by
  obtain ⟨o₀, hstart, h₀⟩ := Option.bind_eq_some_iff.mp h
  obtain ⟨o₁, hfirst, hsecond⟩ := Option.bind_eq_some_iff.mp h₀
  obtain ⟨_, _, _, hrun⟩ := (firstMount_run hstart).afterWrite hfirst
  exact (hrun.afterWrite hsecond).2.2.2

/-- A sector of the first page, tagged or not. -/
def sectorOf (value : Nat) (flag : Bool) : WriteRequest :=
  ⟨0, 1, .bytes (.const value), flag, false⟩

/-- Then a plain read of its first sector. -/
def buffered : Option OnfmState :=
  rewritten.bind fun o => (delivered (onfmRead 0 1 .zeros false false o)).map Prod.snd

theorem buffered_run {o : OnfmState} (h : buffered = some o) : OnfmRun o (false, false) := by
  obtain ⟨o₀, h₀, hmap⟩ := Option.bind_eq_some_iff.mp h
  obtain ⟨⟨d, o₁⟩, hread, rfl⟩ := Option.map_eq_some_iff.mp hmap
  have hcap : 0 + 1 ≤ onfmCapacity := by decide
  have hrun := (rewritten_run h₀).read hcap (delivered_eq_some hread)
  unfold OnfmState.fillAfter at hrun
  rwa [OnfmState.fillOf_plain, ite_self] at hrun

/-- What a tagged read of a buffered page delivers is not what the page delivers. -/
def servesPlain (o : OnfmState) : Bool :=
  match delivered (onfmRead 0 1 .zeros true false o), ftlReadPages true false 1 0 o.ftl with
  | some (d, _), .ok ([(_, some content)], _) => d.byte 0 != content.byte 0
  | _, _ => false

theorem buffered_servesPlain : buffered.any servesPlain = true := by decide +kernel

theorem exists_of_any {α : Type} {x : Option α} {p : α → Bool} (h : x.any p = true) :
    ∃ a, x = some a ∧ p a = true := by
  cases x with
  | none => exact nomatch h
  | some a => exact ⟨a, rfl, h⟩

/-- The state after a tagged write of one sector, and whether a plain read of the
next sector sees it change. -/
def changesNext (o : OnfmState) : Bool :=
  match o.afterWrite (sectorOf 3 true) with
  | some o' =>
      match delivered (onfmRead 1 1 .zeros false false o),
        delivered (onfmRead 1 1 .zeros false false o') with
      | some (d, _), some (d', _) => d.byte 0 != d'.byte 0
      | _, _ => false
  | none => false

theorem rewritten_changesNext : rewritten.any changesNext = true := by decide +kernel

/-- A tagged write of one sector brings back the retained version of the others. -/
theorem tagged_write_reverts_page : ∃ o o', OnfmRun o (false, false) ∧
    WritesNonFull (sectorOf 3 true) o.ftl ∧
    onfmWrite 0 1 (.bytes (.const 3)) true false o = .ok (.success, o') ∧
    ¬ StoreLaw (sectorOf 3 true) o o' := by
  obtain ⟨o, ho, hchanges⟩ := exists_of_any rewritten_changesNext
  have hrun := rewritten_run ho
  have hcap : 1 + 1 ≤ onfmCapacity := by decide
  unfold changesNext at hchanges
  split at hchanges
  · next o' hafter =>
      obtain ⟨hq, _, hwrite, _⟩ := hrun.afterWrite hafter
      refine ⟨o, o', hrun, hq, hwrite, fun hlaw => ?_⟩
      split at hchanges
      · next d _ d' _ hbefore hread =>
          obtain ⟨d₁, o₂, hread', hsectors⟩ := hlaw 1 1 .zeros hcap
          rw [delivered_eq_some hread] at hread'
          obtain ⟨rfl, _⟩ : d' = d₁ ∧ _ := by simpa using hread'
          obtain ⟨_, hsame⟩ := hsectors 1 0 le_rfl (by omega) (by decide)
          have hbyte : d'.byte 0 = d.byte 0 := hsame 1 1 .zeros d _ hcap
            (delivered_eq_some hbefore) (fun hw => absurd hw.2 (by decide)) le_rfl (by omega)
          rw [hbyte] at hchanges
          simp at hchanges
      · exact nomatch hchanges
  · exact nomatch hchanges

/-- An untagged write of one sector of a page with a retained version. -/
theorem onfmWrite_store_untagged : ∃ o o', OnfmRun o (false, false) ∧
    onfmWrite 0 1 (.bytes (.const 3)) false false o = .ok (.success, o') ∧
    StoreLaw (sectorOf 3 false) o o' := by
  have hafter : rewritten.any (fun o => (o.afterWrite (sectorOf 3 false)).isSome) = true := by
    decide +kernel
  obtain ⟨o, ho, hsome⟩ := exists_of_any hafter
  obtain ⟨o', ho'⟩ := Option.isSome_iff_exists.mp hsome
  have hrun := rewritten_run ho
  obtain ⟨hq, hcap, hwrite, _⟩ := hrun.afterWrite ho'
  have hm := (sectorOf 3 false).merges_untagged hrun.inv.ftl hcap rfl rfl hq
  exact ⟨o, o', hrun, hwrite, onfmWrite_store hrun hcap hq hm hwrite .refl⟩

end

end RansomTag

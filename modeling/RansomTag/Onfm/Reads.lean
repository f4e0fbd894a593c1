import RansomTag.Ftl.Format
import RansomTag.Ftl.ReadResults
import RansomTag.Onfm.Sectors

/-!
# Reads of sectors

A read of sectors against the reads of its pages one by one.  The read buffer
holds one page under its number alone: a request that does not find its first
page there reads exactly its pages, and one that does skips the first of them.
-/

namespace RansomTag

open Program

/-! ## Calls of the translation layer -/

section

variable {α : Type} {m : Ftl α} {E : Stop → Prop} {o : OnfmState}

@[simp] theorem wp_callFtl {Q : α → OnfmState → Prop} :
    wp (callFtl m) Q E o ↔ wp m (fun a s => Q a { o with ftl := s }) E o.ftl := by
  unfold wp callFtl
  cases m o.ftl with
  | error e => rfl
  | ok r => rfl

theorem wp_callFtl_assert {p : Prop} {_ : Decidable p} {Q : Unit → OnfmState → Prop} :
    wp (callFtl (assert p)) Q E o ↔ if p then Q () o else E .assertion := by
  rw [wp_callFtl, wp_assert]

theorem wp_bufAllocate {Q : Buffer → OnfmState → Prop} :
    wp bufAllocate Q E o ↔ Q (o.stale 0) { o with stale := fun i => o.stale (i + 1) } := Iff.rfl

end

/-! ## Pages of a request -/

/-- The number of pages that `count` sectors from `addr` on lie in. -/
def pageCount (addr count : Nat) : Nat :=
  if count = 0 then 0 else (addr + count - 1) / sectorPerMpp - addr / sectorPerMpp + 1

theorem pageCount_same {addr n : Nat} (h : (addr + 1) / sectorPerMpp = addr / sectorPerMpp) :
    pageCount addr (n + 1) - 1 = pageCount (addr + 1) n - 1 := by
  have hlast : addr + (n + 1) - 1 = addr + n := rfl
  have hlast' : addr + 1 + n - 1 = addr + n := by omega
  unfold pageCount
  rw [if_neg (Nat.succ_ne_zero n), hlast, hlast', h]
  split
  · next hn => simp [hn]
  · rfl

theorem pageCount_next {addr n : Nat} (h : (addr + 1) / sectorPerMpp ≠ addr / sectorPerMpp) :
    pageCount addr (n + 1) - 1 = pageCount (addr + 1) n := by
  have hlast : addr + (n + 1) - 1 = addr + n := rfl
  have hlast' : addr + 1 + n - 1 = addr + n := by omega
  unfold pageCount
  rw [if_neg (Nat.succ_ne_zero n), hlast, hlast', Nat.add_sub_cancel]
  simp only [sectorPerMpp] at *
  split
  · next hn =>
      rw [hn, Nat.add_zero, Nat.sub_self]
  · omega

/-- The sectors from the `first`-th on in `out` are those at `addr` and on of the
pages that were read. -/
def FromPages (pages : List (Status × Option Buffer)) (addr count first : Nat)
    (out : Buffer) : Prop :=
  ∀ j, j < count → ∃ content,
    pages[(addr + j) / sectorPerMpp - addr / sectorPerMpp]? = some (.success, some content) ∧
    ∀ k, k < sectorSize → out.byte ((first + j) * sectorSize + k) =
      content.byte ((addr + j) % sectorPerMpp * sectorSize + k)

namespace OnfmState

variable (o : OnfmState) (addr count : Nat)

/-- The pages that a read still has to fetch. -/
def pagesToRead : Nat :=
  if o.Buffered addr then pageCount addr count - 1 else pageCount addr count

/-- The first of them. -/
def nextPage : Nat :=
  if o.Buffered addr then addr / sectorPerMpp + 1 else addr / sectorPerMpp

/-- The pages that a read delivers from, those fetched after the one buffered. -/
def withBuffered (pages : List (Status × Option Buffer)) : List (Status × Option Buffer) :=
  if o.Buffered addr then (.success, some o.readBuffer) :: pages else pages

/-- The read buffer holds a whole page, or none. -/
def ReadAligned : Prop :=
  o.readBufferStartSector = invalidLsaddr ∨
    o.readBufferStartSector % sectorPerMpp = 0 ∧ o.readBufferStartSector < 4294967288

/-- The state after `onfm_read_sector` fetched a page. -/
def fetched (s : FtlState) (data : Option Buffer) (page : Nat) : OnfmState :=
  { o with
    ftl := s
    readBuffer := data.getD o.readBuffer
    readBufferStartSector := page * sectorPerMpp }

/-- A sector of the page in the read buffer. -/
def sectorBytes (k : Nat) : Nat :=
  o.readBuffer.byte (addr % sectorPerMpp * sectorSize + k)

variable {o addr}

theorem ReadAligned.buffered_iff (h : o.ReadAligned) (haddr : addr < 4294967288) :
    o.Buffered addr ↔ o.readBufferStartSector = addr / sectorPerMpp * sectorPerMpp := by
  unfold Buffered
  rcases h with h | ⟨h, h'⟩ <;> simp only [sectorPerMpp, invalidLsaddr] at * <;> omega

theorem fetched_aligned {s : FtlState} {data : Option Buffer} (haddr : addr < 4294967288) :
    (o.fetched s data (addr / sectorPerMpp)).ReadAligned := by
  right
  simp only [fetched, sectorPerMpp]
  omega

theorem fetched_buffered {s : FtlState} {data : Option Buffer} (haddr : addr < 4294967288) :
    (o.fetched s data (addr / sectorPerMpp)).Buffered addr := by
  rw [(fetched_aligned haddr).buffered_iff haddr]
  rfl

end OnfmState

/-- `FTL_Read` of `n` pages from `page` on, without any buffer. -/
def ftlReadPages [Platform] (flag mft : Bool) : Nat → Nat → Ftl (List (Status × Option Buffer))
  | 0, _ => pure []
  | n + 1, page => do
      let r ← ftlRead page flag mft
      let rs ← ftlReadPages flag mft n (page + 1)
      pure (r :: rs)

/-! ## One sector -/

section

variable [Platform] {o : OnfmState} {addr count i n : Nat} {flag mft : Bool} {E : Stop → Prop}

theorem wp_readSector_buffered {Q : Option (Nat → Nat) → OnfmState → Prop}
    (ho : o.ReadAligned) (haddr : addr < 4294967288) (h : o.Buffered addr) :
    wp (onfmReadSector addr flag mft) Q E o ↔ Q (some (o.sectorBytes addr)) o := by
  have hsector : addr - o.readBufferStartSector = addr % sectorPerMpp := by
    rw [(ho.buffered_iff haddr).mp h]
    simp only [sectorPerMpp]
    omega
  unfold onfmReadSector OnfmState.sectorBytes
  rw [wp_bind, wp_get]
  simp only [h, if_true, wp_bind, wp_pure, wp_get, hsector]

theorem wp_readSector_miss {Q : Option (Nat → Nat) → OnfmState → Prop}
    (h : ¬ o.Buffered addr) :
    wp (onfmReadSector addr flag mft) Q E o ↔
      wp (ftlRead (addr / sectorPerMpp) flag mft) (fun r s =>
        if r.1 = .success then
          Q (some ((o.fetched s r.2 (addr / sectorPerMpp)).sectorBytes addr))
            (o.fetched s r.2 (addr / sectorPerMpp))
        else Q none { o with
          ftl := s
          readBuffer := r.2.getD o.readBuffer
          readBufferStartSector := invalidLsaddr }) E o.ftl := by
  have hsector : addr - addr / sectorPerMpp * sectorPerMpp = addr % sectorPerMpp := by
    simp only [sectorPerMpp]
    omega
  unfold onfmReadSector
  rw [wp_bind, wp_get]
  simp only [h, if_false, wp_bind, wp_callFtl]
  apply wp_congr
  rintro ⟨ret, data⟩ s
  unfold OnfmState.sectorBytes OnfmState.fetched
  by_cases hret : ret = .success
  · simp only [hret, if_true, wp_bind, wp_modify, wp_pure, wp_get, hsector]
  · simp only [hret, if_false, wp_bind, wp_modify, wp_pure]

/-- A read that succeeds fills its buffer. -/
def Fills (r : Status × Option Buffer) : Prop := r.1 = .success → ∃ content, r.2 = some content

theorem ubiRead_fills {b p : Nat} {s : FtlState} :
    wp (ubiRead b p) (fun r _ => Fills (r.status, r.data)) (fun _ => True) s := by
  unfold ubiRead
  split
  · rw [wp_bind, wp_assert]
    split
    · rw [wp_bind, wp_get]
      split
      · exact fun _ => ⟨_, rfl⟩
      · exact fun h => absurd h (by decide)
    · trivial
  · rw [wp_bind, wp_assert]
    split
    · exact fun _ => ⟨_, rfl⟩
    · trivial

theorem ftlReadMft_fills {page b p : Nat} {s : FtlState} :
    wp (ftlReadMft page b p) (fun r _ => Fills r) (fun _ => True) s := by
  have hany : ∀ {α : Type} {m : Ftl α} {Q : α → FtlState → Prop} {t : FtlState},
      (∀ a u, Q a u) → wp m Q (fun _ => True) t := fun h => wp_of_ok_imp fun a u _ => h a u
  unfold ftlReadMft
  rw [wp_bind, wp_get]
  split
  · rw [wp_bind]
    exact ubiRead_fills
  · rw [wp_bind, wp_modify]
    split
    · rw [wp_bind, wp_modify, wp_bind]
      refine wp_mono_post ubiRead_fills fun r t hr => ?_
      rw [wp_bind]
      exact hany fun link u => hr
    · rw [wp_bind]
      refine wp_mono_post ubiRead_fills fun r t hr => ?_
      rw [wp_bind]
      refine hany fun link u => ?_
      split
      · exact hr
      · exact hr

theorem ftlReadBackup_fills {b p : Nat} {ret : Status} {s : FtlState} :
    wp (ftlReadBackup b p ret) (fun r _ => Fills r) (fun _ => True) s := by
  have hlast : ∀ (x : Nat × Nat × Status) (t : FtlState),
      wp (if x.2.2 = .success then do
          let r ← ubiRead x.1 x.2.1
          pure (r.status, r.data)
        else pure (x.2.2, none)) (fun r _ => Fills r) (fun _ => True) t := by
    intro x t
    by_cases hret : x.2.2 = .success
    · rw [if_pos hret, wp_bind]
      exact ubiRead_fills
    · rw [if_neg hret]
      exact fun h => absurd h hret
  unfold ftlReadBackup
  by_cases hvalid : b ≠ invalidBlock ∧ p ≠ invalidPage
  · rw [if_pos hvalid, wp_bind]
    refine wp_of_ok_imp fun r t _ => ?_
    rw [wp_bind]
    refine wp_of_ok_imp fun link u _ => ?_
    by_cases hlink : link ≠ invalidPmNode
    · rw [if_pos hlink]
      exact hlast (_, _, _) u
    · rw [if_neg hlink]
      exact hlast (_, _, _) u
  · rw [if_neg hvalid, wp_bind]
    exact hlast (_, _, _) s

theorem ftlRead_fills {page : Nat} {s : FtlState} :
    wp (ftlRead page flag mft) (fun r _ => Fills r) (fun _ => True) s := by
  have hlast : ∀ (ret : Status) (b p : Nat) (t : FtlState),
      wp (if mft = false ∧ flag = false ∧ ret = .success then do
          let r ← ubiRead b p
          pure (r.status, r.data)
        else if mft then ftlReadMft page b p
        else ftlReadBackup b p ret) (fun r _ => Fills r) (fun _ => True) t := by
    intro ret b p t
    split
    · rw [wp_bind]
      exact ubiRead_fills
    · split
      · exact ftlReadMft_fills
      · exact ftlReadBackup_fills
  unfold ftlRead
  rw [wp_bind]
  refine wp_of_ok_imp ?_
  rintro ⟨ret, found⟩ t _
  cases found with
  | some location => exact hlast ret _ _ t
  | none => exact hlast ret _ _ _

/-! ## All sectors -/

/-- The pages of a read after its first page is in the buffer. -/
theorem ftlReadPages_cons {page c : Nat} {s s₁ s' : FtlState} {r : Status × Option Buffer}
    {rs : List (Status × Option Buffer)} (h : ftlRead page flag mft s = .ok (r, s₁))
    (hrest : ftlReadPages flag mft c (page + 1) s₁ = .ok (rs, s')) :
    ftlReadPages flag mft (c + 1) page s = .ok (r :: rs, s') := by
  have hwp : wp (ftlReadPages flag mft (c + 1) page) (fun x t => x = r :: rs ∧ t = s')
      (fun _ => False) s := by
    unfold ftlReadPages
    rw [wp_bind, wp_iff_of_ok h, wp_bind, wp_iff_of_ok hrest]
    exact ⟨rfl, rfl⟩
  obtain ⟨x, t, hok, rfl, rfl⟩ := exists_ok_of_wp hwp
  exact hok

/-- What `readSectors_pages` says of the sectors from `addr` on. -/
def OnfmState.ReadsPages (o : OnfmState) (flag mft : Bool) (addr n i : Nat) (out : Buffer)
    (r : Status × Buffer) (o' : OnfmState) : Prop :=
  r.1 = .success → ∃ rs,
    ftlReadPages flag mft (o.pagesToRead addr n) (o.nextPage addr) o.ftl = .ok (rs, o'.ftl) ∧
    FromPages (o.withBuffered addr rs) addr n i r.2 ∧
    ∀ k, k < i * sectorSize → r.2.byte k = out.byte k

namespace OnfmState

variable (ho : o.ReadAligned) (haddr : addr + 1 < 4294967288) (h : o.Buffered addr)

include ho haddr h

omit [Platform]

theorem buffered_next :
    o.Buffered (addr + 1) ↔ (addr + 1) / sectorPerMpp = addr / sectorPerMpp := by
  rw [ho.buffered_iff haddr, (ho.buffered_iff (by omega)).mp h]
  simp only [sectorPerMpp]
  omega

theorem pagesToRead_next : o.pagesToRead addr (n + 1) = o.pagesToRead (addr + 1) n := by
  unfold pagesToRead
  rw [if_pos h]
  split
  · next hsame => exact pageCount_same ((buffered_next ho haddr h).mp hsame)
  · next hsame => exact pageCount_next (mt (buffered_next ho haddr h).mpr hsame)

theorem nextPage_next : o.nextPage addr = o.nextPage (addr + 1) := by
  unfold nextPage
  rw [if_pos h]
  split
  · next hsame =>
      rw [(buffered_next ho haddr h).mp hsame]
  · next hsame =>
      have hne := mt (buffered_next ho haddr h).mpr hsame
      simp only [sectorPerMpp] at *
      omega

end OnfmState

/-- One sector from the read buffer, and then the sectors after it. -/
theorem OnfmState.ReadsPages.of_buffered {o' : OnfmState} {out : Buffer} {r : Status × Buffer}
    (ho : o.ReadAligned) (haddr : addr + 1 < 4294967288) (h : o.Buffered addr)
    (hnext : o.ReadsPages flag mft (addr + 1) n (i + 1)
      (out.splice (i * sectorSize) sectorSize (o.sectorBytes addr)) r o') :
    o.ReadsPages flag mft addr (n + 1) i out r o' := by
  intro hr
  obtain ⟨rs, hrun, hfrom, hkeep⟩ := hnext hr
  have hbuffered := OnfmState.buffered_next ho haddr h
  have hlist : ∀ j, (o.withBuffered (addr + 1) rs)[
        (addr + 1 + j) / sectorPerMpp - (addr + 1) / sectorPerMpp]? =
      (o.withBuffered addr rs)[(addr + 1 + j) / sectorPerMpp - addr / sectorPerMpp]? := by
    intro j
    unfold OnfmState.withBuffered
    rw [if_pos h]
    by_cases hsame : (addr + 1) / sectorPerMpp = addr / sectorPerMpp
    · rw [if_pos (hbuffered.mpr hsame), hsame]
    · have hindex : (addr + 1 + j) / sectorPerMpp - addr / sectorPerMpp =
          (addr + 1 + j) / sectorPerMpp - (addr + 1) / sectorPerMpp + 1 := by
        simp only [sectorPerMpp] at *
        omega
      rw [if_neg (mt hbuffered.mp hsame), hindex, List.getElem?_cons_succ]
  refine ⟨rs, ?_, ?_, ?_⟩
  · rw [OnfmState.pagesToRead_next ho haddr h, OnfmState.nextPage_next ho haddr h]
    exact hrun
  · intro j hj
    cases j with
    | zero =>
        refine ⟨o.readBuffer, ?_, fun k hk => ?_⟩
        · unfold OnfmState.withBuffered
          rw [if_pos h, Nat.add_zero, Nat.sub_self]
          rfl
        · simp only [sectorSize] at hk
          have hlow : (i + 0) * sectorSize + k < (i + 1) * sectorSize := by
            simp only [sectorSize]
            omega
          have hin : i * sectorSize ≤ (i + 0) * sectorSize + k ∧
              (i + 0) * sectorSize + k < i * sectorSize + sectorSize := by
            simp only [sectorSize]
            omega
          rw [hkeep _ hlow, Buffer.byte_splice, if_pos hin]
          unfold OnfmState.sectorBytes
          simp only [Nat.add_zero, Nat.add_sub_cancel_left]
    | succ j =>
        obtain ⟨content, hpages, hbytes⟩ := hfrom j (by omega)
        refine ⟨content, ?_, fun k hk => ?_⟩
        · rw [← hpages, hlist, Nat.add_assoc addr 1 j, Nat.add_comm 1 j]
        · have hk' := hbytes k hk
          rw [Nat.add_assoc i 1 j, Nat.add_comm 1 j, Nat.add_assoc addr 1 j,
            Nat.add_comm 1 j] at hk'
          exact hk'
  · intro k hk
    have hlow : k < (i + 1) * sectorSize :=
      Nat.lt_of_lt_of_le hk (Nat.mul_le_mul_right _ (Nat.le_succ i))
    have hout : ¬ (i * sectorSize ≤ k ∧ k < i * sectorSize + sectorSize) :=
      fun hin => absurd hin.1 (Nat.not_le.mpr hk)
    rw [hkeep k hlow, Buffer.byte_splice, if_neg hout]

/-- A page that was fetched, and then the sectors from it on. -/
theorem OnfmState.ReadsPages.of_fetched {o' : OnfmState} {out content : Buffer}
    {r : Status × Buffer} {s : FtlState} (haddr : addr < 4294967288) (h : ¬ o.Buffered addr)
    (hread : ftlRead (addr / sectorPerMpp) flag mft o.ftl = .ok ((.success, some content), s))
    (hnext : (o.fetched s (some content) (addr / sectorPerMpp)).ReadsPages flag mft addr (n + 1) i
      out r o') :
    o.ReadsPages flag mft addr (n + 1) i out r o' := by
  intro hr
  obtain ⟨rs, hrun, hfrom, hkeep⟩ := hnext hr
  have hbuffered : (o.fetched s (some content) (addr / sectorPerMpp)).Buffered addr :=
    OnfmState.fetched_buffered haddr
  refine ⟨(.success, some content) :: rs, ?_, ?_, hkeep⟩
  · have hcount : o.pagesToRead addr (n + 1) =
        (o.fetched s (some content) (addr / sectorPerMpp)).pagesToRead addr (n + 1) + 1 := by
      unfold OnfmState.pagesToRead pageCount
      rw [if_neg h, if_pos hbuffered, if_neg (Nat.succ_ne_zero n)]
      omega
    unfold OnfmState.nextPage at hrun ⊢
    rw [if_pos hbuffered] at hrun
    rw [hcount, if_neg h]
    exact ftlReadPages_cons hread hrun
  · unfold OnfmState.withBuffered at hfrom ⊢
    rw [if_pos hbuffered] at hfrom
    rw [if_neg h]
    exact hfrom

theorem readSectors_pages {out : Buffer} (ho : o.ReadAligned)
    (haddr : addr + i + n < 4294967288) :
    wp (onfmReadSectors addr flag mft n i out)
      (fun r o' => o.ReadsPages flag mft (addr + i) n i out r o') (fun _ => True) o := by
  induction n generalizing o i out with
  | zero =>
      refine fun _ => ⟨[], ?_, fun j hj => absurd hj (Nat.not_lt_zero j), fun _ _ => rfl⟩
      have hnone : o.pagesToRead (addr + i) 0 = 0 := by
        unfold OnfmState.pagesToRead pageCount
        split <;> rfl
      rw [hnone]
      rfl
  | succ n ih =>
      have hhit : ∀ {o : OnfmState}, o.ReadAligned → o.Buffered (addr + i) →
          wp (onfmReadSectors addr flag mft (n + 1) i out)
            (fun r o' => o.ReadsPages flag mft (addr + i) (n + 1) i out r o')
            (fun _ => True) o := by
        intro o ho hbuffered
        have hnext' : addr + i + 1 < 4294967288 := by omega
        unfold onfmReadSectors
        rw [wp_bind, wp_readSector_buffered ho (by omega) hbuffered]
        have hnext : wp (onfmReadSectors addr flag mft n (i + 1)
            (out.splice (i * sectorSize) sectorSize (o.sectorBytes (addr + i)))) _ _ o :=
          ih ho (by omega)
        exact wp_mono_post hnext fun r o' => .of_buffered ho hnext' hbuffered
      by_cases hbuffered : o.Buffered (addr + i)
      · exact hhit ho hbuffered
      · have hread : ∀ s content,
            ftlRead ((addr + i) / sectorPerMpp) flag mft o.ftl = .ok ((.success, some content), s) →
            wp (onfmReadSectors addr flag mft n (i + 1) (out.splice (i * sectorSize) sectorSize
              ((o.fetched s (some content) ((addr + i) / sectorPerMpp)).sectorBytes (addr + i))))
              (fun r o' => o.ReadsPages flag mft (addr + i) (n + 1) i out r o') (fun _ => True)
              (o.fetched s (some content) ((addr + i) / sectorPerMpp)) := by
          intro s content hread
          have hfetched : (o.fetched s (some content) ((addr + i) / sectorPerMpp)).Buffered
              (addr + i) := OnfmState.fetched_buffered (by omega)
          have haligned : (o.fetched s (some content)
              ((addr + i) / sectorPerMpp)).ReadAligned := OnfmState.fetched_aligned (by omega)
          have hnext := hhit haligned hfetched
          unfold onfmReadSectors at hnext
          rw [wp_bind, wp_readSector_buffered haligned (by omega) hfetched] at hnext
          exact wp_mono_post hnext fun r o' => .of_fetched (by omega) hbuffered hread
        unfold onfmReadSectors
        rw [wp_bind, wp_readSector_miss hbuffered]
        refine wp_of_ok_imp ?_
        rintro ⟨ret, data⟩ s hok
        by_cases hret : ret = .success
        · subst hret
          obtain ⟨content, rfl⟩ := of_wp_ok ftlRead_fills hok rfl
          rw [if_pos rfl]
          exact hread s content hok
        · rw [if_neg hret]
          exact fun h => nomatch h

end

/-! ## Reads without the cursor -/

section

variable [Platform] {s t s' : FtlState} {flag : Bool}

theorem ftlReadPages_same {c page : Nat} {rs : List (Status × Option Buffer)} (hs : FtlInv s)
    (ht : FtlInv t) (h : SameData s t)
    (hpages : ∀ q, page ≤ q → q < page + c →
      q < ftlCapacity ∧ (flag = true → s.view.LinksData q))
    (hread : ftlReadPages flag false c page s = .ok (rs, s')) :
    ∃ t', ftlReadPages flag false c page t = .ok (rs, t') := by
  induction c generalizing page s t rs with
  | zero =>
      have hrest : wp (ftlReadPages flag false 0 page) (fun rs' u => rs' = rs ∧ u = s')
          (fun _ => False) s := (wp_iff_of_ok hread).mpr ⟨rfl, rfl⟩
      obtain ⟨rfl, rfl⟩ : [] = rs ∧ s = s' := hrest
      exact ⟨t, rfl⟩
  | succ c ih =>
      obtain ⟨hcap, hlink⟩ := hpages page le_rfl (by omega)
      have hspec := ftlRead_result hs.base hs.data hcap hlink
      have hrest : wp (ftlReadPages flag false (c + 1) page) (fun rs' u => rs' = rs ∧ u = s')
          (fun _ => False) s := (wp_iff_of_ok hread).mpr ⟨rfl, rfl⟩
      unfold ftlReadPages at hrest
      rw [wp_bind] at hrest
      obtain ⟨r, s₁, hr, hrest⟩ := exists_ok_of_wp hrest
      obtain ⟨hresult, hdone⟩ := of_wp_ok hspec hr
      obtain ⟨t₁, hr', hdone'⟩ := ftlRead_same ht h hcap hlink hresult
      rw [wp_bind] at hrest
      obtain ⟨rs', s₂, hrs, rfl, rfl⟩ := exists_ok_of_wp hrest
      have hsame : SameData s₁ t₁ :=
        ((hdone.same hs.base).symm.trans h).trans (hdone'.same ht.base)
      obtain ⟨t₂, hrs'⟩ := ih (hdone.inv hs) (hdone'.inv ht) hsame
        (fun q hq hq' => by
          obtain ⟨hq₁, hq₂⟩ := hpages q (by omega) (by omega)
          exact ⟨hq₁, fun hflag => (hdone.same hs.base).linksData.mpr (hq₂ hflag)⟩) hrs
      exact ⟨t₂, ftlReadPages_cons hr' hrs'⟩

end

section

variable [Platform] {o : OnfmState} {addr count : Nat} {flag mft : Bool} {out : Buffer}
  {E : Stop → Prop} {Q : Status × Buffer → OnfmState → Prop}

theorem wp_onfmRead : wp (onfmRead addr count out flag mft) Q E o ↔
    if WholePage addr count then
      wp (ftlRead (addr / sectorPerMpp) flag mft) (fun r s =>
        if r.1 = .success then Q (r.1, r.2.getD out) { o with ftl := s }
        else E .assertion) E o.ftl
    else
      wp (onfmReadSectors addr flag mft count 0 out) (fun r o' =>
        if r.1 = .success then Q r o' else E .assertion) E o := by
  unfold onfmRead
  by_cases hwhole : WholePage addr count
  · simp only [hwhole, if_true, wp_bind, wp_callFtl]
    apply wp_congr
    intro r s
    rw [wp_pure]
    exact wp_assert
  · simp only [hwhole, if_false, wp_bind, wp_callFtl]
    apply wp_congr
    intro r o'
    exact wp_assert

end

/-! ## What a read leaves -/

/-- No sector waits in the write buffer. -/
structure OnfmState.Idle (o : OnfmState) : Prop where
  starting : o.startingSector = invalidLsaddr
  start : o.bufStartAddr = invalidLsaddr
  last : o.bufEndAddr = invalidLsaddr
  written : ∀ i, o.sectorWritten i = false

/-- The invariant between two requests, when the page in the read buffer was read
with the flags `fill`. -/
structure OnfmInv [Platform] (o : OnfmState) (fill : Bool × Bool) : Prop where
  ftl : FtlInv o.ftl
  idle : o.Idle
  aligned : o.ReadAligned
  page_lt : ∀ page, o.readBufferStartSector = page * sectorPerMpp → page < ftlCapacity
  buffered : ∀ page, o.readBufferStartSector = page * sectorPerMpp → fill.2 = false →
    (fill.1 = true → o.ftl.view.LinksData page) →
    o.ftl.view.result fill.1 page = .ok (.success, some o.readBuffer)

/-- The page in the read buffer is the one behind the page that the version cursor noted. -/
def OnfmState.BuffersNext (o : OnfmState) : Prop :=
  o.readBufferStartSector = (o.ftl.api.lastAddr + 1) % 4294967296 * sectorPerMpp

instance (o : OnfmState) : Decidable o.BuffersNext := inferInstanceAs (Decidable (_ = _))

/-- The flags of the page that a read has just left in the buffer; a page that did not move
the version cursor was read as by a plain read. -/
def OnfmState.fillOf (o : OnfmState) (flag mft : Bool) : Bool × Bool :=
  if mft = true ∧ o.BuffersNext then (false, false) else (flag, mft)

@[simp] theorem OnfmState.fillOf_plain (o : OnfmState) (flag : Bool) :
    o.fillOf flag false = (flag, false) :=
  if_neg fun h => Bool.noConfusion h.1

/-- The flags of the page that a request leaves in the buffer. -/
def OnfmState.fillAfter (o o' : OnfmState) (fill : Bool × Bool) (addr count : Nat)
    (flag mft : Bool) : Bool × Bool :=
  if WholePage addr count ∨ o.pagesToRead addr count = 0 then fill else o'.fillOf flag mft

section

variable [Platform] {o o' : OnfmState} {fill : Bool × Bool} {addr count i n page : Nat}
  {flag mft : Bool} {s : FtlState}

theorem onfmCapacity_page (h : addr < onfmCapacity) : addr / sectorPerMpp < ftlCapacity := by
  simp only [onfmCapacity, sectorPerMpp] at *
  omega

theorem onfmCapacity_lt : onfmCapacity < 4294967280 := by
  have hcap := Platform.ubiCapacity_le
  simp only [onfmCapacity, ftlCapacity, sectorPerMpp, pagePerPhyBlock, journalBlockCount,
    pmtBlockCount, overProvisionRate]
  omega

/-- The page in the buffer stays right while the data does. -/
theorem OnfmInv.same (h : OnfmInv o fill) (hs : FtlInv s) (hsame : SameData o.ftl s) :
    OnfmInv { o with ftl := s } fill := by
  refine ⟨hs, ⟨h.idle.starting, h.idle.start, h.idle.last, h.idle.written⟩, h.aligned,
    h.page_lt, fun page hpage hmft hlink => ?_⟩
  exact hsame.result.trans
    (h.buffered page hpage hmft fun hflag => hsame.linksData.mp (hlink hflag))

/-- A page that was just read is in the buffer as it is read now. -/
theorem OnfmInv.fetched {content : Buffer} (h : OnfmInv o fill) (haddr : addr < onfmCapacity)
    (hread : ftlRead (addr / sectorPerMpp) flag mft o.ftl = .ok ((.success, some content), s)) :
    OnfmInv (o.fetched s (some content) (addr / sectorPerMpp))
        ((o.fetched s (some content) (addr / sectorPerMpp)).fillOf flag mft) ∧
      SameData o.ftl s := by
  have hpage := onfmCapacity_page haddr
  have hlt := onfmCapacity_lt
  have hdone := of_wp_ok (ftlRead_any h.ftl.base hpage) hread
  have hsame := hdone.same h.ftl.base
  have heq : ∀ q, addr / sectorPerMpp * sectorPerMpp = q * sectorPerMpp →
      q = addr / sectorPerMpp := by
    intro q hq
    simp only [sectorPerMpp] at *
    omega
  refine ⟨⟨hdone.inv h.ftl, ⟨h.idle.starting, h.idle.start, h.idle.last, h.idle.written⟩,
    OnfmState.fetched_aligned (by omega), fun q hq => ?_, fun q hq hmft hlink => ?_⟩, hsame⟩
  · rw [heq q hq]
    exact hpage
  · rw [heq q hq] at hlink ⊢
    unfold OnfmState.fillOf at hmft hlink ⊢
    by_cases hnext : mft = true ∧
        (o.fetched s (some content) (addr / sectorPerMpp)).BuffersNext
    · obtain ⟨rfl, hbehind⟩ := hnext
      rw [if_pos ⟨rfl, hbehind⟩]
      exact hsame.result.trans
        (of_wp_ok (ftlRead_next_result h.ftl.base h.ftl.data hpage) hread (heq _ hbehind).symm)
    · rw [if_neg hnext] at hmft hlink ⊢
      obtain rfl : mft = false := hmft
      exact hsame.result.trans (of_wp_ok (ftlRead_result h.ftl.base h.ftl.data hpage
        fun hflag => hsame.linksData.mp (hlink hflag)) hread).1

theorem readSectors_keeps {out : Buffer} (h : OnfmInv o fill)
    (haddr : addr + i + n ≤ onfmCapacity) :
    wp (onfmReadSectors addr flag mft n i out)
      (fun r o' => r.1 = .success →
        OnfmInv o' (if o.pagesToRead (addr + i) n = 0 then fill else o'.fillOf flag mft) ∧
          SameData o.ftl o'.ftl ∧ (o.pagesToRead (addr + i) n = 0 → o' = o))
      (fun _ => True) o := by
  have hlt := onfmCapacity_lt
  induction n generalizing o fill i out with
  | zero =>
      intro _
      have hnone : o.pagesToRead (addr + i) 0 = 0 := by
        unfold OnfmState.pagesToRead pageCount
        split <;> rfl
      rw [if_pos hnone]
      exact ⟨h, rfl, fun _ => rfl⟩
  | succ n ih =>
      have hnext : addr + i + 1 < 4294967288 := by omega
      unfold onfmReadSectors
      rw [wp_bind]
      by_cases hbuffered : o.Buffered (addr + i)
      · rw [wp_readSector_buffered h.aligned (by omega) hbuffered,
          OnfmState.pagesToRead_next h.aligned hnext hbuffered]
        exact ih h (by omega)
      · rw [wp_readSector_miss hbuffered]
        refine wp_of_ok_imp ?_
        rintro ⟨ret, data⟩ s hok
        by_cases hret : ret = .success
        · subst hret
          obtain ⟨content, rfl⟩ := of_wp_ok ftlRead_fills hok rfl
          obtain ⟨hinv, hsame⟩ := h.fetched (by omega) hok
          have hsome : o.pagesToRead (addr + i) (n + 1) ≠ 0 := by
            unfold OnfmState.pagesToRead pageCount
            rw [if_neg hbuffered, if_neg (Nat.succ_ne_zero n)]
            exact Nat.succ_ne_zero _
          rw [if_pos rfl]
          refine wp_mono_post (ih (i := i + 1) hinv (by omega)) ?_
          intro r o' hpost hr
          obtain ⟨hinv', hsame', hstays⟩ := hpost hr
          rw [if_neg hsome]
          refine ⟨?_, hsame.trans hsame', fun hnone => absurd hnone hsome⟩
          split_ifs at hinv' with hnone
          · rwa [← hstays hnone] at hinv'
          · exact hinv'
        · rw [if_neg hret]
          exact fun h => nomatch h

/-- A read leaves the data as it is, and a page in the buffer as it is read now. -/
theorem onfmRead_keeps {out : Buffer} (h : OnfmInv o fill)
    (haddr : addr + count ≤ onfmCapacity) :
    wp (onfmRead addr count out flag mft)
      (fun _ o' => OnfmInv o' (o.fillAfter o' fill addr count flag mft) ∧
        SameData o.ftl o'.ftl)
      (fun _ => True) o := by
  rw [wp_onfmRead]
  unfold OnfmState.fillAfter
  by_cases hwhole : WholePage addr count
  · have hpage : addr / sectorPerMpp < ftlCapacity := by
      apply onfmCapacity_page
      have hcount := hwhole.2
      simp only [sectorPerMpp] at hcount
      omega
    rw [if_pos hwhole]
    refine wp_mono_post (ftlRead_any h.ftl.base hpage) ?_
    intro r s hdone
    have hsame := hdone.same h.ftl.base
    rw [if_pos (Or.inl hwhole : WholePage addr count ∨ o.pagesToRead addr count = 0)]
    split
    · exact ⟨h.same (hdone.inv h.ftl) hsame, hsame⟩
    · trivial
  · rw [if_neg hwhole]
    simp only [hwhole, false_or]
    refine wp_mono_post (readSectors_keeps (i := 0) h (by omega)) ?_
    intro r o' hpost
    split
    · next hret => exact ⟨(hpost hret).1, (hpost hret).2.1⟩
    · trivial

end

end RansomTag

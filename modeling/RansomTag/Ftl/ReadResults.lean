import RansomTag.Ftl.Calls

/-!
# Reads without the cursor

`FTL_Read` with `mft = FALSE` depends on the data alone: it delivers the page
that is mapped or, with a tag, the page that this one links to.
-/

namespace RansomTag

open Program

namespace DataView

variable [Platform] (v : DataView)

/-- `UBI_Read` of a page of the data blocks. -/
def readAt (b p : Nat) : Except Stop (Status × Option Buffer) :=
  if b < ubiCapacity then
    match v.page b p with
    | .programmed data _ => .ok (.success, some data)
    | _ => .ok (.failure, none)
  else .error .assertion

/-- `FTL_Read` with `mft = FALSE`: the page, or with a tag the page it links to. -/
def result (flag : Bool) (a : Nat) : Except Stop (Status × Option Buffer) :=
  match v.entry a with
  | none => .ok (.success, some .zeros)
  | some (data, link) =>
      if flag = true ∧ link ≠ invalidPmNode then v.readAt (pmNodeBlock link) (pmNodePage link)
      else .ok (.success, some data)

theorem result_plain (a : Nat) :
    v.result false a = .ok (.success, some ((v.plain a).getD .zeros)) := by
  unfold result plain
  cases v.entry a with
  | none => rfl
  | some e => simp

/-- A page links to the data blocks if at all; `DATA_Write` admits block numbers
up to 2048. -/
def LinksData (a : Nat) : Prop :=
  ∀ data link, v.entry a = some (data, link) → link ≠ invalidPmNode →
    dataStartBlock ≤ pmNodeBlock link ∧ pmNodeBlock link ≤ 2048

end DataView

section

variable [Platform] {s t s' : FtlState} {a k : Nat} {flag : Bool} {E : Stop → Prop}

theorem ubiRead_readAt {link : Nat} {Q : ReadResult → FtlState → Prop}
    (hb : dataStartBlock ≤ pmNodeBlock link) (hb' : pmNodeBlock link ≤ 2048)
    (hok : ∀ r : ReadResult,
      s.view.readAt (pmNodeBlock link) (pmNodePage link) = .ok (r.status, r.data) → Q r s)
    (hE : ∀ e, s.view.readAt (pmNodeBlock link) (pmNodePage link) = .error e → E e) :
    wp (ubiRead (pmNodeBlock link) (pmNodePage link)) Q E s := by
  have hvalid : pmNodeBlock link ≠ invalidBlock ∧ pmNodePage link ≠ invalidPage := by
    simp only [invalidBlock, invalidPage, pmNodePage]
    omega
  unfold DataView.readAt at hok hE
  rw [FtlState.view_page_eq hb] at hok hE
  unfold ubiRead
  rw [if_pos hvalid, wp_bind, wp_assert]
  by_cases hcap : pmNodeBlock link < ubiCapacity
  · rw [if_pos hcap] at hok hE ⊢
    rw [wp_bind, wp_get]
    split
    · next data spare hpage =>
        rw [hpage] at hok
        exact hok _ rfl
    · next hpage =>
        apply hok
        split
        · next data spare hpage' => exact absurd hpage' (hpage data spare)
        · rfl
  · rw [if_neg hcap] at hE ⊢
    exact hE _ rfl

theorem wp_ftlReadBackup_invalid {Q : Status × Option Buffer → FtlState → Prop} :
    wp (ftlReadBackup invalidBlock invalidPage .success) Q E s ↔
      Q (.success, some .zeros) s := by
  unfold ftlReadBackup
  rw [if_neg (by simp), wp_bind, wp_pure]
  simp only [if_true, wp_bind]
  exact wp_ubiRead_invalid

theorem wp_ftlReadBackup_mapped {b p : Nat} {data : Buffer} {spare : Spare}
    {Q : Status × Option Buffer → FtlState → Prop} (hb : b < ubiCapacity) (hp : p < 64)
    (h : s.flash.page b p = .programmed data spare) :
    wp (ftlReadBackup b p .success) Q E s ↔
      if spare.w2 ≠ invalidPmNode then
        wp (ubiRead (pmNodeBlock spare.w2) (pmNodePage spare.w2))
          (fun r t => Q (r.status, r.data) t) E s
      else Q (.success, some data) s := by
  have hcap := Platform.ubiCapacity_le
  have hvalid : b ≠ invalidBlock ∧ p ≠ invalidPage := by
    simp only [invalidBlock, invalidPage]
    omega
  unfold ftlReadBackup
  rw [if_pos hvalid, wp_bind, wp_ubiRead_programmed hb hp h]
  unfold spareAfter
  by_cases hlink : spare.w2 = invalidPmNode
  · simp only [hlink, wp_bind, wp_pure, ne_eq, not_true_eq_false, if_false, if_true]
    exact wp_ubiRead_programmed hb hp h
  · simp only [hlink, wp_bind, wp_pure, ne_eq, not_false_eq_true, if_true]

/-- A read without the cursor delivers what the view says. -/
theorem ftlRead_result (h : BaseOk s k) (hd : DataInv s.view none) (ha : a < ftlCapacity)
    (hlink : flag = true → s.view.LinksData a) :
    wp (ftlRead a flag false) (fun r s' => s.view.result flag a = .ok r ∧ ReadDone s s' k a)
      (fun e => s.view.result flag a = .error e) s := by
  unfold DataView.result
  cases flag with
  | false =>
      refine wp_mono_post (ftlRead_plain_spec h hd ha) ?_
      rintro _ s' ⟨rfl, hs'⟩
      exact ⟨s.view.result_plain a, .of_accessed hs'⟩
  | true =>
      unfold ftlRead
      rw [wp_bind]
      refine wp_mono_post (pmtSearch_spec h (clusterIndex_lt ha)) ?_
      rintro _ t ⟨rfl, ht⟩
      have hview := ht.view h
      change wp (ftlReadBackup (wordLocation (s.mapping a)).1 (wordLocation (s.mapping a)).2
        .success) _ _ t
      rw [← FtlState.view_mapping_eq (s := s) ha]
      unfold wordLocation
      by_cases hword : s.view.mapping a = invalidPmNode
      · rw [(DataView.entry_eq_none hd.core ha).mpr hword, if_neg (not_not.mpr hword),
          wp_ftlReadBackup_invalid]
        exact ⟨rfl, .of_accessed ht⟩
      · obtain ⟨_, hb, hb', hp, data, spare, hprog, _⟩ := hd.core.mapped_word ha hword
        obtain ⟨data', spare', hprog', hentry, _⟩ := read_entry (E := fun _ => True) hd hview
          ha (Q := fun _ _ => True) hword
        obtain ⟨rfl, rfl⟩ : data = data' ∧ spare = spare' := by
          rw [hprog] at hprog'
          simpa using hprog'
        rw [← hview, FtlState.view_page_eq (hview ▸ hb)] at hprog
        rw [hview] at hprog
        rw [if_pos hword, wp_ftlReadBackup_mapped hb' (by omega) hprog, hentry]
        by_cases hold : spare.w2 = invalidPmNode
        · simp only [hold, ne_eq, not_true_eq_false, and_false, if_false, true_and]
          exact .of_accessed ht
        · obtain ⟨hlow, hhigh⟩ := hlink rfl data spare.w2 hentry hold
          simp only [hold, ne_eq, not_false_eq_true, and_self, if_true]
          rw [← hview]
          exact ubiRead_readAt hlow hhigh (fun r hr => ⟨hr, .of_accessed ht⟩) fun e he => he

/-- A read with `mft` that leaves the cursor right before its page delivers what a plain read
does. -/
theorem ftlRead_next_result (h : BaseOk s k) (hd : DataInv s.view none) (ha : a < ftlCapacity) :
    wp (ftlRead a flag true) (fun r s' =>
      a = (s'.api.lastAddr + 1) % 4294967296 → s.view.result false a = .ok r)
      (fun _ => True) s := by
  by_cases hnext : a = (s.api.lastAddr + 1) % 4294967296
  · refine wp_mono_post (ftlRead_next_spec h hd ha hnext) ?_
    rintro _ s' ⟨rfl, -⟩ -
    exact s.view.result_plain a
  · unfold ftlRead
    rw [wp_bind]
    refine wp_mono_post (pmtSearch_spec h (clusterIndex_lt ha)) ?_
    rintro _ t ⟨rfl, ht⟩
    have hapi : t.api = s.api := congrArg DataView.api (ht.view h)
    simp only [wp_bind, wp_pure, Bool.true_eq_false, false_and, if_false, if_true]
    refine wp_mono_post (ftlReadMft_notes _ _ (by rwa [hapi])) ?_
    intro r s' hnoted hafter
    omega

/-- Two states with the same data. -/
def SameData (s t : FtlState) : Prop := t.view = { s.view with api := t.api }

theorem SameData.symm (h : SameData s t) : SameData t s := by
  unfold SameData at *
  rw [h]
  rfl

theorem SameData.trans (h : SameData s t) (h' : SameData t s') : SameData s s' := by
  unfold SameData at *
  rw [h', h]

theorem ReadDone.same (h : ReadDone s t k a) (hs : BaseOk s k) : SameData s t := h.view hs

theorem SameData.result (h : SameData s t) : t.view.result flag a = s.view.result flag a := by
  rw [h]
  rfl

theorem SameData.linksData (h : SameData s t) : t.view.LinksData a ↔ s.view.LinksData a := by
  rw [h]
  rfl

/-- A page that can be read, and is read the same in any state with the same data. -/
theorem ftlRead_same {r : Status × Option Buffer} (ht : FtlInv t)
    (h : SameData s t) (ha : a < ftlCapacity) (hlink : flag = true → s.view.LinksData a)
    (hresult : s.view.result flag a = .ok r) :
    ∃ t', ftlRead a flag false t = .ok (r, t') ∧ ReadDone t t' 63 a := by
  have hread := ftlRead_result ht.base ht.data ha fun hflag => h.linksData.mpr (hlink hflag)
  rw [h.result, hresult] at hread
  have htotal : wp (ftlRead a flag false) (fun r' t' => r' = r ∧ ReadDone t t' 63 a)
      (fun _ => False) t := by
    refine wp_mono hread ?_ ?_
    · rintro r' t' ⟨heq, hdone⟩
      exact ⟨by simpa using heq.symm, hdone⟩
    · exact fun _ he => nomatch he
  obtain ⟨_, t', hok, rfl, hdone⟩ := exists_ok_of_wp htotal
  exact ⟨t', hok, hdone⟩

end

end RansomTag

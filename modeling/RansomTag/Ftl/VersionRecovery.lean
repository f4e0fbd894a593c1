import RansomTag.Ftl.Persistence
import RansomTag.Ftl.VersionChains

/-!
# Recovery of old versions

The versions of a page are read after the device was flushed, unplugged and mounted
again.
-/

namespace RansomTag

open Program

section

variable [Platform] {s t : FtlState} {store : HistoryStore} {addr k : Nat}

theorem HistoryRun.rootLogged (h : HistoryRun s store) : RootLogged s := by
  have hkept : MountInv s ∧ RootLogged s :=
    h.keeps (fun _ _ hfirst => hfirst.mount.rootLogged) fun c _ _ hinv hallowed =>
      storeCall_rootLogged c hinv hallowed.1
  exact hkept.2

theorem ReadsHistories.mounted (h : ReadsHistories s store k) (ht : CleanlyMounted s t) :
    ReadsHistories t store 0 := by
  refine ⟨ht.base, ht.data, fun a ha hne => ?_, fun a ha hne => ?_⟩
  · rw [ht.mapping]
    exact h.mapped a ha hne
  · rw [ht.mapping]
    exact (h.chain a ha hne).of_page ht.page

/-- At power-on the cursor stands at page 0 of block 0, which is no data block. -/
theorem CleanlyMounted.cursorAway (h : CleanlyMounted s t) (haddr : addr < ftlCapacity)
    (hmapped : t.view.mapping addr ≠ invalidPmNode) (hfirst : addr ≠ 1) : CursorAway t addr := by
  obtain ⟨_, hb, _⟩ := h.data.core.mapped_word haddr hmapped
  constructor
  · rw [h.api]
    exact hfirst
  · right
    rw [h.api]
    simp only [dataStartBlock] at hb
    change 0 ≠ pmNodeBlock (t.view.mapping addr)
    omega

/-- After a clean power cycle, series of reads with the MFT tag deliver the versions of
their pages. -/
theorem mftReads_after_powerCycle {reads : List (Nat × Nat)} (h : HistoryRun s store)
    (hfull : s.NonFull) (hretained : s.rootTable.backupBlockCount < threshold)
    (hfirst : ∀ read ∈ reads.head?, read.1 ≠ 1)
    (hreads : ∀ read ∈ reads, read.1 < ftlCapacity ∧ store read.1 ≠ [] ∧ 0 < read.2)
    (hapart : reads.IsChain fun read read' => read'.1 ≠ read.1 ∧ read'.1 ≠ read.1 + 1) :
    s.Survives (ftlMftSeries reads) (reads.map fun read => (store read.1).walk read.2) := by
  have hkeeps : KeepsHistories s store := HistoryRun.keepsHistories h
  apply hkeeps.inv.survives (HistoryRun.rootLogged h) hfull hretained
  intro t ht
  have hmounted := hkeeps.reads.mounted ht
  apply ftlMftSeries_spec hmounted _ hreads hapart
  intro read hhead
  obtain ⟨haddr, hne, _⟩ := hreads read (List.mem_of_mem_head? hhead)
  exact ht.cursorAway haddr (hmounted.mapped read.1 haddr hne) (hfirst read hhead)

end

section

attribute [local instance] k9wag08

/-- The versions of the two pages, from what the flash holds. -/
theorem mftReads_after_powerCycle_versioned : ∃ s, ftlVersioned = some s ∧
    s.Survives (ftlMftSeries [(5, 4), (9, 2)])
      [[(.success, some (.bytes (.const 4))), (.success, some (.bytes (.const 3))),
          (.success, some (.bytes (.const 1))), (.success, some (.bytes (.const 1)))],
        [(.success, some (.bytes (.const 5))), (.success, some (.bytes (.const 2)))]] := by
  have hopen : (ftlVersioned.any fun s =>
      decide (s.NonFull ∧ s.rootTable.backupBlockCount < threshold)) = true := by decide +kernel
  obtain ⟨s, hs, hstate⟩ := (Option.any_eq_true _ _).mp hopen
  obtain ⟨hfull, hretained⟩ := of_decide_eq_true hstate
  obtain ⟨store, hrun, h₅, h₉⟩ := ftlVersioned_run hs
  have hfirst : ∀ read ∈ [(5, 4), (9, 2)].head?, read.1 ≠ 1 := by decide
  have hpages := @ftlVersioned_reads store (by simp [h₅]) (by simp [h₉])
  have hapart : [(5, 4), (9, 2)].IsChain
      fun read read' : Nat × Nat => read'.1 ≠ read.1 ∧ read'.1 ≠ read.1 + 1 := by decide
  have hsurvives := mftReads_after_powerCycle hrun hfull hretained hfirst hpages hapart
  rw [List.map_cons, List.map_cons, h₅, h₉] at hsurvives
  exact ⟨s, hs, hsurvives⟩

end

end RansomTag

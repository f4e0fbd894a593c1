import Mathlib.Data.List.Basic
import Mathlib.Data.Nat.Basic

/-!
# Runs of flagged positions

A scan gathers the flagged positions below a bound into runs, with the start and
the length of the run that is open.  A run is reported when a position behind it
is not flagged: the one that reaches the bound stays open.
-/

namespace Runs

structure Scan where
  start : Nat
  counter : Nat
  startFlag : Bool
  continueFlag : Bool
  closed : List (Nat × Nat)

def Scan.initial : Scan := ⟨0, 0, true, false, []⟩

/-- One position; reported positions count from `base`. -/
def step (base : Nat) (p : Nat → Bool) (s : Scan) (j : Nat) : Scan :=
  if p j then
    if s.startFlag then ⟨j + base, s.counter + 1, false, true, s.closed⟩
    else { s with counter := s.counter + 1 }
  else if s.continueFlag then ⟨s.start, 0, true, false, s.closed ++ [(s.start, s.counter)]⟩
  else s

def scan (base : Nat) (p : Nat → Bool) (n : Nat) : Scan :=
  (List.range n).foldl (step base p) .initial

/-- The position is flagged, and one behind it below the bound is not. -/
def ClosedAt (p : Nat → Bool) (n i : Nat) : Prop :=
  i < n ∧ p i = true ∧ ∃ k, i < k ∧ k < n ∧ p k = false

variable {base n : Nat} {p : Nat → Bool} {s : Scan}

/-- What the scan knows after `n` positions. -/
structure Good (base : Nat) (p : Nat → Bool) (n : Nat) (s : Scan) : Prop where
  flags : s.continueFlag = !s.startFlag
  covers : ∀ c, (∃ run ∈ s.closed, run.1 ≤ c ∧ c < run.1 + run.2) ↔
    ∃ i, c = i + base ∧ ClosedAt p n i
  idle : s.startFlag = true → s.counter = 0 ∧ ∀ i < n, p i = true → ClosedAt p n i
  open_ : s.startFlag = false → 0 < s.counter ∧ s.counter ≤ n ∧
    s.start = n - s.counter + base ∧ (∀ i, n - s.counter ≤ i → i < n → p i = true) ∧
    ∀ i < n - s.counter, p i = true → ClosedAt p n i

theorem ClosedAt.succ {i : Nat} (h : ClosedAt p n i) : ClosedAt p (n + 1) i := by
  rcases h with ⟨hi, hflag, k, hik, hk, hgap⟩
  exact ⟨by omega, hflag, k, hik, by omega, hgap⟩

/-- A flagged position closes nothing. -/
theorem closedAt_succ_flagged {i : Nat} (hn : p n = true) :
    ClosedAt p (n + 1) i ↔ ClosedAt p n i := by
  constructor
  · rintro ⟨hi, hflag, k, hik, hk, hgap⟩
    have hkn : k ≠ n := by
      rintro rfl
      rw [hn] at hgap
      cases hgap
    exact ⟨by omega, hflag, k, hik, by omega, hgap⟩
  · exact ClosedAt.succ

/-- Behind a gap everything before it is closed. -/
theorem closedAt_succ_gap {i : Nat} (hn : p n = false) :
    ClosedAt p (n + 1) i ↔ i < n ∧ p i = true := by
  constructor
  · rintro ⟨hi, hflag, -⟩
    have hin : i ≠ n := by
      rintro rfl
      rw [hn] at hflag
      cases hflag
    exact ⟨by omega, hflag⟩
  · rintro ⟨hi, hflag⟩
    exact ⟨by omega, hflag, n, hi, by omega, hn⟩

theorem Good.step_flagged (h : Good base p n s) (hn : p n = true) :
    Good base p (n + 1) (step base p s n) := by
  have hcovers : ∀ c, (∃ run ∈ s.closed, run.1 ≤ c ∧ c < run.1 + run.2) ↔
      ∃ i, c = i + base ∧ ClosedAt p (n + 1) i := by
    intro c
    rw [h.covers c]
    simp only [closedAt_succ_flagged hn]
  unfold step
  rw [if_pos hn]
  by_cases hstart : s.startFlag = true
  · rw [if_pos hstart]
    rcases h.idle hstart with ⟨hcounter, hclosed⟩
    refine ⟨rfl, hcovers, fun hfalse => absurd hfalse Bool.false_ne_true, fun _ => ?_⟩
    simp only [hcounter]
    refine ⟨by omega, by omega, by omega, fun i hlower hupper => ?_, fun i hi hflag => ?_⟩
    · have hin : i = n := by omega
      rw [hin]
      exact hn
    · exact (hclosed i (by omega) hflag).succ
  · rw [if_neg hstart]
    rcases h.open_ (by simpa using hstart) with ⟨hpos, hle, hstarts, hrun, hclosed⟩
    refine ⟨h.flags, hcovers, fun htrue => absurd htrue hstart, fun _ => ?_⟩
    refine ⟨Nat.succ_pos _, Nat.succ_le_succ hle, by simpa using hstarts,
      fun i hlower hupper => ?_, fun i hi hflag => ?_⟩
    · by_cases hin : i = n
      · rw [hin]
        exact hn
      · exact hrun i (by simp only at hlower; omega) (by omega)
    · exact (hclosed i (by simp only at hi; omega) hflag).succ

theorem Good.step_gap (h : Good base p n s) (hn : p n = false) :
    Good base p (n + 1) (step base p s n) := by
  have hnot : ¬p n = true := by
    rw [hn]
    exact Bool.false_ne_true
  have hall : ∀ i < n + 1, p i = true → ClosedAt p (n + 1) i := by
    intro i hi hflag
    have hin : i ≠ n := by
      rintro rfl
      exact hnot hflag
    exact (closedAt_succ_gap hn).mpr ⟨by omega, hflag⟩
  unfold step
  rw [if_neg hnot]
  by_cases hcontinue : s.continueFlag = true
  · rw [if_pos hcontinue]
    have hstart : s.startFlag = false := by
      have hflags := h.flags
      rw [hcontinue] at hflags
      simpa using hflags.symm
    rcases h.open_ hstart with ⟨hpos, hle, hstarts, hrun, hclosed⟩
    refine ⟨rfl, fun c => ?_, fun _ => ⟨rfl, hall⟩, fun hfalse => absurd hfalse.symm
      Bool.false_ne_true⟩
    constructor
    · rintro ⟨run, hmem, hlower, hupper⟩
      rcases List.mem_append.mp hmem with hmem | hmem
      · rcases (h.covers c).mp ⟨run, hmem, hlower, hupper⟩ with ⟨i, hc, hi⟩
        exact ⟨i, hc, hi.succ⟩
      · rw [List.mem_singleton.mp hmem] at hlower hupper
        simp only [hstarts] at hlower hupper
        refine ⟨c - base, by omega, hall (c - base) (by omega) ?_⟩
        exact hrun (c - base) (by omega) (by omega)
    · rintro ⟨i, hc, hi⟩
      rcases (closedAt_succ_gap hn).mp hi with ⟨hin, hflag⟩
      by_cases hopen : n - s.counter ≤ i
      · refine ⟨(s.start, s.counter), List.mem_append_right _ (List.mem_singleton_self _), ?_⟩
        simp only [hstarts]
        omega
      · rcases (h.covers c).mpr ⟨i, hc, hclosed i (by omega) hflag⟩ with ⟨run, hmem, hrange⟩
        exact ⟨run, List.mem_append_left _ hmem, hrange⟩
  · rw [if_neg hcontinue]
    have hstart : s.startFlag = true := by
      have hflags := h.flags
      rw [Bool.not_eq_true] at hcontinue
      rw [hcontinue] at hflags
      simpa using hflags.symm
    rcases h.idle hstart with ⟨hcounter, hclosed⟩
    refine ⟨h.flags, fun c => ?_, fun _ => ⟨hcounter, hall⟩, fun hfalse => ?_⟩
    · rw [h.covers c]
      constructor
      · rintro ⟨i, hc, hi⟩
        exact ⟨i, hc, hi.succ⟩
      · rintro ⟨i, hc, hi⟩
        rcases (closedAt_succ_gap hn).mp hi with ⟨hin, hflag⟩
        exact ⟨i, hc, hclosed i hin hflag⟩
    · rw [hstart] at hfalse
      cases hfalse

theorem good_scan (base : Nat) (p : Nat → Bool) (n : Nat) : Good base p n (scan base p n) := by
  induction n with
  | zero =>
      refine ⟨rfl, fun c => ?_, fun _ => ⟨rfl, fun i hi => absurd hi (Nat.not_lt_zero i)⟩,
        fun hfalse => absurd hfalse.symm Bool.false_ne_true⟩
      constructor
      · rintro ⟨run, hmem, -⟩
        cases hmem
      · rintro ⟨i, -, hi, -⟩
        exact absurd hi (Nat.not_lt_zero i)
  | succ n ih =>
      have hstep : scan base p (n + 1) = step base p (scan base p n) n := by
        unfold scan
        rw [List.range_succ, List.foldl_append]
        rfl
      rw [hstep]
      cases hn : p n with
      | true => exact ih.step_flagged hn
      | false => exact ih.step_gap hn

/-- The reported runs cover the flagged positions with a gap behind them. -/
theorem scan_covers_iff (base : Nat) (p : Nat → Bool) (n c : Nat) :
    (∃ run ∈ (scan base p n).closed, run.1 ≤ c ∧ c < run.1 + run.2) ↔
      ∃ i, c = i + base ∧ ClosedAt p n i :=
  (good_scan base p n).covers c

end Runs

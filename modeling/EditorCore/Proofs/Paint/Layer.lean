import EditorCore.Paint.Style

set_option autoImplicit false

/-! # Layered runs do not overlap

`trim` walks the runs with an edge, the end of what has been painted. What it gives out lies
behind the edge and moves it, so the runs that come out follow one another; each is the end of one
of the runs that went in. Nothing is lost on the way: a run loses to the edge only what the runs
before it have covered, so layered runs cover what the given ones cover (`covers_layer_iff`).
-/

namespace EditorCore.Paint

/-- A run that is given out is not empty, lies behind the edge, and is the end of a given run. -/
theorem mem_trim {edge : Nat} {runs : List Run} {r : Run} (hr : r ∈ trim edge runs) :
    edge ≤ r.start ∧ 0 < r.length ∧ ∃ given ∈ runs,
      given.start ≤ r.start ∧ r.stop = given.stop ∧ r.category = given.category := by
  induction runs generalizing edge with
  | nil => cases hr
  | cons given runs ih =>
      rw [trim] at hr
      split at hr
      · obtain ⟨hedge, hlength, given', hgiven', hend⟩ := ih hr
        exact ⟨hedge, hlength, given', List.mem_cons_of_mem given hgiven', hend⟩
      · rename_i hover
        rcases List.mem_cons.mp hr with rfl | hr
        · refine ⟨Nat.le_max_left _ _, ?_, given, List.mem_cons_self, Nat.le_max_right _ _, ?_, rfl⟩
          · show 0 < given.stop - max edge given.start
            omega
          · show max edge given.start + (given.stop - max edge given.start) = given.stop
            omega
        · -- What comes later lies behind the end of this run, which itself lies behind the edge.
          obtain ⟨hedge, hlength, given', hgiven', hend⟩ := ih hr
          refine ⟨?_, hlength, given', List.mem_cons_of_mem given hgiven', hend⟩
          have := Nat.le_max_left edge given.start
          omega

/-- Every run that is given out ends before the next one starts. -/
theorem trim_pairwise (edge : Nat) (runs : List Run) :
    (trim edge runs).Pairwise fun a b => a.stop ≤ b.start := by
  induction runs generalizing edge with
  | nil => exact List.Pairwise.nil
  | cons given runs ih =>
      rw [trim]
      split
      · exact ih edge
      · rename_i hover
        refine List.pairwise_cons.mpr ⟨?_, ih given.stop⟩
        intro r hr
        have hedge := (mem_trim hr).1
        show max edge given.start + (given.stop - max edge given.start) ≤ r.start
        omega

theorem mem_layer {runs : List Run} {r : Run} (hr : r ∈ layer runs) :
    0 < r.length ∧ ∃ given ∈ runs,
      given.start ≤ r.start ∧ r.stop = given.stop ∧ r.category = given.category := by
  obtain ⟨-, hlength, given, hgiven, hend⟩ := mem_trim hr
  exact ⟨hlength, given, List.mem_mergeSort.mp hgiven, hend⟩

/-- Layered runs start one after another and do not overlap. -/
theorem layer_pairwise (runs : List Run) :
    (layer runs).Pairwise fun a b => a.start < b.start ∧ a.stop ≤ b.start := by
  refine (trim_pairwise 0 _).imp_of_mem ?_
  intro a b ha _ hab
  have hlength := (mem_layer ha).1
  refine ⟨?_, hab⟩
  rw [Run.stop] at hab
  omega

/-! ## The order of the runs -/

theorem start_le_trans (a b c : Run) (hab : decide (a.start ≤ b.start) = true)
    (hbc : decide (b.start ≤ c.start) = true) : decide (a.start ≤ c.start) = true := by
  simp only [decide_eq_true_eq] at hab hbc ⊢
  omega

theorem start_le_total (a b : Run) :
    (decide (a.start ≤ b.start) || decide (b.start ≤ a.start)) = true := by
  simp only [Bool.or_eq_true, decide_eq_true_eq]
  omega

/-- Layering goes through the runs in the order of their starts. -/
theorem mergeSort_start_pairwise (runs : List Run) :
    (runs.mergeSort fun a b => a.start ≤ b.start).Pairwise fun a b => a.start ≤ b.start := by
  simpa using List.pairwise_mergeSort start_le_trans start_le_total runs

/-! ## What the runs cover -/

/-- One of the runs covers the offset. -/
def Covers (runs : List Run) (i : Nat) : Prop := ∃ r ∈ runs, r.start ≤ i ∧ i < r.stop

/-- What lies behind the edge and is covered stays covered, if the runs are sorted. -/
theorem Covers.trim {runs : List Run} (hsorted : runs.Pairwise fun a b => a.start ≤ b.start)
    {edge i : Nat} (hedge : edge ≤ i) (h : Covers runs i) : Covers (trim edge runs) i := by
  induction runs generalizing edge with
  | nil =>
      obtain ⟨r, hr, -⟩ := h
      cases hr
  | cons given runs ih =>
      obtain ⟨hfirst, hrest⟩ := List.pairwise_cons.mp hsorted
      obtain ⟨r, hr, hstart, hstop⟩ := h
      unfold Paint.trim
      split
      · rename_i hover
        rcases List.mem_cons.mp hr with rfl | hr
        · -- All of this run lies before the edge, but the offset does not.
          omega
        · exact ih hrest hedge ⟨r, hr, hstart, hstop⟩
      · rename_i hover
        have hgiven : given.start ≤ i := by
          rcases List.mem_cons.mp hr with rfl | hr
          · exact hstart
          · exact Nat.le_trans (hfirst r hr) hstart
        by_cases hi : i < given.stop
        · refine ⟨_, List.mem_cons_self, ?_, ?_⟩
          · show max edge given.start ≤ i
            omega
          · show i < max edge given.start + (given.stop - max edge given.start)
            omega
        · have hr : r ∈ runs := by
            rcases List.mem_cons.mp hr with rfl | hr
            · exact absurd hstop hi
            · exact hr
          obtain ⟨r', hr', hcovers⟩ := ih hrest (Nat.not_lt.mp hi) ⟨r, hr, hstart, hstop⟩
          exact ⟨r', List.mem_cons_of_mem _ hr', hcovers⟩

/-- Layered runs cover what the given runs cover. -/
theorem covers_layer_iff (runs : List Run) (i : Nat) : Covers (layer runs) i ↔ Covers runs i := by
  constructor
  · rintro ⟨r, hr, hstart, hstop⟩
    obtain ⟨-, given, hgiven, hle, hend, -⟩ := mem_layer hr
    exact ⟨given, hgiven, Nat.le_trans hle hstart, hend ▸ hstop⟩
  · rintro ⟨r, hr, hcovers⟩
    exact Covers.trim (mergeSort_start_pairwise runs) (Nat.zero_le i)
      ⟨r, List.mem_mergeSort.mpr hr, hcovers⟩

end EditorCore.Paint

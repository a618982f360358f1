import EditorCore.Paint.Regions
import Mathlib.Data.List.Pairwise

set_option autoImplicit false

/-! # The ranges of a file and the search in them

`Regions.isInactive` finds its range by halving. That is right for ranges that follow one another
(`isInactive_iff_exists`), and the ranges that directives leave do: each starts at or after the
first line that no earlier directive has claimed.

Line numbers stop at `wordLimit`, where the gap after a directive can no longer grow. All the
statements are therefore about one line below that limit; two ranges are in order as far as a line
is concerned if the line is not before the end of the first and behind the start of the second.
-/

namespace EditorCore.Paint

theorem LineRange.contains_iff (r : LineRange) (line : Nat) :
    r.contains line = true ↔ r.start ≤ line ∧ line < r.stop := by
  simp [contains]

namespace Regions

/-! ## Halving -/

/-- Ranges that end at or before the line come before those that do not. -/
def SplitAt (line : Nat) (ranges : List LineRange) : Prop :=
  ranges.Pairwise fun a b => b.stop ≤ line → a.stop ≤ line

theorem SplitAt.stop_le {line : Nat} {ranges : List LineRange} (h : SplitAt line ranges) {i j : Nat}
    (hij : i ≤ j) (hj : j < ranges.length) (hstop : ranges[j].stop ≤ line) :
    (ranges[i]).stop ≤ line := by
  rcases Nat.eq_or_lt_of_le hij with rfl | hlt
  · exact hstop
  · exact List.pairwise_iff_getElem.mp h i j (by omega) hj hlt hstop

/-- The search keeps the place it looks for between `base` and `base + size`, so it ends between
the ranges that end at or before the line and the others. -/
theorem search_spec {line : Nat} {ranges : List LineRange} (h : SplitAt line ranges) :
    ∀ base size : Nat, 0 < size → base + size ≤ ranges.length →
      (∀ i (hi : i < ranges.length), i < base → ranges[i].stop ≤ line) →
      (∀ i (hi : i < ranges.length), base + size ≤ i → line < ranges[i].stop) →
      (∀ i (hi : i < ranges.length), i < search ranges line base size → ranges[i].stop ≤ line) ∧
      (∀ i (hi : i < ranges.length), search ranges line base size ≤ i → line < ranges[i].stop) := by
  intro base size
  induction size using Nat.strongRecOn generalizing base with
  | _ size ih =>
      intro hpos hlen hlow hhigh
      rw [search]
      by_cases hsize : size ≤ 1
      · -- Only the range at `base` is left to look at.
        have hbase : base < ranges.length := by omega
        rw [if_pos hsize, List.getElem?_eq_getElem hbase]
        simp only
        by_cases hstop : ranges[base].stop ≤ line
        · rw [if_pos hstop]
          refine ⟨fun i hi hlt => ?_, fun i hi hle => hhigh i hi (by omega)⟩
          exact h.stop_le (by omega) hbase hstop
        · rw [if_neg hstop]
          refine ⟨hlow, fun i hi hle => ?_⟩
          by_contra hcon
          exact hstop (h.stop_le hle hi (by omega))
      · -- The half that is kept still has the place in it, as the ranges are split there.
        have hmiddle : base + size / 2 < ranges.length := by omega
        rw [if_neg hsize]
        simp only [List.getElem?_eq_getElem hmiddle]
        by_cases hstop : ranges[base + size / 2].stop ≤ line
        · rw [if_pos hstop]
          refine ih (size - size / 2) (by omega) _ (by omega) (by omega) ?_ ?_
          · intro i hi hlt
            exact h.stop_le (by omega) hmiddle hstop
          · intro i hi hle
            exact hhigh i hi (by omega)
        · rw [if_neg hstop]
          refine ih (size - size / 2) (by omega) base (by omega) (by omega) hlow ?_
          intro i hi hle
          by_contra hcon
          exact hstop (h.stop_le (by omega) hi (by omega))

/-- As far as a line is concerned, the ranges follow one another. -/
structure InOrder (line : Nat) (ranges : List LineRange) : Prop where
  proper : ∀ r ∈ ranges, r.start ≤ r.stop
  apart : ranges.Pairwise fun a b => line < a.stop → line < b.start

theorem InOrder.splitAt {line : Nat} {ranges : List LineRange} (h : InOrder line ranges) :
    SplitAt line ranges := by
  refine h.apart.imp_of_mem ?_
  intro a b _ hb hab hstop
  by_contra hcon
  have hstart := hab (by omega)
  have hproper := h.proper b hb
  omega

/-- Whatever the ranges, the search only answers with a range of the line. -/
theorem exists_of_isInactive {line : Nat} {regions : Regions}
    (h : regions.isInactive line = true) : ∃ r ∈ regions.ranges, r.contains line = true := by
  rw [isInactive] at h
  split at h
  · rename_i r hr
    exact ⟨r, List.mem_of_getElem? hr, h⟩
  · cases h

/-- With ranges in order, halving finds the range of a line if there is one. -/
theorem isInactive_iff_exists {line : Nat} {ranges : List LineRange} (h : InOrder line ranges) :
    isInactive ⟨ranges⟩ line = true ↔ ∃ r ∈ ranges, r.contains line = true := by
  refine ⟨exists_of_isInactive, ?_⟩
  rintro ⟨r, hr, hcontains⟩
  obtain ⟨i, hi, rfl⟩ := List.getElem_of_mem hr
  obtain ⟨hstart, hstop⟩ := (LineRange.contains_iff _ _).mp hcontains
  obtain ⟨hbelow, habove⟩ := search_spec h.splitAt 0 ranges.length (by omega) (by omega)
    (fun j _ hj => by omega) (fun j hj hle => by omega)
  -- The line is before the end of range `i`, so the search stops at `i` or before; a range
  -- before `i` that reaches beyond the line would keep `i` from starting at or before it.
  have hle : search ranges line 0 ranges.length ≤ i := by
    by_contra hcon
    have := hbelow i hi (by omega)
    omega
  have heq : search ranges line 0 ranges.length = i := by
    by_contra hne
    have hbefore := habove _ (by omega) (Nat.le_refl _)
    have := List.pairwise_iff_getElem.mp h.apart _ i (by omega) hi (by omega) hbefore
    omega
  rw [isInactive]
  simp only [heq, List.getElem?_eq_getElem hi]
  exact hcontains

/-! ## What directives leave -/

/-- The gap after a directive never starts beyond the last line there is. -/
theorem lineAfter_le (d : Directive) : lineAfter d ≤ wordLimit := Nat.min_le_right _ _

theorem lt_lineAfter_iff {line : Nat} (hline : line < wordLimit) (d : Directive) :
    line < lineAfter d ↔ line ≤ d.lastLine := by
  rw [lineAfter]
  omega

theorem mem_collect_nil {groups : Groups} {gap : Nat} {r : LineRange} :
    r ∈ collect groups gap [] ↔ groups.inactive = true ∧ r = ⟨gap, wordLimit⟩ := by
  rw [collect]
  split <;> simp_all

/-- A range was closed by the first directive or by a later one. -/
theorem mem_collect_cons {groups : Groups} {gap : Nat} {d : Directive} {ds : List Directive}
    {r : LineRange} :
    r ∈ collect groups gap (d :: ds) ↔
      (groups.inactive = true ∧ gap < d.firstLine ∧ r = ⟨gap, d.firstLine⟩) ∨
        r ∈ collect (groups.apply d) (max gap (lineAfter d)) ds := by
  rw [collect]
  by_cases h : groups.inactive = true ∧ gap < d.firstLine
  · simp [h]
  · have hcond : ¬ (groups.inactive && decide (gap < d.firstLine)) = true := by simpa using h
    rw [if_neg hcond]
    constructor
    · exact Or.inr
    · rintro (⟨hinactive, hlt, -⟩ | hr)
      · exact absurd ⟨hinactive, hlt⟩ h
      · exact hr

theorem start_of_mem_collect {ds : List Directive} {groups : Groups} {gap : Nat} {r : LineRange}
    (hr : r ∈ collect groups gap ds) : gap ≤ r.start := by
  induction ds generalizing groups gap with
  | nil =>
      obtain ⟨-, rfl⟩ := mem_collect_nil.mp hr
      exact Nat.le_refl gap
  | cons d ds ih =>
      rcases mem_collect_cons.mp hr with ⟨-, -, rfl⟩ | hr
      · exact Nat.le_refl gap
      · exact Nat.le_trans (Nat.le_max_left _ _) (ih hr)

theorem proper_of_mem_collect {ds : List Directive} {groups : Groups} {gap : Nat} {r : LineRange}
    (hgap : gap ≤ wordLimit) (hr : r ∈ collect groups gap ds) : r.start ≤ r.stop := by
  induction ds generalizing groups gap with
  | nil =>
      obtain ⟨-, rfl⟩ := mem_collect_nil.mp hr
      exact hgap
  | cons d ds ih =>
      rcases mem_collect_cons.mp hr with ⟨-, hlt, rfl⟩ | hr
      · exact Nat.le_of_lt hlt
      · exact ih (Nat.max_le.mpr ⟨hgap, lineAfter_le d⟩) hr

/-- No range reaches beyond the last line number there is. -/
theorem stop_of_mem_collect {ds : List Directive} (hds : ∀ d ∈ ds, d.firstLine ≤ wordLimit)
    {groups : Groups} {gap : Nat} {r : LineRange} (hr : r ∈ collect groups gap ds) :
    r.stop ≤ wordLimit := by
  induction ds generalizing groups gap with
  | nil =>
      obtain ⟨-, rfl⟩ := mem_collect_nil.mp hr
      exact Nat.le_refl wordLimit
  | cons d ds ih =>
      rcases mem_collect_cons.mp hr with ⟨-, -, rfl⟩ | hr
      · exact hds d List.mem_cons_self
      · exact ih (fun e he => hds e (List.mem_cons_of_mem d he)) hr

/-- The last line number there is, is never inactive. -/
theorem isInactive_of_limit_le {ds : List Directive} (hds : ∀ d ∈ ds, d.firstLine ≤ wordLimit)
    {line : Nat} (hline : wordLimit ≤ line) : (ofDirectives ds).isInactive line = false := by
  rw [← Bool.not_eq_true]
  intro h
  obtain ⟨r, hr, hcontains⟩ := exists_of_isInactive h
  have hstop := stop_of_mem_collect hds hr
  have hin := (LineRange.contains_iff r line).mp hcontains
  omega

/-- The ranges that directives leave are in order, whatever the order of the directives. -/
theorem collect_inOrder {line : Nat} (hline : line < wordLimit) {ds : List Directive}
    (hds : ∀ d ∈ ds, d.firstLine ≤ d.lastLine) {groups : Groups} {gap : Nat}
    (hgap : gap ≤ wordLimit) : InOrder line (collect groups gap ds) := by
  refine ⟨fun r hr => proper_of_mem_collect hgap hr, ?_⟩
  induction ds generalizing groups gap with
  | nil =>
      rw [collect]
      split
      · exact List.pairwise_singleton _ _
      · exact List.Pairwise.nil
  | cons d ds ih =>
      have hd : d.firstLine ≤ d.lastLine := hds d List.mem_cons_self
      have hrest : (collect (groups.apply d) (max gap (lineAfter d)) ds).Pairwise
          fun a b => line < a.stop → line < b.start :=
        ih (fun e he => hds e (List.mem_cons_of_mem d he))
          (Nat.max_le.mpr ⟨hgap, lineAfter_le d⟩)
      rw [collect]
      split
      · refine List.pairwise_cons.mpr ⟨?_, hrest⟩
        intro r hr hbefore
        have hafter : line < lineAfter d :=
          (lt_lineAfter_iff hline d).mpr (Nat.le_trans (Nat.le_of_lt hbefore) hd)
        have hstart := start_of_mem_collect hr
        omega
      · exact hrest

end Regions

end EditorCore.Paint

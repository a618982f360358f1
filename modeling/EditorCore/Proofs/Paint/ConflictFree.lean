import EditorCore.Paint.Painter
import EditorCore.Proofs.Paint.Layer
import EditorCore.Proofs.Text.Lines
import Mathlib.Data.List.Pairwise
import Mathlib.Logic.ExistsUnique

set_option autoImplicit false

/-! # Painted runs are free of conflicts

Whatever a parse reports and however little it fits the buffer, the runs painted for some lines can
be drawn as they are: they follow one another, each on the content of a single line.

The argument goes from the inside out: a clipped patch lies on its line, layering keeps that and
sets the runs of one line apart, and lines are themselves set apart by their breaks.
-/

namespace EditorCore.Paint

/-- The run lies on the line. -/
def Run.Within (r : Run) (span : LineSpan) : Prop := span.start ≤ r.start ∧ r.stop ≤ span.stop

theorem Patch.onLine_within {span : LineSpan} {p : Patch} {r : Run} (h : p.onLine span = some r) :
    r.Within span := by
  obtain ⟨⟨start, length⟩, hclip, rfl⟩ := Option.map_eq_some_iff.mp h
  rw [LineSpan.clip] at hclip
  split at hclip
  · cases hclip
  · simp only [Option.some.injEq, Prod.mk.injEq] at hclip
    obtain ⟨rfl, rfl⟩ := hclip
    simp only [Run.Within, Run.stop, LineSpan.stop]
    omega

namespace Painter

variable {p : Painter} {line : Nat} {span : LineSpan}

theorem paintSpan_of_inactive (h : p.regions.isInactive line = true) :
    p.paintSpan line span = [⟨span.start, span.width, .inactiveCode⟩] := if_pos h

theorem paintSpan_of_active (h : ¬ p.regions.isInactive line = true) :
    p.paintSpan line span = layer ((p.patches line).filterMap (Patch.onLine span)) := if_neg h

/-- The runs of a line lie on it, and an empty one stands for an empty inactive line. -/
theorem mem_paintSpan {r : Run} (hr : r ∈ p.paintSpan line span) :
    r.Within span ∧ (r.length = 0 →
      r = ⟨span.start, 0, .inactiveCode⟩ ∧ p.regions.isInactive line = true ∧ span.width = 0) := by
  by_cases hinactive : p.regions.isInactive line = true
  · rw [paintSpan_of_inactive hinactive, List.mem_singleton] at hr
    subst hr
    refine ⟨⟨Nat.le_refl _, Nat.le_refl _⟩, ?_⟩
    intro hempty
    have hwidth : span.width = 0 := hempty
    exact ⟨by rw [hwidth], hinactive, hwidth⟩
  · rw [paintSpan_of_active hinactive] at hr
    -- A layered run is the end of a clipped patch, and not empty.
    obtain ⟨hlength, given, hgiven, hstart, hstop, -⟩ := mem_layer hr
    obtain ⟨patch, -, hpatch⟩ := List.mem_filterMap.mp hgiven
    have hwithin := Patch.onLine_within hpatch
    refine ⟨⟨Nat.le_trans hwithin.1 hstart, hstop ▸ hwithin.2⟩, ?_⟩
    intro hempty
    omega

/-- The runs of a line start one after another and do not overlap. -/
theorem paintSpan_pairwise :
    (p.paintSpan line span).Pairwise fun a b => a.start < b.start ∧ a.stop ≤ b.start := by
  by_cases hinactive : p.regions.isInactive line = true
  · rw [paintSpan_of_inactive hinactive]
    exact List.pairwise_singleton _ _
  · rw [paintSpan_of_active hinactive]
    exact layer_pairwise _

theorem mem_paintLine {buffer : List Char} {r : Run} :
    r ∈ p.paintLine buffer line ↔
      ∃ span, LineSpan.resolve buffer line = .ok span ∧ r ∈ p.paintSpan line span := by
  rw [paintLine]
  cases LineSpan.resolve buffer line with
  | ok span => simp
  | error cause => simp

theorem paintLine_pairwise (p : Painter) (buffer : List Char) (line : Nat) :
    (p.paintLine buffer line).Pairwise fun a b => a.start < b.start ∧ a.stop ≤ b.start := by
  rw [paintLine]
  cases LineSpan.resolve buffer line with
  | ok span => exact paintSpan_pairwise
  | error cause => exact List.Pairwise.nil

/-- The runs of a later line start behind those of an earlier one. -/
theorem start_lt_of_line_lt {buffer : List Char} {line' : Nat} (hlt : line < line') {a b : Run}
    (ha : a ∈ p.paintLine buffer line) (hb : b ∈ p.paintLine buffer line') :
    a.start < b.start ∧ a.stop ≤ b.start := by
  obtain ⟨span, hspan, ha⟩ := mem_paintLine.mp ha
  obtain ⟨span', hspan', hb⟩ := mem_paintLine.mp hb
  have hbreak := LineSpan.stop_lt_start_of_lt hlt hspan hspan'
  have hwithin := (mem_paintSpan ha).1.2
  have hwithin' := (mem_paintSpan hb).1.1
  have hstop : a.start ≤ a.stop := Nat.le_add_right _ _
  omega

theorem paintLines_pairwise (p : Painter) (buffer : List Char) (first stop : Nat) :
    (p.paintLines buffer first stop).Pairwise
      fun a b => a.start < b.start ∧ a.stop ≤ b.start := by
  rw [paintLines, List.pairwise_flatMap]
  refine ⟨fun line _ => p.paintLine_pairwise buffer line, ?_⟩
  have hsorted : (List.range' first (stop - first)).Pairwise (· < ·) := List.pairwise_lt_range'
  refine hsorted.imp ?_
  intro line line' hlt a ha b hb
  exact start_lt_of_line_lt hlt ha hb

end Painter

/-- A run that lies on a line lies on no other. -/
theorem Run.Within.line_unique {buffer : List Char} {r : Run} {line line' : Nat}
    {span span' : LineSpan} (hspan : LineSpan.resolve buffer line = .ok span)
    (hspan' : LineSpan.resolve buffer line' = .ok span') (h : r.Within span)
    (h' : r.Within span') : line' = line := by
  have hstop : r.start ≤ r.stop := Nat.le_add_right _ _
  obtain ⟨hstart, hend⟩ := h
  obtain ⟨hstart', hend'⟩ := h'
  rcases Nat.lt_trichotomy line' line with hlt | heq | hgt
  · have := LineSpan.stop_lt_start_of_lt hlt hspan' hspan
    omega
  · exact heq
  · have := LineSpan.stop_lt_start_of_lt hgt hspan hspan'
    omega

/-- The runs painted for a range of lines are free of conflicts, for every buffer and whatever the
file reports: they start one after another and none reaches into the next; each lies in the
buffer, on the content of exactly one line, and covers no line break; and an empty one stands for
an empty inactive line of the range. -/
theorem paintLines_conflict_free (file : SourceFile) (buffer : List Char) (first stop : Nat) :
    let painter := Painter.ofFile file
    let runs := painter.paintLines buffer first stop
    runs.Pairwise (fun a b => a.start < b.start ∧ a.stop ≤ b.start) ∧
    ∀ r ∈ runs,
      r.stop ≤ buffer.length ∧
      (∃! line, ∃ span, LineSpan.resolve buffer line = .ok span ∧
        span.start ≤ r.start ∧ r.stop ≤ span.stop) ∧
      (∀ i c, r.start ≤ i → i < r.stop → buffer[i]? = some c → Text.isBreak c = false) ∧
      (r.length = 0 → r.category = .inactiveCode ∧
        ∃ line, first ≤ line ∧ line < stop ∧ painter.regions.isInactive line = true ∧
          LineSpan.resolve buffer line = .ok ⟨r.start, 0⟩) := by
  intro painter runs
  refine ⟨painter.paintLines_pairwise buffer first stop, ?_⟩
  intro r hr
  obtain ⟨line, hline, hr⟩ := List.mem_flatMap.mp hr
  obtain ⟨span, hspan, hr⟩ := Painter.mem_paintLine.mp hr
  obtain ⟨hwithin, hempty⟩ := Painter.mem_paintSpan hr
  have hmem := LineSpan.mem_all_of_resolve hspan
  refine ⟨Nat.le_trans hwithin.2 (LineSpan.stop_le_length hmem), ?_, ?_, ?_⟩
  · refine ⟨line, ⟨span, hspan, hwithin⟩, ?_⟩
    rintro line' ⟨span', hspan', hwithin'⟩
    exact hwithin.line_unique hspan hspan' hwithin'
  · intro i c hstart hstop hc
    exact LineSpan.isBreak_of_mem_span hmem (Nat.le_trans hwithin.1 hstart)
      (Nat.lt_of_lt_of_le hstop hwithin.2) hc
  · intro hlength
    obtain ⟨hrun, hinactive, hwidth⟩ := hempty hlength
    rw [List.mem_range'_1] at hline
    subst hrun
    refine ⟨rfl, line, hline.1, by omega, hinactive, ?_⟩
    rw [hspan, ← hwidth]

end EditorCore.Paint

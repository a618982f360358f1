set_option autoImplicit false

/-! # Places in a source file

Lines and columns count from zero and columns count characters. A span is a run of characters
on a single line.
-/

namespace EditorCore

/-- The largest number of 64 bits, in which lines, columns, offsets and lengths are counted. -/
def wordLimit : Nat := 0xFFFFFFFFFFFFFFFF

/-- A line and a column, both from zero. -/
structure Position where
  line : Nat
  column : Nat
deriving DecidableEq, Repr, Inhabited

/-- Positions are ordered by line, then by column. -/
def Position.le (p q : Position) : Bool :=
  p.line < q.line || (p.line == q.line && p.column ≤ q.column)

theorem Position.le_trans (p q r : Position) (hpq : p.le q = true) (hqr : q.le r = true) :
    p.le r = true := by
  simp only [le, Bool.or_eq_true, Bool.and_eq_true, beq_iff_eq, decide_eq_true_eq] at *
  omega

theorem Position.le_total (p q : Position) : (p.le q || q.le p) = true := by
  simp only [le, Bool.or_eq_true, Bool.and_eq_true, beq_iff_eq, decide_eq_true_eq]
  omega

theorem Position.line_le_of_le {p q : Position} (h : p.le q = true) : p.line ≤ q.line := by
  simp only [le, Bool.or_eq_true, Bool.and_eq_true, beq_iff_eq, decide_eq_true_eq] at h
  omega

/-- A run of characters on one line. -/
structure Span where
  start : Position
  length : Nat
deriving DecidableEq, Repr, Inhabited

namespace Span

/-- The line of the span. -/
def line (s : Span) : Nat := s.start.line

/-- The column one past the last character. -/
def stopColumn (s : Span) : Nat := s.start.column + s.length

/-- The span lies on the line. -/
def isOn (s : Span) (line : Nat) : Bool := s.start.line == line

/-- The places of the spans in a list, in order of their starts. Spans that start together keep
their order. -/
def order (spans : List Span) : List Nat :=
  (spans.zipIdx.mergeSort (fun a b => a.1.start.le b.1.start)).map (·.2)

end Span

end EditorCore

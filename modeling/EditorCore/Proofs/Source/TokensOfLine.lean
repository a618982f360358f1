import EditorCore.Proofs.Source.LineIndex
import EditorCore.Proofs.Source.Reorder

set_option autoImplicit false

/-! # The tokens of a line

A file answers with the tokens of a line out of its index. However the tokens were listed, the
answer is the listed tokens that start on the line, each as often as it was listed, in the order of
their columns and, at one column, in the order in which they were listed. Read line by line from the
top, the answers are all the tokens of the file (`tokensOnLine_exact`).
-/

namespace EditorCore.SourceFile

/-- In a sorted list the tokens of some lines, line by line, are the tokens on those lines. -/
theorem flatMap_filter_line {ts : List Token}
    (hsorted : ts.Pairwise fun a b => a.span.line ≤ b.span.line) {lines : List Nat}
    (hlines : lines.Pairwise (· < ·)) :
    (lines.flatMap fun line => ts.filter fun t => t.span.line == line) =
      ts.filter fun t => lines.contains t.span.line := by
  induction lines with
  | nil => simp
  | cons line lines ih =>
      obtain ⟨hfirst, hlines⟩ := List.pairwise_cons.mp hlines
      rw [List.flatMap_cons, ih hlines, filter_append_filter hsorted]
      · simp only [List.contains_cons]
      · -- The lines that follow are further down, so their tokens come behind those of the first.
        intro a b hab ha
        have hline := hfirst a.span.line (List.contains_iff_mem.mp ha)
        rw [beq_eq_false_iff_ne]
        omega
      · intro a ha
        have hline := hfirst a.span.line (List.contains_iff_mem.mp ha)
        rw [beq_eq_false_iff_ne]
        omega

/-- The tokens of one position are stored as they were listed. -/
theorem filter_start_ofRecords (path : Path) (tokens : List Token) (comments : List Comment)
    (directives : List Directive) (p : Position) :
    ((ofRecords path tokens comments directives).tokens.filter fun t => t.span.start = p) =
      tokens.filter fun t => t.span.start = p :=
  filter_mergeSort (fun t : Token => t.span.start) tokens p

/-- The tokens of a line are in the order of their columns. -/
theorem tokensOnLine_pairwise (file : SourceFile) (line : Nat) :
    (file.tokensOnLine line).Pairwise fun a b => a.span.start.column ≤ b.span.start.column := by
  rw [tokensOnLine_eq_filter]
  refine (file.tokens_sorted.filter _).imp_of_mem ?_
  intro a b ha hb hle
  have hline : a.span.start.line = line := beq_iff_eq.mp (List.mem_filter.mp ha).2
  have hline' : b.span.start.line = line := beq_iff_eq.mp (List.mem_filter.mp hb).2
  simp only [Token.le, Position.le, Bool.or_eq_true, Bool.and_eq_true, beq_iff_eq,
    decide_eq_true_eq] at hle
  omega

/-- The tokens of a line at one column are the tokens of that position. -/
theorem filter_tokensOnLine (file : SourceFile) (line column : Nat) :
    ((file.tokensOnLine line).filter fun t => t.span.start.column = column) =
      file.tokens.filter fun t => t.span.start = ⟨line, column⟩ := by
  rw [tokensOnLine_eq_filter, List.filter_filter]
  refine List.filter_congr fun t _ => ?_
  rw [Bool.eq_iff_iff, Bool.and_eq_true, decide_eq_true_eq, decide_eq_true_eq, beq_iff_eq]
  constructor
  · rintro ⟨rfl, rfl⟩
    rfl
  · intro hstart
    rw [Span.line, hstart]
    exact ⟨rfl, rfl⟩

/-- Line by line from the top, the tokens are the tokens of the file. -/
theorem flatMap_tokensOnLine (file : SourceFile) {lines : List Nat}
    (hlines : lines.Pairwise (· < ·)) (hall : ∀ t ∈ file.tokens, t.span.start.line ∈ lines) :
    lines.flatMap file.tokensOnLine = file.tokens := by
  rw [funext (tokensOnLine_eq_filter file),
    flatMap_filter_line (file.tokens_sorted.imp fun h => Position.line_le_of_le h) hlines]
  exact List.filter_eq_self.mpr fun t ht => List.contains_iff_mem.mpr (hall t ht)

/-- **The index gives the tokens of each line.** Whatever the listing, the tokens on a line are the
listed tokens that start there, each as often as listed; they go by column, and those of one column
come as listed. A line on which none starts has none. Over any lines that go up and miss no token,
the answers together are the tokens of the file, which are the listed ones. -/
theorem tokensOnLine_exact (path : Path) (tokens : List Token) (comments : List Comment)
    (directives : List Directive) :
    let file := ofRecords path tokens comments directives
    (∀ line,
      (file.tokensOnLine line).Perm (tokens.filter fun t => t.span.start.line = line) ∧
      ((file.tokensOnLine line).Pairwise fun a b =>
        a.span.start.column ≤ b.span.start.column) ∧
      (∀ column, ((file.tokensOnLine line).filter fun t => t.span.start.column = column) =
        tokens.filter fun t => t.span.start = ⟨line, column⟩) ∧
      (file.tokensOnLine line = [] ↔ ∀ t ∈ tokens, t.span.start.line ≠ line)) ∧
    (∀ lines : List Nat, lines.Pairwise (· < ·) → (∀ t ∈ tokens, t.span.start.line ∈ lines) →
      lines.flatMap file.tokensOnLine = file.tokens) ∧
    file.tokens.Perm tokens := by
  intro file
  have hperm : file.tokens.Perm tokens := List.mergeSort_perm tokens Token.le
  refine ⟨fun line => ⟨?_, file.tokensOnLine_pairwise line, fun column => ?_, ?_⟩, ?_, hperm⟩
  · rw [tokensOnLine_eq_filter]
    exact hperm.filter _
  · rw [filter_tokensOnLine]
    exact filter_start_ofRecords path tokens comments directives ⟨line, column⟩
  · rw [tokensOnLine_eq_filter, List.filter_eq_nil_iff]
    simp only [hperm.mem_iff, Span.line, beq_iff_eq, ne_eq]
  · intro lines hlines hall
    exact file.flatMap_tokensOnLine hlines fun t ht => hall t (hperm.mem_iff.mp ht)

/-- Tokens of three lines, not listed by line; two of them start at one place. -/
def shuffledTokens : List Token :=
  [⟨.identifier, ⟨⟨2, 4⟩, 1⟩, "b"⟩, ⟨.identifier, ⟨⟨0, 0⟩, 1⟩, "x"⟩,
    ⟨.identifier, ⟨⟨2, 0⟩, 1⟩, "a"⟩, ⟨.keyword, ⟨⟨2, 4⟩, 1⟩, "b"⟩,
    ⟨.identifier, ⟨⟨5, 1⟩, 1⟩, "z"⟩]

theorem tokensOnLine_exact_shuffled :
    [0, 2, 5].Pairwise (· < ·) ∧ (∀ t ∈ shuffledTokens, t.span.start.line ∈ [0, 2, 5]) ∧
      [0, 2, 5].flatMap (ofRecords ⟨"/p/a.nc"⟩ shuffledTokens [] []).tokensOnLine =
        (ofRecords ⟨"/p/a.nc"⟩ shuffledTokens [] []).tokens ∧
      (((ofRecords ⟨"/p/a.nc"⟩ shuffledTokens [] []).tokensOnLine 2).filter fun t =>
        t.span.start.column = 4) =
        [⟨.identifier, ⟨⟨2, 4⟩, 1⟩, "b"⟩, ⟨.keyword, ⟨⟨2, 4⟩, 1⟩, "b"⟩] ∧
      (ofRecords ⟨"/p/a.nc"⟩ shuffledTokens [] []).tokensOnLine 3 = [] := by
  obtain ⟨hline, hall, -⟩ := tokensOnLine_exact ⟨"/p/a.nc"⟩ shuffledTokens [] []
  obtain ⟨-, -, hties, -⟩ := hline 2
  obtain ⟨-, -, -, hnone⟩ := hline 3
  have hlines : [0, 2, 5].Pairwise (· < ·) := by decide
  have hcovered : ∀ t ∈ shuffledTokens, t.span.start.line ∈ [0, 2, 5] := by decide
  exact ⟨hlines, hcovered, hall _ hlines hcovered, hties 4, hnone.mpr (by decide)⟩

end EditorCore.SourceFile

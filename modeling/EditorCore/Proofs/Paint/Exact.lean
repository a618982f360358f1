import EditorCore.Proofs.Paint.Words

set_option autoImplicit false

/-! # Pieces that do not conflict are painted as they are

What is to be seen on an active line is said by `pieces`, record by record and without the
painter's shortcuts: of the directives that own the line, the spans that lie on it; on a line that
none owns, the parts of all comments that reach it and all tokens that start on it and have a style.
If the pieces are apart and fit on the line, the painter of 64 bits returns one run for each that is
not empty, in the order of the columns, and nothing else (`paintSpan_exact`).
-/

namespace EditorCore.Paint

/-! ## The pieces of a line -/

/-- The spans of a directive that have a style: the hash, the keyword, and the argument of an
inclusion or the name of a macro. -/
def styledSpans (d : Directive) : List (Span × Category) :=
  [(d.hash, .directive), (d.keyword, .directive)] ++ d.kind.argument.toList.map fun s =>
    (s, if d.kind.keyword = "include" then .includePath else .macroName)

/-- The part of a comment on a line. It stands at the column of the comment on its first line, at
the left edge on those after it. -/
def commentPiece (line : Nat) (c : Comment) : Option Patch :=
  (c.bodyLine line).map fun part =>
    ⟨if line = c.start.line then c.start.column else 0, part.length, .comment⟩

/-- A token that has a style. The text of a string or a character comes without its quotes. -/
def tokenPiece (t : Token) : Option Patch :=
  match t.kind with
  | .string | .character => some ⟨t.span.start.column, t.text.length + 2, .string⟩
  | .number => some ⟨t.span.start.column, t.text.length, .number⟩
  | .keyword => some ⟨t.span.start.column, t.text.length, .keyword⟩
  | .identifier | .punctuation | .other => none

/-- The pieces of a line. -/
def pieces (file : SourceFile) (line : Nat) : List Patch :=
  if ∃ d ∈ file.directives, d.owns line = true then
    (file.directives.filter fun d => d.owns line).flatMap fun d =>
      ((styledSpans d).filter fun part => part.1.start.line = line).map fun part =>
        ⟨part.1.start.column, part.1.length, part.2⟩
  else
    file.comments.filterMap (commentPiece line) ++
      (file.tokens.filter fun t => t.span.start.line = line).filterMap tokenPiece

theorem directiveParts_eq (d : Directive) : directiveParts d = styledSpans d := by
  unfold directiveParts styledSpans
  cases d.kind <;> simp [DirectiveKind.argument, DirectiveKind.keyword]

theorem directivePatches_eq (line : Nat) (d : Directive) :
    directivePatches line d = ((styledSpans d).filter fun part => part.1.start.line = line).map
      fun part => ⟨part.1.start.column, part.1.length, part.2⟩ := by
  unfold directivePatches
  rw [directiveParts_eq]
  rfl

theorem commentPatch_eq (line : Nat) (c : Comment) :
    commentPatch line c = commentPiece line c := by
  unfold commentPatch commentPiece
  by_cases hcovers : c.covers line = true
  · have hcolumn : c.columnOn line = if line = c.start.line then c.start.column else 0 := by
      unfold Comment.columnOn
      cases hkind : c.kind with
      | block => simp
      | line =>
          -- A line comment covers its first line only.
          rw [Comment.covers, hkind, beq_iff_eq] at hcovers
          exact (if_pos hcovers).symm
    rw [hcolumn]
  · rw [Comment.bodyLine, if_neg hcovers]
    rfl

theorem tokenPatch_eq (t : Token) : tokenPatch t = tokenPiece t := by
  unfold tokenPatch tokenPiece tokenCategory Token.sourceLength Token.delimiterLength
  cases t.kind <;> rfl

/-- The painter asks for the pieces. -/
theorem patches_ofFile (file : SourceFile) (line : Nat) :
    (Painter.ofFile file).patches line = pieces file line := by
  unfold pieces
  by_cases howned : ∃ d ∈ file.directives, d.owns line = true
  · have howners : (Painter.ofFile file).owners line ≠ [] := by
      obtain ⟨d, hd, howns⟩ := howned
      exact List.ne_nil_of_mem (List.mem_filter.mpr ⟨hd, howns⟩)
    rw [if_pos howned, Painter.patches_of_owned howners, funext (directivePatches_eq line)]
    rfl
  · have howners : (Painter.ofFile file).owners line = [] := by
      rw [Painter.owners_eq_nil_iff]
      intro d hd
      rw [Bool.eq_false_iff]
      exact fun howns => howned ⟨d, hd, howns⟩
    rw [if_neg howned, Painter.patches_of_not_owned howners, Painter.textPatches_eq,
      funext (commentPatch_eq line), funext tokenPatch_eq]
    rfl

/-! ## Layering runs that are apart -/

/-- The runs have no character in common. -/
def Run.Apart (a b : Run) : Prop := a.stop ≤ b.start ∨ b.stop ≤ a.start

/-- Sorted runs behind the edge are given out as they are, if those that are not empty are apart. -/
theorem trim_of_apart {edge : Nat} {runs : List Run}
    (hsorted : runs.Pairwise fun a b => a.start ≤ b.start)
    (hapart : runs.Pairwise fun a b => 0 < a.length → 0 < b.length → a.Apart b)
    (hedge : ∀ r ∈ runs, 0 < r.length → edge ≤ r.start) :
    trim edge runs = runs.filter fun r => 0 < r.length := by
  induction runs generalizing edge with
  | nil => rfl
  | cons r runs ih =>
      obtain ⟨hfirst, hsorted⟩ := List.pairwise_cons.mp hsorted
      obtain ⟨hfirstApart, hapart⟩ := List.pairwise_cons.mp hapart
      rw [trim]
      by_cases hlength : 0 < r.length
      · have hstart : max edge r.start = r.start :=
          Nat.max_eq_right (hedge r List.mem_cons_self hlength)
        have hstop : r.stop = r.start + r.length := rfl
        -- The runs that follow start no earlier, so being apart they lie behind this one.
        have hbehind : ∀ later ∈ runs, 0 < later.length → r.stop ≤ later.start := by
          intro later hlater hlaterLength
          have horder := hfirst later hlater
          rcases hfirstApart later hlater hlength hlaterLength with hbefore | hafter
          · exact hbefore
          · have hlaterStop : later.stop = later.start + later.length := rfl
            omega
        rw [hstart, if_neg (by omega), List.filter_cons_of_pos (by simpa using hlength),
          ih hsorted hapart hbehind, hstop, Nat.add_sub_cancel_left]
      · have hstop : r.stop = r.start := by
          rw [Run.stop]
          omega
        rw [if_pos (by omega), List.filter_cons_of_neg (by simpa using hlength)]
        exact ih hsorted hapart fun later hlater => hedge later (List.mem_cons_of_mem r hlater)

/-- Layering only sorts runs that are apart, and drops the empty ones. -/
theorem layer_of_apart {runs : List Run}
    (hapart : runs.Pairwise fun a b => 0 < a.length → 0 < b.length → a.Apart b) :
    (layer runs).Perm (runs.filter fun r => 0 < r.length) := by
  have hperm := List.mergeSort_perm runs fun a b => a.start ≤ b.start
  have hsortedApart := hperm.symm.pairwise hapart fun h hb ha => (h ha hb).symm
  rw [layer, trim_of_apart (mergeSort_start_pairwise runs) hsortedApart fun r _ _ => Nat.zero_le _]
  exact hperm.filter _

/-! ## Pieces on a line -/

/-- The pieces have no column in common. -/
def Patch.Apart (p q : Patch) : Prop :=
  p.column + p.length ≤ q.column ∨ q.column + q.length ≤ p.column

instance (p q : Patch) : Decidable (p.Apart q) := inferInstanceAs (Decidable (_ ∨ _))

/-- The run of a piece that fits on the line. -/
def Patch.placed (span : LineSpan) (p : Patch) : Run :=
  ⟨span.start + p.column, p.length, p.category⟩

/-- A piece that starts on the line loses what does not fit. -/
theorem Patch.onLine_eq_some_iff {span : LineSpan} {p : Patch} {r : Run} :
    p.onLine span = some r ↔ p.column ≤ span.width ∧
      r = ⟨span.start + p.column, min p.length (span.width - p.column), p.category⟩ := by
  rw [onLine, LineSpan.clip]
  by_cases hcolumn : span.width < p.column
  · simp [hcolumn, Nat.not_le.mpr hcolumn]
  · simp [hcolumn, Nat.not_lt.mp hcolumn, eq_comm]

theorem Patch.Apart.onLine {span : LineSpan} {p q : Patch} (h : p.Apart q) {a b : Run}
    (ha : p.onLine span = some a) (hb : q.onLine span = some b) : a.Apart b := by
  obtain ⟨hp, rfl⟩ := onLine_eq_some_iff.mp ha
  obtain ⟨hq, rfl⟩ := onLine_eq_some_iff.mp hb
  simp only [Run.Apart, Run.stop]
  unfold Apart at h
  omega

/-- Of pieces that fit on the line, the ones that are not empty are placed on it. -/
theorem filter_onLine {span : LineSpan} {patches : List Patch}
    (hfits : ∀ p ∈ patches, 0 < p.length → p.column + p.length ≤ span.width) :
    ((patches.filterMap (Patch.onLine span)).filter fun r => 0 < r.length) =
      (patches.filter fun p => 0 < p.length).map (Patch.placed span) := by
  induction patches with
  | nil => rfl
  | cons p patches ih =>
      have ih := ih fun q hq => hfits q (List.mem_cons_of_mem p hq)
      by_cases hlength : 0 < p.length
      · have hfit := hfits p List.mem_cons_self hlength
        have honline : p.onLine span = some (p.placed span) := by
          refine Patch.onLine_eq_some_iff.mpr ⟨by omega, ?_⟩
          rw [Nat.min_eq_left (by omega)]
          rfl
        have hplaced : 0 < (p.placed span).length := hlength
        rw [List.filterMap_cons_some honline, List.filter_cons_of_pos (by simpa using hplaced),
          List.filter_cons_of_pos (by simpa using hlength), List.map_cons, ih]
      · rw [List.filter_cons_of_neg (by simpa using hlength), ← ih]
        cases honline : p.onLine span with
        | none => rw [List.filterMap_cons_none honline]
        | some r =>
            -- An empty piece leaves an empty run, if it is on the line at all.
            have hempty : ¬ 0 < r.length := by
              obtain ⟨-, rfl⟩ := Patch.onLine_eq_some_iff.mp honline
              show ¬ 0 < min p.length (span.width - p.column)
              omega
            rw [List.filterMap_cons_some honline, List.filter_cons_of_neg (by simpa using hempty)]

/-- The runs of pieces that do not conflict are apart as well. -/
theorem onLine_apart {span : LineSpan} {patches : List Patch}
    (hapart : (patches.filter fun p => 0 < p.length).Pairwise Patch.Apart) :
    (patches.filterMap (Patch.onLine span)).Pairwise
      fun a b => 0 < a.length → 0 < b.length → a.Apart b := by
  rw [List.pairwise_filterMap]
  refine (List.pairwise_filter.mp hapart).imp ?_
  intro p q hpq a ha b hb hlength hlength'
  -- A run is no longer than its piece.
  have hp : 0 < p.length := by
    obtain ⟨-, rfl⟩ := Patch.onLine_eq_some_iff.mp ha
    exact Nat.lt_of_lt_of_le hlength (Nat.min_le_left _ _)
  have hq : 0 < q.length := by
    obtain ⟨-, rfl⟩ := Patch.onLine_eq_some_iff.mp hb
    exact Nat.lt_of_lt_of_le hlength' (Nat.min_le_left _ _)
  exact (hpq (by simpa using hp) (by simpa using hq)).onLine ha hb

/-- **Pieces that do not conflict are painted exactly.** Let the pieces of an active line that are
not empty be apart and end on the line. The line is painted if it ends within 64 bits and so does
every comment. Its runs are these pieces, each once, at its column from the start of the line, with
its length and category; the runs come in the order of the columns, and there are no others. -/
theorem paintSpan_exact (file : SourceFile) (line : Nat) (span : LineSpan)
    (hactive : (Painter.ofFile file).regions.isInactive line = false)
    (hapart : ((pieces file line).filter fun p => 0 < p.length).Pairwise Patch.Apart)
    (hfits : ∀ p ∈ pieces file line, 0 < p.length → p.column + p.length ≤ span.width) :
    let painter := Painter.ofFile file
    (span.start + span.width ≤ wordLimit →
      (∀ c ∈ file.comments, c.start.line + max c.lineCount 1 ≤ wordLimit) →
      Words.paintSpan painter line span = .ok (painter.paintSpan line span)) ∧
    ∀ runs, Words.paintSpan painter line span = .ok runs →
      runs.Perm (((pieces file line).filter fun p => 0 < p.length).map (Patch.placed span)) ∧
      runs.Pairwise fun a b => a.start < b.start := by
  intro painter
  have hcomputes := Words.paintSpan_computes painter line span
  refine ⟨fun hspan hcomments => hcomputes.succeeds ⟨hspan, hcomments⟩, ?_⟩
  intro runs hruns
  obtain rfl := hcomputes.exact runs hruns
  have hlayer : painter.paintSpan line span =
      layer ((pieces file line).filterMap (Patch.onLine span)) := by
    rw [← patches_ofFile]
    exact Painter.paintSpan_of_active (by simp [painter, hactive])
  refine ⟨?_, Painter.paintSpan_pairwise.imp fun h => h.1⟩
  rw [hlayer, ← filter_onLine hfits]
  exact layer_of_apart (onLine_apart hapart)

/-- A file in which the second line of a comment ends before a keyword, a string and a number. -/
def mixedFile : SourceFile where
  path := ⟨"/p/a.nc"⟩
  tokens :=
    [⟨.identifier, ⟨⟨2, 0⟩, 4⟩, "call"⟩, ⟨.keyword, ⟨⟨3, 6⟩, 6⟩, "return"⟩,
      ⟨.string, ⟨⟨3, 13⟩, 4⟩, "ab"⟩, ⟨.punctuation, ⟨⟨3, 17⟩, 1⟩, "+"⟩,
      ⟨.number, ⟨⟨3, 18⟩, 1⟩, "7"⟩, ⟨.keyword, ⟨⟨4, 0⟩, 2⟩, "if"⟩]
  comments := [.block ⟨2, 5⟩ "/* x\n y */", .single ⟨4, 3⟩ "// z"]
  directives := []
  tokens_sorted := by decide
  comments_sorted := by decide
  directives_sorted := .nil

theorem pieces_mixedFile :
    pieces mixedFile 3 =
      [⟨0, 5, .comment⟩, ⟨6, 6, .keyword⟩, ⟨13, 4, .string⟩, ⟨18, 1, .number⟩] := by
  decide

theorem paintSpan_exact_mixed :
    (Painter.ofFile mixedFile).regions.isInactive 3 = false ∧
      ((pieces mixedFile 3).filter fun p => 0 < p.length).Pairwise Patch.Apart ∧
      (∀ p ∈ pieces mixedFile 3, 0 < p.length → p.column + p.length ≤ 19) ∧
      ∃ runs, Words.paintSpan (.ofFile mixedFile) 3 ⟨100, 19⟩ = .ok runs ∧
        runs.Perm [⟨100, 5, .comment⟩, ⟨106, 6, .keyword⟩, ⟨113, 4, .string⟩,
          ⟨118, 1, .number⟩] := by
  have hactive : (Painter.ofFile mixedFile).regions.isInactive 3 = false :=
    Bool.eq_false_iff.mpr (Painter.not_isInactive_ofFile rfl)
  have hapart : ((pieces mixedFile 3).filter fun p => 0 < p.length).Pairwise Patch.Apart := by
    rw [pieces_mixedFile]
    decide
  have hfits : ∀ p ∈ pieces mixedFile 3, 0 < p.length → p.column + p.length ≤ 19 := by
    rw [pieces_mixedFile]
    decide
  obtain ⟨hpainted, hexact⟩ := paintSpan_exact mixedFile 3 ⟨100, 19⟩ hactive hapart hfits
  have hruns := hpainted (by decide) (by decide)
  have hperm := (hexact _ hruns).1
  rw [pieces_mixedFile] at hperm
  exact ⟨hactive, hapart, hfits, _, hruns, hperm⟩

end EditorCore.Paint

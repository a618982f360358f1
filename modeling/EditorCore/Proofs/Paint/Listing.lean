import EditorCore.Paint.Painter
import EditorCore.Proofs.Source.Reorder

set_option autoImplicit false

/-! # Painting does not depend on the listing

The front end lists the tokens, comments and directives of a file in any order. Each kind is sorted
by a position of its own: tokens and comments by where they start, directives by their first line
and the column of their hash. Files are the same exactly if, kind by kind, the records of one
position were listed in the same order (`ofRecords_eq_iff`). What is read off a file, its regions and
all that is painted from it thus do not depend on how the listing mixes records of different
positions (`painting_independent_of_listing`).
-/

namespace EditorCore

/-- What a file keeps of the listing of its records. -/
theorem SourceFile.ofRecords_eq_iff (path : Path) {tokens tokens' : List Token}
    {comments comments' : List Comment} {directives directives' : List Directive} :
    ofRecords path tokens comments directives = ofRecords path tokens' comments' directives' ↔
      Reordered (fun t : Token => t.span.start) tokens tokens' ∧
        Reordered Comment.start comments comments' ∧
        Reordered Directive.position directives directives' := by
  rw [← mergeSort_eq_iff_reordered, ← mergeSort_eq_iff_reordered, ← mergeSort_eq_iff_reordered,
    ofRecords, ofRecords, SourceFile.mk.injEq]
  exact and_iff_right rfl

namespace Paint

/-- **The order of the report does not matter.** Two listings of the same records that agree on the
order of tokens that start together, of comments that start together, and of directives that share
their first line and the column of their hash, give files that answer alike, have the same regions,
and are painted alike on every line of every buffer. -/
theorem painting_independent_of_listing (path : Path) {tokens tokens' : List Token}
    {comments comments' : List Comment} {directives directives' : List Directive}
    (htokens : Reordered (fun t : Token => t.span.start) tokens tokens')
    (hcomments : Reordered Comment.start comments comments')
    (hdirectives : Reordered Directive.position directives directives') :
    let file := SourceFile.ofRecords path tokens comments directives
    let file' := SourceFile.ofRecords path tokens' comments' directives'
    (file.path = file'.path ∧ file.tokens = file'.tokens ∧ file.comments = file'.comments ∧
      file.directives = file'.directives ∧
      ∀ line, file.tokensOnLine line = file'.tokensOnLine line) ∧
    (Painter.ofFile file).regions = (Painter.ofFile file').regions ∧
    ∀ buffer line, (Painter.ofFile file).paintLine buffer line =
      (Painter.ofFile file').paintLine buffer line := by
  intro file file'
  have hsame : file = file' :=
    (SourceFile.ofRecords_eq_iff path).mpr ⟨htokens, hcomments, hdirectives⟩
  rw [hsame]
  exact ⟨⟨rfl, rfl, rfl, rfl, fun _ => rfl⟩, rfl, fun _ _ => rfl⟩

/-- Two tokens, two comments and two directives at different places, and a token and a directive
that share the place of another one. -/
theorem painting_independent_of_listing_exchanged :
    let word : Token := ⟨.keyword, ⟨⟨2, 4⟩, 2⟩, "if"⟩
    let tied : Token := ⟨.number, ⟨⟨2, 4⟩, 1⟩, "1"⟩
    let top : Token := ⟨.string, ⟨⟨0, 0⟩, 3⟩, "a"⟩
    let block : Comment := .block ⟨2, 0⟩ "/**/"
    let single : Comment := .single ⟨0, 6⟩ "// b"
    let opens : Directive := .ofLines .ifTrue ⟨⟨3, 0⟩, 1⟩ ⟨⟨3, 1⟩, 2⟩ 3 3 false
    let branches : Directive := .ofLines .otherwise ⟨⟨3, 0⟩, 1⟩ ⟨⟨3, 1⟩, 4⟩ 3 3 true
    let closes : Directive := .ofLines .endIf ⟨⟨5, 0⟩, 1⟩ ⟨⟨5, 1⟩, 5⟩ 5 5 true
    Reordered (fun t : Token => t.span.start) [word, top, tied] [top, word, tied] ∧
      Reordered Comment.start [block, single] [single, block] ∧
      Reordered Directive.position [opens, closes, branches] [opens, branches, closes] ∧
      ∀ buffer line,
        (Painter.ofFile (.ofRecords ⟨"/p/a.nc"⟩ [word, top, tied] [block, single]
          [opens, closes, branches])).paintLine buffer line =
        (Painter.ofFile (.ofRecords ⟨"/p/a.nc"⟩ [top, word, tied] [single, block]
          [opens, branches, closes])).paintLine buffer line := by
  intro word tied top block single opens branches closes
  have htokens : Reordered (fun t : Token => t.span.start) [word, top, tied] [top, word, tied] :=
    .swap (by decide) [] [tied]
  have hcomments : Reordered Comment.start [block, single] [single, block] :=
    .swap (by decide) [] []
  have hdirectives : Reordered Directive.position [opens, closes, branches]
      [opens, branches, closes] := .swap (by decide) [opens] []
  exact ⟨htokens, hcomments, hdirectives,
    (painting_independent_of_listing _ htokens hcomments hdirectives).2.2⟩

end Paint

end EditorCore

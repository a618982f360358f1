import EditorCore.Proofs.Paint.Comments
import EditorCore.Proofs.Text.LineOf

set_option autoImplicit false

/-! # The lines that a block comment takes

A block comment counts its lines by the line feeds of its body, the buffer by all of its line
breaks. Where the body stands in the buffer, its characters take as many lines as the body has by
the count of the buffer (`Comment.holds_last`). The two counts are the same exactly if every break
of the body is a line feed, with or without a carriage return before it (`feeds_lineCount`), and
only then does the comment take the lines that its characters are on (`block_extent_iff`).
-/

namespace EditorCore

namespace Text

/-! ## Line feeds and line breaks -/

theorem feedsOnly_cons_iff {c : Char} {rest : List Char} :
    FeedsOnly (c :: rest) ↔
      (isBreak c = true → c = '\n' ∨ (c = '\r' ∧ rest.head? = some '\n')) ∧ FeedsOnly rest := by
  unfold FeedsOnly
  constructor
  · intro h
    refine ⟨fun hbreak => ?_, fun i a hi => h (i + 1) a hi⟩
    simpa [List.head?_eq_getElem?] using h 0 c rfl hbreak
  · rintro ⟨hfirst, hrest⟩ i a hi hbreak
    cases i with
    | zero =>
        obtain rfl : c = a := Option.some.inj hi
        simpa [List.head?_eq_getElem?] using hfirst hbreak
    | succ i => exact hrest i a hi hbreak

/-- A text has a line for each line feed and one more, and further lines exactly if it has other
breaks. -/
theorem feeds_lineCount (text : List Char) :
    text.count '\n' + 1 ≤ lineCount text ∧
      (text.count '\n' + 1 = lineCount text ↔ FeedsOnly text) := by
  induction text using breakInduction with
  | nil => exact ⟨Nat.le_refl 1, iff_of_true rfl fun i c hi => by cases hi⟩
  | char c rest hc ih =>
      have hfeed : c ≠ '\n' := by
        rintro rfl
        exact absurd hc (by decide)
      rw [lineCount_cons hc, List.count_cons_of_ne hfeed, feedsOnly_cons_iff]
      simpa [hc] using ih
  | ended ending rest hending ih =>
      obtain ⟨hle, heq⟩ := ih
      rw [lineCount_break hending]
      cases hending with
      | pair =>
          have hcount : (['\r', '\n'] ++ rest).count '\n' = rest.count '\n' + 1 := by simp
          have hfeeds : FeedsOnly (['\r', '\n'] ++ rest) ↔ FeedsOnly rest := by
            simp [feedsOnly_cons_iff]
          rw [hcount, hfeeds, ← heq]
          omega
      | @single c _ hbreak hnext =>
          rw [List.singleton_append, feedsOnly_cons_iff]
          by_cases hfeed : c = '\n'
          · subst hfeed
            rw [List.count_cons_self, ← heq]
            simp only [true_or, implies_true, true_and]
            omega
          · -- The break is none of the two kinds, and is a line more than there are line feeds.
            have hother : ¬ (c = '\n' ∨ (c = '\r' ∧ rest.head? = some '\n')) := by
              rintro (h | ⟨hreturn, hhead⟩)
              · exact hfeed h
              · exact hnext hreturn hhead
            rw [List.count_cons_of_ne hfeed]
            refine ⟨by omega, iff_of_false (by omega) ?_⟩
            exact fun h => hother (h.1 hbreak)

end Text

/-! ## Lines of a block comment -/

open Text (FeedsOnly isBreak)

namespace Comment

theorem length_parts (body : String) :
    (parts body).length = body.toList.count '\n' + 1 := by
  unfold parts
  induction body.toList with
  | nil => rfl
  | cons c rest ih =>
      rw [List.splitOn_cons_eq_if_modifyHead]
      by_cases hfeed : c = '\n'
      · subst hfeed
        rw [if_pos (by decide), List.length_cons, ih, List.count_cons_self]
      · rw [if_neg (by simpa using hfeed), List.length_modifyHead, ih,
          List.count_cons_of_ne hfeed]

theorem lastLine_block (start : Position) (body : String) :
    (block start body).lastLine = start.line + body.toList.count '\n' := by
  have hcount : (block start body).lineCount = body.toList.count '\n' + 1 := length_parts body
  rw [lastLine, hcount]
  show start.line + max (body.toList.count '\n' + 1) 1 - 1 = _
  omega

theorem covers_block_iff (start : Position) (body : String) (line : Nat) :
    (block start body).covers line = true ↔
      start.line ≤ line ∧ line ≤ (block start body).lastLine := by
  show (decide (start.line ≤ line) && decide (line ≤ (block start body).lastLine)) = true ↔ _
  simp

section Standing

variable {buffer body : List Char} {start : Position} {offset : Nat}

/-- The first character of a text that stands at a position is on the line of the position. -/
theorem holds_first (hstart : start.offset? buffer = some offset)
    (hbody : body <+: buffer.drop offset) (hpos : 0 < body.length) :
    LineSpan.Holds buffer start.line offset := by
  obtain ⟨span, hspan, hcolumn, rfl⟩ := Position.exists_span_of_offset hstart
  have hlength := hbody.length_le
  rw [List.length_drop] at hlength
  refine LineSpan.holds_of_resolve hspan (Nat.le_add_right _ _) ?_ (by omega)
  rw [LineSpan.stop]
  omega

/-- The last character of a text that stands at a position, if it is no break, is as many lines
further down as the text has breaks. -/
theorem holds_last {c : Char} (hstart : start.offset? buffer = some offset)
    (hbody : body <+: buffer.drop offset) (hlast : body.getLast? = some c)
    (hc : isBreak c = false) :
    LineSpan.Holds buffer (start.line + (Text.lineCount body - 1)) (offset + body.length - 1) := by
  obtain ⟨span, front, back, hspan, rfl, hlength, hplain, hbuffer⟩ :=
    Position.exists_front hstart hbody
  have hwhole : body.getLast? = some '\r' → back.head? ≠ some '\n' := by
    intro hreturn
    rw [Option.some.inj (hlast.symm.trans hreturn)] at hc
    exact absurd hc (by decide)
  obtain ⟨start', front', hstarts, hplain', hback, hend⟩ :=
    (LineSpan.starts_of_resolve hspan).read hplain hbuffer hwhole
  obtain ⟨width, hline, hwidth⟩ := hstarts.resolve_of_front hplain' hback
  have hfit := hbody.length_le
  have hpos : 0 < body.length := List.length_pos_of_mem (List.mem_of_getLast? hlast)
  rw [List.length_drop] at hfit
  -- The line does not start behind the character, which would then have to be a break.
  have hbefore : start' ≠ span.start + start.column + body.length := by
    intro hcon
    have htake : buffer.take start' = buffer.take (span.start + start.column) ++ body := by
      rw [hcon, List.take_add, ← List.prefix_iff_eq_take.mp hbody]
    have hbreak := LineSpan.isBreak_before_start (LineSpan.mem_all_of_resolve hline) c (by
      show (buffer.take start').getLast? = some c
      rw [htake, List.getLast?_append, hlast]
      rfl)
    rw [hc] at hbreak
    cases hbreak
  refine LineSpan.holds_of_resolve hline ?_ ?_ (by omega)
  · show start' ≤ span.start + start.column + body.length - 1
    omega
  · show span.start + start.column + body.length - 1 ≤ start' + width
    omega

end Standing

/-- **A block comment takes the lines that its characters are on exactly if all breaks of its body
are line feeds**, with or without a carriage return before them. This holds for the last line of a
comment that stands in a buffer, and for the set of its lines: any other break in the body is a line
of the buffer that the comment does not count. -/
theorem block_extent_iff (buffer : List Char) (start : Position) (body : String) (offset : Nat)
    (hclose : ['*', '/'] <:+ body.toList) (hstart : start.offset? buffer = some offset)
    (hbody : body.toList <+: buffer.drop offset) :
    let comment := block start body
    let last := offset + body.toList.length - 1
    (LineSpan.Holds buffer comment.lastLine last ↔ FeedsOnly body.toList) ∧
      ((∀ line, comment.covers line = true ↔
          ∃ i, offset ≤ i ∧ i ≤ last ∧ LineSpan.Holds buffer line i) ↔
        FeedsOnly body.toList) := by
  intro comment last
  have hslash : body.toList.getLast? = some '/' := by
    obtain ⟨inside, hinside⟩ := hclose
    rw [← hinside, List.getLast?_append]
    rfl
  have hpos : 0 < body.toList.length := List.length_pos_of_mem (List.mem_of_getLast? hslash)
  have hfirst := holds_first hstart hbody hpos
  have hlast := holds_last hstart hbody hslash (by decide)
  have hlines := LineSpan.exists_holds_iff hfirst hlast (by omega)
  obtain ⟨hle, hfeeds⟩ := Text.feeds_lineCount body.toList
  have hlastLine : comment.lastLine = start.line + body.toList.count '\n' :=
    lastLine_block start body
  refine ⟨?_, ?_⟩
  · rw [← hfeeds]
    constructor
    · intro h
      have hunique := h.line_unique hlast
      omega
    · intro heq
      rw [hlastLine, show body.toList.count '\n' = Text.lineCount body.toList - 1 by omega]
      exact hlast
  · rw [← hfeeds]
    constructor
    · intro h
      -- The line of the last character is covered, so the comment counts as many lines.
      have hcovers := (h (start.line + (Text.lineCount body.toList - 1))).mpr
        ((hlines _).mpr ⟨by omega, Nat.le_refl _⟩)
      have hwithin := ((covers_block_iff start body _).mp hcovers).2
      rw [lastLine_block] at hwithin
      omega
    · intro heq line
      rw [hlines, covers_block_iff, lastLine_block]
      omega

/-- A comment over three lines, the second one empty, between other text. -/
theorem block_extent_of_feeds :
    FeedsOnly "/* a\r\n\n b */".toList ∧
      LineSpan.Holds "x /* a\r\n\n b */ y".toList
        (block ⟨0, 2⟩ "/* a\r\n\n b */").lastLine 13 := by
  have hfeeds : FeedsOnly "/* a\r\n\n b */".toList := by decide
  have hagrees := (block_extent_iff "x /* a\r\n\n b */ y".toList ⟨0, 2⟩ "/* a\r\n\n b */" 2
    (by decide) (by decide) (by decide)).1
  exact ⟨hfeeds, hagrees.mpr hfeeds⟩

/-- A carriage return inside a comment ends a line of the buffer. The comment takes it for a part of
its only line, and does not take the line on which it ends. -/
theorem block_extent_misses_line :
    (⟨0, 0⟩ : Position).offset? "/*\r*/".toList = some 0 ∧
      LineSpan.Holds "/*\r*/".toList 1 4 ∧
      (block ⟨0, 0⟩ "/*\r*/").lastLine = 0 ∧ (block ⟨0, 0⟩ "/*\r*/").covers 1 = false := by
  refine ⟨by decide, ?_, by decide, by decide⟩
  have hline : LineSpan.resolve "/*\r*/".toList 1 = .ok ⟨3, 2⟩ := by decide
  exact LineSpan.holds_of_resolve hline (by decide) (by decide) (by decide)

end Comment

end EditorCore

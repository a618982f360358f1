import EditorCore.Text.Line

set_option autoImplicit false

/-! # Lines and their spans

The program cuts a text into rows with their breaks, adds up the rows above a line, and takes the
break off the end of its row. Here a text is cut into lines that have their content and their break
apart (`lines`), and their spans are laid out one after another (`place`). Both describe the same
lines (`rows_eq`, `contentWidth_chars`, `resolve_eq_ok_iff`).

Cutting a text into lines loses nothing and leaves no break inside a line; every line but the last
is ended by a break. The spans of the lines therefore lie in the text one after another, each on
the content of its line, with at least the one character of a break between two of them.
-/

namespace EditorCore

namespace Text

/-- One line of a buffer: its content and the break that ends it (empty on the last line). -/
structure Line where
  content : List Char
  ending : List Char
deriving DecidableEq, Repr

/-- The line with one more character in front of its content. -/
def Line.extend (c : Char) (line : Line) : Line := { line with content := c :: line.content }

/-- All characters of a line, its break included. -/
def Line.chars (line : Line) : List Char := line.content ++ line.ending

/-- Cuts a text into its lines. The result is never empty. -/
def lines : List Char → List Line
  | [] => [⟨[], []⟩]
  | '\r' :: '\n' :: rest => ⟨[], ['\r', '\n']⟩ :: lines rest
  | c :: rest =>
      if isBreak c then ⟨[], [c]⟩ :: lines rest
      else
        match lines rest with
        | [] => [⟨[c], []⟩]
        | line :: more => line.extend c :: more

/-! ## Rows and lines -/

/-- The rows are the lines with their breaks. -/
theorem rows_eq (text : List Char) : rows text = (lines text).map Line.chars := by
  fun_induction lines text with
  | case1 => rfl
  | case2 rest ih => rw [rows, ih]; rfl
  | case3 c rest hpair hbreak ih =>
      rw [rows, if_pos hbreak, ih]
      · rfl
      · exact hpair
  | case4 c rest hpair hbreak hnil ih =>
      rw [rows, if_neg hbreak, ih, hnil]
      · rfl
      · exact hpair
  | case5 c rest hpair hbreak line more hlines ih =>
      rw [rows, if_neg hbreak, ih, hlines]
      · rfl
      · exact hpair

theorem lineCount_eq (text : List Char) : lineCount text = (lines text).length := by
  rw [lineCount, rows_eq, List.length_map]

theorem ne_return_of_not_isBreak {c : Char} (hc : isBreak c = false) : c ≠ '\r' := by
  rintro rfl
  exact absurd hc (by decide)

/-- What is taken off a row is at its end, so a character that is no break makes the row wider by
one. -/
theorem contentWidth_cons {c : Char} (hc : isBreak c = false) (row : List Char) :
    contentWidth (c :: row) = contentWidth row + 1 := by
  have hreturn := ne_return_of_not_isBreak hc
  rw [contentWidth, contentWidth, List.reverse_cons]
  cases row.reverse with
  | nil => simp [hc]
  | cons last before =>
      -- The character before the last one is the same, unless it is the new one.
      have hbefore : (before ++ [c]).head? = some '\r' ↔ before.head? = some '\r' := by
        cases before <;> simp [hreturn]
      simp only [List.cons_append, hbefore, List.length_append, List.length_singleton]
      split
      · split
        · rename_i hpair
          have hpos : 0 < before.length := by
            rw [List.length_pos_iff]
            rintro rfl
            exact absurd hpair.2 (by simp)
          omega
        · rfl
      · rfl

/-- Taking the break off the end of a line leaves its content. -/
theorem contentWidth_chars {text : List Char} {line : Line} (hline : line ∈ lines text) :
    contentWidth line.chars = line.content.length := by
  fun_induction lines text generalizing line with
  | case1 =>
      rw [List.mem_singleton.mp hline]
      rfl
  | case2 rest ih =>
      rcases List.mem_cons.mp hline with rfl | hline
      · rfl
      · exact ih hline
  | case3 c rest _ hbreak ih =>
      rcases List.mem_cons.mp hline with rfl | hline
      · simp [Line.chars, contentWidth, hbreak]
      · exact ih hline
  | case4 c rest _ hbreak hnil ih =>
      rw [List.mem_singleton.mp hline]
      simp [Line.chars, contentWidth, hbreak]
  | case5 c rest _ hbreak first more hlines ih =>
      rw [hlines] at ih
      rcases List.mem_cons.mp hline with rfl | hline
      · -- The first line of what follows, with one more character in front.
        have hfirst := ih List.mem_cons_self
        have hwider := contentWidth_cons (by simpa using hbreak) first.chars
        rw [hfirst] at hwider
        exact hwider
      · exact ih (List.mem_cons_of_mem first hline)

/-! ## Content and breaks -/

/-- The lines of a text, in the form that proofs about them go through: content without breaks,
and a break at the end of every line but the last. -/
inductive Cut : List Line → Prop where
  | last {content : List Char} (inner : ∀ c ∈ content, isBreak c = false) : Cut [⟨content, []⟩]
  | line {content ending : List Char} {more : List Line}
      (inner : ∀ c ∈ content, isBreak c = false) (ended : ending ≠ []) (rest : Cut more) :
      Cut (⟨content, ending⟩ :: more)

theorem Cut.extend {c : Char} (hc : isBreak c = false) {line : Line} {more : List Line}
    (h : Cut (line :: more)) : Cut (line.extend c :: more) := by
  have hinner : ∀ {content : List Char}, (∀ a ∈ content, isBreak a = false) →
      ∀ a ∈ c :: content, isBreak a = false := by
    intro content h a ha
    rcases List.mem_cons.mp ha with rfl | ha
    · exact hc
    · exact h a ha
  cases h with
  | last inner => exact .last (hinner inner)
  | line inner ended rest => exact .line (hinner inner) ended rest

/-- Cutting leaves no break inside a line and ends all lines but the last. -/
theorem lines_cut (text : List Char) : Cut (lines text) := by
  fun_induction lines text with
  | case1 => exact .last (by simp)
  | case2 rest ih => exact .line (by simp) (by simp) ih
  | case3 c rest _ hbreak ih => exact .line (by simp) (by simp) ih
  | case4 c rest _ hbreak hnil ih =>
      rw [hnil] at ih
      cases ih
  | case5 c rest _ hbreak line more hlines ih =>
      rw [hlines] at ih
      exact ih.extend (by simpa using hbreak)

/-- Cutting loses nothing. -/
theorem flatMap_lines (text : List Char) : (lines text).flatMap Line.chars = text := by
  fun_induction lines text with
  | case1 => rfl
  | case2 rest ih => simp [Line.chars, ih]
  | case3 c rest _ hbreak ih => simp [Line.chars, ih]
  | case4 c rest _ hbreak hnil ih =>
      have hcut := lines_cut rest
      rw [hnil] at hcut
      cases hcut
  | case5 c rest _ hbreak line more hlines ih =>
      rw [hlines] at ih
      simp only [List.flatMap_cons, Line.chars, Line.extend, List.cons_append] at ih ⊢
      rw [ih]

theorem Cut.content {ls : List Line} (h : Cut ls) {line : Line} (hline : line ∈ ls) :
    ∀ c ∈ line.content, isBreak c = false := by
  induction h with
  | last inner =>
      rw [List.mem_singleton.mp hline]
      exact inner
  | line inner ended rest ih =>
      rcases List.mem_cons.mp hline with rfl | hline
      · exact inner
      · exact ih hline

/-- Lines are ended by breaks and by nothing else. -/
theorem isBreak_of_mem_ending (text : List Char) :
    ∀ line ∈ lines text, ∀ c ∈ line.ending, isBreak c = true := by
  fun_induction lines text with
  | case1 => simp
  | case2 rest ih =>
      have hbreaks : ∀ c ∈ ['\r', '\n'], isBreak c = true := by simp [isBreak]
      intro line hline
      rcases List.mem_cons.mp hline with rfl | hline
      · exact hbreaks
      · exact ih line hline
  | case3 c rest _ hbreak ih =>
      intro line hline
      rcases List.mem_cons.mp hline with rfl | hline
      · simpa using hbreak
      · exact ih line hline
  | case4 c rest _ hbreak hnil ih => simp
  | case5 c rest _ hbreak first more hlines ih =>
      rw [hlines] at ih
      intro line hline
      rcases List.mem_cons.mp hline with rfl | hline
      · exact ih first List.mem_cons_self
      · exact ih line (List.mem_cons_of_mem first hline)

end Text

namespace LineSpan

open Text (Line Cut)

/-- The spans of consecutive lines, the first of which starts at the given offset. -/
def place : Nat → List Line → List LineSpan
  | _, [] => []
  | start, line :: more =>
      ⟨start, line.content.length⟩ ::
        place (start + line.content.length + line.ending.length) more

/-- The spans of all lines of a text. -/
def all (text : List Char) : List LineSpan := place 0 (Text.lines text)

theorem start_of_mem_place {ls : List Line} {start : Nat} {s : LineSpan}
    (hs : s ∈ place start ls) : start ≤ s.start := by
  induction ls generalizing start with
  | nil => cases hs
  | cons line more ih =>
      rcases List.mem_cons.mp hs with rfl | hs
      · exact Nat.le_refl start
      · have := ih hs
        omega

/-- Between the contents of two lines there is a break. -/
theorem place_pairwise {ls : List Line} (h : Cut ls) (start : Nat) :
    (place start ls).Pairwise fun a b => a.stop < b.start := by
  induction h generalizing start with
  | last inner => exact List.pairwise_singleton _ _
  | @line content ending more inner ended rest ih =>
      refine List.pairwise_cons.mpr ⟨?_, ih _⟩
      intro s hs
      have hstart : start + content.length + ending.length ≤ s.start := start_of_mem_place hs
      have hending : 0 < ending.length := List.length_pos_iff.mpr ended
      show start + content.length < s.start
      omega

/-- A span cuts the content of its line out of the text. -/
theorem exists_split_of_mem_place {ls : List Line} {text before : List Char}
    (htext : text = before ++ ls.flatMap Line.chars) {s : LineSpan}
    (hs : s ∈ place before.length ls) :
    ∃ line ∈ ls, ∃ front back, text = front ++ (line.content ++ back) ∧
      front.length = s.start ∧ line.content.length = s.width := by
  induction ls generalizing before with
  | nil => cases hs
  | cons line more ih =>
      rcases List.mem_cons.mp hs with rfl | hs
      · refine ⟨line, List.mem_cons_self, before, line.ending ++ more.flatMap Line.chars, ?_,
          rfl, rfl⟩
        rw [htext, List.flatMap_cons, Line.chars, List.append_assoc]
      · -- The line itself joins what stands before the lines that follow.
        have htext' : text = (before ++ line.chars) ++ more.flatMap Line.chars := by
          rw [htext, List.flatMap_cons, List.append_assoc]
        have hlength : (before ++ line.chars).length
            = before.length + line.content.length + line.ending.length := by
          rw [List.length_append, Line.chars, List.length_append, Nat.add_assoc]
        obtain ⟨line', hline', hsplit⟩ := ih htext' (hlength ▸ hs)
        exact ⟨line', List.mem_cons_of_mem line hline', hsplit⟩

/-- What stands before a span, if anything, ends in a break. -/
theorem isBreak_before_of_mem_place {ls : List Line} (hcut : Cut ls)
    (hending : ∀ line ∈ ls, ∀ c ∈ line.ending, Text.isBreak c = true) {text before : List Char}
    (htext : text = before ++ ls.flatMap Line.chars)
    (hbefore : ∀ c ∈ before.getLast?, Text.isBreak c = true) {s : LineSpan}
    (hs : s ∈ place before.length ls) :
    ∀ c ∈ (text.take s.start).getLast?, Text.isBreak c = true := by
  induction hcut generalizing before with
  | last inner =>
      rw [List.mem_singleton.mp hs, htext, List.take_left]
      exact hbefore
  | @line content ending more inner ended rest ih =>
      rcases List.mem_cons.mp hs with rfl | hs
      · rw [htext, List.take_left]
        exact hbefore
      · -- The line joins what stands before the lines that follow, and it ends in its break.
        let line : Line := ⟨content, ending⟩
        have htext' : text = (before ++ line.chars) ++ more.flatMap Line.chars := by
          rw [htext, List.flatMap_cons, List.append_assoc]
        have hlength : (before ++ line.chars).length
            = before.length + content.length + ending.length := by
          rw [List.length_append, Line.chars, List.length_append, Nat.add_assoc]
        have hbefore' : ∀ c ∈ (before ++ line.chars).getLast?, Text.isBreak c = true := by
          intro c hc
          rw [Line.chars, ← List.append_assoc, List.getLast?_append,
            List.getLast?_eq_some_getLast ended, Option.some_or] at hc
          rw [← Option.some.inj hc]
          exact hending line List.mem_cons_self _ (List.getLast_mem ended)
        have hmore : ∀ line ∈ more, ∀ c ∈ line.ending, Text.isBreak c = true :=
          fun line' hline' => hending line' (List.mem_cons_of_mem line hline')
        exact ih hmore htext' hbefore' (hlength ▸ hs)

/-- The spans of a text lie one after another with a break between them. -/
theorem all_pairwise (text : List Char) : (all text).Pairwise fun a b => a.stop < b.start :=
  place_pairwise (Text.lines_cut text) 0

theorem exists_split_of_mem_all {text : List Char} {s : LineSpan} (hs : s ∈ all text) :
    ∃ line ∈ Text.lines text, ∃ front back, text = front ++ (line.content ++ back) ∧
      front.length = s.start ∧ line.content.length = s.width := by
  have htext : text = [] ++ (Text.lines text).flatMap Line.chars := (Text.flatMap_lines text).symm
  exact exists_split_of_mem_place htext hs

theorem stop_le_length {text : List Char} {s : LineSpan} (hs : s ∈ all text) :
    s.stop ≤ text.length := by
  obtain ⟨line, -, front, back, htext, hfront, hwidth⟩ := exists_split_of_mem_all hs
  rw [stop, htext, List.length_append, List.length_append]
  omega

/-- There is no break within a span. -/
theorem isBreak_of_mem_span {text : List Char} {s : LineSpan} (hs : s ∈ all text) {i : Nat}
    (hstart : s.start ≤ i) (hstop : i < s.stop) {c : Char} (hc : text[i]? = some c) :
    Text.isBreak c = false := by
  obtain ⟨line, hline, front, back, htext, hfront, hwidth⟩ := exists_split_of_mem_all hs
  have hin : i - front.length < line.content.length := by
    rw [stop] at hstop
    omega
  rw [htext, List.getElem?_append_right (by omega), List.getElem?_append_left hin] at hc
  exact (Text.lines_cut text).content hline c (List.mem_of_getElem? hc)

/-- A line starts at the start of the text or right after a break. -/
theorem isBreak_before_start {text : List Char} {s : LineSpan} (hs : s ∈ all text) :
    ∀ c ∈ (text.take s.start).getLast?, Text.isBreak c = true := by
  have htext : text = [] ++ (Text.lines text).flatMap Line.chars := (Text.flatMap_lines text).symm
  exact isBreak_before_of_mem_place (Text.lines_cut text) (Text.isBreak_of_mem_ending text) htext
    (by simp) hs

/-! ## Resolved lines -/

/-- A span starts behind the lines above it. -/
theorem getElem?_place (ls : List Line) (start line : Nat) :
    (place start ls)[line]? = ls[line]?.map fun l =>
      ⟨start + ((ls.take line).flatMap Line.chars).length, l.content.length⟩ := by
  induction ls generalizing start line with
  | nil => rfl
  | cons first ls ih =>
      cases line with
      | zero => rfl
      | succ line =>
          rw [place, List.getElem?_cons_succ, List.getElem?_cons_succ, ih, List.take_succ_cons,
            List.flatMap_cons, List.length_append, Line.chars, List.length_append]
          simp only [Nat.add_assoc]

/-- Resolving a line, row by row, finds the span of the line. -/
theorem resolve_eq_ok_iff {text : List Char} {line : Nat} {s : LineSpan} :
    resolve text line = .ok s ↔ (all text)[line]? = some s := by
  rw [resolve, Text.rows_eq, List.getElem?_map, all, getElem?_place]
  cases hline : (Text.lines text)[line]? with
  | none => simp
  | some l =>
      have hwidth := Text.contentWidth_chars (List.mem_of_getElem? hline)
      have hstart : Text.lineStart text line =
          0 + (((Text.lines text).take line).flatMap Line.chars).length := by
        rw [Text.lineStart, Text.rows_eq, ← List.map_take, ← List.flatMap_def, Nat.zero_add]
      simp only [Option.map_some, hwidth, hstart, Except.ok.injEq, Option.some.injEq]

theorem mem_all_of_resolve {text : List Char} {line : Nat} {s : LineSpan}
    (h : resolve text line = .ok s) : s ∈ all text :=
  List.mem_of_getElem? (resolve_eq_ok_iff.mp h)

/-- A later line lies behind an earlier one, with a break between them. -/
theorem stop_lt_start_of_lt {text : List Char} {line line' : Nat} (hlt : line < line')
    {s s' : LineSpan} (hs : resolve text line = .ok s) (hs' : resolve text line' = .ok s') :
    s.stop < s'.start := by
  obtain ⟨hi, rfl⟩ := List.getElem?_eq_some_iff.mp (resolve_eq_ok_iff.mp hs)
  obtain ⟨hj, rfl⟩ := List.getElem?_eq_some_iff.mp (resolve_eq_ok_iff.mp hs')
  exact List.pairwise_iff_getElem.mp (all_pairwise text) line line' hi hj hlt

end LineSpan

end EditorCore

import EditorCore.Proofs.Text.Lines

set_option autoImplicit false

/-! # Reading a text from the start of a line

The lines of a text from some line on are the lines of what is left of the text where that line
starts. `Starts` says so for one line. It holds at every line that the text has
(`starts_of_resolve`), and reading on from there keeps it: text without breaks lies on the line
(`Starts.resolve_of_front`), and behind a line break the next line starts (`Starts.next`).
-/

namespace EditorCore

namespace Text

/-! ## Lines of a text that is read forward -/

theorem lines_ne_nil (text : List Char) : lines text ≠ [] := by
  intro hnil
  have hcut := lines_cut text
  rw [hnil] at hcut
  cases hcut

/-- A character that is no break goes to the first line of what follows it. -/
theorem lines_cons {c : Char} (hc : isBreak c = false) {rest : List Char} {line : Line}
    {more : List Line} (hrest : lines rest = line :: more) :
    lines (c :: rest) = line.extend c :: more := by
  rw [lines, hrest]
  · simp [hc]
  · intro rest' h
    exact absurd h (ne_return_of_not_isBreak hc)

/-- Text without breaks goes to the first line of what follows it. -/
theorem lines_append {front : List Char} (hfront : ∀ c ∈ front, isBreak c = false)
    {rest : List Char} {line : Line} {more : List Line} (hrest : lines rest = line :: more) :
    lines (front ++ rest) = ⟨front ++ line.content, line.ending⟩ :: more := by
  induction front with
  | nil => exact hrest
  | cons c front ih =>
      have hc : isBreak c = false := hfront c List.mem_cons_self
      have hmore := ih fun a ha => hfront a (List.mem_cons_of_mem c ha)
      rw [List.cons_append, lines_cons hc hmore]
      rfl

/-- The two ways in which a line feed ends a line. -/
inductive Feed : List Char → Prop where
  | plain : Feed ['\n']
  | withReturn : Feed ['\r', '\n']

theorem Feed.isBreak {ending : List Char} (h : Feed ending) : ∀ c ∈ ending, isBreak c = true := by
  cases h <;> simp [Text.isBreak]

/-- The first text is one line break when the second one follows it. A carriage return before a line
feed is only half of one. -/
inductive WholeBreak : List Char → List Char → Prop where
  | pair {rest : List Char} : WholeBreak ['\r', '\n'] rest
  | single {c : Char} {rest : List Char} (hbreak : isBreak c = true)
      (whole : c = '\r' → rest.head? ≠ some '\n') : WholeBreak [c] rest

theorem Feed.whole {ending : List Char} (h : Feed ending) (rest : List Char) :
    WholeBreak ending rest := by
  cases h with
  | plain => exact .single (by decide) (by simp)
  | withReturn => exact .pair

/-- Behind a line break another line starts. -/
theorem lines_break {content ending rest : List Char} (hcontent : ∀ c ∈ content, isBreak c = false)
    (hending : WholeBreak ending rest) :
    lines (content ++ (ending ++ rest)) = ⟨content, ending⟩ :: lines rest := by
  have hlines : lines (ending ++ rest) = ⟨[], ending⟩ :: lines rest := by
    cases hending with
    | pair => rfl
    | @single c _ hbreak whole =>
        show lines (c :: rest) = _
        rw [lines]
        · exact if_pos hbreak
        · rintro rest' rfl rfl
          exact whole rfl rfl
  rw [lines_append hcontent hlines, List.append_nil]

/-! ## Counting lines -/

theorem lineCount_pos (text : List Char) : 0 < lineCount text := by
  rw [lineCount_eq]
  exact List.length_pos_iff.mpr (lines_ne_nil text)

theorem lineCount_cons {c : Char} (hc : isBreak c = false) (rest : List Char) :
    lineCount (c :: rest) = lineCount rest := by
  obtain ⟨first, more, hrest⟩ := List.exists_cons_of_ne_nil (lines_ne_nil rest)
  rw [lineCount_eq, lineCount_eq, lines_cons hc hrest, hrest, List.length_cons, List.length_cons]

theorem lineCount_break {ending rest : List Char} (hending : WholeBreak ending rest) :
    lineCount (ending ++ rest) = lineCount rest + 1 := by
  have hlines : lines ([] ++ (ending ++ rest)) = ⟨[], ending⟩ :: lines rest :=
    lines_break (by simp) hending
  rw [List.nil_append] at hlines
  rw [lineCount_eq, hlines, List.length_cons, lineCount_eq]

/-- A text is read by single characters and whole breaks. -/
@[elab_as_elim]
theorem breakInduction {motive : List Char → Prop} (nil : motive [])
    (char : ∀ c rest, isBreak c = false → motive rest → motive (c :: rest))
    (ended : ∀ ending rest, WholeBreak ending rest → motive rest → motive (ending ++ rest))
    (text : List Char) : motive text := by
  induction text using lines.induct with
  | case1 => exact nil
  | case2 rest ih => exact ended ['\r', '\n'] rest .pair ih
  | case3 c rest hpair hbreak ih =>
      refine ended [c] rest (.single hbreak ?_) ih
      rintro rfl hhead
      obtain ⟨rest', rfl⟩ := List.head?_eq_some_iff.mp hhead
      exact hpair rest' rfl rfl
  | case4 c rest _ hbreak _ ih => exact char c rest (by simpa using hbreak) ih
  | case5 c rest _ hbreak _ _ _ ih => exact char c rest (by simpa using hbreak) ih

/-! ## Lines behind a line -/

/-- A line that others follow is ended by a whole break, and the others are the lines of what stands
behind that break. -/
theorem exists_break_of_lines {text : List Char} {line : Line} {more : List Line}
    (h : lines text = line :: more) (hmore : more ≠ []) :
    ∃ rest, WholeBreak line.ending rest ∧ text = line.content ++ (line.ending ++ rest) ∧
      more = lines rest := by
  induction text using breakInduction generalizing line with
  | nil =>
      obtain ⟨rfl, rfl⟩ := List.cons.inj h
      exact absurd rfl hmore
  | char c rest hc ih =>
      obtain ⟨first, others, hrest⟩ := List.exists_cons_of_ne_nil (lines_ne_nil rest)
      obtain ⟨rfl, rfl⟩ := List.cons.inj ((lines_cons hc hrest).symm.trans h)
      obtain ⟨back, hwhole, rfl, hothers⟩ := ih hrest
      exact ⟨back, hwhole, rfl, hothers⟩
  | ended ending rest hending _ =>
      have hlines : lines ([] ++ (ending ++ rest)) = ⟨[], ending⟩ :: lines rest :=
        lines_break (by simp) hending
      obtain ⟨rfl, rfl⟩ := List.cons.inj (hlines.symm.trans h)
      exact ⟨rest, hending, rfl, rfl⟩

/-- The lines after the first one are the lines of what follows it. -/
theorem lines_tail {text : List Char} {line : Line} {more : List Line}
    (h : lines text = line :: more) (hmore : more ≠ []) :
    more = lines (text.drop line.chars.length) := by
  obtain ⟨rest, -, htext, rfl⟩ := exists_break_of_lines h hmore
  have hdrop : text.drop line.chars.length = rest := by
    rw [htext, ← List.append_assoc]
    exact List.drop_left
  rw [hdrop]

end Text

namespace LineSpan

open Text (Line WholeBreak)

theorem length_place (start : Nat) (ls : List Line) : (place start ls).length = ls.length := by
  induction ls generalizing start with
  | nil => rfl
  | cons line more ih => rw [place, List.length_cons, ih, List.length_cons]

/-- A line that the text has is counted. -/
theorem lt_lineCount_of_resolve {text : List Char} {line : Nat} {s : LineSpan}
    (h : resolve text line = .ok s) : line < Text.lineCount text := by
  obtain ⟨hlt, -⟩ := List.getElem?_eq_some_iff.mp (resolve_eq_ok_iff.mp h)
  rwa [all, length_place, ← Text.lineCount_eq] at hlt

/-! ## Starts of lines -/

/-- The line starts at the offset: from there on, its line and those after it are what is left of
the text. -/
def Starts (text : List Char) (line start : Nat) : Prop :=
  (all text).drop line = place start (Text.lines (text.drop start))

/-- From a span on, the spans are those of the text from there on. -/
theorem drop_place {text : List Char} {start line : Nat} {s : LineSpan}
    (h : (place start (Text.lines text))[line]? = some s) :
    (place start (Text.lines text)).drop line =
      place s.start (Text.lines (text.drop (s.start - start))) := by
  induction line generalizing text start with
  | zero =>
      obtain ⟨first, more, hlines⟩ := List.exists_cons_of_ne_nil (Text.lines_ne_nil text)
      have hs : s.start = start := by
        rw [hlines, place, List.getElem?_cons_zero] at h
        rw [← Option.some.inj h]
      rw [List.drop_zero, hs, Nat.sub_self, List.drop_zero]
  | succ line ih =>
      obtain ⟨first, more, hlines⟩ := List.exists_cons_of_ne_nil (Text.lines_ne_nil text)
      rw [hlines, place, List.getElem?_cons_succ] at h
      have hmore : more ≠ [] := by
        rintro rfl
        cases h
      -- The lines after the first one are the lines of what follows it, further back in the text.
      rw [Text.lines_tail hlines hmore] at h
      have hstart := start_of_mem_place (List.mem_of_getElem? h)
      have hchars : first.chars.length = first.content.length + first.ending.length :=
        List.length_append
      rw [hlines, place, List.drop_succ_cons, Text.lines_tail hlines hmore, ih h, List.drop_drop]
      congr 3
      omega

theorem starts_of_resolve {text : List Char} {line : Nat} {s : LineSpan}
    (h : resolve text line = .ok s) : Starts text line s.start :=
  drop_place (resolve_eq_ok_iff.mp h)

section Starts

variable {text rest : List Char} {line start : Nat}

/-- The line that starts with the given line of what is left. -/
theorem Starts.resolve_eq (h : Starts text line start) {first : Line} {more : List Line}
    (hlines : Text.lines (text.drop start) = first :: more) :
    resolve text line = .ok ⟨start, first.content.length⟩ := by
  rw [resolve_eq_ok_iff, ← List.head?_drop, h, hlines]
  rfl

/-- Text without breaks lies on the line. -/
theorem Starts.resolve_of_front (h : Starts text line start) {front : List Char}
    (hfront : ∀ c ∈ front, Text.isBreak c = false) (htext : text.drop start = front ++ rest) :
    ∃ width, resolve text line = .ok ⟨start, width⟩ ∧ front.length ≤ width := by
  obtain ⟨first, more, hlines⟩ := List.exists_cons_of_ne_nil (Text.lines_ne_nil rest)
  have hall : Text.lines (text.drop start) = _ := htext ▸ Text.lines_append hfront hlines
  refine ⟨_, h.resolve_eq hall, ?_⟩
  show front.length ≤ (front ++ first.content).length
  rw [List.length_append]
  omega

/-- A line break ends the line, and the next line starts behind it. -/
theorem Starts.next (h : Starts text line start) {content ending : List Char}
    (hcontent : ∀ c ∈ content, Text.isBreak c = false) (hending : WholeBreak ending rest)
    (htext : text.drop start = content ++ (ending ++ rest)) :
    resolve text line = .ok ⟨start, content.length⟩ ∧
      Starts text (line + 1) (start + content.length + ending.length) ∧
      text.drop (start + content.length + ending.length) = rest := by
  have hlines : Text.lines (text.drop start) = ⟨content, ending⟩ :: Text.lines rest := by
    rw [htext]
    exact Text.lines_break hcontent hending
  have hrest : text.drop (start + content.length + ending.length) = rest := by
    calc text.drop (start + content.length + ending.length)
        = (text.drop start).drop (content.length + ending.length) := by
          rw [List.drop_drop, Nat.add_assoc]
      _ = ((content ++ ending) ++ rest).drop (content ++ ending).length := by
          rw [htext, List.append_assoc, List.length_append]
      _ = rest := List.drop_left
  refine ⟨h.resolve_eq hlines, ?_, hrest⟩
  unfold Starts
  rw [← List.tail_drop, h, hlines, hrest]
  rfl

end Starts

end LineSpan

end EditorCore

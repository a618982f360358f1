import EditorCore.Proofs.Text.LineOf

set_option autoImplicit false

/-! # Lines partition the text

The program finds the breaks of a text when it cuts it into rows, and once more when it takes the
break off the end of a row. The two agree: what lies between the content of a line and the next line
is exactly one break (`breakBetween_of_resolve`), and there is none inside the content of a line.
Contents and breaks, line by line, are therefore all of the text (`resolved_lines_partition`).

The argument goes from one line to the next. A break that follows a line is whole, so the next line
does not start between a carriage return and its line feed (`not_insidePair_start`). A line feed
that ends a line without content is therefore not the second half of a break.
-/

namespace EditorCore

namespace Text

/-- The offset lies between a carriage return and its line feed. -/
def InsidePair (text : List Char) (i : Nat) : Prop :=
  0 < i ∧ text[i - 1]? = some '\r' ∧ text[i]? = some '\n'

/-- The text between two offsets is one line break: a carriage return with its line feed, or a
break character that is neither the line feed nor the carriage return of such a pair. -/
inductive BreakBetween (text : List Char) (a b : Nat) : Prop where
  | pair (between : text.extract a b = ['\r', '\n'])
  | single {c : Char} (between : text.extract a b = [c]) (hbreak : isBreak c = true)
      (alone : ¬ InsidePair text a ∧ ¬ InsidePair text (a + 1))

/-- The text up to an offset and from there on to a later one. -/
theorem take_append_extract (text : List Char) {a b : Nat} (hab : a ≤ b) :
    text.take a ++ text.extract a b = text.take b := by
  rw [List.extract_eq_take_drop, ← List.take_add, Nat.add_sub_cancel' hab]

end Text

namespace LineSpan

open Text (WholeBreak BreakBetween InsidePair)

variable {text : List Char} {line : Nat} {s s' : LineSpan}

theorem start_le_stop (s : LineSpan) : s.start ≤ s.stop := Nat.le_add_right _ _

/-! ## Which lines there are -/

theorem exists_resolve_iff : (∃ s, resolve text line = .ok s) ↔ line < Text.lineCount text := by
  constructor
  · rintro ⟨s, hs⟩
    exact lt_lineCount_of_resolve hs
  · intro hlt
    rw [resolve, List.getElem?_eq_getElem hlt]
    exact ⟨_, rfl⟩

theorem resolve_of_lineCount_le (h : Text.lineCount text ≤ line) :
    resolve text line = .error ⟨line, Text.lineCount text⟩ := by
  rw [resolve, List.getElem?_eq_none h]

theorem start_of_resolve_zero (hs : resolve text 0 = .ok s) : s.start = 0 := by
  obtain ⟨first, more, hlines⟩ := List.exists_cons_of_ne_nil (Text.lines_ne_nil text)
  have hall := resolve_eq_ok_iff.mp hs
  rw [all, hlines, place, List.getElem?_cons_zero] at hall
  rw [← Option.some.inj hall]

/-! ## From one line to the next -/

/-- What is left of the text from a line on starts with that line. -/
theorem exists_lines_of_resolve (hs : resolve text line = .ok s) :
    ∃ first more, Text.lines (text.drop s.start) = first :: more ∧
      s.width = first.content.length := by
  obtain ⟨first, more, hlines⟩ := List.exists_cons_of_ne_nil (Text.lines_ne_nil (text.drop s.start))
  have hsame := hs.symm.trans ((starts_of_resolve hs).resolve_eq hlines)
  exact ⟨first, more, hlines, congrArg LineSpan.width (Except.ok.inj hsame)⟩

/-- A whole break leads from the content of a line to the next line. -/
theorem exists_break_of_resolve (hs : resolve text line = .ok s)
    (hs' : resolve text (line + 1) = .ok s') :
    ∃ ending, WholeBreak ending (text.drop s'.start) ∧
      text.drop s.stop = ending ++ text.drop s'.start ∧ s'.start = s.stop + ending.length := by
  have hstarts := starts_of_resolve hs
  obtain ⟨first, more, hlines, hwidth⟩ := exists_lines_of_resolve hs
  have hmore : more ≠ [] := by
    rintro rfl
    have hnext := resolve_eq_ok_iff.mp hs'
    rw [← List.getElem?_drop, hstarts, hlines] at hnext
    cases hnext
  obtain ⟨rest, hwhole, htext, -⟩ := Text.exists_break_of_lines hlines hmore
  have hcontent : ∀ c ∈ first.content, Text.isBreak c = false :=
    (Text.lines_cut (text.drop s.start)).content (hlines ▸ List.mem_cons_self)
  obtain ⟨-, hnext, hrest⟩ := hstarts.next hcontent hwhole htext
  obtain ⟨second, others, hothers⟩ := List.exists_cons_of_ne_nil (Text.lines_ne_nil rest)
  have hstart : s'.start = s.stop + first.ending.length := by
    have hsame := hs'.symm.trans (hnext.resolve_eq (hrest ▸ hothers))
    rw [Except.ok.inj hsame, stop, hwidth]
  have hrest' : text.drop s'.start = rest := by rw [hstart, stop, hwidth, hrest]
  refine ⟨first.ending, hrest' ▸ hwhole, ?_, hstart⟩
  rw [hrest', stop, ← List.drop_drop, htext, hwidth]
  exact List.drop_left

/-- No line starts between a carriage return and its line feed. -/
theorem not_insidePair_start (hs : resolve text line = .ok s) : ¬ InsidePair text s.start := by
  rintro ⟨hpos, hreturn, hfeed⟩
  cases line with
  | zero =>
      have hzero := start_of_resolve_zero hs
      omega
  | succ line =>
      obtain ⟨above, habove, -⟩ := exists_resolve_of_le (Nat.le_succ line) hs
      obtain ⟨ending, hwhole, hdrop, hstart⟩ := exists_break_of_resolve habove hs
      -- The carriage return would be the last character of the break above.
      have hlast : (ending ++ text.drop s.start)[ending.length - 1]? = some '\r' := by
        rw [← hdrop, List.getElem?_drop, ← hreturn]
        congr 1
        cases hwhole <;> simp only [List.length_cons, List.length_nil] at hstart ⊢ <;> omega
      have hhead : (text.drop s.start).head? = some '\n' := by rw [List.head?_drop, hfeed]
      cases hwhole with
      | pair => simp at hlast
      | single hbreak whole => exact whole (by simpa using hlast) hhead

/-- Between the content of a line and the next line there is one break. -/
theorem breakBetween_of_resolve (hs : resolve text line = .ok s)
    (hs' : resolve text (line + 1) = .ok s') : BreakBetween text s.stop s'.start := by
  obtain ⟨ending, hwhole, hdrop, hstart⟩ := exists_break_of_resolve hs hs'
  have hbetween : text.extract s.stop s'.start = ending := by
    rw [List.extract_eq_take_drop, hdrop, hstart, Nat.add_sub_cancel_left]
    exact List.take_left
  have hat : ∀ k, text[s.stop + k]? = (ending ++ text.drop s'.start)[k]? := by
    intro k
    rw [← hdrop, List.getElem?_drop]
  cases hwhole with
  | pair => exact .pair hbetween
  | single hbreak whole =>
      refine .single hbetween hbreak ⟨?_, ?_⟩
      · rintro ⟨hpos, hreturn, hfeed⟩
        by_cases hempty : s.stop = s.start
        · exact not_insidePair_start hs (hempty ▸ ⟨hpos, hreturn, hfeed⟩)
        · -- The carriage return would be a break inside the content.
          have hinside := isBreak_of_mem_span (mem_all_of_resolve hs) (i := s.stop - 1)
            (by rw [stop] at hempty ⊢; omega) (by omega) hreturn
          exact absurd hinside (by decide)
      · rintro ⟨-, hreturn, hfeed⟩
        have hc := hat 0
        have hnext := hat 1
        rw [Nat.add_sub_cancel] at hreturn
        rw [Nat.add_zero, hreturn] at hc
        rw [hfeed] at hnext
        refine whole (Option.some.inj hc).symm ?_
        rw [List.head?_eq_getElem?]
        exact hnext.symm

/-- The last line ends where the text ends. -/
theorem stop_of_last (hs : resolve text line = .ok s) (hlast : Text.lineCount text = line + 1) :
    s.stop = text.length := by
  have hstarts := starts_of_resolve hs
  obtain ⟨first, more, hlines, hwidth⟩ := exists_lines_of_resolve hs
  have hmore : more = [] := by
    have hlength := congrArg List.length hstarts
    rw [List.length_drop, all, length_place, length_place, ← Text.lineCount_eq, hlast, hlines,
      List.length_cons] at hlength
    exact List.length_eq_zero_iff.mp (by omega)
  subst hmore
  -- The last line has no break, so its content is all that is left of the text.
  have hending : first.ending = [] := by
    have hcut := Text.lines_cut (text.drop s.start)
    rw [hlines] at hcut
    cases hcut with
    | last => rfl
    | line _ _ rest => cases rest
  have hcontent : first.content = text.drop s.start := by
    have hall := Text.flatMap_lines (text.drop s.start)
    rw [hlines, List.flatMap_singleton, Text.Line.chars, hending, List.append_nil] at hall
    exact hall
  have hle := stop_le_length (mem_all_of_resolve hs)
  rw [stop, hwidth, hcontent, List.length_drop] at hle ⊢
  omega

/-! ## The text put together again -/

/-- The content of a line; a line that the text does not have has none. -/
def contentOf (text : List Char) (line : Nat) : List Char :=
  match resolve text line with
  | .ok s => text.extract s.start s.stop
  | .error _ => []

/-- What stands between a line and the next one; behind the last line there is nothing. -/
def breakAfter (text : List Char) (line : Nat) : List Char :=
  match resolve text line, resolve text (line + 1) with
  | .ok s, .ok s' => text.extract s.stop s'.start
  | _, _ => []

/-- The lines above a line, with their breaks, are the text before it. -/
theorem flatMap_range_eq_take (hs : resolve text line = .ok s) :
    ((List.range line).flatMap fun i => contentOf text i ++ breakAfter text i) =
      text.take s.start := by
  induction line generalizing s with
  | zero => rw [start_of_resolve_zero hs]; rfl
  | succ line ih =>
      obtain ⟨above, habove, -⟩ := exists_resolve_of_le (Nat.le_succ line) hs
      have hbehind : above.stop ≤ s.start :=
        Nat.le_of_lt (stop_lt_start_of_lt (Nat.lt_succ_self line) habove hs)
      calc ((List.range (line + 1)).flatMap fun i => contentOf text i ++ breakAfter text i)
          = text.take above.start ++ (contentOf text line ++ breakAfter text line) := by
            rw [List.range_succ, List.flatMap_append, ih habove, List.flatMap_singleton]
        _ = text.take above.start ++
              (text.extract above.start above.stop ++ text.extract above.stop s.start) := by
            rw [contentOf, breakAfter, habove, hs]
        _ = text.take above.stop ++ text.extract above.stop s.start := by
            rw [← List.append_assoc, Text.take_append_extract text above.start_le_stop]
        _ = text.take s.start := Text.take_append_extract text hbehind

/-- All lines with their breaks are the text. -/
theorem flatMap_range_lineCount (text : List Char) :
    ((List.range (Text.lineCount text)).flatMap fun i => contentOf text i ++ breakAfter text i) =
      text := by
  obtain ⟨last, hlast⟩ := Nat.exists_eq_add_one_of_ne_zero (Nat.ne_of_gt (Text.lineCount_pos text))
  have hlt : last < Text.lineCount text := by omega
  obtain ⟨s, hs⟩ := exists_resolve_iff.mpr hlt
  have hend : resolve text (last + 1) = .error ⟨last + 1, Text.lineCount text⟩ :=
    resolve_of_lineCount_le (Nat.le_of_eq hlast)
  calc ((List.range (Text.lineCount text)).flatMap fun i => contentOf text i ++ breakAfter text i)
      = text.take s.start ++ (contentOf text last ++ breakAfter text last) := by
        rw [hlast, List.range_succ, List.flatMap_append, flatMap_range_eq_take hs,
          List.flatMap_singleton]
    _ = text.take s.start ++ text.extract s.start s.stop := by
        rw [contentOf, breakAfter, hs, hend, List.append_nil]
    _ = text.take s.stop := Text.take_append_extract text s.start_le_stop
    _ = text := by rw [stop_of_last hs hlast, List.take_length]

/-- **Lines partition the text.** Exactly the lines below the number of lines are resolved; for any
other the error names it and the number of lines. The first line starts at the start of the text,
between a line and the next one there is exactly one break, the last line ends at the end of the
text, and no content has a break in it. Contents and breaks, one after another, are the text. -/
theorem resolved_lines_partition (text : List Char) :
    (∀ line, (∃ s, resolve text line = .ok s) ↔ line < Text.lineCount text) ∧
    (∀ line, Text.lineCount text ≤ line →
      resolve text line = .error ⟨line, Text.lineCount text⟩) ∧
    (∃ s, resolve text 0 = .ok s ∧ s.start = 0) ∧
    (∀ line s s', resolve text line = .ok s → resolve text (line + 1) = .ok s' →
      BreakBetween text s.stop s'.start) ∧
    (∃ s, resolve text (Text.lineCount text - 1) = .ok s ∧ s.stop = text.length) ∧
    (∀ line s, resolve text line = .ok s →
      ∀ c ∈ text.extract s.start s.stop, Text.isBreak c = false) ∧
    ((List.range (Text.lineCount text)).flatMap fun i => contentOf text i ++ breakAfter text i) =
      text := by
  have hpos := Text.lineCount_pos text
  refine ⟨fun _ => exists_resolve_iff, fun _ => resolve_of_lineCount_le, ?_,
    fun _ _ _ => breakBetween_of_resolve, ?_, ?_, flatMap_range_lineCount text⟩
  · obtain ⟨s, hs⟩ := exists_resolve_iff.mpr hpos
    exact ⟨s, hs, start_of_resolve_zero hs⟩
  · obtain ⟨s, hs⟩ := exists_resolve_iff.mpr (Nat.sub_lt hpos Nat.one_pos)
    exact ⟨s, hs, stop_of_last hs (by omega)⟩
  · intro line s hs c hc
    obtain ⟨i, hi⟩ := List.getElem?_of_mem hc
    rw [List.extract_eq_take_drop, List.getElem?_take] at hi
    split at hi
    · rename_i hlt
      rw [List.getElem?_drop] at hi
      refine isBreak_of_mem_span (mem_all_of_resolve hs) (Nat.le_add_right _ i) ?_ hi
      omega
    · cases hi

/-- A carriage return before a pair, and a line feed before a carriage return. -/
example :
    (List.range 6).map (fun line => (resolve ['a', '\r', '\r', '\n', '\n', '\r'] line).toOption) =
      [some ⟨0, 1⟩, some ⟨2, 0⟩, some ⟨4, 0⟩, some ⟨5, 0⟩, some ⟨6, 0⟩, none] := by
  decide

end LineSpan

end EditorCore

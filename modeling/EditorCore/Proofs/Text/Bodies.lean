import EditorCore.Proofs.Text.LineStarts
import EditorCore.Source.Comment
import Mathlib.Data.List.Basic

set_option autoImplicit false

/-! # Bodies of comments on the lines of a buffer

The body of a comment is cut at its line feeds, and the parts are laid on the lines of a buffer from
some line on: the first part at a column, the others at the left edge (`Comment.PartsShow`). None of
this looks at the buffer. If the body is the text that stands there, the parts still fall on the
characters they were cut from (`Comment.partsShow_iff`): the line feeds of the body are those that
end the lines of the buffer, so the cutting and the lines go together part by part.
-/

namespace EditorCore

/-! ## Line feeds of a body -/

namespace Text

/-- All line breaks of the text are line feeds, with or without a carriage return before them. -/
def FeedsOnly (text : List Char) : Prop :=
  ∀ i c, text[i]? = some c → isBreak c = true →
    c = '\n' ∨ (c = '\r' ∧ text[i + 1]? = some '\n')

instance (text : List Char) : Decidable (FeedsOnly text) :=
  decidable_of_iff (∀ (i : Nat) (h : i < text.length), isBreak text[i] = true →
      text[i] = '\n' ∨ (text[i] = '\r' ∧ text[i + 1]? = some '\n')) <| by
    constructor
    · intro h i c hi
      obtain ⟨hlt, rfl⟩ := List.getElem?_eq_some_iff.mp hi
      exact h i hlt
    · intro h i hlt
      exact h i text[i] (List.getElem?_eq_getElem hlt)

/-- Every text is cut at its first line feed, or has none. -/
@[elab_as_elim]
theorem feedInduction {motive : List Char → Prop} (last : ∀ part, '\n' ∉ part → motive part)
    (more : ∀ part body, '\n' ∉ part → motive body → motive (part ++ '\n' :: body))
    (body : List Char) : motive body := by
  induction hlength : body.length using Nat.strongRecOn generalizing body with
  | ind n ih =>
      by_cases hfeed : '\n' ∈ body
      · obtain ⟨part, rest, rfl, hpart⟩ := List.eq_append_cons_of_mem hfeed
        have hlt : rest.length < n := by
          rw [← hlength, List.length_append, List.length_cons]
          omega
        exact more part rest hpart (ih rest.length hlt rest rfl)
      · exact last body hfeed

/-- Without a line feed there is no break at all. -/
theorem FeedsOnly.isBreak_of_not_mem {text : List Char} (h : FeedsOnly text)
    (hfeed : '\n' ∉ text) : ∀ c ∈ text, isBreak c = false := by
  intro c hc
  rw [Bool.eq_false_iff]
  intro hbreak
  obtain ⟨i, hi⟩ := List.getElem?_of_mem hc
  rcases h i c hi hbreak with rfl | ⟨-, hnext⟩
  · exact hfeed hc
  · exact hfeed (List.mem_of_getElem? hnext)

theorem FeedsOnly.of_cons {part body : List Char} (h : FeedsOnly (part ++ '\n' :: body)) :
    FeedsOnly body := by
  have hbody : ∀ i, body[i]? = (part ++ '\n' :: body)[part.length + 1 + i]? := by
    intro i
    rw [List.getElem?_append_right (by omega),
      show part.length + 1 + i - part.length = i + 1 by omega, List.getElem?_cons_succ]
  intro i c hi hbreak
  rw [hbody] at hi
  rw [hbody, ← Nat.add_assoc]
  exact h _ c hi hbreak

/-- A part before a line feed is text without breaks, up to the carriage return that belongs to the
line feed. -/
theorem FeedsOnly.part {part body : List Char} (h : FeedsOnly (part ++ '\n' :: body))
    (hfeed : '\n' ∉ part) :
    (∀ c ∈ Comment.dropReturn part, isBreak c = false) ∧
      ∃ ending, Feed ending ∧ part ++ ['\n'] = Comment.dropReturn part ++ ending := by
  -- A carriage return that is not the last character of the part has no line feed after it.
  have hinner : ∀ i c, part[i]? = some c → i + 1 < part.length → isBreak c = false := by
    intro i c hi hlt
    rw [Bool.eq_false_iff]
    intro hbreak
    have hwhole : (part ++ '\n' :: body)[i]? = some c := by
      rw [List.getElem?_append_left (by omega), hi]
    rcases h i c hwhole hbreak with rfl | ⟨-, hnext⟩
    · exact hfeed (List.mem_of_getElem? hi)
    · rw [List.getElem?_append_left hlt] at hnext
      exact hfeed (List.mem_of_getElem? hnext)
  unfold Comment.dropReturn
  rcases List.eq_nil_or_concat' part with rfl | ⟨init, last, rfl⟩
  · exact ⟨by simp, ['\n'], .plain, rfl⟩
  · have hinit : ∀ c ∈ init, isBreak c = false := by
      intro c hc
      obtain ⟨i, hi⟩ := List.getElem?_of_mem hc
      obtain ⟨hlt, -⟩ := List.getElem?_eq_some_iff.mp hi
      refine hinner i c ?_ ?_
      · rw [List.getElem?_append_left hlt, hi]
      · rw [List.length_append, List.length_singleton]
        omega
    rw [List.getLast?_concat, List.dropLast_concat]
    by_cases hreturn : last = '\r'
    · subst hreturn
      exact ⟨by simpa using hinit, ['\r', '\n'], .withReturn, by simp⟩
    · have hlast : isBreak last = false := by
        rw [Bool.eq_false_iff]
        intro hbreak
        have hwhole : (init ++ [last] ++ '\n' :: body)[init.length]? = some last := by simp
        rcases h _ last hwhole hbreak with rfl | ⟨hlast, -⟩
        · exact hfeed (by simp)
        · exact hreturn hlast
      have htest : ¬ (some last == some '\r') = true := by simpa using hreturn
      rw [if_neg htest]
      refine ⟨?_, ['\n'], .plain, rfl⟩
      intro c hc
      rcases List.mem_append.mp hc with hc | hc
      · exact hinit c hc
      · rw [List.mem_singleton.mp hc]
        exact hlast

/-! ## Characters that can be painted -/

/-- There is a character at the offset, and it is no line break. -/
def Visible (buffer : List Char) (i : Nat) : Prop :=
  ∃ c, buffer[i]? = some c ∧ isBreak c = false

section

variable {buffer before middle after : List Char} {start i : Nat}

/-- The characters of a part of the buffer. -/
theorem exists_mem_of_slice (h : buffer.drop start = before ++ (middle ++ after))
    (hstart : start + before.length ≤ i) (hstop : i < start + before.length + middle.length) :
    ∃ c ∈ middle, buffer[i]? = some c := by
  have hlt : i - start - before.length < middle.length := by omega
  refine ⟨middle[i - start - before.length], List.getElem_mem hlt, ?_⟩
  calc buffer[i]? = (buffer.drop start)[i - start]? := by
        rw [List.getElem?_drop]
        congr 1
        omega
    _ = (middle ++ after)[i - start - before.length]? := by
        rw [h, List.getElem?_append_right (by omega)]
    _ = some (middle[i - start - before.length]) := by
        rw [List.getElem?_append_left hlt, List.getElem?_eq_getElem hlt]

theorem visible_of_slice (h : buffer.drop start = before ++ (middle ++ after))
    (hmiddle : ∀ c ∈ middle, isBreak c = false) (hstart : start + before.length ≤ i)
    (hstop : i < start + before.length + middle.length) : Visible buffer i := by
  obtain ⟨c, hc, hi⟩ := exists_mem_of_slice h hstart hstop
  exact ⟨c, hi, hmiddle c hc⟩

theorem not_visible_of_slice (h : buffer.drop start = before ++ (middle ++ after))
    (hmiddle : ∀ c ∈ middle, isBreak c = true) (hstart : start + before.length ≤ i)
    (hstop : i < start + before.length + middle.length) : ¬ Visible buffer i := by
  rintro ⟨c, hi, hbreak⟩
  obtain ⟨c', hc', hi'⟩ := exists_mem_of_slice h hstart hstop
  rw [hi] at hi'
  rw [Option.some.inj hi', hmiddle c' hc'] at hbreak
  cases hbreak

end

end Text

/-- Only a carriage return is dropped. -/
theorem Comment.dropReturn_eq_self {part : List Char} (h : ∀ c ∈ part, Text.isBreak c = false) :
    dropReturn part = part := by
  have htest : ¬ (part.getLast? == some '\r') = true := by
    intro hlast
    have hreturn := h '\r' (List.mem_of_getLast? (beq_iff_eq.mp hlast))
    exact absurd hreturn (by decide)
  exact if_neg htest

/-! ## Parts of a body on the lines of a buffer -/

open Text (Visible FeedsOnly isBreak)

/-- The run of columns of a line covers the offset, as far as it lies on the line. -/
def LineSpan.Shows (buffer : List Char) (line column length i : Nat) : Prop :=
  ∃ span, resolve buffer line = .ok span ∧
    ∃ run, span.clip column length = some run ∧ run.1 ≤ i ∧ i < run.1 + run.2

/-- A run that lies on its line covers what it should. -/
theorem LineSpan.shows_iff {buffer : List Char} {line start width column length : Nat}
    (hline : resolve buffer line = .ok ⟨start, width⟩) (hfits : column + length ≤ width) (i : Nat) :
    Shows buffer line column length i ↔ start + column ≤ i ∧ i < start + column + length := by
  have hclip : (⟨start, width⟩ : LineSpan).clip column length = some (start + column, length) := by
    unfold clip
    rw [if_neg (show ¬ width < column by omega)]
    show some (start + column, min length (width - column)) = _
    rw [Nat.min_eq_left (by omega)]
  constructor
  · rintro ⟨span, hspan, run, hrun, hi⟩
    rw [hline] at hspan
    rw [← Except.ok.inj hspan, hclip] at hrun
    rw [← Option.some.inj hrun] at hi
    exact hi
  · intro hi
    exact ⟨_, hline, _, hclip, hi⟩

namespace Comment

/-- The parts cover the offset when they are laid on the lines from the given one on, the first at
the column and the others at the left edge. -/
def PartsShow (buffer : List Char) (line column : Nat) (parts : List (List Char)) (i : Nat) :
    Prop :=
  ∃ j part, parts[j]? = some part ∧
    LineSpan.Shows buffer (line + j) (if j = 0 then column else 0) (dropReturn part).length i

section PartsShow

variable {buffer : List Char} {line column i : Nat}

theorem not_partsShow_nil : ¬ PartsShow buffer line column [] i := by
  rintro ⟨j, part, hj, -⟩
  cases hj

/-- The parts after the first one are laid on the lines from the next one on. -/
theorem partsShow_cons {part : List Char} {more : List (List Char)} :
    PartsShow buffer line column (part :: more) i ↔
      LineSpan.Shows buffer line column (dropReturn part).length i ∨
        PartsShow buffer (line + 1) 0 more i := by
  have hline : ∀ j, line + 1 + j = line + (j + 1) := by
    intro j
    omega
  constructor
  · rintro ⟨j, part', hj, hi⟩
    cases j with
    | zero =>
        obtain rfl : part = part' := Option.some.inj hj
        exact .inl hi
    | succ j =>
        right
        refine ⟨j, part', hj, ?_⟩
        rw [ite_self, hline]
        exact hi
  · rintro (hi | ⟨j, part', hj, hi⟩)
    · exact ⟨0, part, rfl, hi⟩
    · refine ⟨j + 1, part', hj, ?_⟩
      rw [ite_self, hline] at hi
      exact hi

end PartsShow

/-- **The parts of a body cover the characters of the body**, line breaks left out. The body stands
in the buffer behind some text of the line on which it starts. -/
theorem partsShow_iff {buffer front body back : List Char} {line start : Nat}
    (hstarts : LineSpan.Starts buffer line start)
    (hbuffer : buffer.drop start = front ++ (body ++ back))
    (hfront : ∀ c ∈ front, isBreak c = false) (hbody : FeedsOnly body) (i : Nat) :
    PartsShow buffer line front.length (body.splitOn '\n') i ↔
      start + front.length ≤ i ∧ i < start + front.length + body.length ∧ Visible buffer i := by
  induction body using Text.feedInduction generalizing line start front with
  | last part hfeed =>
      have hpart := hbody.isBreak_of_not_mem hfeed
      have hall : ∀ c ∈ front ++ part, isBreak c = false :=
        List.forall_mem_append.mpr ⟨hfront, hpart⟩
      obtain ⟨width, hline, hwidth⟩ :=
        hstarts.resolve_of_front hall (hbuffer.trans (List.append_assoc _ _ _).symm)
      rw [List.length_append] at hwidth
      rw [List.splitOn_eq_singleton hfeed, partsShow_cons, dropReturn_eq_self hpart,
        LineSpan.shows_iff hline hwidth]
      constructor
      · rintro (⟨hlow, hhigh⟩ | hnone)
        · exact ⟨hlow, hhigh, Text.visible_of_slice hbuffer hpart hlow hhigh⟩
        · exact absurd hnone not_partsShow_nil
      · rintro ⟨hlow, hhigh, -⟩
        exact .inl ⟨hlow, hhigh⟩
  | more part body hfeed ih =>
      obtain ⟨hcontent, ending, hending, hsplit⟩ := hbody.part hfeed
      -- The line feed of the body ends the line, and the rest of the body starts the next one.
      have hlayout : buffer.drop start =
          (front ++ dropReturn part) ++ (ending ++ (body ++ back)) := by
        calc buffer.drop start = front ++ ((part ++ ['\n']) ++ (body ++ back)) := by
              rw [hbuffer]
              simp
          _ = (front ++ dropReturn part) ++ (ending ++ (body ++ back)) := by
              rw [hsplit]
              simp
      have hall : ∀ c ∈ front ++ dropReturn part, isBreak c = false :=
        List.forall_mem_append.mpr ⟨hfront, hcontent⟩
      obtain ⟨hline, hnext, hrest⟩ := hstarts.next hall (hending.whole _) hlayout
      have hmore := ih hnext (hrest.trans (List.nil_append _).symm) (by simp) hbody.of_cons
      rw [List.length_nil] at hmore
      have hlength : (front ++ dropReturn part).length = front.length + (dropReturn part).length :=
        List.length_append
      have hwhole : (part ++ '\n' :: body).length =
          (dropReturn part).length + ending.length + body.length := by
        have hends := congrArg List.length hsplit
        rw [List.length_append, List.length_append, List.length_singleton] at hends
        rw [List.length_append, List.length_cons]
        omega
      rw [List.splitOn_append_cons_self_of_not_mem hfeed, partsShow_cons, hmore, hwhole,
        LineSpan.shows_iff hline (Nat.le_of_eq hlength.symm)]
      constructor
      · rintro (⟨hlow, hhigh⟩ | ⟨hlow, hhigh, hvisible⟩)
        · have hslice := hlayout.trans (List.append_assoc _ _ _)
          exact ⟨hlow, by omega, Text.visible_of_slice hslice hcontent hlow hhigh⟩
        · exact ⟨by omega, by omega, hvisible⟩
      · rintro ⟨hlow, hhigh, hvisible⟩
        by_cases hfirst : i < start + front.length + (dropReturn part).length
        · exact .inl ⟨hlow, hfirst⟩
        · -- The break itself cannot be painted, so the offset lies behind it.
          have hbehind : start + (front ++ dropReturn part).length + ending.length ≤ i := by
            refine Nat.le_of_not_lt fun hbreak => ?_
            exact Text.not_visible_of_slice hlayout hending.isBreak (by omega) hbreak hvisible
          exact .inr ⟨by omega, by omega, hvisible⟩

end Comment

end EditorCore

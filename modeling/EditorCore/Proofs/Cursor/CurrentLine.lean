import EditorCore.Proofs.Cursor.Completion
import EditorCore.Proofs.Text.Lines

set_option autoImplicit false

/-! # Completion stays on the line of the cursor

What is completed is read off the text before the cursor, and that reading never gets past the start
of the line. A line starts behind a break or with the buffer. Both stop the reader in the same way:
a break is no part of a word, of a blank, of a dot or of an arrow, so whatever is taken off the end
of the text, and whatever the text is found to end in, is the same without what stands in front of
the line (`after_nearest_append`). The classes of the reader and the breaks of the buffer come
together here: the breaks that end a line are those that the reader stops at.
-/

namespace EditorCore.Cursor.Completion

open Text (isWordChar isBlank isBreak)

/-! ## Text behind a break -/

section

variable {front : List Char}

/-- A break is of no class that is read through. -/
theorem rdropWhile_append_of_last {p : Char → Bool} (hfront : ∀ c ∈ front.getLast?, p c = false)
    (text : List Char) : (front ++ text).rdropWhile p = front ++ text.rdropWhile p := by
  induction text using List.reverseRecOn with
  | nil =>
      rw [List.append_nil, List.rdropWhile_nil, List.append_nil, List.rdropWhile_eq_self_iff]
      intro hne
      rw [hfront _ (List.getLast?_eq_some_getLast hne)]
      decide
  | append_singleton text c ih =>
      rw [← List.append_assoc, List.rdropWhile_concat, List.rdropWhile_concat]
      by_cases hc : p c = true
      · rw [if_pos hc, if_pos hc, ih]
      · rw [if_neg hc, if_neg hc, List.append_assoc]

theorem rtakeWhile_append_of_last {p : Char → Bool} (hfront : ∀ c ∈ front.getLast?, p c = false)
    (text : List Char) : (front ++ text).rtakeWhile p = text.rtakeWhile p := by
  have hwhole : front ++ (text.rdropWhile p ++ (front ++ text).rtakeWhile p) =
      front ++ (text.rdropWhile p ++ text.rtakeWhile p) := by
    calc front ++ (text.rdropWhile p ++ (front ++ text).rtakeWhile p)
        = (front ++ text).rdropWhile p ++ (front ++ text).rtakeWhile p := by
          rw [rdropWhile_append_of_last hfront, List.append_assoc]
      _ = front ++ text := List.rdropWhile_append_rtakeWhile
      _ = front ++ (text.rdropWhile p ++ text.rtakeWhile p) := by
          rw [List.rdropWhile_append_rtakeWhile]
  exact List.append_cancel_left (List.append_cancel_left hwhole)

variable (hfront : ∀ c ∈ front.getLast?, isBreak c = true)
include hfront

/-- A text without breaks does not reach over a break. -/
theorem suffix_append_iff {text word : List Char} (hword : ∀ c ∈ word, isBreak c = false) :
    word <:+ front ++ text ↔ word <:+ text := by
  constructor
  · intro h
    by_cases hlength : word.length ≤ text.length
    · exact List.suffix_of_suffix_length_le h (List.suffix_append front text) hlength
    · -- A longer word would end with the whole text, and before that with the break.
      have hlonger : text.length ≤ word.length := by omega
      obtain ⟨overlap, rfl⟩ :=
        List.suffix_of_suffix_length_le (List.suffix_append front text) h hlonger
      have hne : overlap ≠ [] := by
        rintro rfl
        exact hlength (Nat.le_refl _)
      obtain ⟨more, hmore⟩ := h
      rw [← List.append_assoc] at hmore
      have hoverlap : more ++ overlap = front := List.append_cancel_right hmore
      have hlast : overlap.getLast hne ∈ front.getLast? := by
        rw [← hoverlap, List.getLast?_append_of_ne_nil _ hne]
        exact List.getLast?_eq_some_getLast hne
      have hbreak := hfront _ hlast
      rw [hword _ (List.mem_append_left text (List.getLast_mem hne))] at hbreak
      cases hbreak
  · intro h
    exact h.trans (List.suffix_append front text)

theorem isWordChar_of_front : ∀ c ∈ front.getLast?, isWordChar c = false :=
  fun c hc => Text.isWordChar_of_isBreak (hfront c hc)

theorem isBlank_of_front : ∀ c ∈ front.getLast?, isBlank c = false := by
  intro c hc
  simp [isBlank, hfront c hc]

/-- The receiver of a dot is on its line. -/
theorem receiver_nearest_append (object : List Char) :
    receiver (nearest (front ++ object)).head? = receiver (nearest object).head? := by
  rw [receiver_nearest, receiver_nearest,
    rdropWhile_append_of_last (isBlank_of_front hfront),
    rtakeWhile_append_of_last (isWordChar_of_front hfront)]

/-- **What stands before the line does not matter** to what the end of the line is found to be. -/
theorem after_nearest_append (typed : List Char) {stem : List Char}
    (hblank : ∀ c ∈ stem.getLast?, isBlank c = false) :
    after typed (nearest (front ++ stem)) = after typed (nearest stem) := by
  have hblank' : ∀ c ∈ (front ++ stem).getLast?, isBlank c = false := by
    intro c hc
    rw [List.getLast?_append] at hc
    rcases Option.or_eq_some_iff.mp hc with hc | ⟨-, hc⟩
    · exact hblank c hc
    · exact isBlank_of_front hfront c hc
  have hdot : ['.'] <:+ front ++ stem ↔ ['.'] <:+ stem := suffix_append_iff hfront (by simp [isBreak])
  have hright : ['-', '>'] <:+ front ++ stem ↔ ['-', '>'] <:+ stem :=
    suffix_append_iff hfront (by simp [isBreak])
  have hleft : ['<', '-'] <:+ front ++ stem ↔ ['<', '-'] <:+ stem :=
    suffix_append_iff hfront (by simp [isBreak])
  have hwhole := after_nearest_cases typed hblank'
  rw [hdot, hright, hleft] at hwhole
  -- The stem alone tells which of the four cases it is, so the two agree on it.
  rcases after_nearest_cases typed hblank with
    ⟨hd, hr, hl, h⟩ | ⟨hd, hr, hl, h⟩ | ⟨hd, hr, hl, h⟩ | ⟨hd, hr, hl, h⟩
  · have hne : stem ≠ [] := by
      rintro rfl
      exact absurd hd (by decide)
    simp only [hd, hr, hl, true_and, false_and, or_false, not_true, not_false_eq_true] at hwhole
    rw [hwhole, h, List.dropLast_append_of_ne_nil hne, receiver_nearest_append hfront]
  · simp only [hd, hr, hl, true_and, false_and, or_false, false_or, not_true,
      not_false_eq_true] at hwhole
    rw [hwhole, h]
  · simp only [hd, hr, hl, true_and, false_and, or_false, false_or, not_true,
      not_false_eq_true] at hwhole
    rw [hwhole, h]
  · simp only [hd, hr, hl, true_and, false_and, false_or, not_false_eq_true] at hwhole
    rw [hwhole, h]

end

/-! ## The line of the cursor -/

/-- The part of a buffer from one offset up to another. -/
def slice (buffer : List Char) (first stop : Nat) : List Char := (buffer.take stop).drop first

theorem slice_length {buffer : List Char} {first stop : Nat} (hstop : stop ≤ buffer.length) :
    (slice buffer first stop).length = stop - first := by
  rw [slice, List.length_drop, List.length_take_of_le hstop]

/-- A completion is the one of the part of the line before the cursor, as a buffer of its own. -/
theorem at?_slice {buffer : List Char} {s : LineSpan} (hs : s ∈ LineSpan.all buffer) {offset : Nat}
    (hstart : s.start ≤ offset) (hstop : offset ≤ s.stop) :
    at? buffer offset = at? (slice buffer s.start offset) (offset - s.start) := by
  have hoffset : offset ≤ buffer.length := Nat.le_trans hstop (LineSpan.stop_le_length hs)
  have hlength : (slice buffer s.start offset).length = offset - s.start := slice_length hoffset
  -- Up to the cursor the buffer is what stands before the line, and the part of the line.
  have hsplit : buffer.take offset = buffer.take s.start ++ slice buffer s.start offset := by
    have h := List.take_append_drop s.start (buffer.take offset)
    rw [List.take_take, Nat.min_eq_left hstart] at h
    exact h.symm
  have hfront := LineSpan.isBreak_before_start hs
  rw [at?_eq_some hoffset, at?_eq_some (Nat.le_of_eq hlength.symm), ← hlength, List.take_length,
    hsplit]
  generalize buffer.take s.start = front at hfront
  generalize slice buffer s.start offset = text
  rw [rtakeWhile_append_of_last (isWordChar_of_front hfront),
    rdropWhile_append_of_last (isWordChar_of_front hfront), ← nearest_rdropWhile,
    rdropWhile_append_of_last (isBlank_of_front hfront),
    after_nearest_append hfront _ (getLast?_rdropWhile isBlank _), nearest_rdropWhile]

/-- **Completion is local to the line of the cursor.** Let the cursor be on a line of the buffer,
the line being what the buffer takes for one. What is completed there is what would be completed at
the end of the part of the line before the cursor, were it the whole buffer. So it is the same in
every other buffer with a cursor behind the same part of a line, whatever stands on other lines or
after the cursor. -/
theorem local_to_line {buffer : List Char} {line : Nat} {s : LineSpan}
    (hline : LineSpan.resolve buffer line = .ok s) {offset : Nat} (hstart : s.start ≤ offset)
    (hstop : offset ≤ s.stop) :
    ∃ completion, at? buffer offset = some completion ∧
      at? (slice buffer s.start offset) (offset - s.start) = some completion ∧
      ∀ (buffer' : List Char) (line' : Nat) (s' : LineSpan) (offset' : Nat),
        LineSpan.resolve buffer' line' = .ok s' → s'.start ≤ offset' → offset' ≤ s'.stop →
        slice buffer' s'.start offset' = slice buffer s.start offset →
        at? buffer' offset' = some completion := by
  have hs := LineSpan.mem_all_of_resolve hline
  have hoffset : offset ≤ buffer.length := Nat.le_trans hstop (LineSpan.stop_le_length hs)
  refine ⟨_, at?_eq_some hoffset, ?_, ?_⟩
  · rw [← at?_slice hs hstart hstop, at?_eq_some hoffset]
  · intro buffer' line' s' offset' hline' hstart' hstop' hsame
    have hs' := LineSpan.mem_all_of_resolve hline'
    have hoffset' : offset' ≤ buffer'.length :=
      Nat.le_trans hstop' (LineSpan.stop_le_length hs')
    have hlength : offset' - s'.start = offset - s.start := by
      rw [← slice_length hoffset', hsame, slice_length hoffset]
    rw [at?_slice hs' hstart' hstop', hsame, hlength, ← at?_slice hs hstart hstop,
      at?_eq_some hoffset]

/-- A cursor inside a word on a later line, and the same part of a line at the start of a buffer and
behind another break. -/
theorem local_to_line_arrow :
    let buffer := ['a', '.', '\r', '\n', 'x', '-', '>', 'f', 'o', '.']
    LineSpan.resolve buffer 1 = .ok ⟨4, 6⟩ ∧
      LineSpan.resolve ['.', '\u2028', 'x', '-', '>', 'f', '\n'] 1 = .ok ⟨2, 4⟩ ∧
      ∃ completion, at? buffer 8 = some completion ∧
        at? ['x', '-', '>', 'f'] 4 = some completion ∧
        at? ['.', '\u2028', 'x', '-', '>', 'f', '\n'] 6 = some completion := by
  intro buffer
  have hline : LineSpan.resolve buffer 1 = .ok ⟨4, 6⟩ := rfl
  have hline' : LineSpan.resolve ['.', '\u2028', 'x', '-', '>', 'f', '\n'] 1 = .ok ⟨2, 4⟩ := rfl
  obtain ⟨completion, hwhole, hslice, hother⟩ :=
    local_to_line hline (show 4 ≤ 8 by decide) (show 8 ≤ 10 by decide)
  exact ⟨hline, hline', completion, hwhole, hslice,
    hother _ 1 _ 6 hline' (by decide) (by decide) rfl⟩

end EditorCore.Cursor.Completion

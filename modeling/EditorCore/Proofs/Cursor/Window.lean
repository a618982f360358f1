import EditorCore.Proofs.Cursor.Tiling

set_option autoImplicit false

/-! # The window of a scan

A scan reads back from the cursor and stops. Nothing behind the cursor matters to it, and nothing
in front of its first piece does, unless that piece starts with the buffer: whether a run is at its
end, and whether a tip belongs to an arrow, is decided by one character before the piece. So a
buffer can be put behind any other text, and the scan is the same pieces further on
(`scan_depends_on_window`). One step of the argument is one piece (`Piece.Proper.shift`).
-/

namespace EditorCore.Cursor

namespace Piece

/-- The piece, some characters further on. -/
def shift (n : Nat) (p : Piece) : Piece := { p with offset := n + p.offset }

@[simp] theorem shift_kind (n : Nat) (p : Piece) : (p.shift n).kind = p.kind := rfl

@[simp] theorem shift_offset (n : Nat) (p : Piece) : (p.shift n).offset = n + p.offset := rfl

@[simp] theorem shift_stop (n : Nat) (p : Piece) : (p.shift n).stop = n + p.stop :=
  Nat.add_assoc n p.offset p.length

/-- A piece that does not start with the buffer stays one behind another text: the character before
it is the same. -/
theorem Proper.shift {text : List Char} {p : Piece} (h : p.Proper text) (hpos : 0 < p.offset)
    (hle : p.offset ≤ text.length) (front : List Char) :
    (p.shift front.length).Proper (front ++ text) where
  covers := by
    rw [shift_offset, List.drop_length_add_append]
    exact h.covers
  fits := by
    have hne : text.take p.offset ≠ [] := by
      rw [← List.length_pos_iff, List.length_take_of_le hle]
      exact hpos
    have hbefore : charBefore (front ++ text) (front.length + p.offset) =
        charBefore text p.offset := by
      rw [charBefore, charBefore, List.take_length_add_append,
        List.getLast?_append_of_ne_nil _ hne]
    rw [shift_offset, hbefore]
    exact h.fits

end Piece

/-- What stands behind the cursor does not matter. -/
theorem scan_append_right {text : List Char} {offset : Nat} (hle : offset ≤ text.length)
    (back : List Char) : scan (text ++ back) offset = scan text offset := by
  have hle' : offset ≤ (text ++ back).length := by
    rw [List.length_append]
    omega
  rw [← scan_take hle', List.take_append_of_le_length hle, scan_take hle]

/-- What stands before the buffer does not matter to a scan that stops before it gets there. -/
theorem scan_append_left {text : List Char} {offset : Nat} (hle : offset ≤ text.length)
    (hstops : ∃ p ∈ (scan text offset).head?, 0 < p.offset) (front : List Char) :
    scan (front ++ text) (front.length + offset) =
      (scan text offset).map (Piece.shift front.length) := by
  induction offset using Nat.strongRecOn with
  | ind offset ih =>
      rcases Nat.eq_zero_or_pos offset with rfl | hpos
      · rw [scan_zero] at hstops
        simp at hstops
      obtain ⟨p, hp, rfl⟩ := exists_proper hpos hle
      have hscan := scan_stop hp hle
      have hoffset : p.offset ≤ text.length := Nat.le_trans (Nat.le_add_right _ _) hle
      -- A last piece at the start of the buffer would also be the first one.
      have hinside : 0 < p.offset := by
        rcases Nat.eq_zero_or_pos p.offset with hzero | hinside
        · rw [hscan, hzero, scan_zero, ite_self, List.nil_append] at hstops
          simp [hzero] at hstops
        · exact hinside
      have hshift := scan_stop (hp.shift hinside hoffset front)
        (by rw [Piece.shift_stop, List.length_append]; omega)
      rw [Piece.shift_stop, Piece.shift_kind, Piece.shift_offset] at hshift
      rw [hshift, hscan, List.map_append, List.map_singleton]
      by_cases hkind : p.kind.readsOn = true
      · -- The machine has read on, so the first piece is found before this one.
        have hlt : p.offset < p.stop := hp.offset_lt_stop hkind
        have hne : scan text p.offset ≠ [] := by
          intro hnil
          have hzero := (scan_tiling hoffset).nothing hnil
          omega
        rw [hscan, if_pos hkind, List.head?_append_of_ne_nil _ hne] at hstops
        rw [if_pos hkind, if_pos hkind, ih p.offset hlt hoffset hstops]
      · rw [if_neg hkind, if_neg hkind, List.map_nil]

/-- **A scan depends only on the window that it covers.** Text behind the cursor does not change it.
If its first piece does not start with the buffer, text before the buffer only moves it: all pieces
are found again, further on by the length of that text, with the same kinds and texts. -/
theorem scan_depends_on_window (front text back : List Char) {offset : Nat}
    (hle : offset ≤ text.length) :
    scan (text ++ back) offset = scan text offset ∧
    ((∃ p ∈ (scan text offset).head?, 0 < p.offset) →
      scan (front ++ text) (front.length + offset) =
        (scan text offset).map fun p => ⟨p.kind, front.length + p.offset, p.text⟩) := by
  constructor
  · exact scan_append_right hle back
  · intro hstops
    exact scan_append_left hle hstops front

/-- A word behind a break and an arrow that is cut off: text on both sides changes nothing. -/
theorem scan_depends_on_window_arrow :
    let text := ['\n', 'a', '-', '>', '-']
    4 ≤ text.length ∧ scan text 4 = [⟨.word, 1, ['a']⟩, ⟨.rightArrow, 2, ['-', '>']⟩] ∧
      scan (text ++ ['>']) 4 = scan text 4 ∧
      scan (['x', '<'] ++ text) 6 = [⟨.word, 3, ['a']⟩, ⟨.rightArrow, 4, ['-', '>']⟩] := by
  intro text
  have hle : 4 ≤ text.length := by decide
  have hscan : scan text 4 = [⟨.word, 1, ['a']⟩, ⟨.rightArrow, 2, ['-', '>']⟩] := by decide +kernel
  obtain ⟨hback, hfront⟩ := scan_depends_on_window ['x', '<'] text ['>'] hle
  refine ⟨hle, hscan, hback, ?_⟩
  rw [hscan] at hfront
  exact hfront ⟨_, rfl, by decide⟩

/-- A dash that starts the buffer is the end of an arrow behind a tip. -/
example : scan ['-'] 1 = [⟨.unknown, 0, ['-']⟩] ∧
    scan (['<'] ++ ['-']) 2 = [⟨.leftArrow, 0, ['<', '-']⟩] := by
  decide +kernel

end EditorCore.Cursor

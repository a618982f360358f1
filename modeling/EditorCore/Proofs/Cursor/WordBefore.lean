import EditorCore.Proofs.Cursor.Tiling

set_option autoImplicit false

/-! # The word before a cursor

Two readers find the word at a cursor. `wordBefore` walks back as long as it sees word characters;
the scanning machine counts them in its state and completes the word one step late. The walk stops
where the longest run of word characters starts (`take_wordStart`), so both find the same piece
(`readers_agree_on_words`). Where the walk has stopped no word ends any more, which is what a second
reader that starts there relies on.
-/

namespace EditorCore.Cursor

open Text (isWordChar)

/-- The longest run of word characters that ends at an offset. -/
structure LongestWord (buffer : List Char) (offset : Nat) (word : List Char) : Prop where
  /-- It ends at the offset. -/
  suffix : word <:+ buffer.take offset
  chars : ∀ c ∈ word, isWordChar c = true
  /-- Every other such run is the end of it. -/
  longest : ∀ run, run <:+ buffer.take offset → (∀ c ∈ run, isWordChar c = true) → run <:+ word

/-! ## The walk -/

section

variable {buffer : List Char} {offset : Nat}

theorem wordStart_le (buffer : List Char) (offset : Nat) : wordStart buffer offset ≤ offset := by
  induction offset with
  | zero => exact Nat.le_refl 0
  | succ i ih =>
      rw [wordStart]
      split
      · omega
      · omega

/-- The walk stops before the longest run of word characters. -/
theorem take_wordStart (hle : offset ≤ buffer.length) :
    buffer.take (wordStart buffer offset) = (buffer.take offset).rdropWhile isWordChar := by
  induction offset with
  | zero => simp [wordStart]
  | succ i ih =>
      have hi : i < buffer.length := hle
      have htake : buffer.take (i + 1) = buffer.take i ++ [buffer[i]] := by
        rw [List.take_succ_eq_append_getElem hi]
      rw [wordStart, htake, List.rdropWhile_concat, List.getElem?_eq_getElem hi, Option.any_some]
      by_cases hword : isWordChar buffer[i] = true
      · rw [if_pos hword, if_pos hword]
        exact ih (Nat.le_of_lt hi)
      · rw [if_neg hword, if_neg hword, htake]

theorem length_rdropWhile (hle : offset ≤ buffer.length) :
    ((buffer.take offset).rdropWhile isWordChar).length = wordStart buffer offset := by
  have hstart := wordStart_le buffer offset
  rw [← take_wordStart hle, List.length_take_of_le (by omega)]

/-- What the walk has passed is the longest run of word characters. -/
theorem wordBefore_eq_some (hle : offset ≤ buffer.length) :
    wordBefore buffer offset =
      some ⟨.word, wordStart buffer offset, (buffer.take offset).rtakeWhile isWordChar⟩ := by
  have hstart := wordStart_le buffer offset
  have htext : (buffer.drop (wordStart buffer offset)).take (offset - wordStart buffer offset) =
      (buffer.take offset).rtakeWhile isWordChar := by
    -- Both stand behind the same front of the text up to the cursor.
    refine List.append_cancel_left (?_ : (buffer.take offset).rdropWhile isWordChar ++ _ = _)
    calc (buffer.take offset).rdropWhile isWordChar ++
          (buffer.drop (wordStart buffer offset)).take (offset - wordStart buffer offset)
        = buffer.take (wordStart buffer offset) ++
            (buffer.drop (wordStart buffer offset)).take (offset - wordStart buffer offset) := by
          rw [take_wordStart hle]
      _ = buffer.take offset := by rw [← List.take_add, Nat.add_sub_cancel' hstart]
      _ = (buffer.take offset).rdropWhile isWordChar ++
            (buffer.take offset).rtakeWhile isWordChar := List.rdropWhile_append_rtakeWhile.symm
  rw [wordBefore, if_neg (Nat.not_lt.mpr hle)]
  simp only [Piece.cut, htext]

/-- The walk has passed all that is between its end and the cursor. -/
theorem wordStart_add_length (hle : offset ≤ buffer.length) :
    wordStart buffer offset + ((buffer.take offset).rtakeWhile isWordChar).length = offset := by
  have hsplit := List.rdropWhile_append_rtakeWhile (p := isWordChar) (l := buffer.take offset)
  have hlength := congrArg List.length hsplit
  rwa [List.length_append, length_rdropWhile hle, List.length_take_of_le hle] at hlength

/-- A run of word characters at the end of a text is the end of what `rtakeWhile` takes. -/
theorem longestWord_rtakeWhile (buffer : List Char) (offset : Nat) :
    LongestWord buffer offset ((buffer.take offset).rtakeWhile isWordChar) where
  suffix := List.rtakeWhile_suffix isWordChar _
  chars _ hc := List.mem_rtakeWhile_imp hc
  longest run hrun hchars := by
    obtain ⟨front, hfront⟩ := hrun
    rw [← hfront, List.rtakeWhile, List.reverse_append,
      List.takeWhile_append_of_pos (by simpa using hchars), List.reverse_append,
      List.reverse_reverse]
    exact List.suffix_append _ _

end

/-! ## The machine at a word -/

section

variable {buffer : List Char} {offset : Nat}

/-- The character before the end of a piece is the last one of its text. -/
theorem Piece.Proper.charBefore_stop {p : Piece} (h : p.Proper buffer) (hne : p.text ≠ []) :
    charBefore buffer p.stop = some (p.text.getLast hne) := by
  rw [charBefore, h.take_stop, List.getLast?_append_of_ne_nil _ hne,
    List.getLast?_eq_some_getLast hne]

/-- Behind a character of no word, the scan does not end with a word. -/
theorem last_ne_word (hle : offset ≤ buffer.length)
    (hbefore : ∀ c ∈ charBefore buffer offset, isWordChar c = false) :
    ∀ p ∈ (scan buffer offset).getLast?, p.kind ≠ .word := by
  intro p hp hword
  have htiling := scan_tiling hle
  have hproper : p.Proper buffer := htiling.proper p (List.mem_of_getLast? hp)
  have hfits := hproper.fits
  rw [hword] at hfits
  obtain ⟨hne, hchars, -⟩ := hfits
  have hlast := hbefore _ (htiling.stops p hp ▸ hproper.charBefore_stop hne)
  rw [hchars _ (List.getLast_mem hne)] at hlast
  cases hlast

/-- A word at the cursor is all that the scan finds. -/
theorem scan_eq_word (hle : offset ≤ buffer.length)
    (hne : (buffer.take offset).rtakeWhile isWordChar ≠ []) :
    scan buffer offset =
      [⟨.word, wordStart buffer offset, (buffer.take offset).rtakeWhile isWordChar⟩] := by
  have hproper := Piece.proper_of_fits (fits_word hne) (buffer.drop offset)
  rw [List.rdropWhile_append_rtakeWhile, List.take_append_drop, length_rdropWhile hle] at hproper
  have hstop : Piece.stop ⟨.word, wordStart buffer offset,
      (buffer.take offset).rtakeWhile isWordChar⟩ = offset := wordStart_add_length hle
  have hscan := scan_stop hproper (Nat.le_trans (Nat.le_of_eq hstop) hle)
  rwa [hstop] at hscan

/-- Where the walk has stopped no word ends. -/
theorem last_ne_word_wordStart (hle : offset ≤ buffer.length) :
    ∀ p ∈ (scan buffer (wordStart buffer offset)).getLast?, p.kind ≠ .word := by
  refine last_ne_word (Nat.le_trans (wordStart_le buffer offset) hle) ?_
  rw [charBefore, take_wordStart hle]
  exact getLast?_rdropWhile isWordChar _

end

/-- **The two readers agree on words.** Outside the buffer neither finds anything. At every cursor
in it the walk gives the longest run of word characters that ends there. If there is one, the scan
finds that piece and nothing else; if there is none, the scan does not end with a word. From where
the walk has stopped no word is found in either case. -/
theorem readers_agree_on_words (buffer : List Char) (offset : Nat) :
    (buffer.length < offset → wordBefore buffer offset = none ∧ scan buffer offset = []) ∧
    (offset ≤ buffer.length → ∃ t, wordBefore buffer offset = some t ∧ t.kind = .word ∧
      t.stop = offset ∧ LongestWord buffer offset t.text ∧
      (t.text ≠ [] → scan buffer offset = [t]) ∧
      (t.text = [] → ∀ p ∈ (scan buffer offset).getLast?, p.kind ≠ .word) ∧
      ∀ p ∈ (scan buffer t.offset).getLast?, p.kind ≠ .word) := by
  constructor
  · intro hlt
    rw [wordBefore, scan, if_pos hlt, if_pos hlt]
    exact ⟨rfl, rfl⟩
  · intro hle
    have hlast := last_ne_word_wordStart hle
    have hstop := wordStart_add_length hle
    refine ⟨_, wordBefore_eq_some hle, rfl, hstop, longestWord_rtakeWhile buffer offset,
      scan_eq_word hle, ?_, hlast⟩
    -- Without a word the walk has not moved.
    intro hempty
    have hlength := congrArg List.length hempty
    simp only [List.length_nil] at hlength
    rw [hlength, Nat.add_zero] at hstop
    rwa [hstop] at hlast

/-- In the middle of a word the readers find its first part, and before it a dot. -/
example :
    wordBefore ['a', '.', 'b', '_', '2'] 4 = some ⟨.word, 2, ['b', '_']⟩ ∧
      (scan ['a', '.', 'b', '_', '2'] 2).map (·.kind) = [.word, .dot] := by
  decide +kernel

end EditorCore.Cursor

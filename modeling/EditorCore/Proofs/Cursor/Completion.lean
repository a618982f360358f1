import EditorCore.Cursor.Completion
import EditorCore.Proofs.Cursor.WordBefore

set_option autoImplicit false

/-! # What a completion request means

A request is answered by two backward readers, one for the typed word and one for what stands before
it. What they come to can be said about the text alone. Take away the longest word at the cursor,
then the longest blank: how the rest ends decides what is completed. After a dot the same two steps,
the blank first, give the receiver.
-/

namespace EditorCore.Cursor.Completion

open Text (isWordChar isBlank)

/-! ## The pieces before the end of a text -/

/-- The pieces of a text, nearest to its end first and without blanks. -/
def nearest (text : List Char) : List Piece :=
  ((scan text text.length).filter fun p => p.kind != .blank).reverse

theorem nearest_nil : nearest [] = [] := by
  rw [nearest, List.length_nil, scan_zero]
  rfl

/-- The scan of a text that ends in a text of a kind. -/
theorem scan_append_of_fits {kind : Kind} {front text : List Char}
    (h : kind.Fits front.getLast? text) :
    scan (front ++ text) (front ++ text).length =
      (if kind.readsOn then scan front front.length else []) ++ [⟨kind, front.length, text⟩] := by
  have hp : (⟨kind, front.length, text⟩ : Piece).Proper (front ++ text) := by
    simpa using Piece.proper_of_fits h []
  have hstop : (front ++ text).length = (⟨kind, front.length, text⟩ : Piece).stop :=
    List.length_append
  have hfront : scan (front ++ text) front.length = scan front front.length := by
    rw [← scan_take (by simp), List.take_left]
  rw [hstop, scan_stop hp (Nat.le_of_eq hstop.symm), hfront]

theorem nearest_append {kind : Kind} {front text : List Char} (h : kind.Fits front.getLast? text)
    (hkind : kind ≠ .blank) :
    nearest (front ++ text) =
      ⟨kind, front.length, text⟩ :: if kind.readsOn then nearest front else [] := by
  rw [nearest, scan_append_of_fits h]
  cases hreads : kind.readsOn <;> simp [nearest, hkind]

theorem nearest_append_blank {front text : List Char} (h : Kind.blank.Fits front.getLast? text) :
    nearest (front ++ text) = nearest front := by
  rw [nearest, scan_append_of_fits h]
  simp [nearest, Kind.readsOn]

/-- Blanks at the end of a text do not matter. -/
theorem nearest_rdropWhile (text : List Char) :
    nearest (text.rdropWhile isBlank) = nearest text := by
  by_cases h : text.rtakeWhile isBlank = []
  · have hsplit := List.rdropWhile_append_rtakeWhile (p := isBlank) (l := text)
    rw [h, List.append_nil] at hsplit
    rw [hsplit]
  · rw [← nearest_append_blank (fits_blank h), List.rdropWhile_append_rtakeWhile]

/-! ## The two readers -/

theorem at?_eq_none_iff (buffer : List Char) (offset : Nat) :
    at? buffer offset = none ↔ buffer.length < offset := by
  rw [at?, Option.map_eq_none_iff, wordBefore]
  simp

/-- The second reader starts where the first has stopped. -/
theorem at?_eq_some {buffer : List Char} {offset : Nat} (hle : offset ≤ buffer.length) :
    at? buffer offset = some (after ((buffer.take offset).rtakeWhile isWordChar)
      (nearest ((buffer.take offset).rdropWhile isWordChar))) := by
  have hstart : wordStart buffer offset ≤ buffer.length :=
    Nat.le_trans (wordStart_le buffer offset) hle
  have hscan : scan buffer (wordStart buffer offset) =
      scan ((buffer.take offset).rdropWhile isWordChar)
        ((buffer.take offset).rdropWhile isWordChar).length := by
    rw [length_rdropWhile hle, ← take_wordStart hle, scan_take hstart]
  rw [at?, wordBefore_eq_some hle, Option.map_some, hscan]
  rfl

/-! ## How the text before the typed word ends -/

/-- A text that ends in a run of a class ends in a character of the class. -/
theorem exists_getLast?_append {p : Char → Bool} (front : List Char) {text : List Char}
    (hne : text ≠ []) (hall : ∀ c ∈ text, p c = true) :
    ∃ c ∈ (front ++ text).getLast?, p c = true := by
  refine ⟨text.getLast hne, ?_, hall _ (List.getLast_mem hne)⟩
  rw [List.getLast?_append_of_ne_nil _ hne]
  exact List.getLast?_eq_some_getLast hne

/-- The receiver is the word at the end of the text, blanks left out. -/
theorem receiver_nearest (text : List Char) :
    receiver (nearest text).head? =
      if (text.rdropWhile isBlank).rtakeWhile isWordChar = [] then none
      else some ((text.rdropWhile isBlank).rtakeWhile isWordChar) := by
  rw [← nearest_rdropWhile]
  have hblank := getLast?_rdropWhile isBlank text
  generalize text.rdropWhile isBlank = object at hblank ⊢
  by_cases hname : object.rtakeWhile isWordChar = []
  · rw [if_pos hname]
    -- The object ends neither in a word nor in a blank, so its last piece is of another kind.
    have hword : ∀ c ∈ object.getLast?, isWordChar c = false := by
      intro c hc
      rw [← List.rdropWhile_append_rtakeWhile (p := isWordChar) (l := object), hname,
        List.append_nil] at hc
      exact getLast?_rdropWhile isWordChar object c hc
    by_cases hobject : object = []
    · rw [hobject, nearest_nil]
      rfl
    · obtain ⟨kind, front, piece, rfl, hfits⟩ := exists_fits hobject
      cases kind with
      | word =>
          obtain ⟨c, hc, hcword⟩ := exists_getLast?_append front hfits.1 hfits.2.1
          rw [hword c hc] at hcword
          cases hcword
      | blank =>
          obtain ⟨c, hc, hcblank⟩ := exists_getLast?_append front hfits.1 hfits.2.1
          rw [hblank c hc] at hcblank
          cases hcblank
      | lineStart | leftArrow | rightArrow | dot | unknown =>
          rw [nearest_append hfits (by decide)]
          rfl
  · have hnearest := nearest_append (fits_word hname) (by decide)
    rw [List.rdropWhile_append_rtakeWhile] at hnearest
    rw [if_neg hname, hnearest]
    rfl

theorem after_nearest_dot (typed object : List Char) :
    after typed (nearest (object ++ ['.'])) = member (receiver (nearest object).head?) typed := by
  have hfits : Kind.dot.Fits object.getLast? ['.'] := rfl
  rw [nearest_append hfits (by decide)]
  rfl

theorem after_nearest_rightArrow (typed front : List Char) :
    after typed (nearest (front ++ ['-', '>'])) = wiring .forward typed := by
  have hfits : Kind.rightArrow.Fits front.getLast? ['-', '>'] := rfl
  rw [nearest_append hfits (by decide)]
  rfl

theorem after_nearest_leftArrow (typed front : List Char) :
    after typed (nearest (front ++ ['<', '-'])) = wiring .backward typed := by
  have hfits : Kind.leftArrow.Fits front.getLast? ['<', '-'] := rfl
  rw [nearest_append hfits (by decide)]
  rfl

theorem after_nearest_other (typed : List Char) {stem : List Char}
    (hblank : ∀ c ∈ stem.getLast?, isBlank c = false) (hdot : ¬ ['.'] <:+ stem)
    (hright : ¬ ['-', '>'] <:+ stem) (hleft : ¬ ['<', '-'] <:+ stem) :
    after typed (nearest stem) = plain typed := by
  by_cases hstem : stem = []
  · rw [hstem, nearest_nil]
    rfl
  · obtain ⟨kind, front, piece, rfl, hfits⟩ := exists_fits hstem
    cases kind with
    | blank =>
        obtain ⟨c, hc, hcblank⟩ := exists_getLast?_append front hfits.1 hfits.2.1
        rw [hblank c hc] at hcblank
        cases hcblank
    | dot =>
        obtain rfl := hfits
        exact absurd (List.suffix_append _ _) hdot
    | rightArrow =>
        obtain rfl := hfits
        exact absurd (List.suffix_append _ _) hright
    | leftArrow =>
        obtain rfl := hfits
        exact absurd (List.suffix_append _ _) hleft
    | word | lineStart | unknown =>
        rw [nearest_append hfits (by decide)]
        rfl

/-- Texts with different last characters are not both the end of one text. -/
theorem not_suffix_of_suffix (init init' : List Char) {stem : List Char} {c c' : Char}
    (hc : c ≠ c') (h : init ++ [c] <:+ stem) : ¬ init' ++ [c'] <:+ stem := by
  rintro ⟨front', rfl⟩
  obtain ⟨front, hfront⟩ := h
  have hlast := congrArg List.getLast? hfront
  simp only [← List.append_assoc, List.getLast?_append, List.getLast?_singleton,
    Option.some_or] at hlast
  exact hc (Option.some.inj hlast)

/-- What is completed, by how the text before the typed word and its blanks ends. -/
theorem after_nearest_cases (typed : List Char) {stem : List Char}
    (hblank : ∀ c ∈ stem.getLast?, isBlank c = false) :
    (['.'] <:+ stem ∧ ¬ ['-', '>'] <:+ stem ∧ ¬ ['<', '-'] <:+ stem ∧
        after typed (nearest stem) = member (receiver (nearest stem.dropLast).head?) typed) ∨
      (¬ ['.'] <:+ stem ∧ ['-', '>'] <:+ stem ∧ ¬ ['<', '-'] <:+ stem ∧
        after typed (nearest stem) = wiring .forward typed) ∨
      (¬ ['.'] <:+ stem ∧ ¬ ['-', '>'] <:+ stem ∧ ['<', '-'] <:+ stem ∧
        after typed (nearest stem) = wiring .backward typed) ∨
      (¬ ['.'] <:+ stem ∧ ¬ ['-', '>'] <:+ stem ∧ ¬ ['<', '-'] <:+ stem ∧
        after typed (nearest stem) = plain typed) := by
  by_cases hdot : ['.'] <:+ stem
  · have hright : ¬ ['-', '>'] <:+ stem := not_suffix_of_suffix [] ['-'] (by decide) hdot
    have hleft : ¬ ['<', '-'] <:+ stem := not_suffix_of_suffix [] ['<'] (by decide) hdot
    refine .inl ⟨hdot, hright, hleft, ?_⟩
    obtain ⟨object, rfl⟩ := hdot
    rw [List.dropLast_concat, after_nearest_dot]
  by_cases hright : ['-', '>'] <:+ stem
  · have hleft : ¬ ['<', '-'] <:+ stem := not_suffix_of_suffix ['-'] ['<'] (by decide) hright
    refine .inr (.inl ⟨hdot, hright, hleft, ?_⟩)
    obtain ⟨front, rfl⟩ := hright
    exact after_nearest_rightArrow typed front
  by_cases hleft : ['<', '-'] <:+ stem
  · refine .inr (.inr (.inl ⟨hdot, hright, hleft, ?_⟩))
    obtain ⟨front, rfl⟩ := hleft
    exact after_nearest_leftArrow typed front
  · exact .inr (.inr (.inr ⟨hdot, hright, hleft,
      after_nearest_other typed hblank hdot hright hleft⟩))

/-- **A completion request, by the text before the cursor alone.** There is none exactly for a
cursor outside the buffer. Else the typed part is the longest word at the cursor, and the stem is
what stands before it less the longest blank: a member is completed exactly if the stem ends in a
dot, its receiver being the word before the dot and its blanks, if there is one; an endpoint of a
wiring if the stem ends in an arrow of that direction; and a plain name in all other cases. -/
theorem declarative_meaning (buffer : List Char) (offset : Nat) :
    (at? buffer offset = none ↔ buffer.length < offset) ∧
    let text := buffer.take offset
    let typed := text.rtakeWhile isWordChar
    let stem := (text.rdropWhile isWordChar).rdropWhile isBlank
    let name := (stem.dropLast.rdropWhile isBlank).rtakeWhile isWordChar
    (∀ receiver t, at? buffer offset = some (member receiver t) ↔
      offset ≤ buffer.length ∧ ['.'] <:+ stem ∧
        receiver = (if name = [] then none else some name) ∧ t = typed) ∧
    (∀ t, at? buffer offset = some (wiring .forward t) ↔
      offset ≤ buffer.length ∧ ['-', '>'] <:+ stem ∧ t = typed) ∧
    (∀ t, at? buffer offset = some (wiring .backward t) ↔
      offset ≤ buffer.length ∧ ['<', '-'] <:+ stem ∧ t = typed) ∧
    (∀ t, at? buffer offset = some (plain t) ↔
      offset ≤ buffer.length ∧ ¬ ['.'] <:+ stem ∧ ¬ ['-', '>'] <:+ stem ∧ ¬ ['<', '-'] <:+ stem ∧
        t = typed) := by
  refine ⟨at?_eq_none_iff buffer offset, ?_⟩
  intro text typed stem name
  by_cases hle : offset ≤ buffer.length
  · have hat : at? buffer offset = some (after typed (nearest stem)) := by
      rw [at?_eq_some hle, ← nearest_rdropWhile]
    have hblank : ∀ c ∈ stem.getLast?, isBlank c = false := getLast?_rdropWhile isBlank _
    have hname : receiver (nearest stem.dropLast).head? = if name = [] then none else some name :=
      receiver_nearest stem.dropLast
    clear_value name stem typed
    rcases after_nearest_cases typed hblank with
      ⟨hdot, hright, hleft, h⟩ | ⟨hdot, hright, hleft, h⟩ | ⟨hdot, hright, hleft, h⟩ |
      ⟨hdot, hright, hleft, h⟩
    all_goals simp [hat, h, hname, hle, hdot, hright, hleft, eq_comm]
  · have hat : at? buffer offset = none := (at?_eq_none_iff buffer offset).mpr (Nat.not_le.mp hle)
    simp [hat, hle]

end EditorCore.Cursor.Completion

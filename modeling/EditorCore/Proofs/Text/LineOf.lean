import EditorCore.Proofs.Text.LineStarts

set_option autoImplicit false

/-! # The line of a character

Every character of a text is on one line, the characters of a break on the line that they end. Lines
and offsets grow together, so the lines that a stretch of text takes are those from the line of its
first character to the line of its last one (`exists_holds_iff`). How many these are can be read off
the stretch itself: reading it forward from inside a line leads to as many lines further down as it
has breaks (`Starts.read`).
-/

namespace EditorCore

/-- A break of a text is whole also in a longer text, unless the text ends between the two
characters of a break. -/
theorem Text.WholeBreak.append {ending rest back : List Char} (h : WholeBreak ending rest)
    (hwhole : (ending ++ rest).getLast? = some '\r' → back.head? ≠ some '\n') :
    WholeBreak ending (rest ++ back) := by
  cases h with
  | pair => exact .pair
  | single hbreak hnext =>
      refine .single hbreak ?_
      rintro rfl
      cases rest with
      | nil => exact hwhole rfl
      | cons c rest => exact hnext rfl

namespace LineSpan

variable {text : List Char} {line line' i i' : Nat} {s s' : LineSpan}

/-- The character at the offset is on the line: the line starts at or before it, and the next line,
if there is one, behind it. -/
def Holds (text : List Char) (line i : Nat) : Prop :=
  i < text.length ∧ ∃ s, resolve text line = .ok s ∧ s.start ≤ i ∧
    ∀ s', resolve text (line + 1) = .ok s' → i < s'.start

/-- The lines above a line are there too, and start before it. -/
theorem exists_resolve_of_le (hle : line ≤ line') (hs' : resolve text line' = .ok s') :
    ∃ s, resolve text line = .ok s ∧ s.start ≤ s'.start := by
  rcases Nat.eq_or_lt_of_le hle with rfl | hlt
  · exact ⟨s', hs', Nat.le_refl _⟩
  · obtain ⟨hbound, -⟩ := List.getElem?_eq_some_iff.mp (resolve_eq_ok_iff.mp hs')
    have hs : resolve text line = .ok (all text)[line] :=
      resolve_eq_ok_iff.mpr (List.getElem?_eq_getElem (Nat.lt_trans hlt hbound))
    have hbefore := stop_lt_start_of_lt hlt hs hs'
    rw [stop] at hbefore
    exact ⟨_, hs, by omega⟩

/-- The content of a line is on it, and so is the character behind it. -/
theorem holds_of_resolve (hs : resolve text line = .ok s) (hstart : s.start ≤ i)
    (hstop : i ≤ s.stop) (hlength : i < text.length) : Holds text line i := by
  refine ⟨hlength, s, hs, hstart, ?_⟩
  intro s' hs'
  exact Nat.lt_of_le_of_lt hstop (stop_lt_start_of_lt (Nat.lt_succ_self line) hs hs')

theorem Holds.lt_start (h : Holds text line i) (hlt : line < line')
    (hs' : resolve text line' = .ok s') : i < s'.start := by
  obtain ⟨-, -, -, -, hnext⟩ := h
  obtain ⟨next, hresolve, hle⟩ := exists_resolve_of_le hlt hs'
  exact Nat.lt_of_lt_of_le (hnext next hresolve) hle

/-- Lines and offsets grow together. -/
theorem Holds.line_le (h : Holds text line i) (h' : Holds text line' i') (hle : i ≤ i') :
    line ≤ line' := by
  obtain ⟨-, s, hs, hstart, -⟩ := h
  refine Nat.le_of_not_lt fun hlt => ?_
  have hbehind := h'.lt_start hlt hs
  omega

/-- A character is on one line only. -/
theorem Holds.line_unique (h : Holds text line i) (h' : Holds text line' i) : line = line' :=
  Nat.le_antisymm (h.line_le h' (Nat.le_refl i)) (h'.line_le h (Nat.le_refl i))

/-- The lines of a stretch of text are those from the line of its first character to the line of its
last one. -/
theorem exists_holds_iff {first last a b : Nat} (hfirst : Holds text first a)
    (hlast : Holds text last b) (hab : a ≤ b) (line : Nat) :
    (∃ i, a ≤ i ∧ i ≤ b ∧ Holds text line i) ↔ first ≤ line ∧ line ≤ last := by
  constructor
  · rintro ⟨i, hlow, hhigh, h⟩
    exact ⟨hfirst.line_le h hlow, h.line_le hlast hhigh⟩
  · rintro ⟨hlow, hhigh⟩
    rcases Nat.eq_or_lt_of_le hlow with rfl | hlt
    · exact ⟨a, Nat.le_refl a, hab, hfirst⟩
    · -- A line below the first one starts inside the stretch.
      obtain ⟨hlength, t, ht, htstart, -⟩ := hlast
      obtain ⟨s, hs, hle⟩ := exists_resolve_of_le hhigh ht
      have hafter := hfirst.lt_start hlt hs
      refine ⟨s.start, by omega, by omega, ?_⟩
      exact holds_of_resolve hs (Nat.le_refl _) (Nat.le_add_right _ _) (by omega)

/-- What is left of a stretch of text ends where the stretch ends. -/
theorem whole_of_append (front : List Char) {rest back : List Char}
    (h : (front ++ rest).getLast? = some '\r' → back.head? ≠ some '\n') :
    rest.getLast? = some '\r' → back.head? ≠ some '\n' := by
  intro hlast
  refine h ?_
  rw [List.getLast?_append, hlast]
  rfl

/-- Reading a stretch of text forward from inside a line ends inside a line, as many lines further
down as the stretch has breaks. It must not end between the two characters of one break. -/
theorem Starts.read {front body back : List Char} {start : Nat} (h : Starts text line start)
    (hfront : ∀ c ∈ front, Text.isBreak c = false)
    (htext : text.drop start = front ++ (body ++ back))
    (hwhole : body.getLast? = some '\r' → back.head? ≠ some '\n') :
    ∃ start' front', Starts text (line + (Text.lineCount body - 1)) start' ∧
      (∀ c ∈ front', Text.isBreak c = false) ∧ text.drop start' = front' ++ back ∧
      start' + front'.length = start + front.length + body.length := by
  induction body using Text.breakInduction generalizing line start front with
  | nil => exact ⟨start, front, h, hfront, htext, rfl⟩
  | char c rest hc ih =>
      -- The character joins the part of the line that has been read.
      have hplain : ∀ a ∈ front ++ [c], Text.isBreak a = false :=
        List.forall_mem_append.mpr ⟨hfront, List.forall_mem_singleton.mpr hc⟩
      have hlayout : text.drop start = (front ++ [c]) ++ (rest ++ back) := by
        rw [htext, List.append_assoc]
        rfl
      obtain ⟨start', front', hstarts, hplain', hback, hlength⟩ :=
        ih h hplain hlayout (whole_of_append [c] hwhole)
      refine ⟨start', front', ?_, hplain', hback, ?_⟩
      · rwa [Text.lineCount_cons hc]
      · rw [hlength, List.length_append, List.length_singleton, List.length_cons]
        omega
  | ended ending rest hending ih =>
      have hlayout : text.drop start = front ++ (ending ++ (rest ++ back)) := by
        rw [htext, List.append_assoc]
      obtain ⟨-, hnext, hdrop⟩ := h.next hfront (hending.append hwhole) hlayout
      obtain ⟨start', front', hstarts, hplain', hback, hlength⟩ :=
        ih hnext (by simp) (hdrop.trans (List.nil_append _).symm) (whole_of_append ending hwhole)
      refine ⟨start', front', ?_, hplain', hback, ?_⟩
      · have hpos := Text.lineCount_pos rest
        rw [Text.lineCount_break hending]
        rwa [show line + (Text.lineCount rest + 1 - 1) = line + 1 + (Text.lineCount rest - 1) by
          omega]
      · rw [hlength, List.length_nil, List.length_append]
        omega

end LineSpan

end EditorCore

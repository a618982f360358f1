import EditorCore.Proofs.Cursor.Pieces
import Mathlib.Data.List.Chain

set_option autoImplicit false

/-! # The scan as a tiling

The text before a cursor can be covered by pieces that fit, one right after the other, in one way
only. `Tiling` says what such a cover is, without the machine: the pieces touch, the last one ends
at the cursor, and reading backward went on until a word, the start of a line or something unknown,
or else until the start of the buffer. The scan is such a cover (`scan_tiling`), and the only one
(`Tiling.eq_scan`). Both directions go from the last piece to the first, as the machine does: what
the last piece is, is decided by the text alone, and what stands before it is a tiling of a shorter
text.
-/

namespace EditorCore.Cursor

/-- The pieces tile the text up to a cursor, as far back as it is read. -/
structure Tiling (buffer : List Char) (offset : Nat) (pieces : List Piece) : Prop where
  /-- Every piece has the text that it covers, and the text is of its kind. -/
  proper : ∀ p ∈ pieces, p.Proper buffer
  /-- A piece ends where the next one starts. -/
  adjacent : pieces.IsChain fun p q => p.stop = q.offset
  /-- The last piece ends at the cursor. -/
  stops : ∀ p ∈ pieces.getLast?, p.stop = offset
  /-- Only the first piece may be a word, the start of a line or unknown. -/
  inner : ∀ p ∈ pieces.tail, p.kind.readsOn = true
  /-- A first piece that is none of these starts with the buffer. -/
  reaches : ∀ p ∈ pieces.head?, p.kind.readsOn = true → p.offset = 0
  /-- There are no pieces only if the cursor is at the start of the buffer. -/
  nothing : pieces = [] → offset = 0

namespace Tiling

variable {buffer : List Char} {offset : Nat} {pieces : List Piece} {p : Piece}

/-! ## Building a tiling -/

theorem nil (buffer : List Char) : Tiling buffer 0 [] where
  proper := by simp
  adjacent := .nil
  stops := by simp
  inner := by simp
  reaches := by simp
  nothing _ := rfl

theorem singleton (h : p.Proper buffer) (hkind : p.kind.readsOn = true → p.offset = 0) :
    Tiling buffer p.stop [p] where
  proper := by simpa using h
  adjacent := .singleton p
  stops := by simp
  inner := by simp
  reaches := by simpa using hkind
  nothing h := by cases h

/-- A piece before which the machine reads on lengthens the tiling of what it reads. -/
theorem append_singleton (h : Tiling buffer p.offset pieces) (hp : p.Proper buffer)
    (hkind : p.kind.readsOn = true) : Tiling buffer p.stop (pieces ++ [p]) := by
  by_cases hne : pieces = []
  · subst hne
    exact singleton hp fun _ => h.nothing rfl
  · refine ⟨?_, ?_, by simp, ?_, ?_, by simp⟩
    · intro q hq
      rcases List.mem_append.mp hq with hq | hq
      · exact h.proper q hq
      · rw [List.mem_singleton.mp hq]
        exact hp
    · refine List.isChain_append.mpr ⟨h.adjacent, .singleton p, ?_⟩
      intro q hq r hr
      rw [← Option.some.inj hr]
      exact h.stops q hq
    · intro q hq
      rw [List.tail_append_of_ne_nil hne] at hq
      rcases List.mem_append.mp hq with hq | hq
      · exact h.inner q hq
      · rw [List.mem_singleton.mp hq]
        exact hkind
    · intro q hq
      rw [List.head?_append_of_ne_nil _ hne] at hq
      exact h.reaches q hq

/-! ## Taking a tiling apart -/

/-- Without a last piece before which the machine reads on, a tiling up to that piece is left. -/
theorem of_append_singleton (h : Tiling buffer offset (pieces ++ [p]))
    (hkind : p.kind.readsOn = true) : Tiling buffer p.offset pieces where
  proper q hq := h.proper q (List.mem_append_left _ hq)
  adjacent := h.adjacent.left_of_append
  stops q hq := (List.isChain_append.mp h.adjacent).2.2 q hq p rfl
  inner q hq := by
    cases pieces with
    | nil => cases hq
    | cons r rs => exact h.inner q (List.mem_append_left _ hq)
  reaches q hq := by
    cases pieces with
    | nil => cases hq
    | cons r rs => exact h.reaches q hq
  nothing hnil := by
    subst hnil
    exact h.reaches p rfl hkind

/-- Without a last piece of another kind, nothing is left. -/
theorem eq_nil_of_append_singleton (h : Tiling buffer offset (pieces ++ [p]))
    (hkind : p.kind.readsOn = false) : pieces = [] := by
  cases pieces with
  | nil => rfl
  | cons r rs =>
      have hp := h.inner p (List.mem_append_right rs (List.mem_singleton_self p))
      rw [hkind] at hp
      cases hp

/-- What tiles the text is what the scan finds. -/
theorem eq_scan (h : Tiling buffer offset pieces) (hle : offset ≤ buffer.length) :
    pieces = scan buffer offset := by
  -- The last piece is the one that the scan ends with, and those before it tile a shorter text.
  induction pieces using List.reverseRecOn generalizing offset with
  | nil => rw [h.nothing rfl, scan_zero]
  | append_singleton init p ih =>
      have hp : p.Proper buffer := h.proper p (List.mem_append_right _ (List.mem_singleton_self p))
      obtain rfl : p.stop = offset := h.stops p (by simp)
      rw [scan_stop hp hle]
      by_cases hkind : p.kind.readsOn = true
      · have hoffset : p.offset ≤ buffer.length := Nat.le_trans (Nat.le_add_right _ _) hle
        rw [if_pos hkind, ← ih (h.of_append_singleton hkind) hoffset]
      · rw [if_neg hkind, h.eq_nil_of_append_singleton (by simpa using hkind)]

end Tiling

/-- What the scan finds tiles the text. -/
theorem scan_tiling {buffer : List Char} {offset : Nat} (hle : offset ≤ buffer.length) :
    Tiling buffer offset (scan buffer offset) := by
  induction offset using Nat.strongRecOn with
  | ind offset ih =>
      rcases Nat.eq_zero_or_pos offset with rfl | hpos
      · rw [scan_zero]
        exact Tiling.nil buffer
      · obtain ⟨p, hp, rfl⟩ := exists_proper hpos hle
        rw [scan_stop hp hle]
        by_cases hkind : p.kind.readsOn = true
        · have hlt : p.offset < p.stop := hp.offset_lt_stop hkind
          rw [if_pos hkind]
          exact (ih p.offset hlt (Nat.le_trans (Nat.le_of_lt hlt) hle)).append_singleton hp hkind
        · rw [if_neg hkind]
          exact Tiling.singleton hp fun h => absurd h hkind

/-- **The scan is the one tiling of the text before the cursor.** For every buffer and every cursor
in it, some pieces tile the text up to the cursor, and they are those that the scan finds. -/
theorem tiling_iff_eq_scan {buffer : List Char} {offset : Nat} (hle : offset ≤ buffer.length)
    (pieces : List Piece) : Tiling buffer offset pieces ↔ pieces = scan buffer offset := by
  constructor
  · intro h
    exact h.eq_scan hle
  · rintro rfl
    exact scan_tiling hle

/-- Of two arrows that share their dash, the nearer one is an arrow and the other one's tip is
unknown. -/
theorem tiling_iff_eq_scan_shared_dash :
    4 ≤ ['<', '-', '>', '.'].length ∧
      [⟨.unknown, 0, ['<']⟩, ⟨.rightArrow, 1, ['-', '>']⟩, ⟨.dot, 3, ['.']⟩] =
        scan ['<', '-', '>', '.'] 4 := by
  refine ⟨by decide, (tiling_iff_eq_scan (by decide) _).mp ⟨?_, ?_, ?_, ?_, ?_, ?_⟩⟩
  · intro p hp
    simp only [List.mem_cons, List.not_mem_nil, or_false] at hp
    rcases hp with rfl | rfl | rfl
    · exact ⟨rfl, '<', rfl, by decide, by decide, by decide, by decide, by decide, by decide⟩
    · exact ⟨rfl, rfl⟩
    · exact ⟨rfl, rfl⟩
  all_goals decide

end EditorCore.Cursor

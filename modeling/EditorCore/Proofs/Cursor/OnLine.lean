import EditorCore.Proofs.Cursor.Tiling
import EditorCore.Proofs.Text.Partition

set_option autoImplicit false

/-! # The scan stays on the line of the cursor

The machine knows nothing of lines. It stops at break characters one by one, in whatever state it
is; the buffer counts a carriage return with its line feed as one break. The two meet at the start
of the line of the cursor: right before it stands a break, and between it and the cursor there is
none. No piece holds a break, so none reaches over the start of the line (`start_le_offset`), and
whether the machine leaves its mark there is only a matter of how far it has read
(`scan_stays_on_line`).
-/

namespace EditorCore.Cursor

open Text (isBreak)

/-- No piece holds a line break. -/
theorem Kind.Fits.isBreak_eq_false {kind : Kind} {prev : Option Char} {text : List Char}
    (h : kind.Fits prev text) : ∀ c ∈ text, isBreak c = false := by
  intro c hc
  cases kind with
  | word =>
      by_contra hbreak
      have hword := Text.isWordChar_of_isBreak (Bool.not_eq_false _ ▸ hbreak)
      rw [h.2.1 c hc] at hword
      cases hword
  | blank => exact ((Text.isBlank_iff c).mp (h.2.1 c hc)).2
  | lineStart =>
      rw [h.1] at hc
      cases hc
  | unknown =>
      obtain ⟨d, rfl, -, -, hbreak, -⟩ := h
      rw [List.mem_singleton.mp hc]
      exact hbreak
  | dot | leftArrow | rightArrow =>
      obtain rfl : text = _ := h
      simp only [List.mem_cons, List.not_mem_nil, or_false] at hc
      rcases hc with rfl | rfl <;> decide

theorem charBefore_eq_getElem? {buffer : List Char} {offset : Nat} (hpos : 0 < offset)
    (hle : offset ≤ buffer.length) : charBefore buffer offset = buffer[offset - 1]? := by
  rw [charBefore, List.getLast?_eq_getElem?, List.length_take_of_le hle,
    List.getElem?_take_of_lt (by omega)]

/-- What stands in a piece stands in the buffer. -/
theorem Piece.Proper.getElem?_text {buffer : List Char} {p : Piece} (h : p.Proper buffer) {i : Nat}
    (hstart : p.offset ≤ i) (hstop : i < p.stop) : p.text[i - p.offset]? = buffer[i]? := by
  have hlt : i - p.offset < p.length := by
    rw [Piece.stop] at hstop
    omega
  rw [h.covers, List.getElem?_take_of_lt hlt, List.getElem?_drop, Nat.add_sub_cancel' hstart]

/-! ## The start of the line -/

section

variable {buffer : List Char} {line : Nat} {s : LineSpan}
variable (hs : LineSpan.resolve buffer line = .ok s)
include hs

theorem start_pos_iff : 0 < s.start ↔ 0 < line := by
  constructor
  · intro hpos
    rcases Nat.eq_zero_or_pos line with rfl | hline
    · have hzero := LineSpan.start_of_resolve_zero hs
      omega
    · exact hline
  · intro hline
    obtain ⟨first, hfirst, -⟩ := LineSpan.exists_resolve_of_le (Nat.zero_le line) hs
    have hlt := LineSpan.stop_lt_start_of_lt hline hfirst hs
    omega

/-- A line that does not start the buffer starts behind a break. -/
theorem exists_break_before_start (hpos : 0 < s.start) :
    ∃ c, buffer[s.start - 1]? = some c ∧ isBreak c = true := by
  have hmem := LineSpan.mem_all_of_resolve hs
  have hle : s.start ≤ buffer.length :=
    Nat.le_trans s.start_le_stop (LineSpan.stop_le_length hmem)
  have hlt : s.start - 1 < buffer.length := by omega
  have hchar : buffer[s.start - 1]? = some buffer[s.start - 1] := List.getElem?_eq_getElem hlt
  refine ⟨_, hchar, LineSpan.isBreak_before_start hmem _ ?_⟩
  exact (charBefore_eq_getElem? hpos hle).trans hchar

/-- A piece that ends on a line starts on it. -/
theorem start_le_offset {p : Piece} (hp : p.Proper buffer) (hstart : s.start ≤ p.stop) :
    s.start ≤ p.offset := by
  by_contra hlt
  obtain ⟨c, hc, hbreak⟩ := exists_break_before_start hs (by omega)
  -- The break before the line would be a character of the piece.
  have htext : p.text[s.start - 1 - p.offset]? = some c := by
    rw [hp.getElem?_text (by omega) (by omega), hc]
  rw [hp.fits.isBreak_eq_false c (List.mem_of_getElem? htext)] at hbreak
  cases hbreak

/-- The scan does not leave the line. -/
theorem scan_within {offset : Nat} (hstart : s.start ≤ offset) (hle : offset ≤ buffer.length) :
    ∀ p ∈ scan buffer offset, s.start ≤ p.offset ∧ p.stop ≤ offset := by
  induction offset using Nat.strongRecOn with
  | ind offset ih =>
      rcases Nat.eq_zero_or_pos offset with rfl | hpos
      · rw [scan_zero]
        simp
      obtain ⟨q, hq, rfl⟩ := exists_proper hpos hle
      have hline : s.start ≤ q.offset := start_le_offset hs hq hstart
      rw [scan_stop hq hle]
      intro p hp
      rcases List.mem_append.mp hp with hp | hp
      · by_cases hkind : q.kind.readsOn = true
        · rw [if_pos hkind] at hp
          have hlt : q.offset < q.stop := hq.offset_lt_stop hkind
          have hwithin := ih q.offset hlt hline (by omega) p hp
          omega
        · rw [if_neg hkind] at hp
          cases hp
      · rw [List.mem_singleton.mp hp]
        exact ⟨hline, Nat.le_refl _⟩

/-- The mark of a line start is found nowhere on the line but at its start. -/
theorem offset_of_lineStart {p : Piece} (hp : p.Proper buffer) (hkind : p.kind = .lineStart)
    (hstart : s.start ≤ p.offset) (hstop : p.offset ≤ s.stop) :
    p.offset = s.start ∧ 0 < s.start := by
  have hmem := LineSpan.mem_all_of_resolve hs
  have hle : p.offset ≤ buffer.length := Nat.le_trans hstop (LineSpan.stop_le_length hmem)
  have hfits := hp.fits
  rw [hkind] at hfits
  obtain ⟨-, c, hc, hbreak⟩ := hfits
  have hpos : 0 < p.offset := by
    rcases Nat.eq_zero_or_pos p.offset with hzero | hpos
    · rw [hzero, charBefore, List.take_zero] at hc
      cases hc
    · exact hpos
  rw [charBefore_eq_getElem? hpos hle] at hc
  have hsame : p.offset = s.start := by
    by_contra hne
    -- The break before the mark would stand within the line.
    have hinside := LineSpan.isBreak_of_mem_span hmem (i := p.offset - 1) (by omega) (by omega) hc
    rw [hbreak] at hinside
    cases hinside
  exact ⟨hsame, hsame ▸ hpos⟩

end

/-! ## The pieces of a scan -/

theorem kind_of_not_readsOn {kind : Kind} (h : ¬ kind.readsOn = true) :
    kind = .word ∨ kind = .lineStart ∨ kind = .unknown := by
  cases kind <;> simp [Kind.readsOn] at h ⊢

/-- Behind the first piece there are only pieces before which the machine reads on. -/
theorem Tiling.eq_zero_of_not_readsOn {buffer : List Char} {offset : Nat} {pieces : List Piece}
    (h : Tiling buffer offset pieces) {i : Nat} {p : Piece} (hp : pieces[i]? = some p)
    (hkind : ¬ p.kind.readsOn = true) : i = 0 := by
  cases i with
  | zero => rfl
  | succ i =>
      rw [← List.getElem?_tail] at hp
      exact absurd (h.inner p (List.mem_of_getElem? hp)) hkind

/-- The machine is stopped once. -/
theorem Tiling.eq_of_not_readsOn {buffer : List Char} {offset : Nat} {pieces : List Piece}
    (h : Tiling buffer offset pieces) {p q : Piece} (hp : p ∈ pieces) (hq : q ∈ pieces)
    (hkind : ¬ p.kind.readsOn = true) (hkind' : ¬ q.kind.readsOn = true) : p = q := by
  obtain ⟨i, hi⟩ := List.getElem?_of_mem hp
  obtain ⟨j, hj⟩ := List.getElem?_of_mem hq
  rw [h.eq_zero_of_not_readsOn hi hkind] at hi
  rw [h.eq_zero_of_not_readsOn hj hkind', hi] at hj
  exact Option.some.inj hj

/-- A tiling that does not go back to the start of the buffer has a piece that stopped the
machine. -/
theorem Tiling.exists_not_readsOn {buffer : List Char} {offset : Nat} {pieces : List Piece}
    (h : Tiling buffer offset pieces) (hpos : 0 < offset) (hstarts : ∀ p ∈ pieces, 0 < p.offset) :
    ∃ p ∈ pieces, ¬ p.kind.readsOn = true := by
  have hne : pieces ≠ [] := by
    intro hnil
    have hzero := h.nothing hnil
    omega
  obtain ⟨p, more, rfl⟩ := List.exists_cons_of_ne_nil hne
  refine ⟨p, List.mem_cons_self, ?_⟩
  intro hreads
  have hzero := h.reaches p rfl hreads
  have hstart := hstarts p List.mem_cons_self
  omega

/-- **The scan stays on the line of the cursor and marks its start exactly.** Let the cursor be on a
line of the buffer. All pieces lie between the start of the line and the cursor. A mark of a line
start is the first piece and stands at the start of the line. There is one exactly if the line is
not the first and neither a word nor anything unknown has stopped the machine before. -/
theorem scan_stays_on_line {buffer : List Char} {line : Nat} {s : LineSpan}
    (hs : LineSpan.resolve buffer line = .ok s) {offset : Nat} (hstart : s.start ≤ offset)
    (hstop : offset ≤ s.stop) :
    (∀ p ∈ scan buffer offset, s.start ≤ p.offset ∧ p.stop ≤ offset) ∧
    (∀ i p, (scan buffer offset)[i]? = some p → p.kind = .lineStart →
      i = 0 ∧ p.offset = s.start ∧ p.text = []) ∧
    ((∃ p ∈ scan buffer offset, p.kind = .lineStart) ↔
      0 < line ∧ ∀ p ∈ scan buffer offset, p.kind ≠ .word ∧ p.kind ≠ .unknown) := by
  have hle : offset ≤ buffer.length :=
    Nat.le_trans hstop (LineSpan.stop_le_length (LineSpan.mem_all_of_resolve hs))
  have hwithin := scan_within hs hstart hle
  have htiling := scan_tiling hle
  have hmark : ∀ p ∈ scan buffer offset, p.kind = .lineStart →
      p.offset = s.start ∧ 0 < s.start := by
    intro p hp hkind
    have hstop' : p.offset ≤ s.stop :=
      Nat.le_trans (Nat.le_add_right _ _) (Nat.le_trans (hwithin p hp).2 hstop)
    exact offset_of_lineStart hs (htiling.proper p hp) hkind (hwithin p hp).1 hstop'
  refine ⟨hwithin, ?_, ?_, ?_⟩
  · intro i p hp hkind
    have hmem := List.mem_of_getElem? hp
    have hfits := (htiling.proper p hmem).fits
    rw [hkind] at hfits
    have hfirst := htiling.eq_zero_of_not_readsOn hp (by rw [hkind]; decide)
    exact ⟨hfirst, (hmark p hmem hkind).1, hfits.1⟩
  · rintro ⟨p, hp, hkind⟩
    refine ⟨(start_pos_iff hs).mp (hmark p hp hkind).2, ?_⟩
    have hmarked : ∀ q ∈ scan buffer offset, ¬ q.kind.readsOn = true → q.kind = .lineStart := by
      intro q hq hstopped
      rw [← htiling.eq_of_not_readsOn hp hq (by rw [hkind]; decide) hstopped]
      exact hkind
    intro q hq
    constructor
    · intro hword
      have hkind' := hmarked q hq (by rw [hword]; decide)
      rw [hword] at hkind'
      cases hkind'
    · intro hunknown
      have hkind' := hmarked q hq (by rw [hunknown]; decide)
      rw [hunknown] at hkind'
      cases hkind'
  · rintro ⟨hline, hnone⟩
    have hpos := (start_pos_iff hs).mpr hline
    -- Something has stopped the machine, for the buffer starts before the line.
    have hstarts : ∀ p ∈ scan buffer offset, 0 < p.offset := fun p hp =>
      Nat.lt_of_lt_of_le hpos (hwithin p hp).1
    obtain ⟨p, hp, hstopped⟩ :=
      htiling.exists_not_readsOn (Nat.lt_of_lt_of_le hpos hstart) hstarts
    rcases kind_of_not_readsOn hstopped with hkind | hkind | hkind
    · exact absurd hkind (hnone p hp).1
    · exact ⟨p, hp, hkind⟩
    · exact absurd hkind (hnone p hp).2

/-- Blanks and a dot behind a carriage return with its line feed: the mark stands behind both. -/
theorem scan_stays_on_line_return :
    let buffer := ['a', '\r', '\n', ' ', '.', 'b']
    LineSpan.resolve buffer 1 = .ok ⟨3, 3⟩ ∧
      ∃ p ∈ scan buffer 5, p.kind = .lineStart ∧ p.offset = 3 := by
  intro buffer
  have hs : LineSpan.resolve buffer 1 = .ok ⟨3, 3⟩ := rfl
  obtain ⟨-, hmark, hpresent⟩ :=
    scan_stays_on_line hs (show 3 ≤ 5 by decide) (show 5 ≤ 6 by decide)
  have hnone : ∀ p ∈ scan buffer 5, p.kind ≠ .word ∧ p.kind ≠ .unknown := by decide +kernel
  obtain ⟨p, hp, hkind⟩ := hpresent.mpr ⟨by decide, hnone⟩
  obtain ⟨i, hi⟩ := List.getElem?_of_mem hp
  exact ⟨hs, p, hp, hkind, (hmark i p hi hkind).2.1⟩

end EditorCore.Cursor

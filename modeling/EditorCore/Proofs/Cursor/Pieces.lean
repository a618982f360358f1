import EditorCore.Cursor.Scan
import EditorCore.Proofs.Text.Class
import Mathlib.Data.List.DropRight

set_option autoImplicit false

/-! # What the scan finds, piece by piece

The machine takes several steps for one piece and completes it one step late. Here it is seen in
larger steps. `Kind.Fits` says what the text of a piece is, from the text alone: a word or a blank
is a run that cannot be made longer, a dot and the arrows are their own characters, and what is
unknown is a character that belongs to nothing else. Whatever text stands before the machine, a
piece that fits ends there (`exists_proper`), and the scan ends with that very piece (`scan_stop`).
All that is said about scans and completions elsewhere follows from these two.
-/

namespace EditorCore.Cursor

open Text (isWordChar isBreak isWhitespace isBlank)

/-! ## Kinds of text -/

/-- The machine reads on before a piece of this kind. -/
def Kind.readsOn : Kind → Bool
  | .blank | .dot | .leftArrow | .rightArrow => true
  | .word | .lineStart | .unknown => false

/-- The text is of the kind, where `prev` is the character right before it. -/
def Kind.Fits (prev : Option Char) (text : List Char) : Kind → Prop
  | .word => text ≠ [] ∧ (∀ c ∈ text, isWordChar c = true) ∧ ∀ c ∈ prev, isWordChar c = false
  | .blank => text ≠ [] ∧ (∀ c ∈ text, isBlank c = true) ∧ ∀ c ∈ prev, isBlank c = false
  | .lineStart => text = [] ∧ ∃ c ∈ prev, isBreak c = true
  | .dot => text = ['.']
  | .leftArrow => text = ['<', '-']
  | .rightArrow => text = ['-', '>']
  | .unknown => ∃ c, text = [c] ∧ isWordChar c = false ∧ isWhitespace c = false ∧
      isBreak c = false ∧ c ≠ '.' ∧ ¬ (c = '-' ∧ prev = some '<') ∧ ¬ (c = '>' ∧ prev = some '-')

/-- The machine reads on only before text that it has read. -/
theorem Kind.Fits.ne_nil {kind : Kind} {prev : Option Char} {text : List Char}
    (h : kind.Fits prev text) (hkind : kind.readsOn = true) : text ≠ [] := by
  cases kind with
  | blank => exact h.1
  | dot | leftArrow | rightArrow =>
      rw [show text = _ from h]
      simp
  | word | lineStart | unknown => cases hkind

/-- The longest run of a class leaves no character of the class before it. -/
theorem getLast?_rdropWhile (p : Char → Bool) (text : List Char) :
    ∀ c ∈ (text.rdropWhile p).getLast?, p c = false := by
  intro c hc
  have hne : text.rdropWhile p ≠ [] := by
    intro hnil
    rw [hnil] at hc
    cases hc
  have hlast := List.rdropWhile_last_not p text hne
  rw [Option.mem_def, List.getLast?_eq_some_getLast hne] at hc
  rw [← Option.some.inj hc]
  simpa using hlast

theorem fits_word {text : List Char} (h : text.rtakeWhile isWordChar ≠ []) :
    Kind.word.Fits (text.rdropWhile isWordChar).getLast? (text.rtakeWhile isWordChar) :=
  ⟨h, fun _ hc => List.mem_rtakeWhile_imp hc, getLast?_rdropWhile isWordChar text⟩

theorem fits_blank {text : List Char} (h : text.rtakeWhile isBlank ≠ []) :
    Kind.blank.Fits (text.rdropWhile isBlank).getLast? (text.rtakeWhile isBlank) :=
  ⟨h, fun _ hc => List.mem_rtakeWhile_imp hc, getLast?_rdropWhile isBlank text⟩

/-- Every text but the empty one ends in a text of some kind. -/
theorem exists_fits {text : List Char} (h : text ≠ []) :
    ∃ (kind : Kind) (front piece : List Char),
      text = front ++ piece ∧ kind.Fits front.getLast? piece := by
  obtain ⟨l, c, rfl⟩ := (List.eq_nil_or_concat' text).resolve_left h
  -- The last character tells the kind, arrows apart, which also look at the one before it.
  by_cases hword : isWordChar c = true
  · have hne : (l ++ [c]).rtakeWhile isWordChar ≠ [] := by
      rw [List.rtakeWhile_concat_pos _ _ _ hword]
      simp
    exact ⟨.word, _, _, List.rdropWhile_append_rtakeWhile.symm, fits_word hne⟩
  by_cases hbreak : isBreak c = true
  · exact ⟨.lineStart, l ++ [c], [], (List.append_nil _).symm, rfl, c, by simp, hbreak⟩
  by_cases hwhite : isWhitespace c = true
  · have hblank : isBlank c = true := (Text.isBlank_iff c).mpr ⟨hwhite, by simpa using hbreak⟩
    have hne : (l ++ [c]).rtakeWhile isBlank ≠ [] := by
      rw [List.rtakeWhile_concat_pos _ _ _ hblank]
      simp
    exact ⟨.blank, _, _, List.rdropWhile_append_rtakeWhile.symm, fits_blank hne⟩
  by_cases hdot : c = '.'
  · exact ⟨.dot, l, ['.'], by rw [hdot], rfl⟩
  by_cases hleft : c = '-' ∧ l.getLast? = some '<'
  · obtain ⟨rfl, hlast⟩ := hleft
    obtain ⟨front, rfl⟩ := List.getLast?_eq_some_iff.mp hlast
    exact ⟨.leftArrow, front, ['<', '-'], by simp, rfl⟩
  by_cases hright : c = '>' ∧ l.getLast? = some '-'
  · obtain ⟨rfl, hlast⟩ := hright
    obtain ⟨front, rfl⟩ := List.getLast?_eq_some_iff.mp hlast
    exact ⟨.rightArrow, front, ['-', '>'], by simp, rfl⟩
  · exact ⟨.unknown, l, [c], rfl, c, rfl, by simpa using hword, by simpa using hwhite,
      by simpa using hbreak, hdot, hleft, hright⟩

/-! ## Moves of the machine

What a single move does to a run, for each of the three moves that are no halt. -/

section Run

variable {buffer rest : List Char} {state next : State} {kind : Kind} {n : Nat}

@[simp] theorem run_terminal (buffer before : List Char) : run buffer .terminal before = [] := by
  rw [run, if_pos rfl]

theorem run_read (hs : state ≠ .terminal) {c : Char} (h : step state (some c) = .read next) :
    run buffer state (c :: rest) = run buffer next rest := by
  rw [run, if_neg hs]
  simp [h, Move.read, Move.rest]

theorem run_close (hs : state ≠ .terminal) {c : Char}
    (h : step state (some c) = .close next kind n) :
    run buffer state (c :: rest) =
      run buffer next rest ++ [Piece.cut buffer kind rest.length n] := by
  rw [run, if_neg hs]
  simp [h, Move.close, Move.rest]

theorem run_leave (hs : state ≠ .terminal) (h : step state rest.head? = .leave next kind n) :
    run buffer state rest = run buffer next rest ++ [Piece.cut buffer kind rest.length n] := by
  rw [run, if_neg hs]
  simp [h, Move.leave, Move.rest]

/-- A state that counts the characters of a class reads through a run of them. -/
theorem run_through {count : Nat → State} {p : Char → Bool} (hcount : ∀ n, count n ≠ .terminal)
    (hstep : ∀ n c, p c = true → step (count n) (some c) = .read (count (n + 1)))
    {cs : List Char} (hcs : ∀ c ∈ cs, p c = true) (n : Nat) :
    run buffer (count n) (cs ++ rest) = run buffer (count (n + cs.length)) rest := by
  induction cs generalizing n with
  | nil => rfl
  | cons c cs ih =>
      rw [List.cons_append, run_read (hcount n) (hstep n c (hcs c List.mem_cons_self)),
        ih (fun a ha => hcs a (List.mem_cons_of_mem c ha)), List.length_cons,
        Nat.add_right_comm, Nat.add_assoc]

/-- The same from the initial state, in which the first character of the run is read. -/
theorem run_initial_through {count : Nat → State} {p : Char → Bool}
    (hcount : ∀ n, count n ≠ .terminal) (hstart : ∀ c, p c = true → start c = .read (count 1))
    (hstep : ∀ n c, p c = true → step (count n) (some c) = .read (count (n + 1)))
    {text : List Char} (hne : text ≠ []) (htext : ∀ c ∈ text, p c = true) :
    run buffer .initial (text.reverse ++ rest) = run buffer (count text.length) rest := by
  obtain ⟨c, cs, hcs⟩ := List.exists_cons_of_ne_nil (List.reverse_ne_nil_iff.mpr hne)
  have hall : ∀ a ∈ c :: cs, p a = true := fun a ha => htext a (List.mem_reverse.mp (hcs ▸ ha))
  have hlength : text.length = 1 + cs.length := by
    rw [← List.length_reverse, hcs, List.length_cons, Nat.add_comm]
  have hinitial : State.initial ≠ .terminal := by decide
  rw [hcs, hlength, List.cons_append, run_read hinitial (hstart c (hall c List.mem_cons_self)),
    run_through hcount hstep (fun a ha => hall a (List.mem_cons_of_mem c ha))]

end Run

theorem start_of_isWordChar {c : Char} (h : isWordChar c = true) : start c = .read (.word 1) := by
  simp [start, h]

theorem start_of_isBreak {c : Char} (h : isBreak c = true) :
    start c = .leave .terminal .lineStart 0 := by
  simp [start, h, Text.isWordChar_of_isBreak h]

theorem start_of_isBlank {c : Char} (h : isBlank c = true) : start c = .read (.blank 1) := by
  obtain ⟨hwhite, hbreak⟩ := (Text.isBlank_iff c).mp h
  simp [start, hwhite, hbreak, Text.isWordChar_of_isWhitespace hwhite]

theorem start_dot : start '.' = .close .initial .dot 1 := by decide

theorem start_minus : start '-' = .read .minus := by decide

theorem start_greater : start '>' = .read .greater := by decide

theorem start_of_unknown {c : Char} (hword : isWordChar c = false)
    (hwhite : isWhitespace c = false) (hbreak : isBreak c = false) (hdot : c ≠ '.')
    (hminus : c ≠ '-') (hgreater : c ≠ '>') : start c = .close .terminal .unknown 1 := by
  simp [start, hword, hwhite, hbreak, hdot, hminus, hgreater]

theorem step_word_of_prev {prev : Option Char} (h : ∀ c ∈ prev, isWordChar c = false) (n : Nat) :
    step (.word n) prev = .leave .terminal .word n := by
  cases prev with
  | none => rfl
  | some c => simp [step, h c rfl]

theorem step_blank_of_prev {prev : Option Char} (h : ∀ c ∈ prev, isBlank c = false) (n : Nat) :
    step (.blank n) prev = .leave .initial .blank n := by
  cases prev with
  | none => rfl
  | some c => simp [step, h c rfl]

theorem step_minus_of_prev {prev : Option Char} (h : prev ≠ some '<') :
    step .minus prev = .leave .terminal .unknown 1 := by
  cases prev with
  | none => rfl
  | some c =>
      have hc : c ≠ '<' := fun hc => h (congrArg some hc)
      simp [step, hc]

theorem step_greater_of_prev {prev : Option Char} (h : prev ≠ some '-') :
    step .greater prev = .leave .terminal .unknown 1 := by
  cases prev with
  | none => rfl
  | some c =>
      have hc : c ≠ '-' := fun hc => h (congrArg some hc)
      simp [step, hc]

/-! ## One piece of a run -/

/-- **A text of a kind becomes one piece**, and the machine then stands before it, ready to read on
or halted. -/
theorem run_initial_of_fits {buffer rest text : List Char} {kind : Kind}
    (h : kind.Fits rest.head? text) :
    run buffer .initial (text.reverse ++ rest) =
      (if kind.readsOn then run buffer .initial rest else []) ++
        [Piece.cut buffer kind rest.length text.length] := by
  have hinitial : State.initial ≠ .terminal := by decide
  cases kind with
  | word =>
      obtain ⟨hne, htext, hprev⟩ := h
      have hstep : ∀ n c, isWordChar c = true →
          step (.word n) (some c) = .read (.word (n + 1)) := by
        simp +contextual [step]
      rw [run_initial_through (by simp) (fun c => start_of_isWordChar) hstep hne htext,
        run_leave (by simp) (step_word_of_prev hprev _), run_terminal]
      rfl
  | blank =>
      obtain ⟨hne, htext, hprev⟩ := h
      have hstep : ∀ n c, isBlank c = true →
          step (.blank n) (some c) = .read (.blank (n + 1)) := by
        simp +contextual [step]
      rw [run_initial_through (by simp) (fun c => start_of_isBlank) hstep hne htext,
        run_leave (by simp) (step_blank_of_prev hprev _)]
      rfl
  | lineStart =>
      obtain ⟨rfl, c, hc, hbreak⟩ := h
      have hstep : step .initial rest.head? = .leave .terminal .lineStart 0 := by
        rw [hc]
        exact start_of_isBreak hbreak
      rw [List.reverse_nil, List.nil_append, run_leave hinitial hstep, run_terminal]
      rfl
  | dot =>
      obtain rfl := h
      exact run_close hinitial start_dot
  | leftArrow =>
      obtain rfl := h
      show run buffer .initial ('-' :: '<' :: rest) = _
      rw [run_read hinitial start_minus]
      exact run_close (by decide) rfl
  | rightArrow =>
      obtain rfl := h
      show run buffer .initial ('>' :: '-' :: rest) = _
      rw [run_read hinitial start_greater]
      exact run_close (by decide) rfl
  | unknown =>
      obtain ⟨c, rfl, hword, hwhite, hbreak, hdot, hminus, hgreater⟩ := h
      show run buffer .initial (c :: rest) = _
      -- The end of an arrow that is none is found out only at the character before it.
      by_cases hc : c = '-'
      · subst hc
        rw [run_read hinitial start_minus,
          run_leave (by decide) (step_minus_of_prev fun h => hminus ⟨rfl, h⟩), run_terminal]
        rfl
      · by_cases hc' : c = '>'
        · subst hc'
          rw [run_read hinitial start_greater,
            run_leave (by decide) (step_greater_of_prev fun h => hgreater ⟨rfl, h⟩), run_terminal]
          rfl
        · rw [run_close hinitial (start_of_unknown hword hwhite hbreak hdot hc hc'), run_terminal]
          rfl

/-! ## Pieces of a buffer -/

/-- The character right before an offset. -/
def charBefore (buffer : List Char) (offset : Nat) : Option Char := (buffer.take offset).getLast?

namespace Piece

/-- The piece has the text that it covers, and the text is of its kind. -/
structure Proper (buffer : List Char) (p : Piece) : Prop where
  covers : p.text = (buffer.drop p.offset).take p.length
  fits : p.kind.Fits (charBefore buffer p.offset) p.text

theorem Proper.take_stop {buffer : List Char} {p : Piece} (h : p.Proper buffer) :
    buffer.take p.stop = buffer.take p.offset ++ p.text := by
  rw [stop, List.take_add, ← h.covers]

theorem Proper.offset_lt_stop {buffer : List Char} {p : Piece} (h : p.Proper buffer)
    (hkind : p.kind.readsOn = true) : p.offset < p.stop :=
  Nat.lt_add_of_pos_right (List.length_pos_iff.mpr (h.fits.ne_nil hkind))

/-- A text of a kind is a piece of every buffer in which it stands. -/
theorem proper_of_fits {kind : Kind} {front text : List Char} (h : kind.Fits front.getLast? text)
    (more : List Char) :
    (⟨kind, front.length, text⟩ : Piece).Proper (front ++ text ++ more) where
  covers := by simp [length]
  fits := by
    rw [charBefore, List.append_assoc, List.take_left]
    exact h

/-- What stands after a piece does not matter to it. -/
theorem proper_take_iff {buffer : List Char} {p : Piece} {offset : Nat} (h : p.stop ≤ offset) :
    p.Proper (buffer.take offset) ↔ p.Proper buffer := by
  have hoffset : p.offset ≤ offset := Nat.le_trans (Nat.le_add_right _ _) h
  have htext : ((buffer.take offset).drop p.offset).take p.length =
      (buffer.drop p.offset).take p.length := by
    have hlength : p.length ≤ offset - p.offset := Nat.le_sub_of_add_le (by rwa [Nat.add_comm])
    rw [List.drop_take, List.take_take, Nat.min_eq_left hlength]
  have hprev : charBefore (buffer.take offset) p.offset = charBefore buffer p.offset := by
    rw [charBefore, charBefore, List.take_take, Nat.min_eq_left hoffset]
  constructor
  · rintro ⟨hcovers, hfits⟩
    exact ⟨htext ▸ hcovers, hprev ▸ hfits⟩
  · rintro ⟨hcovers, hfits⟩
    exact ⟨htext ▸ hcovers, hprev ▸ hfits⟩

end Piece

/-- At every offset but the first a piece of the buffer ends. -/
theorem exists_proper {buffer : List Char} {offset : Nat} (hpos : 0 < offset)
    (hle : offset ≤ buffer.length) : ∃ p : Piece, p.Proper buffer ∧ p.stop = offset := by
  have hne : buffer.take offset ≠ [] := by
    rw [← List.length_pos_iff, List.length_take_of_le hle]
    exact hpos
  obtain ⟨kind, front, text, hsplit, hfits⟩ := exists_fits hne
  refine ⟨⟨kind, front.length, text⟩, ?_, ?_⟩
  · have hproper := Piece.proper_of_fits hfits (buffer.drop offset)
    rwa [← hsplit, List.take_append_drop] at hproper
  · have hlength := congrArg List.length hsplit
    rw [List.length_take_of_le hle, List.length_append] at hlength
    exact hlength.symm

/-! ## The scan -/

theorem scan_zero (buffer : List Char) : scan buffer 0 = [] := by
  rw [scan, if_neg (Nat.not_lt_zero _), List.take_zero, List.reverse_nil, run,
    if_neg (by decide)]
  simp [step, Move.halt]

/-- **The scan ends with the piece that ends at the cursor**; before it stands the scan up to that
piece, if the kind of the piece lets the machine read on. -/
theorem scan_stop {buffer : List Char} {p : Piece} (h : p.Proper buffer)
    (hstop : p.stop ≤ buffer.length) :
    scan buffer p.stop = (if p.kind.readsOn then scan buffer p.offset else []) ++ [p] := by
  have hoffset : p.offset ≤ buffer.length := Nat.le_trans (Nat.le_add_right _ _) hstop
  have hfits : p.kind.Fits (buffer.take p.offset).reverse.head? p.text := by
    rw [List.head?_reverse]
    exact h.fits
  have hcut : Piece.cut buffer p.kind p.offset p.text.length = p := by
    rw [Piece.cut, show p.text.length = p.length from rfl, ← h.covers]
  rw [scan, if_neg (Nat.not_lt.mpr hstop), h.take_stop, List.reverse_append,
    run_initial_of_fits hfits, List.length_reverse, List.length_take_of_le hoffset, hcut, scan,
    if_neg (Nat.not_lt.mpr hoffset)]

/-- What stands after the cursor does not matter to the scan. -/
theorem scan_take {buffer : List Char} {offset : Nat} (hle : offset ≤ buffer.length) :
    scan (buffer.take offset) offset = scan buffer offset := by
  induction offset using Nat.strongRecOn generalizing buffer with
  | ind offset ih =>
      rcases Nat.eq_zero_or_pos offset with rfl | hpos
      · rw [scan_zero, scan_zero]
      · obtain ⟨p, hp, rfl⟩ := exists_proper hpos hle
        have hlength : (buffer.take p.stop).length = p.stop := List.length_take_of_le hle
        rw [scan_stop hp hle,
          scan_stop ((Piece.proper_take_iff (Nat.le_refl _)).mpr hp) (Nat.le_of_eq hlength.symm)]
        by_cases hkind : p.kind.readsOn = true
        · have hlt : p.offset < p.stop := hp.offset_lt_stop hkind
          rw [if_pos hkind, if_pos hkind, ← ih p.offset hlt (by omega), List.take_take,
            Nat.min_eq_left (Nat.le_of_lt hlt), ih p.offset hlt (by omega)]
        · rw [if_neg hkind, if_neg hkind]

end EditorCore.Cursor

import EditorCore.Cursor.Machine

set_option autoImplicit false

/-! # Reading backward from a cursor

`scan` runs the machine from a cursor and gives the pieces it finds in document order.
`wordBefore` is the simpler question: which run of word characters ends at the cursor.
-/

namespace EditorCore.Cursor

/-- A piece of the buffer, with the offset of its first character. -/
structure Piece where
  kind : Kind
  offset : Nat
  text : List Char
deriving DecidableEq, Repr

namespace Piece

/-- The number of characters of the piece. -/
def length (p : Piece) : Nat := p.text.length

/-- One past the last character of the piece. -/
def stop (p : Piece) : Nat := p.offset + p.length

/-- The piece of a buffer of the given kind, place and length. -/
def cut (buffer : List Char) (kind : Kind) (offset length : Nat) : Piece :=
  ⟨kind, offset, (buffer.drop offset).take length⟩

end Piece

/-- What is left to read after a move: the characters before the machine, nearest first. -/
def Move.rest (m : Move) (before : List Char) : List Char :=
  if m.consumes then before.tail else before

/-- Every move leaves less to do: fewer characters, or a state nearer to the end. -/
theorem measure_rest_lt (state : State) (before : List Char) (h : state ≠ .terminal) :
    3 * ((step state before.head?).rest before).length + (step state before.head?).next.rank <
      3 * before.length + state.rank := by
  have hp := step_progress state before.head? h
  have hr := State.rank_le_two (step state before.head?).next
  cases before with
  | nil => simpa [Move.rest, step_none_consumes] using hp
  | cons c cs =>
      unfold Move.rest
      split
      · simp only [List.tail_cons, List.length_cons]
        omega
      · next hc =>
        have := hp.resolve_left hc
        omega

/-- The pieces the machine finds from a state on, in document order. `before` holds the
characters still to be read, nearest first, so its length is the offset of the machine. -/
def run (buffer : List Char) (state : State) (before : List Char) : List Piece :=
  if state = .terminal then []
  else
    let move := step state before.head?
    let rest := move.rest before
    run buffer move.next rest ++
      match move.found with
      | none => []
      | some (kind, length) => [Piece.cut buffer kind rest.length length]
termination_by 3 * before.length + state.rank
decreasing_by exact measure_rest_lt state before ‹_›

/-- The pieces before a cursor, in document order; none for a cursor outside the buffer. -/
def scan (buffer : List Char) (offset : Nat) : List Piece :=
  if buffer.length < offset then [] else run buffer .initial (buffer.take offset).reverse

/-- Where the run of word characters that ends at an offset starts: the walk goes back as long as
the character before it may stand in a word. -/
def wordStart (buffer : List Char) : Nat → Nat
  | 0 => 0
  | i + 1 => if buffer[i]?.any Text.isWordChar then wordStart buffer i else i + 1

/-- The run of word characters that ends at a cursor, possibly empty; none for a cursor outside
the buffer. -/
def wordBefore (buffer : List Char) (offset : Nat) : Option Piece :=
  if buffer.length < offset then none
  else
    let first := wordStart buffer offset
    some (.cut buffer .word first (offset - first))

end EditorCore.Cursor

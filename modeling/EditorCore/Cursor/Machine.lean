import EditorCore.Text.Class

set_option autoImplicit false

/-! # The backward scanning machine

Read from a cursor toward the start of the buffer, one character at a time, the text before it
falls into words, blanks, dots and wiring arrows. The machine carries the length of the word or
blank it is in; an arrow is seen tip first, so `minus` and `greater` wait for the character
before them. It halts at the start of the line, at a word, and at anything it does not know.
-/

namespace EditorCore.Cursor

/-- What a piece of text before the cursor is. A `lineStart` is an empty mark right after a line
break. -/
inductive Kind where
  | word
  | blank
  | lineStart
  | leftArrow
  | rightArrow
  | dot
  | unknown
deriving DecidableEq, Repr

/-- Where the machine stands. `word` and `blank` carry the characters read of the run so far;
`minus` and `greater` have read the last character of a possible arrow. -/
inductive State where
  | initial
  | word (length : Nat)
  | blank (length : Nat)
  | minus
  | greater
  | terminal
deriving DecidableEq, Repr

/-- What the machine does with one character: the state it goes to, the piece it completes, and
whether it moves past the character. A completed piece starts where the machine then stands. -/
structure Move where
  next : State
  found : Option (Kind × Nat)
  consumes : Bool
deriving DecidableEq, Repr

namespace Move

/-- Reads the character and goes on. -/
def read (next : State) : Move := ⟨next, none, true⟩

/-- Reads the character and completes a piece with it. -/
def close (next : State) (kind : Kind) (length : Nat) : Move := ⟨next, some (kind, length), true⟩

/-- Completes a piece and leaves the character. -/
def leave (next : State) (kind : Kind) (length : Nat) : Move := ⟨next, some (kind, length), false⟩

/-- Stops without a piece. -/
def halt : Move := ⟨.terminal, none, false⟩

end Move

/-- The move from the initial state at a character. -/
def start (c : Char) : Move :=
  if Text.isWordChar c then .read (.word 1)
  else if Text.isBreak c then .leave .terminal .lineStart 0
  else if Text.isWhitespace c then .read (.blank 1)
  else if c = '-' then .read .minus
  else if c = '>' then .read .greater
  else if c = '.' then .close .initial .dot 1
  else .close .terminal .unknown 1

/-- One move of the machine. The character is the one before the place where the machine stands;
there is none at the start of the buffer. -/
def step : State → Option Char → Move
  | .terminal, _ => .halt
  | .initial, none => .halt
  | .initial, some c => start c
  | .word n, none => .leave .terminal .word n
  | .word n, some c =>
      if Text.isWordChar c then .read (.word (n + 1)) else .leave .terminal .word n
  | .blank n, none => .leave .initial .blank n
  | .blank n, some c =>
      if Text.isBlank c then .read (.blank (n + 1)) else .leave .initial .blank n
  | .minus, none => .leave .terminal .unknown 1
  | .minus, some c =>
      if c = '<' then .close .initial .leftArrow 2 else .leave .terminal .unknown 1
  | .greater, none => .leave .terminal .unknown 1
  | .greater, some c =>
      if c = '-' then .close .initial .rightArrow 2 else .leave .terminal .unknown 1

/-- How far a state is from the end when no character is read. -/
def State.rank : State → Nat
  | .terminal => 0
  | .initial => 1
  | _ => 2

theorem State.rank_le_two (s : State) : s.rank ≤ 2 := by
  cases s <;> simp [State.rank]

theorem start_progress (c : Char) :
    (start c).consumes = true ∨ (start c).next.rank < State.initial.rank := by
  unfold start
  repeat' split
  all_goals simp [Move.read, Move.leave, Move.close, State.rank]

/-- A move that reads nothing brings the machine closer to its end. -/
theorem step_progress (s : State) (c : Option Char) (hs : s ≠ .terminal) :
    (step s c).consumes = true ∨ (step s c).next.rank < s.rank := by
  cases s <;> cases c <;> simp only [step] <;>
    first
    | exact absurd rfl hs
    | exact start_progress _
    | (repeat' split) <;> simp [Move.read, Move.leave, Move.close, Move.halt, State.rank]

/-- At the start of the buffer nothing is read. -/
theorem step_none_consumes (s : State) : (step s none).consumes = false := by
  cases s <;> rfl

end EditorCore.Cursor

import EditorCore.Text.Class

set_option autoImplicit false

/-! # Lines of a buffer

A buffer is a list of characters. It is cut after every line break, a carriage return with the
line feed after it being one break; what follows the last break is the last row, possibly empty,
so a buffer has one line more than it has breaks. A `LineSpan` says where the content of a line
lies. Its width is what is left of the row when the break is taken off its end.
-/

namespace EditorCore

namespace Text

/-- Cuts a text after every line break. Rows keep their breaks, and there is at least one row. -/
def rows : List Char → List (List Char)
  | [] => [[]]
  | '\r' :: '\n' :: rest => ['\r', '\n'] :: rows rest
  | c :: rest =>
      if isBreak c then [c] :: rows rest
      else
        match rows rest with
        | [] => [[c]]
        | row :: more => (c :: row) :: more

/-- The number of lines of a text: one more than it has breaks. -/
def lineCount (text : List Char) : Nat := (rows text).length

/-- The offset at which a line starts: the rows above it come before it. -/
def lineStart (text : List Char) (line : Nat) : Nat := ((rows text).take line).flatten.length

/-- The number of characters of a row without the break at its end. A line feed takes the carriage
return before it along. -/
def contentWidth (row : List Char) : Nat :=
  match row.reverse with
  | [] => 0
  | last :: before =>
      if isBreak last then
        if last = '\n' ∧ before.head? = some '\r' then before.length - 1 else before.length
      else before.length + 1

end Text

/-- Where the content of one line lies in the buffer: the offset of its first character and the
number of its characters, without the break. -/
structure LineSpan where
  start : Nat
  width : Nat
deriving DecidableEq, Repr

/-- A line number that the buffer does not have. -/
structure LocationError where
  line : Nat
  lineCount : Nat
deriving DecidableEq, Repr

/-- The text shown for a line number that the buffer does not have. -/
def LocationError.message (e : LocationError) : String :=
  s!"line {e.line} is out of range for a buffer of {e.lineCount} lines"

namespace LineSpan

/-- One past the last content character. -/
def stop (s : LineSpan) : Nat := s.start + s.width

/-- The span of one line of a text, or the reason why there is none. -/
def resolve (text : List Char) (line : Nat) : Except LocationError LineSpan :=
  match (Text.rows text)[line]? with
  | some row => .ok ⟨Text.lineStart text line, Text.contentWidth row⟩
  | none => .error ⟨line, Text.lineCount text⟩

/-- The part of a run of columns that lies on the line, as an offset of the buffer and a length.
A run that starts beyond the line has none; one that starts right at its end has an empty one. -/
def clip (s : LineSpan) (column length : Nat) : Option (Nat × Nat) :=
  if s.width < column then none else some (s.start + column, min length (s.width - column))

end LineSpan

end EditorCore

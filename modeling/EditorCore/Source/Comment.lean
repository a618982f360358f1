import EditorCore.Source.Position

set_option autoImplicit false

/-! # Comments

A block comment may run over several lines, a line comment never does. The body is the comment
as written, delimiters included, and its lines are what line feeds separate.
-/

namespace EditorCore

/-- Whether a comment may run over several lines. -/
inductive CommentKind where
  | block
  | line
deriving DecidableEq, Repr

/-- A comment of a parsed file. -/
structure Comment where
  kind : CommentKind
  start : Position
  lineCount : Nat
  body : String
deriving DecidableEq, Repr

namespace Comment

/-- The parts of a body between line feeds. -/
def parts (body : String) : List (List Char) := body.toList.splitOn '\n'

/-- A block comment takes as many lines as its body has. -/
def block (start : Position) (body : String) : Comment :=
  ⟨.block, start, (parts body).length, body⟩

/-- A line comment takes one line. -/
def single (start : Position) (body : String) : Comment := ⟨.line, start, 1, body⟩

/-- The last line the comment takes. -/
def lastLine (c : Comment) : Nat := c.start.line + max c.lineCount 1 - 1

/-- The comment takes part of the line. -/
def covers (c : Comment) (line : Nat) : Bool :=
  match c.kind with
  | .line => line == c.start.line
  | .block => c.start.line ≤ line && line ≤ c.lastLine

/-- The text without one carriage return at its end. -/
def dropReturn (part : List Char) : List Char :=
  if part.getLast? == some '\r' then part.dropLast else part

/-- The part of the body on a line, without its line ending. -/
def bodyLine (c : Comment) (line : Nat) : Option (List Char) :=
  if c.covers line then (parts c.body)[line - c.start.line]?.map dropReturn else none

/-- The column at which the comment starts on a line it covers: its own on its first line, the
left edge on those after it. -/
def columnOn (c : Comment) (line : Nat) : Nat :=
  match c.kind with
  | .line => c.start.column
  | .block => if line == c.start.line then c.start.column else 0

/-- Comments are ordered by where they start. -/
def le (a b : Comment) : Bool := a.start.le b.start

theorem le_trans (a b c : Comment) (hab : a.le b = true) (hbc : b.le c = true) : a.le c = true :=
  Position.le_trans _ _ _ hab hbc

theorem le_total (a b : Comment) : (a.le b || b.le a) = true := Position.le_total _ _

end Comment

end EditorCore

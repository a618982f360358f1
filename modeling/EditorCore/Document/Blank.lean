import EditorCore.Text.Class

set_option autoImplicit false

/-! # Blanks and comments of a document

Between the parts of a node stand spaces, block comments (which nest) and continuations: a
backslash, then nothing but spaces, comments and a line end. Between nodes line ends and line
comments count as blanks too. `skip` passes over all of these in one left-to-right pass. It
fails at a block comment that is not closed and at a backslash that continues nothing; neither
can be part of a document.
-/

namespace EditorCore.Document

/-- The rest after one line end. -/
def newline? : List Char → Option (List Char)
  | '\r' :: '\n' :: rest => some rest
  | c :: rest => if Text.isBreak c then some rest else none
  | [] => none

/-- Where a pass over blanks stands: between things, behind a backslash, in a line comment, or in
a block comment with so many more around it. `continued` tells of a block comment whether it
stands behind a backslash. -/
inductive Gap where
  | between
  | continued
  | comment
  | block (outer : Nat) (continued : Bool)
deriving DecidableEq, Repr

/-- Passes over blanks. With `lines`, line ends and line comments count as blanks. -/
def skip (lines : Bool) : Gap → List Char → Option (List Char)
  | .between, '/' :: '*' :: rest => skip lines (.block 0 false) rest
  | .between, '/' :: '/' :: rest =>
      if lines then skip lines .comment rest else some ('/' :: '/' :: rest)
  | .between, '\\' :: rest => skip lines .continued rest
  | .between, c :: rest =>
      if Text.isBlank c || (lines && Text.isBreak c) then skip lines .between rest
      else some (c :: rest)
  | .between, [] => some []
  | .continued, '/' :: '*' :: rest => skip lines (.block 0 true) rest
  | .continued, '/' :: '/' :: rest => skip lines .comment rest
  | .continued, '\r' :: '\n' :: rest => skip lines .between rest
  | .continued, c :: rest =>
      if Text.isBreak c then skip lines .between rest
      else if Text.isBlank c then skip lines .continued rest
      else none
  | .continued, [] => some []
  | .comment, '\r' :: '\n' :: rest => skip lines .between rest
  | .comment, c :: rest =>
      if Text.isBreak c then skip lines .between rest else skip lines .comment rest
  | .comment, [] => some []
  | .block 0 k, '*' :: '/' :: rest => skip lines (if k then .continued else .between) rest
  | .block (n + 1) k, '*' :: '/' :: rest => skip lines (.block n k) rest
  | .block n k, '/' :: '*' :: rest => skip lines (.block (n + 1) k) rest
  | .block n k, _ :: rest => skip lines (.block n k) rest
  | .block _ _, [] => none

/-- Passes over the blanks inside a node. -/
def skipBlanks (cs : List Char) : Option (List Char) := skip false .between cs

/-- Passes over the blanks between nodes. -/
def skipLines (cs : List Char) : Option (List Char) := skip true .between cs

/-- A blank inside a node starts here. -/
def startsBlank : List Char → Bool
  | '/' :: '*' :: _ => true
  | '\\' :: _ => true
  | c :: _ => Text.isBlank c
  | [] => false

end EditorCore.Document

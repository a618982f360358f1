import EditorCore.Cursor.Scan

set_option autoImplicit false

/-! # What is being completed

A completion request knows only a cursor. The word before the cursor is what has been typed; what
stands before that word, blanks aside, says whether a member, an endpoint of a wiring or a plain
name is wanted.
-/

namespace EditorCore.Cursor

/-- The direction of a wiring arrow: `user -> provider` or `provider <- user`. -/
inductive Arrow where
  | forward
  | backward
deriving DecidableEq, Repr

/-- What a completion request asks for, with the part of the name typed so far. -/
inductive Completion where
  | plain (typed : List Char)
  | member (receiver : Option (List Char)) (typed : List Char)
  | wiring (arrow : Arrow) (typed : List Char)
deriving DecidableEq, Repr

namespace Completion

/-- The part of the name typed so far. -/
def typed : Completion → List Char
  | plain t => t
  | member _ t => t
  | wiring _ t => t

/-- The word that a dot is applied to, if the piece before the dot is one. -/
def receiver : Option Piece → Option (List Char)
  | some ⟨.word, _, text⟩ => some text
  | _ => none

/-- What is completed after the given pieces, nearest first and without blanks. -/
def after (typed : List Char) : List Piece → Completion
  | ⟨.dot, _, _⟩ :: more => member (receiver more.head?) typed
  | ⟨.rightArrow, _, _⟩ :: _ => wiring .forward typed
  | ⟨.leftArrow, _, _⟩ :: _ => wiring .backward typed
  | _ => plain typed

/-- What a request at a cursor completes; none for a cursor outside the buffer. -/
def at? (buffer : List Char) (offset : Nat) : Option Completion :=
  (wordBefore buffer offset).map fun word =>
    after word.text ((scan buffer word.offset).filter (fun p => p.kind != .blank)).reverse

end Completion

end EditorCore.Cursor

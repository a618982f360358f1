import EditorCore.Source.Position

set_option autoImplicit false

/-! # Tokens

A token carries the text it stands for; string and character literals are reported without
their quotes, which still take two characters in the source.
-/

namespace EditorCore

/-- The kinds of token that the front end tells apart. -/
inductive TokenKind where
  | identifier
  | keyword
  | number
  | string
  | character
  | punctuation
  | other
deriving DecidableEq, Repr

/-- A token of a parsed file. -/
structure Token where
  kind : TokenKind
  span : Span
  text : String
deriving DecidableEq, Repr

namespace Token

/-- The characters that the quotes of a literal take in the source. -/
def delimiterLength (t : Token) : Nat :=
  match t.kind with
  | .string | .character => 2
  | _ => 0

/-- The number of characters the token takes in the source. -/
def sourceLength (t : Token) : Nat := t.text.length + t.delimiterLength

/-- Tokens are ordered by where they start. -/
def le (a b : Token) : Bool := a.span.start.le b.span.start

theorem le_trans (a b c : Token) (hab : a.le b = true) (hbc : b.le c = true) : a.le c = true :=
  Position.le_trans _ _ _ hab hbc

theorem le_total (a b : Token) : (a.le b || b.le a) = true := Position.le_total _ _

end Token

end EditorCore

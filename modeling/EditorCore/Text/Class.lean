import EditorCore.Text.Alphabetic
import EditorCore.Text.Numeric

set_option autoImplicit false

/-! # Character classes

The classes that the buffer and the cursor share: line breaks, whitespace and the characters
of a word. Whitespace is the Unicode property `White_Space`, of which the line breaks are a
part; a word is made of alphabetic and numeric characters and underscores.

A property of code points is stored as a list of closed ranges in ascending order. The search
stops at the first range that starts above the code point, which is enough because the table
ascends.
-/

namespace EditorCore.Text

/-- The number lies in one of the ascending closed ranges. -/
def inRanges : List (Nat × Nat) → Nat → Bool
  | [], _ => false
  | (lo, hi) :: rest, n => if n < lo then false else n ≤ hi || inRanges rest n

/-- The characters that end a line of the buffer. -/
def isBreak (c : Char) : Bool :=
  c == '\n' || c == '\r' || c == '\x0b' || c == '\x0c' || c == '\u0085' || c == '\u2028' ||
    c == '\u2029'

/-- The ranges of the property `White_Space`. -/
def whitespace : List (Nat × Nat) :=
  [(0x9, 0xD), (0x20, 0x20), (0x85, 0x85), (0xA0, 0xA0), (0x1680, 0x1680), (0x2000, 0x200A),
    (0x2028, 0x2029), (0x202F, 0x202F), (0x205F, 0x205F), (0x3000, 0x3000)]

/-- The character has the property `White_Space`. -/
def isWhitespace (c : Char) : Bool := inRanges whitespace c.toNat

/-- Whitespace that does not end a line. -/
def isBlank (c : Char) : Bool := isWhitespace c && !isBreak c

/-- The character has the property `Alphabetic`. -/
def isAlphabetic (c : Char) : Bool := inRanges alphabetic c.toNat

/-- The character's general category is `Nd`, `Nl` or `No`. -/
def isNumeric (c : Char) : Bool := inRanges numeric c.toNat

/-- The character is alphabetic or numeric. -/
def isAlphanumeric (c : Char) : Bool := isAlphabetic c || isNumeric c

/-- The character may stand in a word: alphanumeric, or an underscore. -/
def isWordChar (c : Char) : Bool := isAlphanumeric c || c == '_'

end EditorCore.Text

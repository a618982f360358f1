import EditorCore.Document.Blank

set_option autoImplicit false

/-! # Texts of a document

A text is a bare word, a quoted text, or a raw text between hashes, in which a backslash means
nothing. Quoted and raw texts may run over several lines when they are fenced by three quotes;
then the last line, which holds blanks only, is the margin that every other line must start with
and lose; lines of blanks alone become empty. Escapes are resolved before the margin is taken
away, but only blanks that stand in the text as they are count for it.
-/

namespace EditorCore.Document

/-- Code points that a document must not contain as they are. -/
def forbidden : List (Nat × Nat) :=
  [(0x0, 0x8), (0xE, 0x1F), (0x200E, 0x200F), (0x202A, 0x202E), (0x2066, 0x2069),
    (0xFEFF, 0xFEFF)]

/-- The character must not stand in a document as it is. -/
def isForbidden (c : Char) : Bool := Text.inRanges forbidden c.toNat

/-! ## Bare words -/

/-- The characters that end a bare word beside blanks and line ends. -/
def wordEnds : List Char :=
  ['\\', '/', '(', ')', '\x7b', '\x7d', '[', ']', ';', '\x22', '#', '=']

/-- The character may stand in a bare word. -/
def isBareChar (c : Char) : Bool :=
  !(Text.isBlank c || Text.isBreak c || wordEnds.contains c || isForbidden c)

/-- The words that stand for values when they follow a hash, and nothing on their own. -/
def reserved : List String := ["true", "false", "null", "inf", "-inf", "nan"]

/-- A digit comes first. -/
def startsDigits : List Char → Bool
  | c :: _ => c.isDigit
  | [] => false

/-- A run of bare characters is a word unless it reads like a number or is reserved. -/
def isBareWord : List Char → Bool
  | [] => false
  | '.' :: rest => !startsDigits rest
  | '+' :: '.' :: rest => !startsDigits rest
  | '-' :: '.' :: rest => !startsDigits rest
  | '+' :: rest => !startsDigits rest
  | '-' :: rest => !startsDigits rest
  | word => !startsDigits word && !reserved.contains (String.ofList word)

/-- Reads a bare word. -/
def bareWord (cs : List Char) : Option (String × List Char) :=
  let word := cs.takeWhile isBareChar
  if isBareWord word then some (String.ofList word, cs.drop word.length) else none

/-! ## Quoted texts -/

/-- A character of a quoted text: as it is written, from an escape, or the end of a line. -/
inductive Glyph where
  | literal (c : Char)
  | escaped (c : Char)
  | lineEnd
deriving DecidableEq, Repr

namespace Glyph

/-- The character that the glyph stands for. -/
def char : Glyph → Char
  | literal c => c
  | escaped c => c
  | lineEnd => '\n'

/-- A blank as it is written. -/
def isBlank : Glyph → Bool
  | literal c => Text.isBlank c
  | _ => false

end Glyph

/-- Where the reading of a quoted text stands: at a character, `blank` being true while an escaped
stretch of blanks goes on; behind a backslash; or in the digits of a code point. -/
inductive Quote where
  | plain (blank : Bool)
  | escape
  | code (value digits : Nat)
deriving DecidableEq, Repr

/-- The character that a letter behind a backslash stands for. -/
def escapeOf : Char → Option Char
  | '\\' => some '\\'
  | '\x22' => some '\x22'
  | 'b' => some '\x08'
  | 'f' => some '\x0c'
  | 'n' => some '\n'
  | 'r' => some '\r'
  | 't' => some '\t'
  | 's' => some ' '
  | _ => none

/-- The value of a digit of a base of at most sixteen. -/
def digitValue (c : Char) : Nat :=
  if c.isDigit then c.toNat - '0'.toNat
  else if 'a' ≤ c ∧ c ≤ 'f' then c.toNat - 'a'.toNat + 10
  else if 'A' ≤ c ∧ c ≤ 'F' then c.toNat - 'A'.toNat + 10
  else 16

/-- Puts a glyph in front of what is read after it. -/
def Glyph.push (g : Glyph) (read : Option (List Glyph × List Char)) :
    Option (List Glyph × List Char) :=
  read.map fun (gs, rest) => (g :: gs, rest)

/-- Reads a quoted text up to and with its closing fence. With `fenced`, three quotes close it and
it may contain line ends. -/
def quotedBody (fenced : Bool) : Quote → List Char → Option (List Glyph × List Char)
  | .plain blank, '\r' :: '\n' :: rest =>
      if blank then quotedBody fenced (.plain true) rest
      else if fenced then Glyph.lineEnd.push (quotedBody fenced (.plain false) rest)
      else none
  | .plain _, '\x22' :: '\x22' :: '\x22' :: rest =>
      if fenced then some ([], rest) else some ([], '\x22' :: '\x22' :: rest)
  | .plain _, '\x22' :: rest =>
      if fenced then (Glyph.literal '\x22').push (quotedBody fenced (.plain false) rest)
      else some ([], rest)
  | .plain _, '\\' :: rest => quotedBody fenced .escape rest
  | .plain blank, c :: rest =>
      if blank && (Text.isBlank c || Text.isBreak c) then quotedBody fenced (.plain true) rest
      else if Text.isBreak c then
        if fenced then Glyph.lineEnd.push (quotedBody fenced (.plain false) rest) else none
      else if isForbidden c then none
      else (Glyph.literal c).push (quotedBody fenced (.plain false) rest)
  | .escape, 'u' :: '\x7b' :: rest => quotedBody fenced (.code 0 0) rest
  | .escape, c :: rest =>
      if Text.isBlank c || Text.isBreak c then quotedBody fenced (.plain true) rest
      else
        match escapeOf c with
        | some e => (Glyph.escaped e).push (quotedBody fenced (.plain false) rest)
        | none => none
  | .code value digits, '\x7d' :: rest =>
      if 0 < digits ∧ value.isValidChar then
        (Glyph.escaped (Char.ofNat value)).push (quotedBody fenced (.plain false) rest)
      else none
  | .code value digits, c :: rest =>
      if digits < 6 ∧ digitValue c < 16 then
        quotedBody fenced (.code (16 * value + digitValue c) (digits + 1)) rest
      else none
  | _, [] => none

/-! ## Raw texts -/

/-- The rest after the mark that closes a raw text. -/
def closeRaw (mark : List Char) (cs : List Char) : Option (List Char) :=
  if mark.isPrefixOf cs then some (cs.drop mark.length) else none

/-- Reads a raw text up to and with the mark that closes it. -/
def rawBody (fenced : Bool) (mark : List Char) : List Char → Option (List Glyph × List Char)
  | '\r' :: '\n' :: rest =>
      if fenced then Glyph.lineEnd.push (rawBody fenced mark rest) else none
  | c :: rest =>
      match closeRaw mark (c :: rest) with
      | some after => some ([], after)
      | none =>
          if Text.isBreak c then
            if fenced then Glyph.lineEnd.push (rawBody fenced mark rest) else none
          else if isForbidden c then none
          else (Glyph.literal c).push (rawBody fenced mark rest)
  | [] => none

/-! ## Margins -/

/-- A line without its margin; a line of blanks is empty whatever its margin. -/
def dropMargin (margin line : List Glyph) : Option (List Glyph) :=
  if line.all Glyph.isBlank then some []
  else if margin.isPrefixOf line then some (line.drop margin.length)
  else none

/-- The text of several lines, the last of which is the margin. -/
def dedent (glyphs : List Glyph) : Option String :=
  let lines := glyphs.splitOn Glyph.lineEnd
  let margin := lines.getLastD []
  if margin.all Glyph.isBlank then
    (lines.dropLast.mapM (dropMargin margin)).map fun kept =>
      String.ofList (['\n'].intercalate (kept.map (List.map Glyph.char)))
  else none

/-- The text of a single line. -/
def flat (glyphs : List Glyph) : String := String.ofList (glyphs.map Glyph.char)

/-- Reads a text over several lines; a line end must follow the opening fence. -/
def fencedText (body : List Char → Option (List Glyph × List Char)) (cs : List Char) :
    Option (String × List Char) := do
  let (glyphs, rest) ← body (← newline? cs)
  let text ← dedent glyphs
  some (text, rest)

/-- Reads a quoted text. -/
def quotedText : List Char → Option (String × List Char)
  | '\x22' :: '\x22' :: '\x22' :: rest => fencedText (quotedBody true (.plain false)) rest
  | '\x22' :: rest => (quotedBody false (.plain false) rest).map fun (gs, rest) => (flat gs, rest)
  | _ => none

/-- Three quotes and a line end, which open a text over several lines. -/
def opensFence : List Char → Bool
  | '\x22' :: '\x22' :: '\x22' :: rest => (newline? rest).isSome
  | _ => false

/-- Reads what stands between the hashes of a raw text and the hashes themselves at its end. -/
def rawQuoted (hashes : List Char) (cs : List Char) : Option (String × List Char) :=
  if opensFence cs then
    fencedText (rawBody true ('\x22' :: '\x22' :: '\x22' :: hashes)) (cs.drop 3)
  else
    match cs with
    | '\x22' :: rest =>
        (rawBody false ('\x22' :: hashes) rest).map fun (gs, rest) => (flat gs, rest)
    | _ => none

/-- Reads a raw text: hashes, a quoted text without escapes, and as many hashes. A single quote
cannot be written as a raw text, because that would look like the start of a text over several
lines. -/
def rawText (cs : List Char) : Option (String × List Char) :=
  let hashes := cs.takeWhile (· == '#')
  if hashes.isEmpty then none
  else (rawQuoted hashes (cs.drop hashes.length)).filter (·.1 != "\x22")

/-! ## What may follow a text -/

/-- A text or a number may end here: nothing, a blank, a line end, a comment, or a mark that
belongs to what stands around it follows. -/
def endsToken : List Char → Bool
  | [] => true
  | '/' :: '/' :: _ => true
  | c :: rest =>
      startsBlank (c :: rest) || Text.isBreak c || c == ';' || c == '=' || c == ')' ||
        c == '\x7b' || c == '\x7d'

/-- Reads a text in any of its forms. -/
def anyText (cs : List Char) : Option (String × List Char) :=
  (match cs with
    | '\x22' :: _ => quotedText cs
    | '#' :: _ => rawText cs
    | _ => bareWord cs).filter (endsToken ·.2)

end EditorCore.Document

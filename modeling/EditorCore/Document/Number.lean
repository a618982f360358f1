import EditorCore.Document.Node
import EditorCore.Document.Quoted

set_option autoImplicit false

/-! # Numbers and keywords of a document

Numbers are decimal with an optional fraction and exponent, or hexadecimal, octal or binary
integers; underscores may stand between and after digits. Every run of digits must fit into a
signed integer of 128 bits. Keywords start with a hash, and unlike a text or a number a keyword
ends with its last letter, whatever follows it.
-/

namespace EditorCore.Document

/-- A digit of the base. -/
def isDigitOf (base : Nat) (c : Char) : Bool := digitValue c < base

/-- The value of a run of digits, underscores left out. -/
def runValue (base : Nat) (run : List Char) : Nat :=
  (run.filter (· != '_')).foldl (fun n c => base * n + digitValue c) 0

/-- The least number that a signed integer of 128 bits cannot hold. -/
def integerLimit : Nat := 0x80000000000000000000000000000000

/-- Reads a run of digits and underscores that starts with a digit. -/
def digitRun (base : Nat) (cs : List Char) : Option (List Char × List Char) :=
  let run := cs.takeWhile (fun c => isDigitOf base c || c == '_')
  match run with
  | c :: _ =>
      if isDigitOf base c && runValue base run < integerLimit then some (run, cs.drop run.length)
      else none
  | [] => none

/-- Splits off a sign. -/
def signOf : List Char → List Char × List Char
  | '+' :: rest => (['+'], rest)
  | '-' :: rest => (['-'], rest)
  | cs => ([], cs)

/-- Reads the fraction of a decimal number, if there is one. -/
def fraction (cs : List Char) : List Char × List Char :=
  match cs with
  | '.' :: rest =>
      match digitRun 10 rest with
      | some (run, rest) => ('.' :: run, rest)
      | none => ([], cs)
  | _ => ([], cs)

/-- Reads the exponent of a decimal number, if there is one. -/
def exponent (cs : List Char) : List Char × List Char :=
  match cs with
  | c :: rest =>
      if c = 'e' ∨ c = 'E' then
        let (sign, rest) := signOf rest
        match digitRun 10 rest with
        | some (run, rest) => (c :: sign ++ run, rest)
        | none => ([], cs)
      else ([], cs)
  | [] => ([], cs)

/-- The base that a letter behind a leading zero stands for. -/
def baseOf (c : Char) : Option Nat :=
  if c = 'x' ∨ c = 'X' then some 16
  else if c = 'o' ∨ c = 'O' then some 8
  else if c = 'b' ∨ c = 'B' then some 2
  else none

/-- Reads an unsigned decimal number and gives its spelling. -/
def decimal (cs : List Char) : Option (List Char × List Char) := do
  let (whole, rest) ← digitRun 10 cs
  let (part, rest) := fraction rest
  let (power, rest) := exponent rest
  some (whole ++ part ++ power, rest)

/-- Reads an unsigned number and gives its spelling. -/
def magnitude (cs : List Char) : Option (List Char × List Char) :=
  match cs with
  | '0' :: c :: rest =>
      match baseOf c with
      | some base => (digitRun base rest).map fun (run, rest) => ('0' :: c :: run, rest)
      | none => decimal cs
  | _ => decimal cs

/-- Reads a number. -/
def number (cs : List Char) : Option (Value × List Char) := do
  let (sign, rest) := signOf cs
  let (spelling, rest) ← magnitude rest
  if endsToken rest then some (.number (String.ofList (sign ++ spelling)), rest) else none

/-- The keywords and what they stand for. -/
def keywords : List (String × Value) :=
  [("#true", .boolean true), ("#false", .boolean false), ("#null", .null),
    ("#inf", .number "#inf"), ("#-inf", .number "#-inf"), ("#nan", .number "#nan")]

/-- Reads a keyword. -/
def keyword (cs : List Char) : Option (Value × List Char) :=
  keywords.findSome? fun (word, value) =>
    if word.toList.isPrefixOf cs then some (value, cs.drop word.length) else none

end EditorCore.Document

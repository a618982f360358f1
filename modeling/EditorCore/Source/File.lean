import EditorCore.Files.Path
import EditorCore.Source.Token
import EditorCore.Source.Comment
import EditorCore.Source.Directive

set_option autoImplicit false

/-! # Parsed files

What the front end reports about one file, in source order whatever the order of the report.
Sorting is stable: records that start at one place keep the order in which they were reported.
-/

namespace EditorCore

/-- The parse of one file, every kind of record in source order. -/
structure SourceFile where
  path : Path
  tokens : List Token
  comments : List Comment
  directives : List Directive
  tokens_sorted : tokens.Pairwise (fun a b => a.le b = true)
  comments_sorted : comments.Pairwise (fun a b => a.le b = true)
  directives_sorted : directives.Pairwise (fun a b => a.le b = true)

namespace SourceFile

/-- Puts the records of a file into source order. -/
def ofRecords (path : Path) (tokens : List Token) (comments : List Comment)
    (directives : List Directive) : SourceFile where
  path := path
  tokens := tokens.mergeSort Token.le
  comments := comments.mergeSort Comment.le
  directives := directives.mergeSort Directive.le
  tokens_sorted := List.pairwise_mergeSort Token.le_trans Token.le_total tokens
  comments_sorted := List.pairwise_mergeSort Comment.le_trans Comment.le_total comments
  directives_sorted := List.pairwise_mergeSort Directive.le_trans Directive.le_total directives

/-- The places that the tokens of one line take among all tokens, `stop` not included. -/
structure Places where
  start : Nat
  stop : Nat
deriving DecidableEq, Repr

/-- Enters the token at a place under its line. The first token of a line opens the places of the
line, a further one only moves their end. -/
def enter (line place : Nat) : List (Nat × Places) → List (Nat × Places)
  | [] => [(line, ⟨place, place + 1⟩)]
  | (key, places) :: more =>
      if key = line then (key, { places with stop := place + 1 }) :: more
      else (key, places) :: enter line place more

/-- The places of the lines that carry tokens, entered token by token. -/
def indexLines (tokens : List Token) : List (Nat × Places) :=
  tokens.zipIdx.foldl (fun index (token, place) => enter token.span.line place index) []

/-- The lines of the file that carry tokens, with the places of these. -/
def lineIndex (file : SourceFile) : List (Nat × Places) := indexLines file.tokens

/-- The tokens that start on a line, in column order. -/
def tokensOnLine (file : SourceFile) (line : Nat) : List Token :=
  match file.lineIndex.lookup line with
  | some places => file.tokens.extract places.start places.stop
  | none => []

end SourceFile

/-- How much a problem matters. -/
inductive Severity where
  | error
  | warning
deriving DecidableEq, Repr

/-- A problem that the front end reported. -/
structure Problem where
  path : Path
  line : Nat
  severity : Severity
  message : String
deriving DecidableEq, Repr

/-- What one parse returns: files and problems. A parse of a single file also carries the
dependents that the front end looked at again. -/
structure ParseResult where
  files : List SourceFile
  problems : List Problem

namespace ParseResult

/-- A parse that found nothing. -/
def empty : ParseResult := ⟨[], []⟩

/-- The first file of the result with the given path, in any spelling. -/
def file? (r : ParseResult) (path : Path) : Option SourceFile :=
  r.files.find? (fun f => f.path.same path)

/-- The number of problems that are errors. -/
def errorCount (r : ParseResult) : Nat :=
  r.problems.countP (fun p => p.severity == .error)

end ParseResult

end EditorCore

import EditorCore.Paint.Regions
import EditorCore.Paint.Style
import EditorCore.Source.File
import EditorCore.Text.Line

set_option autoImplicit false

/-! # Painting lines

A line gets its style runs from one source, the first that applies: an inactive line is a single
run, a line owned by directives shows their parts, any other line shows comments and then tokens.
-/

namespace EditorCore.Paint

/-- A stretch of columns on a line and the category it asks for. -/
structure Patch where
  column : Nat
  length : Nat
  category : Category
deriving DecidableEq, Repr

/-- The part of a patch that fits on the line. -/
def Patch.onLine (span : LineSpan) (p : Patch) : Option Run :=
  (span.clip p.column p.length).map fun (start, length) => ⟨start, length, p.category⟩

/-- The spans of a directive that are styled, with their categories. -/
def directiveParts (d : Directive) : List (Span × Category) :=
  (d.hash, .directive) :: (d.keyword, .directive) ::
    match d.kind with
    | .inclusion s => [(s, .includePath)]
    | .define s | .undef s | .ifDefined s | .ifNotDefined s => [(s, .macroName)]
    | _ => []

/-- What a directive asks for on a line. -/
def directivePatches (line : Nat) (d : Directive) : List Patch :=
  ((directiveParts d).filter (fun part => part.1.isOn line)).map fun (s, category) =>
    ⟨s.start.column, s.length, category⟩

/-- What a comment asks for on a line. -/
def commentPatch (line : Nat) (c : Comment) : Option Patch :=
  (c.bodyLine line).map fun text => ⟨c.columnOn line, text.length, .comment⟩

/-- The category of a token; names and punctuation have none. -/
def tokenCategory : TokenKind → Option Category
  | .string | .character => some .string
  | .number => some .number
  | .keyword => some .keyword
  | .identifier | .punctuation | .other => none

/-- What a token asks for on its line. -/
def tokenPatch (t : Token) : Option Patch :=
  (tokenCategory t.kind).map fun category => ⟨t.span.start.column, t.sourceLength, category⟩

/-- Paints the lines of one file. The regions belong to the file's directives. -/
structure Painter where
  file : SourceFile
  regions : Regions

namespace Painter

/-- The painter of a file. -/
def ofFile (file : SourceFile) : Painter := ⟨file, .ofDirectives file.directives⟩

/-- The directives that own a line. -/
def owners (p : Painter) (line : Nat) : List Directive :=
  p.file.directives.filter (fun d => d.owns line)

/-- What comments and tokens ask for on a line. Comments are in order of their start, so those
from the first one that starts below the line on have no part in it. -/
def textPatches (p : Painter) (line : Nat) : List Patch :=
  (p.file.comments.takeWhile (fun c => c.start.line ≤ line)).filterMap (commentPatch line) ++
    (p.file.tokensOnLine line).filterMap tokenPatch

/-- What an active line asks for. -/
def patches (p : Painter) (line : Nat) : List Patch :=
  match p.owners line with
  | [] => p.textPatches line
  | owners => owners.flatMap (directivePatches line)

/-- The style runs of a line that lies at the given place. -/
def paintSpan (p : Painter) (line : Nat) (span : LineSpan) : List Run :=
  if p.regions.isInactive line then [⟨span.start, span.width, .inactiveCode⟩]
  else layer ((p.patches line).filterMap (Patch.onLine span))

/-- The style runs of a line of a buffer; a line that the buffer does not have gets none. -/
def paintLine (p : Painter) (buffer : List Char) (line : Nat) : List Run :=
  match LineSpan.resolve buffer line with
  | .ok span => p.paintSpan line span
  | .error _ => []

/-- The style runs of the lines from one line up to another, which is not included. -/
def paintLines (p : Painter) (buffer : List Char) (first stop : Nat) : List Run :=
  (List.range' first (stop - first)).flatMap (p.paintLine buffer)

end Painter

end EditorCore.Paint

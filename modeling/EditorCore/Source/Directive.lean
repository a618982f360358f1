import EditorCore.Source.Position

set_option autoImplicit false

/-! # Preprocessor directives

A directive owns the lines from its first to its last one. The conditional ones open a group of
branches, start the next branch of a group, or close it; the front end says of each branch
whether it was taken.
-/

namespace EditorCore

/-- The kinds of directive, with the span that is styled on its own where there is one. -/
inductive DirectiveKind where
  | inclusion (argument : Span)
  | define (name : Span)
  | undef (name : Span)
  | ifDefined (name : Span)
  | ifNotDefined (name : Span)
  | ifTrue
  | otherwise
  | otherwiseIf
  | endIf
  | error
  | warning
  | pragma
  | lineNumber
  | unknown
deriving DecidableEq, Repr

/-- What a directive does to the groups of conditional branches. -/
inductive Conditional where
  | opens
  | branches
  | closes
deriving DecidableEq, Repr

namespace DirectiveKind

/-- The word after the hash; an unknown directive has none. -/
def keyword : DirectiveKind → String
  | inclusion _ => "include"
  | define _ => "define"
  | undef _ => "undef"
  | ifDefined _ => "ifdef"
  | ifNotDefined _ => "ifndef"
  | ifTrue => "if"
  | otherwise => "else"
  | otherwiseIf => "elif"
  | endIf => "endif"
  | error => "error"
  | warning => "warning"
  | pragma => "pragma"
  | lineNumber => "line"
  | unknown => ""

/-- The part the directive plays in a conditional group, if any. -/
def conditional : DirectiveKind → Option Conditional
  | ifDefined _ | ifNotDefined _ | ifTrue => some .opens
  | otherwise | otherwiseIf => some .branches
  | endIf => some .closes
  | _ => none

/-- The argument of an inclusion, or the macro name of a directive that has one. -/
def argument : DirectiveKind → Option Span
  | inclusion s | define s | undef s | ifDefined s | ifNotDefined s => some s
  | _ => none

end DirectiveKind

/-- A directive of a parsed file. `taken` is the front end's verdict on the branch that a
conditional directive starts. -/
structure Directive where
  kind : DirectiveKind
  hash : Span
  keyword : Span
  firstLine : Nat
  lastLine : Nat
  taken : Bool
deriving DecidableEq, Repr

namespace Directive

/-- A directive on the given lines; the last line is never before the first. -/
def ofLines (kind : DirectiveKind) (hash keyword : Span) (first last : Nat) (taken : Bool) :
    Directive :=
  ⟨kind, hash, keyword, first, max first last, taken⟩

/-- The line is one of the directive's. -/
def owns (d : Directive) (line : Nat) : Bool := d.firstLine ≤ line && line ≤ d.lastLine

/-- Where a directive stands: its first line and the column of its hash. -/
def position (d : Directive) : Position := ⟨d.firstLine, d.hash.start.column⟩

/-- Directives are ordered by first line, then by the column of the hash. -/
def le (a b : Directive) : Bool := a.position.le b.position

theorem le_trans (a b c : Directive) (hab : a.le b = true) (hbc : b.le c = true) : a.le c = true :=
  Position.le_trans _ _ _ hab hbc

theorem le_total (a b : Directive) : (a.le b || b.le a) = true := Position.le_total _ _

end Directive

end EditorCore

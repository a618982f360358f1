set_option autoImplicit false

/-! # Styles

A style run is a stretch of the buffer with the category it is drawn in. Categories are tied to
scopes of a theme; a palette holds the style of every category, looked up once.

Runs from several sources may overlap. Layering sorts them by where they start, a tie going to
the one that came first, and lets every run have only what the runs before it left over.
-/

namespace EditorCore.Paint

/-- What a stretch of text is, as far as its look goes. -/
inductive Category where
  | inactiveCode
  | directive
  | includePath
  | macroName
  | comment
  | string
  | number
  | keyword
deriving DecidableEq, Repr

namespace Category

/-- All categories, in the order in which a palette lists them. -/
def all : List Category :=
  [inactiveCode, directive, includePath, macroName, comment, string, number, keyword]

/-- The scope of a theme that gives the category its style. -/
def scope : Category → String
  | inactiveCode => "ui.text.inactive"
  | directive => "keyword.directive"
  | includePath => "string.special.path"
  | macroName => "constant.macro"
  | comment => "comment"
  | string => "string"
  | number => "constant.numeric"
  | keyword => "keyword"

end Category

/-- A stretch of the buffer drawn in one category. -/
structure Run where
  start : Nat
  length : Nat
  category : Category
deriving DecidableEq, Repr

namespace Run

/-- One past the last character. -/
def stop (r : Run) : Nat := r.start + r.length

/-- The run has no characters. -/
def isEmpty (r : Run) : Bool := r.length == 0

end Run

/-- Gives every run what lies beyond `edge`, the end of what has been painted. Runs that have
nothing left are dropped. -/
def trim : Nat → List Run → List Run
  | _, [] => []
  | edge, r :: rest =>
      if r.stop ≤ max edge r.start then trim edge rest
      else ⟨max edge r.start, r.stop - max edge r.start, r.category⟩ :: trim r.stop rest

/-- Sorted, disjoint and non-empty runs that cover what the given ones cover. -/
def layer (runs : List Run) : List Run :=
  trim 0 (runs.mergeSort (fun a b => a.start ≤ b.start))

/-- The style of every category. -/
structure Palette (σ : Type) where
  style : Category → σ

/-- Looks every category's scope up in a theme. -/
def Palette.ofTheme {σ : Type} (lookup : String → σ) : Palette σ := ⟨fun c => lookup c.scope⟩

end EditorCore.Paint

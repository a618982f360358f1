set_option autoImplicit false

/-! # Paths

A path is kept as it was written and compared by its components: repeated and trailing
separators do not count, nor does a `.` that is not the first component of a relative path.
Two spellings of one path are therefore equal as keys although their texts differ. The order
of paths is the lexicographic order of their components.
-/

namespace EditorCore

/-- A path, spelled as it was given. -/
structure Path where
  text : String
deriving DecidableEq, Repr, Inhabited

namespace Path

/-- One step of a path. -/
inductive Component where
  | root
  | current
  | parent
  | name (s : String)
deriving DecidableEq, Repr

namespace Component

/-- The place of a kind of component in the order: the root first, names last. -/
def rank : Component → Nat
  | root => 0
  | current => 1
  | parent => 2
  | name _ => 3

/-- Components are ordered by kind, names among themselves by their text. -/
def le : Component → Component → Bool
  | name a, name b => a ≤ b
  | a, b => a.rank ≤ b.rank

/-- The component a piece between two separators stands for, if it counts. -/
def ofPiece : List Char → Option Component
  | [] => none
  | ['.'] => none
  | ['.', '.'] => some parent
  | piece => some (name (String.ofList piece))

end Component

/-- The pieces of the text between separators. -/
def pieces (p : Path) : List (List Char) := p.text.toList.splitOn '/'

/-- A path that starts with a separator is absolute. -/
def isAbsolute (p : Path) : Bool := p.text.toList.head? == some '/'

/-- What a path starts with beside its pieces: the root, or the current directory if the first
piece of a relative path is `.`. -/
def anchor (p : Path) : List Component :=
  if p.isAbsolute then [.root]
  else if p.pieces.head? == some ['.'] then [.current]
  else []

/-- The components of a path, by which it is compared. -/
def components (p : Path) : List Component :=
  p.anchor ++ p.pieces.filterMap Component.ofPiece

/-- Two spellings of the same path. -/
def same (p q : Path) : Bool := p.components == q.components

/-- Lexicographic order of components; a path comes before its extensions. -/
def leComponents : List Component → List Component → Bool
  | [], _ => true
  | _ :: _, [] => false
  | a :: as, b :: bs => if a = b then leComponents as bs else a.le b

/-- The order of paths. -/
def le (p q : Path) : Bool := leComponents p.components q.components

/-- Puts a relative path below a directory: a separator goes between unless the directory's
text is empty or ends with one. -/
def join (dir p : Path) : Path :=
  if dir.text.isEmpty || dir.text.toList.getLast? == some '/' then ⟨dir.text ++ p.text⟩
  else ⟨dir.text ++ "/" ++ p.text⟩

/-- A path as seen from a directory: an absolute path stands for itself. -/
def resolve (dir p : Path) : Path := if p.isAbsolute then p else dir.join p

end Path

end EditorCore

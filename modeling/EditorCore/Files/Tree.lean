import EditorCore.Files.Path

set_option autoImplicit false

/-! # File trees

A file system as a value: directories and files at locations, a location being the list of names
that leads to it from the root. Looking a path up walks it piece by piece, so that every piece
but the last must be a directory, also one that `..` leaves again; a relative path starts at the
root. A path that ends in a separator can only be a directory.
-/

namespace EditorCore

/-- Why a path cannot be read. -/
inductive ReadError where
  | notFound
  | notDirectory
  | isDirectory
  | notUnicode
  | nulInPath
deriving DecidableEq, Repr

/-- The reason as the operating system words it. -/
def ReadError.message : ReadError → String
  | notFound => "No such file or directory (os error 2)"
  | notDirectory => "Not a directory (os error 20)"
  | isDirectory => "Is a directory (os error 21)"
  | notUnicode => "stream did not contain valid UTF-8"
  | nulInPath => "file name contained an unexpected NUL byte"

/-- The names that lead from the root to a place. -/
abbrev Location := List String

/-- What stands at a location. -/
inductive FileItem where
  | directory
  | file (bytes : List UInt8)
deriving DecidableEq, Repr

/-- A file system: what stands where. The root is a directory. -/
structure FileTree where
  items : List (Location × FileItem)
deriving Repr

namespace FileTree

/-- The tree with nothing but the root. -/
def empty : FileTree := ⟨[]⟩

/-- What stands at a location. -/
def item? (t : FileTree) (place : Location) : Option FileItem :=
  if place.isEmpty then some .directory else t.items.lookup place

/-- Puts an item at a location, in front of what stood there. -/
def put (t : FileTree) (place : Location) (item : FileItem) : FileTree :=
  ⟨(place, item) :: t.items⟩

/-- Makes a directory and those above it that are missing. -/
def makeDirectory (t : FileTree) (place : Location) : FileTree :=
  (List.range place.length).foldl
    (fun t n =>
      let above := place.take (n + 1)
      if (t.item? above).isSome then t else t.put above .directory) t

/-- Makes a file, and the directories above it that are missing. -/
def makeFile (t : FileTree) (place : Location) (bytes : List UInt8) : FileTree :=
  (t.makeDirectory place.dropLast).put place (.file bytes)

/-- The location that a path from the root leads to, the tree not consulted. -/
def locationOf (p : Path) : Location :=
  p.pieces.foldl
    (fun place piece =>
      if piece = [] ∨ piece = ['.'] then place
      else if piece = ['.', '.'] then place.dropLast
      else place ++ [String.ofList piece]) []

/-- One piece of a walk: from a place to the place the piece names. -/
def enter (t : FileTree) (here : Location × FileItem) (piece : List Char) :
    Except ReadError (Location × FileItem) :=
  match here.2 with
  | .file _ => .error .notDirectory
  | .directory =>
      if piece = [] ∨ piece = ['.'] then .ok here
      else if piece = ['.', '.'] then .ok (here.1.dropLast, .directory)
      else
        match t.item? (here.1 ++ [String.ofList piece]) with
        | some item => .ok (here.1 ++ [String.ofList piece], item)
        | none => .error .notFound

/-- What a path leads to. -/
def find (t : FileTree) (p : Path) : Except ReadError FileItem :=
  if p.text.toList.contains '\x00' then .error .nulInPath
  else if p.text.isEmpty then .error .notFound
  else (p.pieces.foldlM t.enter ([], .directory)).map (·.2)

/-- The path leads to a directory. -/
def isDirectory (t : FileTree) (p : Path) : Bool :=
  match t.find p with
  | .ok .directory => true
  | _ => false

/-- The path leads to a regular file. -/
def isFile (t : FileTree) (p : Path) : Bool :=
  match t.find p with
  | .ok (.file _) => true
  | _ => false

/-- The text of a file. -/
def read (t : FileTree) (p : Path) : Except ReadError String :=
  match t.find p with
  | .error e => .error e
  | .ok .directory => .error .isDirectory
  | .ok (.file bytes) =>
      match String.fromUTF8? ⟨bytes.toArray⟩ with
      | some text => .ok text
      | none => .error .notUnicode

end FileTree

end EditorCore

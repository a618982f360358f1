import EditorCore.Source.File
import EditorCore.Store.FrontEnd
import EditorCore.Store.Table

set_option autoImplicit false

/-! # Entries of the store

An entry exists while its project has a parse context. Every parse takes a ticket when it starts,
and its results are stored with that ticket, so that a parse that started earlier never replaces
what a later one has stored, in whatever order they finish.
-/

namespace EditorCore.Store

/-- A stored value and the ticket of the parse that it came from. -/
structure Stamped (α : Type) where
  ticket : Nat
  value : α

/-- Files by path, all spellings of a path being one key. -/
abbrev FileTable := Table Path (Stamped SourceFile) Path.same

/-- What the store keeps of one project. `lastTicket` is the ticket of the latest parse to start,
and zero before the first. -/
structure Entry where
  context : ContextHandle
  lastTicket : Nat
  latest : Option (Stamped ParseResult)
  files : FileTable

namespace Entry

/-- The entry of a new context. -/
def ofContext (context : ContextHandle) : Entry := ⟨context, 0, none, .empty⟩

/-- The ticket of the next parse to start. -/
def nextTicket (e : Entry) : Nat := e.lastTicket + 1

/-- The ticket of what is stored for a path, if a parse that started later than the given one has
stored it. -/
def newer? (e : Entry) (ticket : Nat) (path : Path) : Option Nat :=
  match e.files.get? path with
  | some stored => if ticket < stored.ticket then some stored.ticket else none
  | none => none

/-- Stores one file of a parse, unless a later parse has stored that file. -/
def absorbFile (ticket : Nat) (e : Entry) (file : SourceFile) : Entry :=
  match e.newer? ticket file.path with
  | some _ => e
  | none => { e with files := e.files.put file.path ⟨ticket, file⟩ }

/-- Stores the files of a parse. -/
def absorb (e : Entry) (ticket : Nat) (result : ParseResult) : Entry :=
  result.files.foldl (absorbFile ticket) e

/-- Makes the result of a build the project's result, unless a later build has done so. -/
def install (e : Entry) (ticket : Nat) (result : ParseResult) : Entry :=
  match e.latest with
  | none => { e with latest := some ⟨ticket, result⟩ }
  | some stored =>
      if stored.ticket < ticket then { e with latest := some ⟨ticket, result⟩ } else e

/-- The project's result, if it was built. -/
def result? (e : Entry) : Option ParseResult := e.latest.map (·.value)

/-- What is stored for a path. -/
def file? (e : Entry) (path : Path) : Option SourceFile := (e.files.get? path).map (·.value)

/-- The paths with a stored file, in path order. -/
def paths (e : Entry) : List Path := e.files.keys.mergeSort Path.le

end Entry

end EditorCore.Store

import EditorCore.Event
import EditorCore.Store.Entry

set_option autoImplicit false

/-! # The store and its steps

The store maps project names to entries. Its operations are made of steps, each of which sees and
changes the store as a whole; while the front end parses, no step is under way, so the steps of
several callers may interleave in any order. A step takes what the front end answers as an
argument and returns, beside its value and the new store, the requests it made and the events it
reported.
-/

namespace EditorCore

/-- The parse contexts and results of all projects. -/
structure Store where
  entries : Store.Table String Store.Entry (· == ·)

namespace Store

/-- The store without projects. -/
def empty : Store := ⟨.empty⟩

/-! ## Reading -/

/-- The entry of a project. -/
def entry? (s : Store) (project : String) : Option Entry := s.entries.get? project

/-- The project has a parse context. -/
def contains (s : Store) (project : String) : Bool := s.entries.contains project

/-- The parse context of a project. -/
def context? (s : Store) (project : String) : Option ContextHandle :=
  (s.entry? project).map (·.context)

/-- The result of the project's latest build. -/
def result? (s : Store) (project : String) : Option ParseResult :=
  (s.entry? project).bind (·.result?)

/-- The latest result for a file of a project. -/
def file? (s : Store) (project : String) (path : Path) : Option SourceFile :=
  (s.entry? project).bind (·.file? path)

/-- The names of the projects with a context, in order. -/
def projects (s : Store) : List String := s.entries.keys.mergeSort (fun a b => a ≤ b)

/-- The paths of a project with a stored result, in path order. -/
def paths (s : Store) (project : String) : List Path :=
  match s.entry? project with
  | some e => e.paths
  | none => []

/-! ## Steps -/

/-- What a step returns. -/
structure Step (α : Type) where
  value : α
  store : Store
  calls : List Call
  events : List Event

/-- A step that only looks. -/
def Step.pure {α : Type} (value : α) (s : Store) : Step α := ⟨value, s, [], []⟩

/-- The store with a new entry for a project. -/
def putEntry (s : Store) (project : String) (e : Entry) : Store := ⟨s.entries.put project e⟩

/-- Creates the parse context of a project unless it has one. -/
def create (s : Store) (project : String) (options : List Settings.Flag)
    (answer : Except FrontEndError ContextHandle) : Step (Except StoreError ContextHandle) :=
  match s.context? project with
  | some context => .pure (.ok context) s
  | none =>
      match answer with
      | .error e =>
          ⟨.error (.frontEnd e), s, [.createContext options], [.creationFailed project e]⟩
      | .ok context =>
          ⟨.ok context, s.putEntry project (.ofContext context), [.createContext options],
            [.contextCreated project context options.length]⟩

/-- Gives the parse context of a project its current settings. A project without a context gets a
new one. -/
def pushSettings (s : Store) (project : String) (options : List Settings.Flag)
    (created : Except FrontEndError ContextHandle) (updated : Except FrontEndError Unit) :
    Step (Except StoreError Unit) :=
  match s.context? project with
  | none =>
      let step := s.create project options created
      ⟨step.value.map fun _ => (), step.store, step.calls, step.events⟩
  | some context =>
      match updated with
      | .error e =>
          ⟨.error (.frontEnd e), s, [.updateSettings context options],
            [.settingsRejected project e]⟩
      | .ok () =>
          ⟨.ok (), s, [.updateSettings context options], [.settingsUpdated project context]⟩

/-- Drops a project's context with all its results. The value tells whether there was one. -/
def delete (s : Store) (project : String) : Step Bool :=
  match s.context? project with
  | none => ⟨false, s, [], [.nothingToDelete project]⟩
  | some context =>
      ⟨true, ⟨s.entries.erase project⟩, [.deleteContext context],
        [.contextDeleted project context]⟩

/-- Runs a step on the entry of a project if it still belongs to the context in which a parse
began. What a parse found must not reach the entry of a newer context. -/
def withLive {α : Type} (s : Store) (project : String) (context : ContextHandle)
    (act : Entry → Step (Except StoreError α)) : Step (Except StoreError α) :=
  match s.entry? project with
  | some e => if e.context = context then act e else discard
  | none => discard
where
  /-- The answer to a parse that has outlived its context. -/
  discard : Step (Except StoreError α) :=
    ⟨.error (.contextDeleted project), s, [], [.resultsDiscarded project context]⟩

/-- Takes the ticket of a parse that starts now. -/
def takeTicket (s : Store) (project : String) (context : ContextHandle) :
    Step (Except StoreError Nat) :=
  s.withLive project context fun e =>
    .pure (.ok e.nextTicket) (s.putEntry project { e with lastTicket := e.nextTicket })

/-- What is reported about the files of a parse that a later parse has already stored. -/
def keptEvents (e : Entry) (ticket : Nat) (result : ParseResult) : List Event :=
  result.files.filterMap fun file =>
    (e.newer? ticket file.path).map fun stored => .newerKept file.path ticket stored

/-- Stores what a build found. -/
def mergeBuild (s : Store) (project : String) (context : ContextHandle) (ticket : Nat)
    (result : ParseResult) : Step (Except StoreError Unit) :=
  s.withLive project context fun e =>
    ⟨.ok (), s.putEntry project ((e.absorb ticket result).install ticket result), [],
      keptEvents e ticket result ++
        [.buildMerged project ticket result.files.length result.problems.length]⟩

/-- Stores what the parse of a single file found; the project's result stays as it was. -/
def mergeUpdate (s : Store) (project : String) (context : ContextHandle) (ticket : Nat)
    (path : Path) (result : ParseResult) : Step (Except StoreError Unit) :=
  s.withLive project context fun e =>
    ⟨.ok (), s.putEntry project (e.absorb ticket result), [],
      keptEvents e ticket result ++ [.updateMerged project ticket path result.files.length]⟩

end Store

end EditorCore

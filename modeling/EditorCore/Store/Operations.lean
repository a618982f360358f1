import EditorCore.Store.Steps
import EditorCore.Trace

set_option autoImplicit false

/-! # Operations of the store

What a caller asks of the store, as sequences of steps. A parse has two halves with the work of
the front end between them: `beginParse` makes sure of a context and takes a ticket, `endParse`
stores what was found.
-/

namespace EditorCore.Store

open Settings (Config Flag)

/-- Goes on with the value of a step, on the store that the step has left. An error ends the
operation. -/
def Step.andThen {α β : Type} (step : Step (Except StoreError α))
    (next : α → Store → Step (Except StoreError β)) : Step (Except StoreError β) :=
  match step.value with
  | .error e => ⟨.error e, step.store, step.calls, step.events⟩
  | .ok a =>
      let more := next a step.store
      ⟨more.value, more.store, step.calls ++ more.calls, step.events ++ more.events⟩

/-- The options of a project. The store takes no part in this. -/
def checkOptions (s : Store) (files : FileTree) (project : String) (config : Config) :
    Step (Except StoreError (List Flag)) :=
  match config.options files with
  | .ok flags => ⟨.ok flags, s, [], config.optionEvents files⟩
  | .error e =>
      ⟨.error (.settings e), s, [], config.optionEvents files ++ [.settingsInvalid project e]⟩

/-- The parse context of a project, a new one if it has none. -/
def ensureContext (s : Store) (files : FileTree) (project : String) (config : Config)
    (answer : Except FrontEndError ContextHandle) : Step (Except StoreError ContextHandle) :=
  match s.context? project with
  | some context => .pure (.ok context) s
  | none =>
      (s.checkOptions files project config).andThen fun flags s => s.create project flags answer

/-- Gives the parse context of a project its current settings. -/
def updateContext (s : Store) (files : FileTree) (project : String) (config : Config)
    (created : Except FrontEndError ContextHandle) (updated : Except FrontEndError Unit) :
    Step (Except StoreError Unit) :=
  (s.checkOptions files project config).andThen fun flags s =>
    s.pushSettings project flags created updated

/-- What a parse covers. -/
inductive Target where
  | project
  | file (path : Path)
deriving DecidableEq, Repr

namespace Target

/-- The request that starts the parse in a context. -/
def call (context : ContextHandle) : Target → Call
  | project => .build context
  | file path => .update context path

/-- What is reported when the front end fails. -/
def failure (name : String) (cause : FrontEndError) : Target → Event
  | project => .buildFailed name cause
  | file path => .updateFailed name path cause

/-- The step that stores what the parse found. -/
def merge (s : Store) (name : String) (context : ContextHandle) (ticket : Nat)
    (result : ParseResult) : Target → Step (Except StoreError Unit)
  | project => s.mergeBuild name context ticket result
  | file path => s.mergeUpdate name context ticket path result

end Target

/-- The first half of a parse: a context and a ticket. -/
def beginParse (s : Store) (files : FileTree) (project : String) (config : Config)
    (answer : Except FrontEndError ContextHandle) :
    Step (Except StoreError (ContextHandle × Nat)) :=
  (s.ensureContext files project config answer).andThen fun context s =>
    (s.takeTicket project context).andThen fun ticket s => .pure (.ok (context, ticket)) s

/-- The second half of a parse: the front end has answered. -/
def endParse (s : Store) (target : Target) (project : String) (context : ContextHandle)
    (ticket : Nat) (answer : Except FrontEndError ParseResult) :
    Step (Except StoreError ParseResult) :=
  match answer with
  | .error e => ⟨.error (.frontEnd e), s, [], [target.failure project e]⟩
  | .ok result =>
      (target.merge s project context ticket result).andThen fun _ s => .pure (.ok result) s

end EditorCore.Store

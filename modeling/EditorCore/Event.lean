import EditorCore.Store.FrontEnd
import EditorCore.Text.Line

set_option autoImplicit false

/-! # Events

What the library reports while it works, beside its results. An event is kept as its cause; how
it is logged (level, message, fields) is derived from that.
-/

namespace EditorCore

/-- How loud an event is. -/
inductive Level where
  | trace
  | debug
  | info
  | warn
deriving DecidableEq, Repr

/-- Something worth reporting. -/
inductive Event where
  | scanOutside (offset length : Nat)
  | wordOutside (offset length : Nat)
  | strayBranch (line : Nat)
  | strayClose (line : Nat)
  | lineSkipped (cause : LocationError)
  | includePathAbsent (path : Path)
  | settingsInvalid (project : String) (cause : Settings.SettingsError)
  | creationFailed (project : String) (cause : Store.FrontEndError)
  | contextCreated (project : String) (context : Store.ContextHandle) (options : Nat)
  | settingsRejected (project : String) (cause : Store.FrontEndError)
  | settingsUpdated (project : String) (context : Store.ContextHandle)
  | nothingToDelete (project : String)
  | contextDeleted (project : String) (context : Store.ContextHandle)
  | buildFailed (project : String) (cause : Store.FrontEndError)
  | updateFailed (project : String) (path : Path) (cause : Store.FrontEndError)
  | newerKept (path : Path) (ticket stored : Nat)
  | buildMerged (project : String) (ticket files problems : Nat)
  | updateMerged (project : String) (ticket : Nat) (path : Path) (files : Nat)
  | resultsDiscarded (project : String) (context : Store.ContextHandle)
  | workerStarted (thread : String)
deriving DecidableEq, Repr

namespace Event

/-- How loud the event is. -/
def level : Event → Level
  | scanOutside .. | wordOutside .. | strayBranch .. | strayClose .. | lineSkipped ..
  | newerKept .. | workerStarted .. => .trace
  | settingsUpdated .. | nothingToDelete .. | buildMerged .. | updateMerged .. => .debug
  | contextCreated .. | contextDeleted .. => .info
  | includePathAbsent .. | settingsInvalid .. | creationFailed .. | settingsRejected ..
  | buildFailed .. | updateFailed .. | resultsDiscarded .. => .warn

/-- The message that the event is logged with. -/
def message : Event → String
  | scanOutside .. => "scan offset outside buffer"
  | wordOutside .. => "identifier offset outside buffer"
  | strayBranch .. => "branch directive outside a conditional group"
  | strayClose .. => "unmatched conditional close"
  | lineSkipped .. => "skipping line decoration"
  | includePathAbsent .. => "include path does not exist"
  | settingsInvalid .. => "invalid project configuration"
  | creationFailed .. => "failed to create parse context"
  | contextCreated .. => "created parse context"
  | settingsRejected .. => "failed to update parse context settings"
  | settingsUpdated .. => "updated parse context settings"
  | nothingToDelete .. => "no parse context to delete"
  | contextDeleted .. => "deleted parse context"
  | buildFailed .. => "project build failed"
  | updateFailed .. => "file update failed"
  | newerKept .. => "keeping newer file result"
  | buildMerged .. => "merged build results"
  | updateMerged .. => "merged file update"
  | resultsDiscarded .. => "parse context deleted during parse, discarding results"
  | workerStarted .. => "worker.spawn_named_thread"

/-- The fields that the event is logged with. -/
def fields : Event → List (String × String)
  | scanOutside offset length | wordOutside offset length =>
      [("offset", toString offset), ("len", toString length)]
  | strayBranch line | strayClose line => [("line", toString line)]
  | lineSkipped cause => [("error", cause.message)]
  | includePathAbsent path => [("path", path.text)]
  | settingsInvalid project cause => [("project", project), ("error", cause.message)]
  | creationFailed project cause | settingsRejected project cause | buildFailed project cause =>
      [("project", project), ("error", cause.message)]
  | contextCreated project context options =>
      [("project", project), ("context", context.display), ("options", toString options)]
  | settingsUpdated project context | contextDeleted project context
  | resultsDiscarded project context => [("project", project), ("context", context.display)]
  | nothingToDelete project => [("project", project)]
  | updateFailed project path cause =>
      [("project", project), ("path", path.text), ("error", cause.message)]
  | newerKept path ticket stored =>
      [("path", path.text), ("ticket", toString ticket), ("stored", toString stored)]
  | buildMerged project ticket files problems =>
      [("project", project), ("ticket", toString ticket), ("files", toString files),
        ("problems", toString problems)]
  | updateMerged project ticket path files =>
      [("project", project), ("ticket", toString ticket), ("path", path.text),
        ("files", toString files)]
  | workerStarted thread => [("thread", thread)]

end Event

end EditorCore

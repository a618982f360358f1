import EditorCore.Store.Operations

set_option autoImplicit false

/-! # Sessions

A session plays requests against a store and a scripted front end. A request carries the answers
that the front end gives to it, and the requests that come in while the front end is at work on
it: those run between the two halves of its parse.
-/

namespace EditorCore.Store

open Settings (Config SettingsError)

/-- The answers of the front end to one request. Without an answer of its own for a new context,
it hands out the session's next fresh handle. -/
structure Script where
  created : Option (Except FrontEndError ContextHandle)
  updated : Except FrontEndError Unit
  parsed : Except FrontEndError ParseResult

/-- What a request asks for. -/
inductive Action where
  | ensureContext
  | updateContext
  | deleteContext
  | parse (target : Target) (background : Bool)
  | result
  | file (path : Path)
  | contains
  | context
  | projects
  | paths
  | paint (path : Path) (buffer : List Char) (first stop : Nat)

/-- A request about a project. Its settings may have failed to be read. -/
structure Request where
  action : Action
  project : String
  config : Except SettingsError Config
  script : Script
  during : List Request

/-- What a request is answered with. -/
inductive Reply where
  | failed (cause : StoreError)
  | handle (context : ContextHandle)
  | done
  | flag (b : Bool)
  | parsed (result : ParseResult)
  | job (thread : String) (outcome : Except StoreError ParseResult)
  | result (found : Option ParseResult)
  | file (found : Option SourceFile)
  | context (found : Option ContextHandle)
  | names (names : List String)
  | paths (paths : List Path)
  | runs (found : Option (List Paint.Run))

/-- What became of a request: the reply, the store after it, the calls made for it, and the
reports on the requests that ran during it. -/
structure Report where
  reply : Reply
  store : Store
  calls : List Call
  during : List Report

/-- A store under way, the next fresh handle, and the events so far. -/
structure Session where
  store : Store
  nextHandle : Nat
  events : List Event

namespace Session

/-- A session with an empty store. -/
def start : Session := ⟨.empty, 1, []⟩

/-- Reports events. -/
def note (s : Session) (events : List Event) : Session := { s with events := s.events ++ events }

/-- The front end's answer when a context is asked for. -/
def created (s : Session) (script : Script) : Except FrontEndError ContextHandle :=
  script.created.getD (.ok ⟨s.nextHandle⟩)

/-- The number of fresh handles that the calls have used up. -/
def freshUsed (script : Script) (calls : List Call) : Nat :=
  match script.created with
  | some _ => 0
  | none => calls.countP fun call => match call with | .createContext _ => true | _ => false

/-- Takes over what a step has left. -/
def commit {α : Type} (s : Session) (script : Script) (step : Step α) : Session :=
  ⟨step.store, s.nextHandle + freshUsed script step.calls, s.events ++ step.events⟩

end Session

/-- The reply to a request that may fail. -/
def Reply.ofResult {α : Type} (value : α → Reply) : Except StoreError α → Reply
  | .ok a => value a
  | .error e => .failed e

/-- The name of the thread that works on a parse in the background. A thread's name has no NUL in
it. -/
def threadName (target : Target) (project : String) : String :=
  let kind := match target with
    | .project => "build"
    | .file _ => "update"
  s!"nesc-{kind}-" ++ String.ofList (project.toList.filter (· != '\x00'))

namespace Session

/-- Runs a step to its end and reports on it. -/
def complete {α : Type} (s : Session) (script : Script) (reply : α → Reply) (step : Step α) :
    Session × Report :=
  let s := s.commit script step
  (s, ⟨reply step.value, s.store, step.calls, []⟩)

/-- Answers a question about the store. -/
def answer (s : Session) (reply : Reply) : Session × Report := (s, ⟨reply, s.store, [], []⟩)

/-- Runs a parse, and in the middle of it what happens while the front end is at work. -/
def parse (files : FileTree) (s : Session) (target : Target) (project : String)
    (config : Config) (script : Script) (reply : Except StoreError ParseResult → Reply)
    (meanwhile : Session → Session × List Report) : Session × Report :=
  let began := s.store.beginParse files project config (s.created script)
  let s := s.commit script began
  match began.value with
  | .error e => (s, ⟨reply (.error e), s.store, began.calls, []⟩)
  | .ok (context, ticket) =>
      let (s, during) := meanwhile s
      let ended := s.store.endParse target project context ticket script.parsed
      let s := s.commit script ended
      (s, ⟨reply ended.value, s.store, began.calls ++ [target.call context], during⟩)

/-- The style runs of a stored file, and what painting it reports. -/
def paint (s : Session) (project : String) (path : Path) (buffer : List Char)
    (first stop : Nat) : Session × Report :=
  match s.store.file? project path with
  | none => s.answer (.runs none)
  | some file =>
      let s := s.note (Paint.Painter.fileEvents file ++ Paint.Painter.linesEvents buffer first stop)
      s.answer (.runs (some ((Paint.Painter.ofFile file).paintLines buffer first stop)))

/-- Runs one action. -/
def act (files : FileTree) (s : Session) (project : String) (config : Config) (script : Script)
    (meanwhile : Session → Session × List Report) : Action → Session × Report
  | .ensureContext =>
      s.complete script (.ofResult .handle)
        (s.store.ensureContext files project config (s.created script))
  | .updateContext =>
      s.complete script (.ofResult fun _ => .done)
        (s.store.updateContext files project config (s.created script) script.updated)
  | .deleteContext => s.complete script .flag (s.store.delete project)
  | .parse target false =>
      s.parse files target project config script (.ofResult .parsed) meanwhile
  | .parse target true =>
      let thread := threadName target project
      (s.note [.workerStarted thread]).parse files target project config script (.job thread)
        meanwhile
  | .result => s.answer (.result (s.store.result? project))
  | .file path => s.answer (.file (s.store.file? project path))
  | .contains => s.answer (.flag (s.store.contains project))
  | .context => s.answer (.context (s.store.context? project))
  | .projects => s.answer (.names s.store.projects)
  | .paths => s.answer (.paths (s.store.paths project))
  | .paint path buffer first stop => s.paint project path buffer first stop

mutual

/-- Plays one request. Without settings it fails and does nothing, whatever it asks for. -/
def play (files : FileTree) : Request → Session → Session × Report
  | ⟨action, project, .ok config, script, during⟩, s =>
      s.act files project config script (playAll files during) action
  | ⟨_, _, .error e, _, _⟩, s => s.answer (.failed (.settings e))

/-- Plays requests one after another. -/
def playAll (files : FileTree) : List Request → Session → Session × List Report
  | [], s => (s, [])
  | request :: rest, s =>
      let (s, report) := play files request s
      let (s, reports) := playAll files rest s
      (s, report :: reports)

end

end Session

end EditorCore.Store

import EditorCore.Proofs.Store.Entry
import EditorCore.Store.Operations
import Mathlib.Logic.Function.Basic
import Mathlib.Logic.Relation

set_option autoImplicit false

/-! # The store among its callers

Any number of callers use the store at once. A `World` is the store together with the parses under
way and a record of what has happened; a `Turn` is one caller's uninterrupted use of the store, and
callers interleave by taking turns in any order. An operation that lets go of the store in the
middle is also there in its parts: a context that was found missing is created in a later turn, and
a parse may take its ticket in a later turn than the one that made sure of its context.

The front end is arbitrary: a turn carries the answers that it gives. What all turns can do to a
world is said once, by `Change`: every turn is a sequence of changes (`turn_changes`), so whatever
the five changes preserve holds in every world that callers can reach.
-/

namespace EditorCore.Store

open Settings (Config Flag)

/-! ## Worlds and turns -/

/-- A parse that has begun. It began in the entry that its project had in that era, and `context`
is the context of that entry. -/
structure Parse where
  target : Target
  project : String
  context : ContextHandle
  ticket : Nat
  era : Nat

/-- The store among its callers. The era of a project is the number of times that its entry was
deleted, so project and era name one entry. `issued` lists the handles that the front end has
handed out. -/
structure World where
  store : Store
  era : String → Nat
  pending : List Parse
  merged : List (Parse × ParseResult)
  issued : List ContextHandle

/-- One caller's uninterrupted use of the store, with what the front end answers. -/
inductive Turn where
  | ensureContext (files : FileTree) (project : String) (config : Config)
      (created : Except FrontEndError ContextHandle)
  | createContext (project : String) (options : List Flag)
      (created : Except FrontEndError ContextHandle)
  | updateContext (files : FileTree) (project : String) (config : Config)
      (created : Except FrontEndError ContextHandle) (updated : Except FrontEndError Unit)
  | deleteContext (project : String)
  | beginParse (target : Target) (files : FileTree) (project : String) (config : Config)
      (created : Except FrontEndError ContextHandle)
  | takeTicket (target : Target) (project : String) (context : ContextHandle)
  | endParse (place : Nat) (answer : Except FrontEndError ParseResult)

/-- The handle that was handed out, if the calls asked for one. -/
def handedOut (created : Except FrontEndError ContextHandle) (calls : List Call) :
    List ContextHandle :=
  match created with
  | .ok context =>
      if calls.any (fun call => match call with | .createContext _ => true | _ => false)
      then [context] else []
  | .error _ => []

namespace World

/-- A store without projects, and nobody at work. -/
def start : World := ⟨.empty, fun _ => 0, [], [], []⟩

/-- The world after a step that may have asked for a context. -/
def after {α : Type} (w : World) (created : Except FrontEndError ContextHandle) (step : Step α) :
    World :=
  { w with store := step.store, issued := w.issued ++ handedOut created step.calls }

/-- Puts a parse under way, if it has got a context and a ticket. -/
def begin (w : World) (target : Target) (project : String) :
    Except StoreError (ContextHandle × Nat) → World
  | .ok (context, ticket) =>
      { w with pending := w.pending ++ [⟨target, project, context, ticket, w.era project⟩] }
  | .error _ => w

/-- The world after a turn. The parse that ends is named by its place among those under way. -/
def turn (w : World) : Turn → World
  | .ensureContext files project config created =>
      w.after created (w.store.ensureContext files project config created)
  | .createContext project options created =>
      w.after created (w.store.create project options created)
  | .updateContext files project config created updated =>
      w.after created (w.store.updateContext files project config created updated)
  | .deleteContext project =>
      let step := w.store.delete project
      { w with
        store := step.store
        era := if step.value then Function.update w.era project (w.era project + 1) else w.era }
  | .beginParse target files project config created =>
      let step := w.store.beginParse files project config created
      (w.after created step).begin target project step.value
  | .takeTicket target project context =>
      let step := w.store.takeTicket project context
      { w with store := step.store }.begin target project (step.value.map fun t => (context, t))
  | .endParse place answer =>
      match w.pending[place]? with
      | none => w
      | some q =>
          let step := w.store.endParse q.target q.project q.context q.ticket answer
          { w with
            store := step.store
            pending := w.pending.eraseIdx place
            merged := match step.value with
              | .ok result => w.merged ++ [(q, result)]
              | .error _ => w.merged }

/-- The world after some turns, one after another. -/
def play (w : World) (turns : List Turn) : World := turns.foldl turn w

end World

/-! ## Changes -/

/-- The entry after a parse was merged into it. -/
def Target.mergeInto (e : Entry) (ticket : Nat) (result : ParseResult) : Target → Entry
  | project => (e.absorb ticket result).install ticket result
  | file _ => e.absorb ticket result

@[simp] theorem Target.mergeInto_context (target : Target) (e : Entry) (ticket : Nat)
    (result : ParseResult) : (target.mergeInto e ticket result).context = e.context := by
  cases target <;> simp [mergeInto]

@[simp] theorem Target.mergeInto_lastTicket (target : Target) (e : Entry) (ticket : Nat)
    (result : ParseResult) : (target.mergeInto e ticket result).lastTicket = e.lastTicket := by
  cases target <;> simp [mergeInto]

/-- What can happen to a world, one thing at a time. -/
inductive Change (w : World) : World → Prop where
  /-- A project without an entry gets one. -/
  | created (project : String) (context : ContextHandle)
      (absent : w.store.entry? project = none) :
      Change w { w with
        store := w.store.putEntry project (.ofContext context)
        issued := w.issued ++ [context] }
  /-- An entry is dropped, and an era of its project ends. -/
  | deleted (project : String) (e : Entry) (live : w.store.entry? project = some e) :
      Change w { w with
        store := ⟨w.store.entries.erase project⟩
        era := Function.update w.era project (w.era project + 1) }
  /-- A parse takes a ticket. -/
  | began (target : Target) (project : String) (e : Entry)
      (live : w.store.entry? project = some e) :
      Change w { w with
        store := w.store.putEntry project { e with lastTicket := e.nextTicket }
        pending := w.pending ++ [⟨target, project, e.context, e.nextTicket, w.era project⟩] }
  /-- A parse ends without having found anything that could be stored. -/
  | dropped (place : Nat) : Change w { w with pending := w.pending.eraseIdx place }
  /-- A parse ends and is merged. -/
  | merged (place : Nat) (q : Parse) (result : ParseResult) (e : Entry)
      (underWay : w.pending[place]? = some q) (live : w.store.entry? q.project = some e)
      (same : e.context = q.context) :
      Change w { w with
        store := w.store.putEntry q.project (q.target.mergeInto e q.ticket result)
        pending := w.pending.eraseIdx place
        merged := w.merged ++ [(q, result)] }

/-- Nothing, or one change. -/
abbrev AtMostOne : World → World → Prop := Relation.ReflGen Change

/-- Some changes, one after another. -/
abbrev Changes : World → World → Prop := Relation.ReflTransGen Change

/-! ## Steps, case by case -/

theorem delete_of_none {s : Store} {project : String} (h : s.entry? project = none) :
    s.delete project = ⟨false, s, [], [.nothingToDelete project]⟩ := by
  rw [delete, context?, h]
  rfl

theorem delete_of_some {s : Store} {project : String} {e : Entry}
    (h : s.entry? project = some e) :
    s.delete project = ⟨true, ⟨s.entries.erase project⟩, [.deleteContext e.context],
      [.contextDeleted project e.context]⟩ := by
  rw [delete, context?, h]
  rfl

/-- A step on a live entry runs on the entry of that context or does nothing. -/
theorem withLive_cases {α : Type} (s : Store) (project : String) (context : ContextHandle)
    (act : Entry → Step (Except StoreError α)) :
    (∃ e, s.entry? project = some e ∧ e.context = context ∧
        s.withLive project context act = act e) ∨
      s.withLive project context act = ⟨.error (.contextDeleted project), s, [],
        [.resultsDiscarded project context]⟩ := by
  rw [withLive]
  cases s.entry? project with
  | none => exact Or.inr rfl
  | some e =>
      by_cases hcontext : e.context = context
      · exact Or.inl ⟨e, rfl, hcontext, if_pos hcontext⟩
      · exact Or.inr (if_neg hcontext)

/-- A ticket is taken in the entry of the given context, or nothing happens. -/
theorem takeTicket_cases (s : Store) (project : String) (context : ContextHandle) :
    (∃ e, s.entry? project = some e ∧ e.context = context ∧
        s.takeTicket project context = .pure (.ok e.nextTicket)
          (s.putEntry project { e with lastTicket := e.nextTicket })) ∨
      s.takeTicket project context = ⟨.error (.contextDeleted project), s, [],
        [.resultsDiscarded project context]⟩ :=
  withLive_cases s project context _

/-- Builds and updates are merged alike, up to what goes into the entry and what is reported. -/
theorem merge_eq_withLive (s : Store) (q : Parse) (result : ParseResult) :
    ∃ events : Entry → List Event,
      q.target.merge s q.project q.context q.ticket result =
        s.withLive q.project q.context fun e =>
          ⟨.ok (), s.putEntry q.project (q.target.mergeInto e q.ticket result), [], events e⟩ := by
  cases q.target with
  | project => exact ⟨_, rfl⟩
  | file path => exact ⟨_, rfl⟩

/-- A parse is merged into the entry of its context, or nothing happens. -/
theorem merge_cases (s : Store) (q : Parse) (result : ParseResult) :
    (∃ e, s.entry? q.project = some e ∧ e.context = q.context ∧
        (q.target.merge s q.project q.context q.ticket result).value = .ok () ∧
        (q.target.merge s q.project q.context q.ticket result).store =
          s.putEntry q.project (q.target.mergeInto e q.ticket result)) ∨
      (q.target.merge s q.project q.context q.ticket result).value =
          .error (.contextDeleted q.project) ∧
        (q.target.merge s q.project q.context q.ticket result).store = s := by
  obtain ⟨events, hmerge⟩ := merge_eq_withLive s q result
  rw [hmerge]
  rcases withLive_cases s q.project q.context _ with ⟨e, hlive, hcontext, h⟩ | h
  · exact Or.inl ⟨e, hlive, hcontext, by rw [h], by rw [h]⟩
  · exact Or.inr ⟨by rw [h], by rw [h]⟩

/-- The end of a parse: there is no result and nothing changes, or its project has an entry with
its context, and that entry takes the result. -/
theorem endParse_cases (s : Store) (q : Parse) (answer : Except FrontEndError ParseResult) :
    ((∃ cause, (s.endParse q.target q.project q.context q.ticket answer).value = .error cause) ∧
        (s.endParse q.target q.project q.context q.ticket answer).store = s) ∨
      ∃ result e, s.entry? q.project = some e ∧ e.context = q.context ∧
        (s.endParse q.target q.project q.context q.ticket answer).value = .ok result ∧
        (s.endParse q.target q.project q.context q.ticket answer).store =
          s.putEntry q.project (q.target.mergeInto e q.ticket result) := by
  cases answer with
  | error cause => exact Or.inl ⟨⟨_, rfl⟩, rfl⟩
  | ok result =>
      simp only [endParse, Step.andThen]
      rcases merge_cases s q result with ⟨e, hlive, hcontext, hvalue, hstore⟩ | ⟨hvalue, hstore⟩
      · right
        simp only [hvalue, hstore]
        exact ⟨result, e, hlive, hcontext, rfl, rfl⟩
      · left
        simp only [hvalue, hstore, and_true]
        exact ⟨_, rfl⟩

/-! ## Turns are changes

Three turns are made of others, whether or not the caller lets go of the store in between. -/

namespace World

/-- Making sure of a context is nothing, or the creation of one. -/
theorem turn_ensureContext (w : World) (files : FileTree) (project : String) (config : Config)
    (created : Except FrontEndError ContextHandle) :
    w.turn (.ensureContext files project config created) = w ∨
      ∃ options, w.turn (.ensureContext files project config created) =
        w.turn (.createContext project options created) := by
  simp only [turn, ensureContext]
  cases w.store.context? project with
  | some context =>
      left
      cases created <;> simp [after, Step.pure, handedOut]
  | none =>
      rw [checkOptions]
      cases config.options files with
      | error cause =>
          left
          cases created <;> simp [after, Step.andThen, handedOut]
      | ok options =>
          right
          exact ⟨options, by simp [after, Step.andThen]⟩

/-- Pushing settings is nothing to the world, or the creation of a context. -/
theorem turn_updateContext (w : World) (files : FileTree) (project : String) (config : Config)
    (created : Except FrontEndError ContextHandle) (updated : Except FrontEndError Unit) :
    w.turn (.updateContext files project config created updated) = w ∨
      ∃ options, w.turn (.updateContext files project config created updated) =
        w.turn (.createContext project options created) := by
  simp only [turn, updateContext, checkOptions]
  cases config.options files with
  | error cause =>
      left
      cases created <;> simp [after, Step.andThen, handedOut]
  | ok options =>
      simp only [Step.andThen, List.nil_append, pushSettings]
      cases w.store.context? project with
      | none =>
          right
          exact ⟨options, rfl⟩
      | some context =>
          left
          cases updated <;> cases created <;> simp [after, handedOut]

theorem takeTicket_calls (s : Store) (project : String) (context : ContextHandle) :
    (s.takeTicket project context).calls = [] := by
  rcases takeTicket_cases s project context with ⟨e, -, -, h⟩ | h
  · rw [h]
    rfl
  · rw [h]

/-- Beginning a parse is making sure of a context and, if there is one, taking a ticket. -/
theorem turn_beginParse (w : World) (target : Target) (files : FileTree) (project : String)
    (config : Config) (created : Except FrontEndError ContextHandle) :
    w.turn (.beginParse target files project config created) =
        w.turn (.ensureContext files project config created) ∨
      ∃ context, w.turn (.beginParse target files project config created) =
        (w.turn (.ensureContext files project config created)).turn
          (.takeTicket target project context) := by
  simp only [turn, beginParse]
  generalize w.store.ensureContext files project config created = ensured
  obtain ⟨value, store, calls, events⟩ := ensured
  cases value with
  | error cause => exact Or.inl rfl
  | ok context =>
      right
      refine ⟨context, ?_⟩
      simp only [Step.andThen, after]
      -- Taking a ticket asks the front end for nothing, so it adds no handle to the record.
      have hcalls := takeTicket_calls store project context
      generalize store.takeTicket project context = taken at hcalls ⊢
      obtain ⟨value, store, calls, events⟩ := taken
      subst hcalls
      cases value with
      | error cause => simp [begin, Except.map]
      | ok ticket => simp [begin, Except.map, Step.pure]

/-! The other four do nothing or one thing. -/

theorem createContext_change (w : World) (project : String) (options : List Flag)
    (created : Except FrontEndError ContextHandle) :
    AtMostOne w (w.turn (.createContext project options created)) := by
  simp only [turn, create]
  cases hcontext : w.store.context? project with
  | some context =>
      have hsame : w.after created (.pure (.ok context : Except StoreError _) w.store) = w := by
        cases created <;> simp [after, Step.pure, handedOut]
      rw [hsame]
  | none =>
      cases created with
      | error cause => simp [after, handedOut, Relation.ReflGen.refl]
      | ok context =>
          have habsent := (w.store.context?_eq_none_iff project).mp hcontext
          exact .single (.created project context habsent)

theorem deleteContext_change (w : World) (project : String) :
    AtMostOne w (w.turn (.deleteContext project)) := by
  simp only [turn]
  cases hentry : w.store.entry? project with
  | none =>
      rw [delete_of_none hentry]
      exact .refl
  | some e =>
      rw [delete_of_some hentry]
      exact .single (.deleted project e hentry)

theorem takeTicket_change (w : World) (target : Target) (project : String)
    (context : ContextHandle) : AtMostOne w (w.turn (.takeTicket target project context)) := by
  simp only [turn]
  rcases takeTicket_cases w.store project context with ⟨e, hlive, rfl, h⟩ | h
  · rw [h]
    exact .single (.began target project e hlive)
  · rw [h]
    exact .refl

theorem endParse_change (w : World) (place : Nat) (answer : Except FrontEndError ParseResult) :
    AtMostOne w (w.turn (.endParse place answer)) := by
  simp only [turn]
  cases hplace : w.pending[place]? with
  | none => exact .refl
  | some q =>
      rcases endParse_cases w.store q answer with ⟨⟨cause, hvalue⟩, hstore⟩ |
        ⟨result, e, hlive, hcontext, hvalue, hstore⟩
      · simp only [hvalue, hstore]
        exact .single (.dropped place)
      · simp only [hvalue, hstore]
        exact .single (.merged place q result e hplace hlive hcontext)

/-- Making sure of a context does nothing or one thing, and leaves the parses alone. -/
theorem ensureContext_change (w : World) (files : FileTree) (project : String) (config : Config)
    (created : Except FrontEndError ContextHandle) :
    let w' := w.turn (.ensureContext files project config created)
    AtMostOne w w' ∧ w'.pending = w.pending ∧ w'.merged = w.merged := by
  intro w'
  refine ⟨?_, rfl, rfl⟩
  rcases w.turn_ensureContext files project config created with h | ⟨options, h⟩
  · rw [show w' = w from h]
  · rw [show w' = _ from h]
    exact w.createContext_change project options created

/-- **What a turn can do.** It does nothing or one thing, or it makes sure of a context and then
takes a ticket in it. -/
theorem turn_cases (w : World) (t : Turn) :
    AtMostOne w (w.turn t) ∨
      ∃ w' target project context, AtMostOne w w' ∧ w'.pending = w.pending ∧
        w'.merged = w.merged ∧ w.turn t = w'.turn (.takeTicket target project context) := by
  cases t with
  | ensureContext files project config created =>
      exact .inl (w.ensureContext_change files project config created).1
  | createContext project options created =>
      exact .inl (w.createContext_change project options created)
  | updateContext files project config created updated =>
      left
      rcases w.turn_updateContext files project config created updated with h | ⟨options, h⟩
      · rw [h]
      · rw [h]
        exact w.createContext_change project options created
  | deleteContext project => exact .inl (w.deleteContext_change project)
  | beginParse target files project config created =>
      obtain ⟨hchange, hpending, hmerged⟩ := w.ensureContext_change files project config created
      rcases w.turn_beginParse target files project config created with h | ⟨context, h⟩
      · rw [h]
        exact .inl hchange
      · exact .inr ⟨_, target, project, context, hchange, hpending, hmerged, h⟩
  | takeTicket target project context => exact .inl (w.takeTicket_change target project context)
  | endParse place answer => exact .inl (w.endParse_change place answer)

/-- Every turn is a sequence of changes. -/
theorem turn_changes (w : World) (t : Turn) : Changes w (w.turn t) := by
  rcases w.turn_cases t with h | ⟨w', target, project, context, h, -, -, hturn⟩
  · exact h.to_reflTransGen
  · rw [hturn]
    exact h.to_reflTransGen.trans (w'.takeTicket_change target project context).to_reflTransGen

/-- Every run is a sequence of changes. -/
theorem play_changes (w : World) (turns : List Turn) : Changes w (w.play turns) := by
  induction turns generalizing w with
  | nil => exact .refl
  | cons t turns ih => exact (w.turn_changes t).trans (ih (w.turn t))

end World

end EditorCore.Store

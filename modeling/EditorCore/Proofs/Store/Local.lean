import EditorCore.Proofs.Store.Interleaving

set_option autoImplicit false

/-! # Operations keep to one project

All projects share one store, but every operation of the store is about one of them. `Local` says
what this means, in both directions: what an operation returns, asks for, reports and leaves to its
project hangs on the entry of that project alone, and no other entry is touched. Operations that
follow each other are local together (`Local.andThen`), so it is enough to look at the steps.

What callers see of a project is its `View`, and that too hangs on nothing but the entry.
-/

namespace EditorCore.Store

open Settings (Config Flag)

/-! ## What callers see -/

/-- All that callers can ask about one project. -/
structure View where
  contains : Bool
  context : Option ContextHandle
  result : Option ParseResult
  file : Path → Option SourceFile
  paths : List Path

/-- What callers see of a project. -/
def view (s : Store) (project : String) : View :=
  ⟨s.contains project, s.context? project, s.result? project, s.file? project, s.paths project⟩

theorem contains_eq (s : Store) (project : String) :
    s.contains project = (s.entry? project).isSome :=
  s.entries.contains_eq_isSome project

/-- What callers see of a project is in its entry. -/
theorem view_congr {s s' : Store} {project : String} (h : s.entry? project = s'.entry? project) :
    s.view project = s'.view project := by
  have hfile : s.file? project = s'.file? project := by
    funext path
    unfold file?
    rw [h]
  unfold view
  rw [contains_eq, contains_eq, context?, context?, result?, result?, paths, paths, hfile, h]

/-! ## Local operations -/

/-- The two steps are the same to those who look at one project only. -/
structure Step.Alike {α : Type} (project : String) (step step' : Step α) : Prop where
  value : step.value = step'.value
  calls : step.calls = step'.calls
  events : step.events = step'.events
  entry : step.store.entry? project = step'.store.entry? project

/-- The operation keeps to the entry of one project. -/
structure Local {α : Type} (project : String) (op : Store → Step α) : Prop where
  /-- Stores with the same entry for the project make no difference. -/
  reads : ∀ s s', s.entry? project = s'.entry? project → (op s).Alike project (op s')
  /-- The entries of other projects stay. -/
  writes : ∀ s other, other ≠ project → (op s).store.entry? other = s.entry? other

section

variable {α β : Type} {project : String}

/-- Putting an entry gives its project that entry and leaves the others alone. -/
theorem lookup_putEntry_congr (s s' : Store) (e : Entry) :
    entry? (s.putEntry project e) project = entry? (s'.putEntry project e) project := by
  rw [lookup_putEntry_self, lookup_putEntry_self]

theorem Local.pure (value : α) : Local project fun s => Step.pure value s where
  reads _ _ h := ⟨rfl, rfl, rfl, h⟩
  writes _ _ _ := rfl

/-- Local operations that follow each other are local together. -/
theorem Local.andThen {step : Store → Step (Except StoreError α)}
    {next : α → Store → Step (Except StoreError β)} (hstep : Local project step)
    (hnext : ∀ a, Local project (next a)) :
    Local project fun s => (step s).andThen next where
  reads s s' h := by
    have hfirst := hstep.reads s s' h
    unfold Step.andThen
    rw [← hfirst.value]
    cases (step s).value with
    | error cause => exact ⟨rfl, hfirst.calls, hfirst.events, hfirst.entry⟩
    | ok a =>
        have hsecond := (hnext a).reads _ _ hfirst.entry
        refine ⟨hsecond.value, ?_, ?_, hsecond.entry⟩
        · show (step s).calls ++ _ = (step s').calls ++ _
          rw [hfirst.calls, hsecond.calls]
        · show (step s).events ++ _ = (step s').events ++ _
          rw [hfirst.events, hsecond.events]
  writes s other hother := by
    have hfirst := hstep.writes s other hother
    unfold Step.andThen
    cases (step s).value with
    | error cause => exact hfirst
    | ok a =>
        have hsecond := (hnext a).writes (step s).store other hother
        exact hsecond.trans hfirst

/-- A step on a live entry that replaces this entry and asks for nothing is local, whatever it
returns. -/
theorem withLive_local (context : ContextHandle) (value : Entry → Except StoreError α)
    (change : Entry → Entry) (events : Entry → List Event) :
    Local project fun s => s.withLive project context fun e =>
      ⟨value e, s.putEntry project (change e), [], events e⟩ where
  reads s s' h := by
    unfold withLive
    rw [← h]
    cases s.entry? project with
    | none => exact ⟨rfl, rfl, rfl, h⟩
    | some e =>
        by_cases hcontext : e.context = context
        · simp only [if_pos hcontext]
          exact ⟨rfl, rfl, rfl, lookup_putEntry_congr s s' (change e)⟩
        · simp only [if_neg hcontext]
          exact ⟨rfl, rfl, rfl, h⟩
  writes s other hother := by
    rcases withLive_cases s project context (fun e =>
      (⟨value e, s.putEntry project (change e), [], events e⟩ : Step (Except StoreError α)))
      with ⟨e, -, -, hlive⟩ | hdiscard
    · simp only [hlive]
      exact lookup_putEntry_ne s (Ne.symm hother) (change e)
    · simp only [hdiscard]

end

section

variable (project : String)

theorem checkOptions_local (files : FileTree) (config : Config) :
    Local project fun s => s.checkOptions files project config where
  reads s s' h := by
    unfold checkOptions
    cases config.options files with
    | ok flags => exact ⟨rfl, rfl, rfl, h⟩
    | error cause => exact ⟨rfl, rfl, rfl, h⟩
  writes s other _ := by
    unfold checkOptions
    cases config.options files <;> rfl

theorem create_local (options : List Flag) (answer : Except FrontEndError ContextHandle) :
    Local project fun s => s.create project options answer where
  reads s s' h := by
    unfold create
    rw [context?, context?, ← h]
    cases (s.entry? project).map (·.context) with
    | some context => exact ⟨rfl, rfl, rfl, h⟩
    | none =>
        cases answer with
        | error cause => exact ⟨rfl, rfl, rfl, h⟩
        | ok context => exact ⟨rfl, rfl, rfl, lookup_putEntry_congr s s' _⟩
  writes s other hother := by
    unfold create
    cases s.context? project with
    | some context => rfl
    | none =>
        cases answer with
        | error cause => rfl
        | ok context => exact lookup_putEntry_ne s (Ne.symm hother) _

theorem pushSettings_local (options : List Flag) (created : Except FrontEndError ContextHandle)
    (updated : Except FrontEndError Unit) :
    Local project fun s => s.pushSettings project options created updated where
  reads s s' h := by
    have hcreate := (create_local project options created).reads s s' h
    unfold pushSettings
    rw [context?, context?, ← h]
    cases (s.entry? project).map (·.context) with
    | none =>
        refine ⟨?_, hcreate.calls, hcreate.events, hcreate.entry⟩
        simp only [hcreate.value]
    | some context => cases updated <;> exact ⟨rfl, rfl, rfl, h⟩
  writes s other hother := by
    unfold pushSettings
    cases s.context? project with
    | none => exact (create_local project options created).writes s other hother
    | some context => cases updated <;> rfl

theorem delete_local : Local project fun s => s.delete project where
  reads s s' h := by
    unfold delete
    rw [context?, context?, ← h]
    cases (s.entry? project).map (·.context) with
    | none => exact ⟨rfl, rfl, rfl, h⟩
    | some context =>
        refine ⟨rfl, rfl, rfl, ?_⟩
        show entry? ⟨s.entries.erase project⟩ project = entry? ⟨s'.entries.erase project⟩ project
        rw [lookup_erase, lookup_erase, if_pos rfl, if_pos rfl]
  writes s other hother := by
    unfold delete
    cases s.context? project with
    | none => rfl
    | some context =>
        show entry? ⟨s.entries.erase project⟩ other = s.entry? other
        rw [lookup_erase, if_neg (Ne.symm hother)]

theorem takeTicket_local (context : ContextHandle) :
    Local project fun s => s.takeTicket project context :=
  withLive_local context (fun e => .ok e.nextTicket)
    (fun e => { e with lastTicket := e.nextTicket }) fun _ => []

theorem merge_local (target : Target) (context : ContextHandle) (ticket : Nat)
    (result : ParseResult) :
    Local project fun s => target.merge s project context ticket result := by
  cases target with
  | project =>
      exact withLive_local context (fun _ => .ok ())
        (fun e => (e.absorb ticket result).install ticket result) _
  | file path =>
      exact withLive_local context (fun _ => .ok ()) (fun e => e.absorb ticket result) _

/-! ## Operations -/

theorem ensureContext_local (files : FileTree) (config : Config)
    (answer : Except FrontEndError ContextHandle) :
    Local project fun s => s.ensureContext files project config answer := by
  have hmissing := (checkOptions_local project files config).andThen
    fun flags => create_local project flags answer
  refine ⟨?_, ?_⟩
  · intro s s' h
    unfold ensureContext
    rw [context?, context?, ← h]
    cases (s.entry? project).map (·.context) with
    | some context => exact ⟨rfl, rfl, rfl, h⟩
    | none => exact hmissing.reads s s' h
  · intro s other hother
    unfold ensureContext
    cases s.context? project with
    | some context => rfl
    | none => exact hmissing.writes s other hother

theorem updateContext_local (files : FileTree) (config : Config)
    (created : Except FrontEndError ContextHandle) (updated : Except FrontEndError Unit) :
    Local project fun s => s.updateContext files project config created updated :=
  (checkOptions_local project files config).andThen
    fun flags => pushSettings_local project flags created updated

theorem beginParse_local (files : FileTree) (config : Config)
    (answer : Except FrontEndError ContextHandle) :
    Local project fun s => s.beginParse files project config answer :=
  (ensureContext_local project files config answer).andThen fun context =>
    (takeTicket_local project context).andThen fun ticket => .pure (Except.ok (context, ticket))

theorem endParse_local (target : Target) (context : ContextHandle) (ticket : Nat)
    (answer : Except FrontEndError ParseResult) :
    Local project fun s => s.endParse target project context ticket answer := by
  cases answer with
  | error cause => exact ⟨fun _ _ h => ⟨rfl, rfl, rfl, h⟩, fun _ _ _ => rfl⟩
  | ok result =>
      exact (merge_local project target context ticket result).andThen fun _ =>
        .pure (Except.ok result)

end

end EditorCore.Store

import EditorCore.Proofs.Store.Interleaving
import EditorCore.Proofs.Store.Rows
import Mathlib.Data.Multiset.AddSub

set_option autoImplicit false

/-! # Contexts are neither leaked nor disposed of twice

The front end returns a handle for every context that it creates and is told the handle of every one
that is no longer needed. The books of a run are kept on these two: whatever the callers do, and
whatever the front end answers, the handles that were returned are those that were disposed of and
those that the entries hold, each as often as it should be (`World.play_books`). That is so because
every step keeps the books by itself (`Step.Balanced`), and steps that follow each other do so
together.

The second half says what the front end is asked while the store is held (`Asked`): a context only
for a project without an entry, and settings or disposal only with the handle of the entry that is
there. The requests to parse are not among these calls: they are made while nobody holds the store.
-/

namespace EditorCore.Store

open Settings (Config Flag)

/-! ## Contexts held, returned and disposed of -/

/-- The contexts that the entries hold. -/
def contexts (s : Store) : Multiset ContextHandle :=
  (s.entries.rows.map fun row => row.2.context : List ContextHandle)

/-- The handles that the calls have returned, `handle?` being what a call for a context returns if
it succeeds. -/
def returned (handle? : Option ContextHandle) (calls : List Call) : Multiset ContextHandle :=
  (calls.filterMap fun call => match call with
    | .createContext _ => handle?
    | _ => none : List ContextHandle)

/-- The handles of the contexts that the calls have disposed of. -/
def disposed (calls : List Call) : Multiset ContextHandle :=
  (calls.filterMap fun call => match call with
    | .deleteContext context => some context
    | _ => none : List ContextHandle)

theorem returned_append (handle? : Option ContextHandle) (calls calls' : List Call) :
    returned handle? (calls ++ calls') = returned handle? calls + returned handle? calls' := by
  rw [returned, List.filterMap_append, ← Multiset.coe_add]
  rfl

theorem disposed_append (calls calls' : List Call) :
    disposed (calls ++ calls') = disposed calls + disposed calls' := by
  rw [disposed, List.filterMap_append, ← Multiset.coe_add]
  rfl

/-- A new entry brings its context. -/
theorem contexts_putEntry_of_none {s : Store} {project : String} (h : s.entry? project = none)
    (e : Entry) : (s.putEntry project e).contexts = {e.context} + s.contexts := by
  rw [contexts, contexts, putEntry, Table.rows_put_of_none h, List.map_append,
    ← Multiset.coe_add, Multiset.add_comm]
  rfl

/-- With an entry, its context goes. -/
theorem contexts_erase {s : Store} (hs : s.entries.Distinct) {project : String} {e : Entry}
    (h : s.entry? project = some e) :
    s.contexts = {e.context} + contexts ⟨s.entries.erase project⟩ := by
  obtain ⟨front, k, back, hrows, -, herase⟩ := hs.split name_equivalence h
  rw [contexts, contexts, hrows, herase, List.map_append, List.map_append, List.map_cons,
    Multiset.singleton_add, Multiset.cons_coe, Multiset.coe_eq_coe]
  exact List.perm_middle

/-- An entry that keeps its context may change. -/
theorem contexts_putEntry_of_some {s : Store} (hs : s.entries.Distinct) {project : String}
    {e e' : Entry} (h : s.entry? project = some e) (hcontext : e'.context = e.context) :
    (s.putEntry project e').contexts = s.contexts := by
  obtain ⟨front, k, back, hrows, hput, -⟩ := hs.split name_equivalence h
  rw [contexts, contexts, putEntry, hrows, hput, List.map_append, List.map_append, List.map_cons,
    List.map_cons, hcontext]

/-! ## Steps keep the books -/

/-- Two periods of the books add up. -/
theorem books_trans {r r' d d' c c' c'' : Multiset ContextHandle} (h : r + c = d + c')
    (h' : r' + c' = d' + c'') : r + r' + c = d + d' + c'' := by
  calc r + r' + c = r' + (r + c) := by rw [Multiset.add_comm r, Multiset.add_assoc]
    _ = r' + (d + c') := by rw [h]
    _ = d + (r' + c') := by
        rw [← Multiset.add_assoc, Multiset.add_comm r', Multiset.add_assoc]
    _ = d + (d' + c'') := by rw [h']
    _ = d + d' + c'' := by rw [Multiset.add_assoc]

/-- The step keeps the books: what was returned joins what the entries held before it, and of these
what was not disposed of is held after it. Besides, every project still has one row. -/
structure Step.Balanced {α : Type} (s : Store) (handle? : Option ContextHandle)
    (step : Step α) : Prop where
  distinct : step.store.entries.Distinct
  books : returned handle? step.calls + s.contexts = disposed step.calls + step.store.contexts

section Balanced

variable {α β : Type} {s : Store} {handle? : Option ContextHandle}

/-- A step that asks for nothing and changes no context. -/
theorem Step.Balanced.of_quiet {step : Step α} (hd : step.store.entries.Distinct)
    (hcalls : step.calls = []) (hcontexts : step.store.contexts = s.contexts) :
    step.Balanced s handle? where
  distinct := hd
  books := by
    rw [hcalls, hcontexts]
    rfl

theorem Step.Balanced.andThen {step : Step (Except StoreError α)}
    {next : α → Store → Step (Except StoreError β)} (h : step.Balanced s handle?)
    (hnext : ∀ a, (next a step.store).Balanced step.store handle?) :
    (step.andThen next).Balanced s handle? := by
  rw [Step.andThen]
  cases step.value with
  | error cause => exact ⟨h.distinct, h.books⟩
  | ok a =>
      refine ⟨(hnext a).distinct, ?_⟩
      simp only [returned_append, disposed_append]
      exact books_trans h.books (hnext a).books

theorem pure_balanced (hs : s.entries.Distinct) (value : α) :
    (Step.pure value s).Balanced s handle? := .of_quiet hs rfl rfl

theorem checkOptions_balanced (hs : s.entries.Distinct) (files : FileTree) (project : String)
    (config : Config) : (s.checkOptions files project config).Balanced s handle? := by
  rw [checkOptions]
  cases config.options files with
  | ok flags => exact .of_quiet hs rfl rfl
  | error cause => exact .of_quiet hs rfl rfl

theorem create_balanced (hs : s.entries.Distinct) (project : String) (options : List Flag)
    (answer : Except FrontEndError ContextHandle) :
    (s.create project options answer).Balanced s answer.toOption := by
  unfold create
  cases hcontext : s.context? project with
  | some context => exact pure_balanced hs _
  | none =>
      have habsent := (s.context?_eq_none_iff project).mp hcontext
      cases answer with
      | error cause => exact ⟨hs, rfl⟩
      | ok context =>
          refine ⟨hs.put project _, ?_⟩
          show _ = 0 + (s.putEntry project (.ofContext context)).contexts
          rw [Multiset.zero_add, contexts_putEntry_of_none habsent]
          rfl

theorem pushSettings_balanced (hs : s.entries.Distinct) (project : String) (options : List Flag)
    (created : Except FrontEndError ContextHandle) (updated : Except FrontEndError Unit) :
    (s.pushSettings project options created updated).Balanced s created.toOption := by
  rw [pushSettings]
  cases s.context? project with
  | none =>
      have h := create_balanced hs project options created
      exact ⟨h.distinct, h.books⟩
  | some context =>
      cases updated with
      | error cause => exact ⟨hs, rfl⟩
      | ok _ => exact ⟨hs, rfl⟩

theorem delete_balanced (hs : s.entries.Distinct) (project : String) :
    (s.delete project).Balanced s handle? := by
  cases hentry : s.entry? project with
  | none =>
      rw [delete_of_none hentry]
      exact .of_quiet hs rfl rfl
  | some e =>
      rw [delete_of_some hentry]
      refine ⟨hs.erase project, ?_⟩
      show 0 + s.contexts = _
      rw [Multiset.zero_add, contexts_erase hs hentry]
      rfl

theorem replaced_balanced (hs : s.entries.Distinct) {project : String} {e e' : Entry}
    (live : s.entry? project = some e) (hcontext : e'.context = e.context) (value : α)
    (events : List Event) :
    Step.Balanced s handle? ⟨value, s.putEntry project e', [], events⟩ :=
  .of_quiet (hs.put project e') rfl (contexts_putEntry_of_some hs live hcontext)

theorem takeTicket_balanced (hs : s.entries.Distinct) (project : String)
    (context : ContextHandle) : (s.takeTicket project context).Balanced s handle? := by
  rcases takeTicket_cases s project context with ⟨e, hlive, -, h⟩ | h
  · have hkeep : ({ e with lastTicket := e.nextTicket } : Entry).context = e.context := rfl
    rw [h]
    exact replaced_balanced hs hlive hkeep _ _
  · rw [h]
    exact .of_quiet hs rfl rfl

theorem ensureContext_balanced (hs : s.entries.Distinct) (files : FileTree) (project : String)
    (config : Config) (answer : Except FrontEndError ContextHandle) :
    (s.ensureContext files project config answer).Balanced s answer.toOption := by
  rw [ensureContext]
  cases s.context? project with
  | some context => exact pure_balanced hs _
  | none =>
      have hcheck : (s.checkOptions files project config).Balanced s answer.toOption :=
        checkOptions_balanced hs files project config
      exact hcheck.andThen fun flags => create_balanced hcheck.distinct project flags answer

theorem updateContext_balanced (hs : s.entries.Distinct) (files : FileTree) (project : String)
    (config : Config) (created : Except FrontEndError ContextHandle)
    (updated : Except FrontEndError Unit) :
    (s.updateContext files project config created updated).Balanced s created.toOption := by
  have hcheck : (s.checkOptions files project config).Balanced s created.toOption :=
    checkOptions_balanced hs files project config
  exact hcheck.andThen fun flags =>
    pushSettings_balanced hcheck.distinct project flags created updated

theorem beginParse_balanced (hs : s.entries.Distinct) (files : FileTree) (project : String)
    (config : Config) (answer : Except FrontEndError ContextHandle) :
    (s.beginParse files project config answer).Balanced s answer.toOption := by
  have hensure := ensureContext_balanced hs files project config answer
  refine hensure.andThen fun context => ?_
  have htake : (takeTicket _ project context).Balanced _ answer.toOption :=
    takeTicket_balanced hensure.distinct project context
  exact htake.andThen fun ticket => pure_balanced htake.distinct _

theorem endParse_balanced (hs : s.entries.Distinct) (q : Parse)
    (answer : Except FrontEndError ParseResult) :
    (s.endParse q.target q.project q.context q.ticket answer).Balanced s handle? := by
  cases answer with
  | error cause => exact .of_quiet hs rfl rfl
  | ok result =>
      have hmerge : (q.target.merge s q.project q.context q.ticket result).Balanced s handle? := by
        obtain ⟨events, hmerge⟩ := merge_eq_withLive s q result
        rw [hmerge]
        rcases withLive_cases s q.project q.context _ with ⟨e, hlive, -, h⟩ | h
        -- Results go into an entry that keeps its context.
        · rw [h]
          exact replaced_balanced hs hlive (q.target.mergeInto_context e q.ticket result) _ _
        · rw [h]
          exact .of_quiet hs rfl rfl
      exact hmerge.andThen fun _ => pure_balanced hmerge.distinct _

end Balanced

/-! ## Runs keep the books -/

/-- What the front end returns in a turn if it is asked for a context and succeeds. -/
def Turn.handle? : Turn → Option ContextHandle
  | .ensureContext _ _ _ created => created.toOption
  | .createContext _ _ created => created.toOption
  | .updateContext _ _ _ created _ => created.toOption
  | .beginParse _ _ _ _ created => created.toOption
  | .deleteContext _ => none
  | .takeTicket _ _ _ => none
  | .endParse _ _ => none

namespace World

/-- The calls that are made in a turn while the store is held, each with the project it is for. -/
def calls (w : World) : Turn → List (String × Call)
  | .ensureContext files project config created =>
      (w.store.ensureContext files project config created).calls.map (project, ·)
  | .createContext project options created =>
      (w.store.create project options created).calls.map (project, ·)
  | .updateContext files project config created updated =>
      (w.store.updateContext files project config created updated).calls.map (project, ·)
  | .deleteContext project => (w.store.delete project).calls.map (project, ·)
  | .beginParse _ files project config created =>
      (w.store.beginParse files project config created).calls.map (project, ·)
  | .takeTicket _ project context => (w.store.takeTicket project context).calls.map (project, ·)
  | .endParse place answer =>
      match w.pending[place]? with
      | none => []
      | some q =>
          (w.store.endParse q.target q.project q.context q.ticket answer).calls.map (q.project, ·)

/-- The handles that the front end returns in a turn. -/
def returnedIn (w : World) (t : Turn) : Multiset ContextHandle :=
  returned t.handle? ((w.calls t).map (·.2))

/-- The handles that the front end is told to dispose of in a turn. -/
def disposedIn (w : World) (t : Turn) : Multiset ContextHandle :=
  disposed ((w.calls t).map (·.2))

/-- What the turns of a run add up to. -/
def total (amount : World → Turn → Multiset ContextHandle) (w : World) :
    List Turn → Multiset ContextHandle
  | [] => 0
  | t :: turns => amount w t + (w.turn t).total amount turns

theorem begin_store (w : World) (target : Target) (project : String)
    (value : Except StoreError (ContextHandle × Nat)) :
    (w.begin target project value).store = w.store := by
  cases value <;> rfl

/-- A turn that is a single operation of the store. -/
theorem books_of_balanced {α : Type} {w : World} {t : Turn} {project : String} {step : Step α}
    (h : step.Balanced w.store t.handle?) (hcalls : w.calls t = step.calls.map (project, ·))
    (hstore : (w.turn t).store = step.store) :
    (w.turn t).store.entries.Distinct ∧
      w.returnedIn t + w.store.contexts = w.disposedIn t + (w.turn t).store.contexts := by
  have hsnd : (w.calls t).map (·.2) = step.calls := by
    rw [hcalls, List.map_map]
    exact List.map_id step.calls
  rw [returnedIn, disposedIn, hsnd, hstore]
  exact ⟨h.distinct, h.books⟩

/-- Every turn keeps the books. -/
theorem turn_books (w : World) (hs : w.store.entries.Distinct) (t : Turn) :
    (w.turn t).store.entries.Distinct ∧
      w.returnedIn t + w.store.contexts = w.disposedIn t + (w.turn t).store.contexts := by
  cases t with
  | ensureContext files project config created =>
      exact books_of_balanced (ensureContext_balanced hs files project config created) rfl rfl
  | createContext project options created =>
      exact books_of_balanced (create_balanced hs project options created) rfl rfl
  | updateContext files project config created updated =>
      exact books_of_balanced (updateContext_balanced hs files project config created updated) rfl
        rfl
  | deleteContext project => exact books_of_balanced (delete_balanced hs project) rfl rfl
  | beginParse target files project config created =>
      exact books_of_balanced (beginParse_balanced hs files project config created) rfl
        (begin_store _ _ _ _)
  | takeTicket target project context =>
      exact books_of_balanced (takeTicket_balanced hs project context) rfl (begin_store _ _ _ _)
  | endParse place answer =>
      cases hplace : w.pending[place]? with
      | none =>
          have hturn : w.turn (.endParse place answer) = w := by rw [turn, hplace]
          rw [hturn, returnedIn, disposedIn, calls, hplace]
          exact ⟨hs, rfl⟩
      | some q =>
          have hcalls : w.calls (.endParse place answer) =
              (w.store.endParse q.target q.project q.context q.ticket answer).calls.map
                (q.project, ·) := by
            rw [calls, hplace]
          exact books_of_balanced (endParse_balanced hs q answer) hcalls (by rw [turn, hplace])

/-- **The books of a run.** What the front end has returned, with what the entries held before, is
what it was told to dispose of, with what the entries hold after. -/
theorem play_books (w : World) (hs : w.store.entries.Distinct) (turns : List Turn) :
    w.total returnedIn turns + w.store.contexts =
      w.total disposedIn turns + (w.play turns).store.contexts := by
  induction turns generalizing w with
  | nil => rfl
  | cons t turns ih =>
      obtain ⟨hd, hturn⟩ := w.turn_books hs t
      exact books_trans hturn (ih (w.turn t) hd)

end World

/-! ## What the front end is asked -/

/-- The calls that are made for a project while the store is held, by the entry that it has. -/
inductive Asked (s : Store) (project : String) : Call → Prop where
  | create (options : List Flag) (absent : s.entry? project = none) :
      Asked s project (.createContext options)
  | settings (e : Entry) (options : List Flag) (live : s.entry? project = some e) :
      Asked s project (.updateSettings e.context options)
  | delete (e : Entry) (live : s.entry? project = some e) :
      Asked s project (.deleteContext e.context)

section Asked

variable {s : Store} {project : String}

theorem create_of_some {e : Entry} (h : s.entry? project = some e) (options : List Flag)
    (answer : Except FrontEndError ContextHandle) :
    s.create project options answer = .pure (.ok e.context) s := by
  unfold create
  rw [context?, h]
  rfl

theorem ensureContext_of_some {e : Entry} (h : s.entry? project = some e) (files : FileTree)
    (config : Config) (answer : Except FrontEndError ContextHandle) :
    s.ensureContext files project config answer = .pure (.ok e.context) s := by
  rw [ensureContext, context?, h]
  rfl

theorem create_asked (options : List Flag) (answer : Except FrontEndError ContextHandle) :
    ∀ call ∈ (s.create project options answer).calls, Asked s project call := by
  cases hentry : s.entry? project with
  | some e =>
      rw [create_of_some hentry]
      intro call hcall
      cases hcall
  | none =>
      unfold create
      rw [context?, hentry]
      cases answer with
      | error cause =>
          intro call hcall
          rw [List.mem_singleton.mp hcall]
          exact .create options hentry
      | ok context =>
          intro call hcall
          rw [List.mem_singleton.mp hcall]
          exact .create options hentry

theorem pushSettings_asked (options : List Flag) (created : Except FrontEndError ContextHandle)
    (updated : Except FrontEndError Unit) :
    ∀ call ∈ (s.pushSettings project options created updated).calls, Asked s project call := by
  cases hentry : s.entry? project with
  | none =>
      have hcalls : (s.pushSettings project options created updated).calls =
          (s.create project options created).calls := by
        rw [pushSettings, context?, hentry]
        rfl
      rw [hcalls]
      exact create_asked options created
  | some e =>
      have hcalls : (s.pushSettings project options created updated).calls =
          [.updateSettings e.context options] := by
        rw [pushSettings, context?, hentry]
        cases updated <;> rfl
      intro call hcall
      rw [hcalls] at hcall
      rw [List.mem_singleton.mp hcall]
      exact .settings e options hentry

theorem delete_asked : ∀ call ∈ (s.delete project).calls, Asked s project call := by
  cases hentry : s.entry? project with
  | none =>
      rw [delete_of_none hentry]
      intro call hcall
      cases hcall
  | some e =>
      rw [delete_of_some hentry]
      intro call hcall
      rw [List.mem_singleton.mp hcall]
      exact .delete e hentry

/-- Checking the options asks for nothing and leaves the store alone. -/
theorem checkOptions_andThen {α : Type} {next : List Flag → Store → Step (Except StoreError α)}
    (files : FileTree) (config : Config) {P : Call → Prop}
    (h : ∀ flags, ∀ call ∈ (next flags s).calls, P call) :
    ∀ call ∈ ((s.checkOptions files project config).andThen next).calls, P call := by
  intro call hcall
  rw [checkOptions] at hcall
  cases hoptions : config.options files with
  | error cause =>
      rw [hoptions] at hcall
      cases hcall
  | ok flags =>
      rw [hoptions] at hcall
      exact h flags call hcall

theorem ensureContext_asked (files : FileTree) (config : Config)
    (answer : Except FrontEndError ContextHandle) :
    ∀ call ∈ (s.ensureContext files project config answer).calls, Asked s project call := by
  cases hentry : s.entry? project with
  | some e =>
      rw [ensureContext_of_some hentry]
      intro call hcall
      cases hcall
  | none =>
      rw [ensureContext, context?, hentry]
      exact checkOptions_andThen files config fun flags => create_asked flags answer

/-- A step that is followed by one without calls. -/
theorem andThen_calls {α β : Type} {step : Step (Except StoreError α)}
    {next : α → Store → Step (Except StoreError β)} (h : ∀ a, (next a step.store).calls = []) :
    (step.andThen next).calls = step.calls := by
  rw [Step.andThen]
  cases step.value with
  | error cause => rfl
  | ok a =>
      show step.calls ++ (next a step.store).calls = step.calls
      rw [h a, List.append_nil]

theorem beginParse_calls (files : FileTree) (config : Config)
    (answer : Except FrontEndError ContextHandle) :
    (s.beginParse files project config answer).calls =
      (s.ensureContext files project config answer).calls := by
  rw [beginParse]
  refine andThen_calls fun context => ?_
  rw [andThen_calls fun ticket => rfl]
  exact World.takeTicket_calls _ project context

theorem endParse_calls (q : Parse) (answer : Except FrontEndError ParseResult) :
    (s.endParse q.target q.project q.context q.ticket answer).calls = [] := by
  cases answer with
  | error cause => rfl
  | ok result =>
      obtain ⟨events, hmerge⟩ := merge_eq_withLive s q result
      rw [endParse, andThen_calls fun _ => rfl, hmerge]
      rcases withLive_cases s q.project q.context _ with ⟨e, -, -, h⟩ | h
      · rw [h]
      · rw [h]

end Asked

/-- Whatever callers do, these are the only calls. -/
theorem World.asked_of_mem_calls {w : World} {t : Turn} {project : String} {call : Call}
    (h : (project, call) ∈ w.calls t) : Asked w.store project call := by
  have hpair : ∀ {owner : String} {calls : List Call},
      (∀ call ∈ calls, Asked w.store owner call) →
      (project, call) ∈ calls.map (fun call => (owner, call)) → Asked w.store project call := by
    intro owner calls hall hmem
    obtain ⟨call', hcall, heq⟩ := List.mem_map.mp hmem
    obtain ⟨rfl, rfl⟩ := Prod.mk.inj heq
    exact hall call' hcall
  cases t with
  | ensureContext files owner config created =>
      exact hpair (ensureContext_asked files config created) h
  | createContext owner options created => exact hpair (create_asked options created) h
  | updateContext files owner config created updated =>
      refine hpair ?_ h
      exact checkOptions_andThen files config fun flags => pushSettings_asked flags created updated
  | deleteContext owner => exact hpair delete_asked h
  | beginParse target files owner config created =>
      refine hpair ?_ h
      rw [beginParse_calls]
      exact ensureContext_asked files config created
  | takeTicket target owner context =>
      rw [calls, takeTicket_calls] at h
      cases h
  | endParse place answer =>
      rw [calls] at h
      cases hplace : w.pending[place]? with
      | none =>
          rw [hplace] at h
          cases h
      | some q =>
          simp only [hplace, endParse_calls] at h
          cases h

/-! ## What callers can rely on -/

/-- **Contexts are neither leaked nor disposed of twice.** After any turns of any callers, and with
any front end, the handles that it has returned less those that it was told to dispose of are the
contexts that the entries hold, with nothing disposed of that was not returned. While a project has
an entry, no turn asks for another context for it, and making sure of its context gives the handle
of that entry, also for a caller that had found it missing; settings go to the context of the entry
that the project has at that moment. -/
theorem contexts_balanced (turns : List Turn) :
    let w := World.start.play turns
    let returned := World.start.total World.returnedIn turns
    let disposed := World.start.total World.disposedIn turns
    (disposed ≤ returned ∧ returned - disposed = w.store.contexts) ∧
    (∀ project e, w.store.entry? project = some e →
      (∀ t options, (project, Call.createContext options) ∉ w.calls t) ∧
      (∀ files config created,
        (w.store.ensureContext files project config created).value = .ok e.context) ∧
      (∀ options created, (w.store.create project options created).value = .ok e.context)) ∧
    (∀ t project context options, (project, Call.updateSettings context options) ∈ w.calls t →
      ∃ e, w.store.entry? project = some e ∧ e.context = context) := by
  intro w returned disposed
  have hbooks : returned = disposed + w.store.contexts := by
    have h := World.start.play_books Table.distinct_empty turns
    have hempty : World.start.store.contexts = 0 := rfl
    rw [hempty, Multiset.add_zero] at h
    exact h
  refine ⟨⟨?_, ?_⟩, ?_, ?_⟩
  · rw [hbooks]
    exact Multiset.le_add_right _ _
  · rw [hbooks, Multiset.add_comm, Multiset.add_sub_cancel_right]
  · intro project e hlive
    refine ⟨?_, ?_, ?_⟩
    · intro t options hmem
      cases World.asked_of_mem_calls hmem with
      | create _ habsent =>
          rw [hlive] at habsent
          cases habsent
    · intro files config created
      rw [ensureContext_of_some hlive]
      rfl
    · intro options created
      rw [create_of_some hlive]
      rfl
  · intro t project context options hmem
    cases World.asked_of_mem_calls hmem with
    | settings e _ hlive => exact ⟨e, hlive, rfl⟩

/-- A project is opened, closed and opened again, and the front end returns the old handle. One
caller had found the context missing and comes late. -/
def reopening : List Turn :=
  [.ensureContext .empty "blink" (.ofRoot ⟨"/p"⟩) (.ok ⟨7⟩),
    .deleteContext "blink",
    .beginParse .project .empty "blink" (.ofRoot ⟨"/p"⟩) (.ok ⟨7⟩),
    .createContext "blink" [] (.ok ⟨9⟩)]

/-- The handle was returned twice and disposed of once, and the late caller is given it too. -/
theorem contexts_balanced_reopening :
    let w := World.start.play reopening
    World.start.total World.returnedIn reopening = {⟨7⟩, ⟨7⟩} ∧
      World.start.total World.disposedIn reopening = {⟨7⟩} ∧
      w.store.contexts = {⟨7⟩} ∧
      (w.store.create "blink" [] (.ok ⟨9⟩)).value = .ok ⟨7⟩ := by
  intro w
  obtain ⟨⟨-, hheld⟩, hlive, -⟩ := contexts_balanced reopening
  refine ⟨rfl, rfl, ?_, ?_⟩
  · exact hheld.symm
  · exact (hlive "blink" _ rfl).2.2 [] (.ok ⟨9⟩)

end EditorCore.Store

import EditorCore.Proofs.Store.Contexts
import EditorCore.Proofs.Store.Local
import EditorCore.Proofs.Store.Outlived
import EditorCore.Store.Session

set_option autoImplicit false

/-! # What a failed request leaves behind

A request that fails should leave no trace. It has several points at which to fail: the options, the
creation of a context, the settings, the parse. All but the last stop it before it has changed
anything. A parse has by then taken a ticket, which nobody sees, and it may have opened its project,
which everybody sees: the context is there after a failed first build, and was not there before.

So a failed request, with nobody else at the store meanwhile, leaves its store in one of two ways
(`Leaves`), and callers see no difference exactly if its project was open before, or it has failed
before the front end was asked to parse (`failed_request_unseen_iff`).
-/

namespace EditorCore.Store

open Settings (Config Flag SettingsError)

/-! ## Stores that callers cannot tell apart -/

/-- Callers see the same, whatever they ask. -/
def SameToCallers (s s' : Store) : Prop :=
  s.projects = s'.projects ∧ ∀ project, s.view project = s'.view project

theorem SameToCallers.refl (s : Store) : SameToCallers s s := ⟨rfl, fun _ => rfl⟩

/-- Replacing what is stored under a key that is there changes no key. -/
theorem Table.keys_put_of_some {κ α : Type} {same : κ → κ → Bool} {t : Table κ α same} {key : κ}
    {old : α} (h : t.get? key = some old) (value : α) : (t.put key value).keys = t.keys := by
  have hcontains : t.contains key = true := by
    rw [contains_eq_isSome, h]
    rfl
  unfold keys
  rw [rows_put_of_contains hcontains, List.map_map]
  refine List.map_congr_left ?_
  intro row _
  show (if same row.1 key then (row.1, value) else row).1 = row.1
  split <;> rfl

/-- The ticket that a parse takes is not seen. -/
theorem sameToCallers_ticket {s : Store} {project : String} {e : Entry}
    (live : s.entry? project = some e) (ticket : Nat) :
    SameToCallers (s.putEntry project { e with lastTicket := ticket }) s := by
  constructor
  · unfold projects putEntry
    rw [Table.keys_put_of_some live]
  · intro other
    by_cases hother : project = other
    · subst hother
      have hentry := lookup_putEntry_self s project { e with lastTicket := ticket }
      have hfile : file? (s.putEntry project { e with lastTicket := ticket }) project =
          s.file? project := by
        funext path
        unfold file?
        rw [hentry, live]
        rfl
      unfold view
      rw [contains_eq, contains_eq, context?, context?, result?, result?, paths, paths, hfile,
        hentry, live]
      rfl
    · exact view_congr (lookup_putEntry_ne s hother _)

/-! ## Operations that fail -/

/-- If the step fails, it leaves the store as it was. -/
def Step.KeepsOnError {α : Type} (s : Store) (step : Step (Except StoreError α)) : Prop :=
  ∀ cause, step.value = .error cause → step.store = s

section

variable (s : Store) (project : String)

theorem create_keepsOnError (options : List Flag) (answer : Except FrontEndError ContextHandle) :
    (s.create project options answer).KeepsOnError s := by
  unfold Step.KeepsOnError create
  cases s.context? project with
  | some context =>
      intro _ _
      rfl
  | none =>
      cases answer with
      | error _ =>
          intro _ _
          rfl
      | ok context =>
          intro cause hvalue
          cases hvalue

theorem pushSettings_keepsOnError (options : List Flag)
    (created : Except FrontEndError ContextHandle) (updated : Except FrontEndError Unit) :
    (s.pushSettings project options created updated).KeepsOnError s := by
  intro cause hvalue
  unfold pushSettings at hvalue ⊢
  cases hcontext : s.context? project with
  | some context => cases updated <;> rfl
  | none =>
      simp only [hcontext] at hvalue
      have hcreate : (s.create project options created).value = .error cause := by
        cases hcreated : (s.create project options created).value with
        | error _ =>
            rw [hcreated] at hvalue
            cases hvalue
            rfl
        | ok context =>
            rw [hcreated] at hvalue
            cases hvalue
      exact create_keepsOnError s project options created cause hcreate

/-- Checking the options first is no harm: the store takes no part in it. -/
theorem checkOptions_andThen_keepsOnError {α : Type} (files : FileTree) (config : Config)
    {next : List Flag → Store → Step (Except StoreError α)}
    (h : ∀ flags, (next flags s).KeepsOnError s) :
    ((s.checkOptions files project config).andThen next).KeepsOnError s := by
  unfold checkOptions
  cases config.options files with
  | error _ =>
      intro _ _
      rfl
  | ok flags => exact h flags

theorem ensureContext_keepsOnError (files : FileTree) (config : Config)
    (answer : Except FrontEndError ContextHandle) :
    (s.ensureContext files project config answer).KeepsOnError s := by
  unfold ensureContext
  cases s.context? project with
  | some context =>
      intro _ _
      rfl
  | none =>
      exact checkOptions_andThen_keepsOnError s project files config fun flags =>
        create_keepsOnError s project flags answer

theorem updateContext_keepsOnError (files : FileTree) (config : Config)
    (created : Except FrontEndError ContextHandle) (updated : Except FrontEndError Unit) :
    (s.updateContext files project config created updated).KeepsOnError s :=
  checkOptions_andThen_keepsOnError s project files config fun flags =>
    pushSettings_keepsOnError s project flags created updated

end

/-! ## Parses -/

section

variable {s : Store} {project : String}

/-- A project that has no entry is opened by whatever gets a context for it. -/
theorem ensureContext_of_none (absent : s.entry? project = none) (files : FileTree)
    (config : Config) {answer : Except FrontEndError ContextHandle} {context : ContextHandle}
    (h : (s.ensureContext files project config answer).value = .ok context) :
    (s.ensureContext files project config answer).store =
      s.putEntry project (.ofContext context) := by
  have hcontext := (s.context?_eq_none_iff project).mpr absent
  unfold ensureContext checkOptions at h ⊢
  rw [hcontext] at h ⊢
  cases hoptions : config.options files with
  | error cause =>
      rw [hoptions] at h
      cases h
  | ok options =>
      simp only [hoptions, Step.andThen] at h ⊢
      unfold create at h ⊢
      rw [hcontext] at h ⊢
      cases answer with
      | error cause => cases h
      | ok context' =>
          cases h
          rfl

/-- The entry of the context in which a parse begins takes the ticket. -/
theorem takeTicket_of_some {e : Entry} (live : s.entry? project = some e) :
    s.takeTicket project e.context = .pure (.ok e.nextTicket)
      (s.putEntry project { e with lastTicket := e.nextTicket }) := by
  unfold takeTicket withLive
  rw [live]
  exact if_pos rfl

/-- The beginning of a parse: it fails without a trace, or it takes a ticket in the entry that was
there, or it opens the project and takes the first ticket. -/
theorem beginParse_cases (s : Store) (project : String) (files : FileTree) (config : Config)
    (answer : Except FrontEndError ContextHandle) :
    (∃ cause, (s.beginParse files project config answer).value = .error cause ∧
        (s.beginParse files project config answer).store = s) ∨
      (∃ e, s.entry? project = some e ∧
        (s.beginParse files project config answer).value = .ok (e.context, e.nextTicket) ∧
        (s.beginParse files project config answer).store =
          s.putEntry project { e with lastTicket := e.nextTicket }) ∨
      ∃ context, s.entry? project = none ∧
        (s.beginParse files project config answer).value = .ok (context, 1) ∧
        (s.beginParse files project config answer).store.entry? project =
          some ⟨context, 1, none, .empty⟩ := by
  have hkeeps := ensureContext_keepsOnError s project files config answer
  unfold beginParse
  cases hentry : s.entry? project with
  | some e =>
      right; left
      refine ⟨e, rfl, ?_, ?_⟩
      · simp only [ensureContext_of_some hentry, Step.andThen, Step.pure,
          takeTicket_of_some hentry]
      · simp only [ensureContext_of_some hentry, Step.andThen, Step.pure,
          takeTicket_of_some hentry]
  | none =>
      cases hvalue : (s.ensureContext files project config answer).value with
      | error cause =>
          left
          refine ⟨cause, ?_, ?_⟩
          · simp only [Step.andThen, hvalue]
          · simp only [Step.andThen, hvalue]
            exact hkeeps cause hvalue
      | ok context =>
          right; right
          have hstore := ensureContext_of_none hentry files config hvalue
          -- The new entry has counted no ticket, so the first one is taken in it.
          have hticket : takeTicket (s.putEntry project (.ofContext context)) project context =
              .pure (.ok 1) (putEntry (s.putEntry project (.ofContext context)) project
                ⟨context, 1, none, .empty⟩) :=
            takeTicket_of_some (lookup_putEntry_self s project (.ofContext context))
          refine ⟨context, rfl, ?_, ?_⟩
          · simp only [Step.andThen, hvalue, hstore, hticket, Step.pure]
          · simp only [Step.andThen, hvalue, hstore, hticket, Step.pure]
            exact lookup_putEntry_self _ project _

/-- A parse whose project has its context fails only in the front end, and then nothing is
stored. -/
theorem endParse_keepsOnError {q : Parse} (live : s.context? q.project = some q.context)
    (answer : Except FrontEndError ParseResult) :
    (s.endParse q.target q.project q.context q.ticket answer).KeepsOnError s := by
  cases answer with
  | error _ =>
      intro _ _
      rfl
  | ok result =>
      intro cause hvalue
      rw [endParse_of_live live] at hvalue
      cases hvalue

end

/-! ## Requests -/

/-- The error that a request is answered with. -/
def Reply.failure? : Reply → Option StoreError
  | .failed cause => some cause
  | .job _ (.error cause) => some cause
  | _ => none

theorem Reply.failure?_ofResult {α : Type} {value : α → Reply}
    (hvalue : ∀ a, (value a).failure? = none)
    {result : Except StoreError α} {cause : StoreError}
    (h : (Reply.ofResult value result).failure? = some cause) : result = .error cause := by
  cases result with
  | error cause' =>
      cases h
      rfl
  | ok a =>
      rw [show Reply.ofResult value (.ok a) = value a from rfl, hvalue a] at h
      cases h

/-- How a failed request for a project leaves the store, with the calls that were made for it. -/
inductive Leaves (s s' : Store) (project : String) (calls : List Call) : Prop where
  /-- Callers see no difference. The project was open, or no parse was asked for. -/
  | unseen (same : SameToCallers s' s)
      (early : s.contains project = true ∨
        ∀ (target : Target) (context : ContextHandle), target.call context ∉ calls)
  /-- The project was opened for a parse, and is still open. -/
  | opened (absent : s.entry? project = none) (target : Target) (context : ContextHandle)
      (entry : s'.entry? project = some ⟨context, 1, none, .empty⟩)
      (others : ∀ other, other ≠ project → s'.entry? other = s.entry? other)
      (asked : target.call context ∈ calls)

/-- While the store is held, no parse is asked for. -/
theorem not_mem_of_asked {s : Store} {project : String} {calls : List Call}
    (h : ∀ call ∈ calls, Asked s project call) (target : Target) (context : ContextHandle) :
    target.call context ∉ calls := by
  intro hmem
  have hasked := h _ hmem
  cases target <;> cases hasked

namespace Session

theorem playAll_nil (files : FileTree) (s : Session) : playAll files [] s = (s, []) := by
  rw [playAll]

section

variable {files : FileTree} {s : Session} {target : Target} {project : String} {config : Config}
  {script : Script} {reply : Except StoreError ParseResult → Reply}

/-- A parse that has begun in the context of its project, and then fails with nobody else at the
store meanwhile, leaves the store as it was when the front end was asked. -/
theorem parse_of_begun (hreply : ∀ result, (reply (.ok result)).failure? = none)
    {context : ContextHandle} {ticket : Nat}
    (hbegun : (s.store.beginParse files project config (s.created script)).value =
      .ok (context, ticket))
    (hlive : (s.store.beginParse files project config (s.created script)).store.context? project =
      some context)
    {cause : StoreError}
    (h : (s.parse files target project config script reply (playAll files [])).2.reply.failure? =
      some cause) :
    (s.parse files target project config script reply (playAll files [])).1.store =
        (s.store.beginParse files project config (s.created script)).store ∧
      target.call context ∈
        (s.parse files target project config script reply (playAll files [])).2.calls := by
  have hkeeps := endParse_keepsOnError (q := ⟨target, project, context, ticket, 0⟩) hlive
    script.parsed
  simp only [parse, hbegun, playAll_nil, commit] at h ⊢
  refine ⟨?_, List.mem_append_right _ (List.mem_singleton_self _)⟩
  cases hended : (endParse (s.store.beginParse files project config (s.created script)).store
      target project context ticket script.parsed).value with
  | error cause' => exact hkeeps cause' hended
  | ok result =>
      rw [hended, hreply result] at h
      cases h

/-- A parse that fails, with nobody else at the store while the front end is at work. -/
theorem parse_leaves (hreply : ∀ result, (reply (.ok result)).failure? = none) {cause : StoreError}
    (h : (s.parse files target project config script reply (playAll files [])).2.reply.failure? =
      some cause) :
    Leaves s.store (s.parse files target project config script reply (playAll files [])).1.store
      project (s.parse files target project config script reply (playAll files [])).2.calls := by
  rcases beginParse_cases s.store project files config (s.created script) with
    ⟨began, hvalue, hstore⟩ | ⟨e, hentry, hvalue, hstore⟩ | ⟨context, habsent, hvalue, hentry⟩
  · have hasked : ∀ call ∈ (s.store.beginParse files project config (s.created script)).calls,
        Asked s.store project call := by
      rw [beginParse_calls]
      exact ensureContext_asked files config (s.created script)
    simp only [parse, hvalue, commit, hstore]
    exact .unseen (.refl s.store) (.inr (not_mem_of_asked hasked))
  · have hlive : (s.store.beginParse files project config (s.created script)).store.context?
        project = some e.context := by
      rw [hstore, context?_putEntry, if_pos rfl]
    have hcontains : s.store.contains project = true := by
      rw [contains_eq, hentry]
      rfl
    obtain ⟨hafter, -⟩ := parse_of_begun hreply hvalue hlive h
    rw [hafter, hstore]
    exact .unseen (sameToCallers_ticket hentry _) (.inl hcontains)
  · have hlive : (s.store.beginParse files project config (s.created script)).store.context?
        project = some context := by
      rw [context?, hentry]
      rfl
    have hlocal := beginParse_local project files config (s.created script)
    obtain ⟨hafter, hasked⟩ := parse_of_begun hreply hvalue hlive h
    rw [hafter]
    exact .opened habsent target context hentry (hlocal.writes s.store) hasked

end

/-- Every request that fails, whatever it asks for. -/
theorem play_leaves (files : FileTree) (s : Session) (action : Action) (project : String)
    (config : Except SettingsError Config) (script : Script) {cause : StoreError}
    (h : (play files ⟨action, project, config, script, []⟩ s).2.reply.failure? = some cause) :
    Leaves s.store (play files ⟨action, project, config, script, []⟩ s).1.store project
      (play files ⟨action, project, config, script, []⟩ s).2.calls := by
  cases config with
  | error _ =>
      rw [play]
      exact .unseen (.refl s.store) (.inr fun _ _ hmem => by cases hmem)
  | ok config =>
      rw [play] at h ⊢
      cases action with
      | ensureContext =>
          have hvalue := Reply.failure?_ofResult (fun _ => rfl) h
          have hstore := ensureContext_keepsOnError s.store project files config (s.created script)
            cause hvalue
          have hasked : ∀ call ∈
              (s.store.ensureContext files project config (s.created script)).calls,
              Asked s.store project call := ensureContext_asked files config (s.created script)
          refine .unseen ?_ (.inr (not_mem_of_asked hasked))
          simp only [act, complete, commit, hstore]
          exact .refl s.store
      | updateContext =>
          have hvalue := Reply.failure?_ofResult (fun _ => rfl) h
          have hstore := updateContext_keepsOnError s.store project files config (s.created script)
            script.updated cause hvalue
          have hasked : ∀ call ∈ (s.store.updateContext files project config (s.created script)
              script.updated).calls, Asked s.store project call :=
            checkOptions_andThen files config fun flags =>
              pushSettings_asked flags (s.created script) script.updated
          refine .unseen ?_ (.inr (not_mem_of_asked hasked))
          simp only [act, complete, commit, hstore]
          exact .refl s.store
      | parse target background =>
          cases background with
          | false => exact parse_leaves (fun _ => rfl) h
          | true => exact parse_leaves (s := s.note _) (fun _ => rfl) h
      | paint path buffer first stop =>
          simp only [act, paint] at h
          cases hfile : s.store.file? project path with
          | none =>
              rw [hfile] at h
              cases h
          | some file =>
              rw [hfile] at h
              cases h
      | deleteContext | result | file _ | contains | context | projects | paths => cases h

end Session

/-- **What a failed request leaves behind.** Take any store, any files, and any answers of the front
end, and let a request fail with nobody else at the store meanwhile. Callers then see the same as
before, of all projects, if and only if its project was open before or the front end was never asked
to parse. Else the project is open now and was not before; apart from that callers see no difference
even then. -/
theorem failed_request_unseen_iff (files : FileTree) (s : Session) (action : Action)
    (project : String) (config : Except SettingsError Config) (script : Script)
    {cause : StoreError}
    (h : (Session.play files ⟨action, project, config, script, []⟩ s).2.reply.failure? =
      some cause) :
    let after := (Session.play files ⟨action, project, config, script, []⟩ s).1.store
    let calls := (Session.play files ⟨action, project, config, script, []⟩ s).2.calls
    (SameToCallers after s.store ↔ s.store.contains project = true ∨
      ∀ (target : Target) (context : ContextHandle), target.call context ∉ calls) ∧
    (∀ other, other ≠ project → after.view other = s.store.view other) ∧
    after.result? project = s.store.result? project ∧
    after.file? project = s.store.file? project ∧
    after.paths project = s.store.paths project := by
  intro after calls
  have hleaves : Leaves s.store after project calls :=
    Session.play_leaves files s action project config script h
  cases hleaves with
  | unseen hsame hearly =>
      have hview := hsame.2 project
      refine ⟨⟨fun _ => hearly, fun _ => hsame⟩, fun other _ => hsame.2 other, ?_, ?_, ?_⟩
      · exact congrArg View.result hview
      · exact congrArg View.file hview
      · exact congrArg View.paths hview
  | opened habsent target context hentry hothers hasked =>
      have hclosed : s.store.contains project = false := by
        rw [contains_eq, habsent]
        rfl
      have hopen : after.contains project = true := by
        rw [contains_eq, hentry]
        rfl
      refine ⟨⟨?_, ?_⟩, fun other hother => view_congr (hothers other hother), ?_, ?_, ?_⟩
      · intro hsame
        have hcontains : after.contains project = s.store.contains project :=
          congrArg View.contains (hsame.2 project)
        rw [hopen, hclosed] at hcontains
        cases hcontains
      · rintro (hcontains | hnever)
        · rw [hclosed] at hcontains
          cases hcontains
        · exact absurd hasked (hnever target context)
      · rw [result?, result?, hentry, habsent]
        rfl
      · funext path
        rw [file?, file?, hentry, habsent]
        rfl
      · rw [paths, paths, hentry, habsent]
        exact List.mergeSort_nil

/-- A build that the front end does not survive. -/
def failingBuild : Request :=
  ⟨.parse .project false, "blink", .ok (.ofRoot ⟨"/work/blink"⟩),
    ⟨none, .ok (), .error (.failed "boom")⟩, []⟩

/-- On an open project nobody sees that a build has failed. -/
theorem failed_rebuild_unseen :
    let opening : Request :=
      ⟨.ensureContext, "blink", .ok (.ofRoot ⟨"/work/blink"⟩), ⟨none, .ok (), .ok .empty⟩, []⟩
    let s := (Session.play .empty opening .start).1
    (Session.play .empty failingBuild s).2.reply.failure? = some (.frontEnd (.failed "boom")) ∧
      SameToCallers (Session.play .empty failingBuild s).1.store s.store := by
  intro opening s
  have hfailed : (Session.play .empty failingBuild s).2.reply.failure? =
      some (.frontEnd (.failed "boom")) := rfl
  have hopen : s.store.contains "blink" = true := rfl
  exact ⟨hfailed, (failed_request_unseen_iff .empty s _ _ _ _ hfailed).1.mpr (.inl hopen)⟩

/-- If the first build of a project fails, the project has a context, which it had not before. -/
theorem failed_first_build_opens :
    let after := Session.play .empty failingBuild .start
    after.2.reply.failure? = some (.frontEnd (.failed "boom")) ∧
      Session.start.store.contains "blink" = false ∧ after.1.store.contains "blink" = true ∧
      ¬ SameToCallers after.1.store Session.start.store := by
  intro after
  refine ⟨rfl, rfl, rfl, ?_⟩
  rintro ⟨-, hview⟩
  have hcontains : true = false := congrArg View.contains (hview "blink")
  cases hcontains

end EditorCore.Store

import EditorCore.Proofs.Store.Contexts
import Mathlib.Data.List.Infix

set_option autoImplicit false

/-! # Parses that outlive their entry

A parse runs while nobody holds the store, so the entry in which it began may be gone when it ends,
and its project may have been opened again. Its result must then be discarded. The store tells the
two entries apart by their contexts alone, so this is up to the front end: a parse is merged if and
only if its project has its context (`endParse_of_live`, `endParse_of_not_live`), whichever entry
that context belongs to.

What the front end has to see to follows. At every moment of a run every outlived parse is
discarded, exactly if no project is ever given the handle of a parse of that project that is still
under way: such a turn lets a parse through (`World.Dated.not_discards`), and no other turn does
(`World.Discards.turn`). To keep the handles of live contexts distinct is not enough.
-/

namespace EditorCore.Store

/-! ## Contexts, seen through look-ups -/

theorem context?_putEntry (s : Store) (project project' : String) (e : Entry) :
    context? (s.putEntry project e) project' =
      if project = project' then some e.context else s.context? project' := by
  rw [context?, lookup_putEntry]
  split <;> rfl

theorem context?_erase (s : Store) (project project' : String) :
    context? ⟨s.entries.erase project⟩ project' =
      if project = project' then none else s.context? project' := by
  rw [context?, lookup_erase]
  split <;> rfl

/-- Replacing an entry by one with its context is not seen. -/
theorem context?_putEntry_of_live {s : Store} {project : String} {e e' : Entry}
    (live : s.entry? project = some e) (hcontext : e'.context = e.context) (project' : String) :
    context? (s.putEntry project e') project' = s.context? project' := by
  rw [context?_putEntry]
  split
  · rename_i h
    rw [← h, context?, live, hcontext]
    rfl
  · rfl

theorem takeTicket_context? (s : Store) (project : String) (context : ContextHandle)
    (project' : String) :
    (s.takeTicket project context).store.context? project' = s.context? project' := by
  rcases takeTicket_cases s project context with ⟨e, hlive, -, h⟩ | h
  · have hkeep : ({ e with lastTicket := e.nextTicket } : Entry).context = e.context := rfl
    rw [h]
    exact context?_putEntry_of_live hlive hkeep project'
  · rw [h]

/-! ## What the end of a parse comes to -/

/-- A parse whose project has its context is merged. -/
theorem endParse_of_live {s : Store} {q : Parse} (h : s.context? q.project = some q.context)
    (result : ParseResult) :
    (s.endParse q.target q.project q.context q.ticket (.ok result)).value = .ok result := by
  obtain ⟨e, hentry, hcontext⟩ := Option.map_eq_some_iff.mp h
  obtain ⟨events, hmerge⟩ := merge_eq_withLive s q result
  have hlive : ∀ act : Entry → Step (Except StoreError Unit),
      s.withLive q.project q.context act = act e := by
    intro act
    rw [withLive, hentry]
    exact if_pos hcontext
  rw [endParse, hmerge, hlive]
  rfl

/-- A parse whose project has not its context is discarded. -/
theorem endParse_of_not_live {s : Store} {q : Parse} (h : s.context? q.project ≠ some q.context)
    (result : ParseResult) :
    (s.endParse q.target q.project q.context q.ticket (.ok result)).value =
        .error (.contextDeleted q.project) ∧
      (s.endParse q.target q.project q.context q.ticket (.ok result)).store = s := by
  rcases merge_cases s q result with ⟨e, hentry, hcontext, -, -⟩ | ⟨hvalue, hstore⟩
  · exact absurd (by rw [context?, hentry, ← hcontext]; rfl) h
  · rw [endParse, Step.andThen, hvalue]
    exact ⟨rfl, hstore⟩

/-! ## Outlived parses and reissued handles -/

namespace World

/-- The entry in which the parse began was deleted since. -/
def Outlived (w : World) (q : Parse) : Prop := q.era ≠ w.era q.project

/-- Every outlived parse would be discarded if it ended now: whatever it has found, its caller is
told that the context is gone, and the store stays as it is. -/
def Discards (w : World) : Prop :=
  ∀ q ∈ w.pending, w.Outlived q → ∀ result,
    (w.store.endParse q.target q.project q.context q.ticket (.ok result)).value =
        .error (.contextDeleted q.project) ∧
      (w.store.endParse q.target q.project q.context q.ticket (.ok result)).store = w.store

/-- The turn gives a project without a context the handle of a parse of it that is under way. -/
def Reissues (w : World) (t : Turn) : Prop :=
  ∃ q ∈ w.pending, w.store.context? q.project = none ∧
    (w.turn t).store.context? q.project = some q.context

/-! ## What a turn does to contexts, eras and parses

No turn both creates and deletes, so the context of a project before and after a turn tells what
has happened to its entry. -/

/-- What a turn may do to the entry of a project. -/
inductive Fate (w w' : World) (project : String) : Prop where
  | kept (context : w'.store.context? project = w.store.context? project)
      (era : w'.era project = w.era project)
  | created (absent : w.store.context? project = none) (era : w'.era project = w.era project)
      (pending : ∀ q ∈ w.pending, q ∈ w'.pending)
  | deleted (absent : w'.store.context? project = none)
      (era : w'.era project = w.era project + 1)

/-- What a turn may do to all projects and to the parses under way: those that are new began in
an entry that is there. -/
structure Effect (w w' : World) : Prop where
  fate : ∀ project, Fate w w' project
  parses : ∀ q ∈ w'.pending, q ∈ w.pending ∨
    (q.era = w'.era q.project ∧ w'.store.context? q.project = some q.context)

theorem Effect.refl (w : World) : Effect w w where
  fate _ := .kept rfl rfl
  parses _ hq := .inl hq

/-- What one change does. Only the first two touch the context of a project. -/
theorem Effect.of_change {w w' : World} (c : Change w w') : Effect w w' := by
  cases c with
  | created project context absent =>
      refine ⟨fun project' => ?_, fun _ hq => .inl hq⟩
      by_cases hproject : project = project'
      · subst hproject
        exact .created ((w.store.context?_eq_none_iff project).mpr absent) rfl fun _ hq => hq
      · exact .kept (by rw [context?_putEntry, if_neg hproject]) rfl
  | deleted project e live =>
      refine ⟨fun project' => ?_, fun _ hq => .inl hq⟩
      by_cases hproject : project = project'
      · subst hproject
        exact .deleted (by rw [context?_erase, if_pos rfl]) (Function.update_self project _ w.era)
      · exact .kept (by rw [context?_erase, if_neg hproject])
          (Function.update_of_ne (Ne.symm hproject) _ w.era)
  | began target project e live =>
      have hcontexts := context?_putEntry_of_live live
        (show ({ e with lastTicket := e.nextTicket } : Entry).context = e.context from rfl)
      refine ⟨fun project' => .kept (hcontexts project') rfl, ?_⟩
      intro q hq
      rcases List.mem_append.mp hq with hq | hq
      · exact .inl hq
      · rw [List.mem_singleton.mp hq]
        refine .inr ⟨rfl, (hcontexts project).trans ?_⟩
        rw [context?, live]
        rfl
  | dropped place => exact ⟨fun _ => .kept rfl rfl, fun _ hq => .inl (List.mem_of_mem_eraseIdx hq)⟩
  | merged place q result e underWay live same =>
      have hcontexts :=
        context?_putEntry_of_live live (q.target.mergeInto_context e q.ticket result)
      exact ⟨fun project => .kept (hcontexts project) rfl,
        fun _ hq => .inl (List.mem_of_mem_eraseIdx hq)⟩

theorem Effect.of_atMostOne {w w' : World} (c : AtMostOne w w') : Effect w w' := by
  cases c with
  | refl => exact .refl w
  | single c => exact .of_change c

/-- Taking a ticket leaves contexts, eras and the parses under way alone. -/
theorem takeTicket_kept (w : World) (target : Target) (project : String)
    (context : ContextHandle) (project' : String) :
    (w.turn (.takeTicket target project context)).store.context? project' =
        w.store.context? project' ∧
      (w.turn (.takeTicket target project context)).era = w.era ∧
      ∀ q ∈ w.pending, q ∈ (w.turn (.takeTicket target project context)).pending := by
  have hcontexts := takeTicket_context? w.store project context project'
  simp only [turn]
  cases (w.store.takeTicket project context).value with
  | error cause => exact ⟨hcontexts, rfl, fun _ hq => hq⟩
  | ok ticket => exact ⟨hcontexts, rfl, fun _ hq => List.mem_append_left _ hq⟩

/-- A parse that gets a ticket has the context of its project. -/
theorem takeTicket_parses (w : World) (target : Target) (project : String)
    (context : ContextHandle) :
    ∀ q ∈ (w.turn (.takeTicket target project context)).pending, q ∈ w.pending ∨
      (q.era = w.era q.project ∧ w.store.context? q.project = some q.context) := by
  intro q hq
  simp only [turn] at hq
  rcases takeTicket_cases w.store project context with ⟨e, hlive, rfl, h⟩ | h
  · rw [h] at hq
    rcases List.mem_append.mp hq with hq | hq
    · exact .inl hq
    · rw [List.mem_singleton.mp hq]
      refine .inr ⟨rfl, ?_⟩
      rw [context?, hlive]
      rfl
  · rw [h] at hq
    exact .inl hq

/-- A turn may end with taking a ticket. -/
theorem Effect.takeTicket {w w' : World} (h : Effect w w') (target : Target) (project : String)
    (context : ContextHandle) : Effect w (w'.turn (.takeTicket target project context)) where
  fate project' := by
    obtain ⟨hcontext, hera, hpending⟩ := w'.takeTicket_kept target project context project'
    cases h.fate project' with
    | kept hcontext' hera' => exact .kept (hcontext.trans hcontext') (hera ▸ hera')
    | created habsent hera' hpending' =>
        exact .created habsent (hera ▸ hera') fun q hq => hpending q (hpending' q hq)
    | deleted habsent hera' => exact .deleted (hcontext.trans habsent) (hera ▸ hera')
  parses q hq := by
    obtain ⟨hcontext, hera, -⟩ := w'.takeTicket_kept target project context q.project
    rw [hera, hcontext]
    rcases w'.takeTicket_parses target project context q hq with hq | hq
    · exact h.parses q hq
    · exact .inr hq

theorem turn_effect (w : World) (t : Turn) : Effect w (w.turn t) := by
  rcases w.turn_cases t with hchange | ⟨w', target, project, context, hchange, -, -, hturn⟩
  · exact .of_atMostOne hchange
  · rw [hturn]
    exact (Effect.of_atMostOne hchange).takeTicket target project context

/-! ## Runs -/

/-- Eras date the parses under way. -/
structure Dated (w : World) : Prop where
  /-- No parse is ahead of its project. -/
  past : ∀ q ∈ w.pending, q.era ≤ w.era q.project
  /-- The entry in which a parse began is there, unless it was deleted, and has its context. -/
  current : ∀ q ∈ w.pending, q.era = w.era q.project →
    w.store.context? q.project = some q.context

/-- A parse of a project without a context is outlived. -/
theorem Dated.outlived {w : World} (h : w.Dated) {q : Parse} (hq : q ∈ w.pending)
    (habsent : w.store.context? q.project = none) : w.Outlived q := by
  intro hera
  have hcontext := h.current q hq hera
  rw [habsent] at hcontext
  cases hcontext

theorem Dated.turn {w : World} (h : w.Dated) (t : Turn) : (w.turn t).Dated where
  past q hq := by
    rcases (w.turn_effect t).parses q hq with hq | ⟨hera, -⟩
    · have hle := h.past q hq
      cases (w.turn_effect t).fate q.project with
      | kept _ hera => omega
      | created _ hera _ => omega
      | deleted _ hera => omega
    · exact Nat.le_of_eq hera
  current q hq hera := by
    rcases (w.turn_effect t).parses q hq with hq | ⟨-, hcontext⟩
    · cases (w.turn_effect t).fate q.project with
      | kept hcontext hera' =>
          rw [hcontext]
          exact h.current q hq (hera.trans hera')
      | created habsent hera' _ => exact absurd (hera.trans hera') (h.outlived hq habsent)
      | deleted _ hera' =>
          have hle := h.past q hq
          omega
    · exact hcontext

theorem start_dated : start.Dated where
  past _ hq := by cases hq
  current _ hq := by cases hq

theorem play_dated (turns : List Turn) {w : World} (h : w.Dated) : (w.play turns).Dated := by
  induction turns generalizing w with
  | nil => exact h
  | cons t turns ih => exact ih (h.turn t)

/-- All that matters of an outlived parse is whether its project has its context. -/
theorem discards_iff {w : World} :
    w.Discards ↔ ∀ q ∈ w.pending, w.store.context? q.project = some q.context → ¬ w.Outlived q := by
  constructor
  · intro h q hq hlive hout
    have hvalue := (h q hq hout ⟨[], []⟩).1
    rw [endParse_of_live hlive] at hvalue
    cases hvalue
  · intro h q hq hout result
    exact endParse_of_not_live (fun hlive => h q hq hlive hout) result

/-- Discarding goes on if the turn reissues no handle: the parses that it makes outlived are those
of a project that it closes. -/
theorem Discards.turn {w : World} (h : w.Discards) {t : Turn} (hno : ¬ w.Reissues t) :
    (w.turn t).Discards := by
  rw [discards_iff] at h ⊢
  intro q hq hlive
  rw [Outlived, not_not]
  -- A parse that was under way before keeps its era, so only a new entry could let it through.
  rcases (w.turn_effect t).parses q hq with hq | ⟨hera, -⟩
  · cases (w.turn_effect t).fate q.project with
    | kept hcontext hera =>
        rw [hcontext] at hlive
        rw [hera]
        exact not_not.mp (h q hq hlive)
    | created habsent _ _ => exact absurd ⟨q, hq, habsent, hlive⟩ hno
    | deleted habsent _ =>
        rw [habsent] at hlive
        cases hlive
  · exact hera

/-- A turn that reissues a handle lets an outlived parse through. -/
theorem Dated.not_discards {w : World} (h : w.Dated) {t : Turn} (ht : w.Reissues t) :
    ¬ (w.turn t).Discards := by
  rw [discards_iff]
  intro hdiscards
  obtain ⟨q, hq, habsent, hlive⟩ := ht
  cases (w.turn_effect t).fate q.project with
  | kept hcontext _ =>
      rw [hcontext, habsent] at hlive
      cases hlive
  | created _ hera hpending =>
      -- The entry of the parse was gone before the turn, and no era has begun since.
      refine hdiscards q (hpending q hq) hlive fun hsame => ?_
      exact h.outlived hq habsent (hsame.trans hera)
  | deleted hgone _ =>
      rw [hgone] at hlive
      cases hlive

theorem play_concat (w : World) (turns : List Turn) (t : Turn) :
    w.play (turns ++ [t]) = (w.play turns).turn t := by
  rw [play, List.foldl_append]
  rfl

end World

/-- **Outlived parses are discarded as long as no handle is reissued, and no longer.** At every
moment of a run all outlived parses are discarded if and only if no turn of it gives a project the
handle of a parse of that project that is still under way. -/
theorem outlived_discarded_iff (turns : List Turn) :
    (∀ before, before <+: turns → (World.start.play before).Discards) ↔
      ∀ before t, before ++ [t] <+: turns → ¬ (World.start.play before).Reissues t := by
  constructor
  · intro hdiscards before t hmoment hreissues
    have hdated := World.play_dated before World.start_dated
    apply hdated.not_discards hreissues
    rw [← World.play_concat]
    exact hdiscards (before ++ [t]) hmoment
  · intro hnever before
    -- Moments are reached one turn after another, so the induction is from the last turn back.
    induction before using List.reverseRecOn with
    | nil =>
        intro _ q hq
        cases hq
    | append_singleton before t ih =>
        intro hmoment
        have hbefore : before <+: turns := (List.prefix_append before [t]).trans hmoment
        rw [World.play_concat]
        exact (ih hbefore).turn (hnever before t hmoment)

/-- A project is closed and opened again while a build of it is under way, and the front end
returns the handle of the closed context for the new one. -/
def recycled : List Turn :=
  [.beginParse .project .empty "blink" (.ofRoot ⟨"/p"⟩) (.ok ⟨7⟩),
    .deleteContext "blink",
    .ensureContext .empty "blink" (.ofRoot ⟨"/p"⟩) (.ok ⟨7⟩)]

/-- Live contexts have distinct handles at every moment, and still the outlived build is merged
into the new entry, which had no result before. -/
theorem outlived_build_leaks :
    (∀ before, before <+: recycled → (World.start.play before).store.contexts.Nodup) ∧
      let w := World.start.play recycled
      let file := SourceFile.ofRecords ⟨"/p/a.nc"⟩ [] [] []
      ∃ q ∈ w.pending, w.Outlived q ∧
        let step := w.store.endParse q.target q.project q.context q.ticket (.ok ⟨[file], []⟩)
        step.value = .ok ⟨[file], []⟩ ∧
        w.store.result? "blink" = none ∧ step.store.result? "blink" = some ⟨[file], []⟩ := by
  constructor
  · intro before hbefore
    rw [← List.mem_inits] at hbefore
    simp only [recycled, List.inits, List.map_cons, List.map_nil, List.mem_cons,
      List.not_mem_nil, or_false] at hbefore
    rcases hbefore with rfl | rfl | rfl | rfl
    · exact Multiset.nodup_zero
    · exact Multiset.nodup_singleton _
    · exact Multiset.nodup_zero
    · exact Multiset.nodup_singleton _
  · intro w file
    refine ⟨_, List.mem_cons_self, ?_, rfl, rfl, rfl⟩
    show (0 : Nat) ≠ 1
    decide

end EditorCore.Store

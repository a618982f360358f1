import EditorCore.Proofs.Store.Contexts
import EditorCore.Proofs.Store.Local
import Mathlib.Data.List.Infix

set_option autoImplicit false

/-! # Projects do not interfere

The callers of all projects take turns at one store and one front end. For each project the run can
be played without the others: `World.only` leaves out every turn that belongs to another project.
What is then left of the world is, for that project, what the whole run would have made of it
(`World.Part`): the same entry and the same parses under way. A turn of another project changes
nothing of that part (`Part.other`); a turn of the project itself does the same to both worlds, and
comes to the same for its caller and for the front end (`Part.own`).

A turn carries the answers of the front end and the files that are looked at, so a turn that is kept
meets the same ones in both runs.
-/

namespace EditorCore.Store

open Settings (Config Flag)

/-! ## What a turn comes to -/

/-- What a turn returns to its caller. -/
inductive Outcome where
  | context (value : Except StoreError ContextHandle)
  | settings (value : Except StoreError Unit)
  | deleted (value : Bool)
  | begun (value : Except StoreError (ContextHandle × Nat))
  | ended (value : Except StoreError ParseResult)

/-- What a turn returns to its caller and what it asks of the front end. -/
structure Exchange where
  outcome : Outcome
  calls : List Call

/-- The request to parse that follows when a parse has begun. -/
def Target.parseCalls (target : Target) : Except StoreError (ContextHandle × Nat) → List Call
  | .ok (context, _) => [target.call context]
  | .error _ => []

namespace World

/-- The project that a turn belongs to. The end of a parse belongs to the project of the parse;
where there is no parse to end, there is no project. -/
def owner? (w : World) : Turn → Option String
  | .ensureContext _ project _ _ => some project
  | .createContext project _ _ => some project
  | .updateContext _ project _ _ _ => some project
  | .deleteContext project => some project
  | .beginParse _ _ project _ _ => some project
  | .takeTicket _ project _ => some project
  | .endParse place _ => (w.pending[place]?).map (·.project)

/-- What a turn comes to for its caller and for the front end. -/
def exchange? (w : World) : Turn → Option Exchange
  | .ensureContext files project config created =>
      let step := w.store.ensureContext files project config created
      some ⟨.context step.value, step.calls⟩
  | .createContext project options created =>
      let step := w.store.create project options created
      some ⟨.context step.value, step.calls⟩
  | .updateContext files project config created updated =>
      let step := w.store.updateContext files project config created updated
      some ⟨.settings step.value, step.calls⟩
  | .deleteContext project =>
      let step := w.store.delete project
      some ⟨.deleted step.value, step.calls⟩
  | .beginParse target files project config created =>
      let step := w.store.beginParse files project config created
      some ⟨.begun step.value, step.calls ++ target.parseCalls step.value⟩
  | .takeTicket target project context =>
      let step := w.store.takeTicket project context
      let value := step.value.map fun ticket => (context, ticket)
      some ⟨.begun value, step.calls ++ target.parseCalls value⟩
  | .endParse place answer =>
      (w.pending[place]?).map fun q =>
        let step := w.store.endParse q.target q.project q.context q.ticket answer
        ⟨.ended step.value, step.calls⟩

/-- What the turns of a project come to in a run, one after another. -/
def exchanges (w : World) (project : String) : List Turn → List Exchange
  | [] => []
  | t :: turns =>
      let rest := (w.turn t).exchanges project turns
      if w.owner? t = some project then (w.exchange? t).toList ++ rest else rest

/-! ## Leaving out the turns of other projects -/

/-- The parses of a project that are under way. -/
def parsesOf (w : World) (project : String) : List Parse :=
  w.pending.filter fun q => q.project == project

/-- A turn of the project as it is taken where the parses of other projects are missing: the parse
that ends has a place of its own among those of the project. -/
def alone (w : World) (project : String) : Turn → Turn
  | .endParse place answer =>
      .endParse ((w.pending.take place).countP fun q => q.project == project) answer
  | t => t

/-- The run without the turns of other projects. -/
def only (w : World) (project : String) : List Turn → List Turn
  | [] => []
  | t :: turns =>
      let rest := (w.turn t).only project turns
      if w.owner? t = some project then w.alone project t :: rest else rest

end World

/-! ## Places among some of the elements of a list -/

section Places

variable {α : Type} {p : α → Bool} {l : List α} {place : Nat} {a : α}

theorem exists_split_of_getElem? (h : l[place]? = some a) :
    ∃ front back, l = front ++ a :: back ∧ front.length = place := by
  obtain ⟨hlt, rfl⟩ := List.getElem?_eq_some_iff.mp h
  refine ⟨l.take place, l.drop (place + 1), ?_, List.length_take_of_le (Nat.le_of_lt hlt)⟩
  rw [← List.drop_eq_getElem_cons hlt, List.take_append_drop]

/-- An element keeps its place among the chosen ones: the number of chosen ones before it. -/
theorem getElem?_filter_countP (h : l[place]? = some a) (ha : p a = true) :
    (l.filter p)[(l.take place).countP p]? = some a := by
  obtain ⟨front, back, rfl, rfl⟩ := exists_split_of_getElem? h
  rw [List.take_left, List.filter_append, List.countP_eq_length_filter,
    List.filter_cons_of_pos ha, List.getElem?_append_right (Nat.le_refl _), Nat.sub_self]
  rfl

/-- Taking out a chosen element and choosing commute. -/
theorem filter_eraseIdx_of_pos (h : l[place]? = some a) (ha : p a = true) :
    (l.eraseIdx place).filter p = (l.filter p).eraseIdx ((l.take place).countP p) := by
  obtain ⟨front, back, rfl, rfl⟩ := exists_split_of_getElem? h
  rw [List.take_left, List.countP_eq_length_filter, List.filter_append, List.filter_cons_of_pos ha,
    List.eraseIdx_append_of_length_le (Nat.le_refl _), Nat.sub_self,
    List.eraseIdx_append_of_length_le (Nat.le_refl _), Nat.sub_self, List.eraseIdx_cons_zero,
    List.eraseIdx_cons_zero, List.filter_append]

/-- An element that is not chosen can be taken out before or not. -/
theorem filter_eraseIdx_of_neg (h : l[place]? = some a) (ha : p a = false) :
    (l.eraseIdx place).filter p = l.filter p := by
  obtain ⟨front, back, rfl, rfl⟩ := exists_split_of_getElem? h
  rw [List.eraseIdx_append_of_length_le (Nat.le_refl _), Nat.sub_self, List.eraseIdx_cons_zero,
    List.filter_append, List.filter_append, List.filter_cons_of_neg (by simp [ha])]

end Places

/-! ## What is left of a world -/

namespace World

/-- For the project, the second world is what is left of the first one: the parses of other projects
are missing, and nothing is said about other entries. -/
structure Part (project : String) (w v : World) : Prop where
  entry : w.store.entry? project = v.store.entry? project
  era : w.era project = v.era project
  parses : v.pending = w.parsesOf project

section Part

variable {project : String} {w v : World}

/-- A part is still one after whatever leaves entry, era and parses of the project alone. -/
theorem Part.of_same (h : Part project w v) {w' : World}
    (hentry : w'.store.entry? project = w.store.entry? project)
    (hera : w'.era project = w.era project) (hparses : w'.parsesOf project = w.parsesOf project) :
    Part project w' v :=
  ⟨hentry.trans h.entry, hera.trans h.era, h.parses.trans hparses.symm⟩

theorem begin_era (w : World) (target : Target) (owner : String)
    (value : Except StoreError (ContextHandle × Nat)) :
    (w.begin target owner value).era = w.era := by
  cases value <;> rfl

/-- A parse of another project that is put under way does not count. -/
theorem parsesOf_begin_other {owner : String} (hother : owner ≠ project) (w : World)
    (target : Target) (value : Except StoreError (ContextHandle × Nat)) :
    (w.begin target owner value).parsesOf project = w.parsesOf project := by
  cases value with
  | error cause => rfl
  | ok taken =>
      unfold parsesOf begin
      rw [List.filter_append, List.filter_cons_of_neg (by simpa using hother), List.filter_nil,
        List.append_nil]

/-- **A turn of another project** changes nothing of the part. -/
theorem Part.other (h : Part project w v) {t : Turn} (hother : w.owner? t ≠ some project) :
    Part project (w.turn t) v := by
  have hne : ∀ {owner : String}, w.owner? t = some owner → project ≠ owner := by
    rintro owner howner rfl
    exact hother howner
  cases t with
  | ensureContext files owner config created =>
      have hlocal := ensureContext_local owner files config created
      exact h.of_same (hlocal.writes w.store project (hne rfl)) rfl rfl
  | createContext owner options created =>
      have hlocal := create_local owner options created
      exact h.of_same (hlocal.writes w.store project (hne rfl)) rfl rfl
  | updateContext files owner config created updated =>
      have hlocal := updateContext_local owner files config created updated
      exact h.of_same (hlocal.writes w.store project (hne rfl)) rfl rfl
  | deleteContext owner =>
      refine h.of_same ((delete_local owner).writes w.store project (hne rfl)) ?_ rfl
      show (if (w.store.delete owner).value then Function.update w.era owner (w.era owner + 1)
        else w.era) project = w.era project
      split
      · exact Function.update_of_ne (hne rfl) _ w.era
      · rfl
  | beginParse target files owner config created =>
      have hlocal := beginParse_local owner files config created
      refine h.of_same ?_ ?_ (parsesOf_begin_other (Ne.symm (hne rfl)) _ target _)
      · simp only [turn, begin_store]
        exact hlocal.writes w.store project (hne rfl)
      · simp only [turn, begin_era]
        rfl
  | takeTicket target owner context =>
      have hlocal := takeTicket_local owner context
      refine h.of_same ?_ ?_ (parsesOf_begin_other (Ne.symm (hne rfl)) _ target _)
      · simp only [turn, begin_store]
        exact hlocal.writes w.store project (hne rfl)
      · simp only [turn, begin_era]
  | endParse place answer =>
      cases hplace : w.pending[place]? with
      | none =>
          have hturn : w.turn (.endParse place answer) = w := by rw [turn, hplace]
          rw [hturn]
          exact h
      | some q =>
          have hq : project ≠ q.project := hne (by rw [owner?, hplace, Option.map_some])
          have hlocal := endParse_local q.project q.target q.context q.ticket answer
          refine h.of_same ?_ ?_ ?_
          · simp only [turn, hplace]
            exact hlocal.writes w.store project hq
          · simp only [turn, hplace]
          · simp only [turn, hplace, parsesOf]
            exact filter_eraseIdx_of_neg hplace (by simpa using Ne.symm hq)

/-- A parse of the project is put under way in both worlds. -/
theorem Part.begin (h : Part project w v) (target : Target)
    (value : Except StoreError (ContextHandle × Nat)) :
    Part project (w.begin target project value) (v.begin target project value) := by
  cases value with
  | error cause => exact h
  | ok taken =>
      refine ⟨h.entry, h.era, ?_⟩
      unfold parsesOf World.begin
      rw [List.filter_append, List.filter_cons_of_pos (by simp), List.filter_nil, h.parses, h.era]
      rfl

/-- A step that is the same for the project keeps the part. -/
theorem Part.after {α : Type} (h : Part project w v) (created : Except FrontEndError ContextHandle)
    {step step' : Step α} (halike : step.Alike project step') :
    Part project (w.after created step) (v.after created step') :=
  ⟨halike.entry, h.era, h.parses⟩

/-- **A turn of the project itself** comes to the same in both worlds, and what is left of the world
after it is what the turn makes of the part. -/
theorem Part.own (h : Part project w v) {t : Turn} (howner : w.owner? t = some project) :
    w.exchange? t = v.exchange? (w.alone project t) ∧
      v.owner? (w.alone project t) = some project ∧
      Part project (w.turn t) (v.turn (w.alone project t)) := by
  cases t with
  | ensureContext files owner config created =>
      obtain rfl : owner = project := Option.some.inj howner
      have hstep := (ensureContext_local owner files config created).reads _ _ h.entry
      simp only [exchange?, alone, hstep.value, hstep.calls]
      exact ⟨trivial, rfl, h.after created hstep⟩
  | createContext owner options created =>
      obtain rfl : owner = project := Option.some.inj howner
      have hstep := (create_local owner options created).reads _ _ h.entry
      simp only [exchange?, alone, hstep.value, hstep.calls]
      exact ⟨trivial, rfl, h.after created hstep⟩
  | updateContext files owner config created updated =>
      obtain rfl : owner = project := Option.some.inj howner
      have hstep := (updateContext_local owner files config created updated).reads _ _ h.entry
      simp only [exchange?, alone, hstep.value, hstep.calls]
      exact ⟨trivial, rfl, h.after created hstep⟩
  | deleteContext owner =>
      obtain rfl : owner = project := Option.some.inj howner
      have hstep := (delete_local owner).reads _ _ h.entry
      simp only [exchange?, alone, hstep.value, hstep.calls]
      refine ⟨trivial, rfl, hstep.entry, ?_, h.parses⟩
      simp only [turn, hstep.value]
      split
      · simp only [Function.update_self, h.era]
      · exact h.era
  | beginParse target files owner config created =>
      obtain rfl : owner = project := Option.some.inj howner
      have hstep := (beginParse_local owner files config created).reads _ _ h.entry
      simp only [exchange?, alone, hstep.value, hstep.calls]
      refine ⟨trivial, rfl, ?_⟩
      simp only [turn, hstep.value]
      exact (h.after created hstep).begin target _
  | takeTicket target owner context =>
      obtain rfl : owner = project := Option.some.inj howner
      have hstep := (takeTicket_local owner context).reads _ _ h.entry
      simp only [exchange?, alone, hstep.value, hstep.calls]
      refine ⟨trivial, rfl, ?_⟩
      simp only [turn, hstep.value]
      have hpart : Part owner { w with store := (w.store.takeTicket owner context).store }
          { v with store := (v.store.takeTicket owner context).store } :=
        ⟨hstep.entry, h.era, h.parses⟩
      exact hpart.begin target _
  | endParse place answer =>
      obtain ⟨q, hplace, rfl⟩ := Option.map_eq_some_iff.mp howner
      -- The parse is there in both worlds, at its place among the parses of the project.
      have hchosen : (q.project == q.project) = true := beq_self_eq_true q.project
      have hplace' : v.pending[(w.pending.take place).countP fun r => r.project == q.project]? =
          some q := by
        rw [h.parses]
        exact getElem?_filter_countP hplace hchosen
      have hstep := (endParse_local q.project q.target q.context q.ticket answer).reads _ _ h.entry
      simp only [exchange?, owner?, alone, hplace, hplace', Option.map_some, hstep.value,
        hstep.calls]
      refine ⟨trivial, trivial, ?_, ?_, ?_⟩
      · simp only [turn, hplace, hplace']
        exact hstep.entry
      · simp only [turn, hplace, hplace']
        exact h.era
      · simp only [turn, hplace, hplace', parsesOf]
        rw [h.parses]
        exact (filter_eraseIdx_of_pos hplace hchosen).symm

/-! ## Runs -/

/-- The run of the part comes to the same as the whole run, and leaves what is left of the whole
run's world. -/
theorem Part.play (h : Part project w v) (turns : List Turn) :
    w.exchanges project turns = v.exchanges project (w.only project turns) ∧
      Part project (w.play turns) (v.play (w.only project turns)) := by
  induction turns generalizing w v with
  | nil => exact ⟨rfl, h⟩
  | cons t turns ih =>
      by_cases howner : w.owner? t = some project
      · obtain ⟨hexchange, howner', hpart⟩ := h.own howner
        obtain ⟨hrest, hpart'⟩ := ih hpart
        simp only [exchanges, only, if_pos howner, if_pos howner', hexchange, hrest]
        exact ⟨trivial, hpart'⟩
      · obtain ⟨hrest, hpart⟩ := ih (h.other howner)
        simp only [exchanges, only, if_neg howner, hrest]
        exact ⟨trivial, hpart⟩

end Part

/-- Leaving out turns goes turn by turn. -/
theorem only_append (w : World) (project : String) (turns more : List Turn) :
    w.only project (turns ++ more) =
      w.only project turns ++ (w.play turns).only project more := by
  induction turns generalizing w with
  | nil => rfl
  | cons t turns ih =>
      show w.only project (t :: (turns ++ more)) = _
      by_cases howner : w.owner? t = some project
      · simp only [only, if_pos howner, ih, List.cons_append]
        rfl
      · simp only [only, if_neg howner, ih]
        rfl

end World

/-- **Projects do not interfere.** Take any run of turns at the store, by callers of any projects,
with any front end. For each project, the run without the turns of all other projects comes to the
same: the turns of the project return the same to their callers and ask the same of the front end,
and at every moment of the whole run callers see of the project what they see at that moment of the
run without the others. -/
theorem projects_do_not_interfere (project : String) (turns : List Turn) :
    World.start.exchanges project turns =
        World.start.exchanges project (World.start.only project turns) ∧
      ∀ before, before <+: turns →
        World.start.only project before <+: World.start.only project turns ∧
        (World.start.play before).store.view project =
          (World.start.play (World.start.only project before)).store.view project := by
  have hstart : World.Part project World.start World.start := ⟨rfl, rfl, rfl⟩
  refine ⟨(hstart.play turns).1, ?_⟩
  rintro before ⟨more, rfl⟩
  refine ⟨?_, view_congr (hstart.play before).2.entry⟩
  rw [World.only_append]
  exact List.prefix_append _ _

end EditorCore.Store

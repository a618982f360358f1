import EditorCore.Proofs.Store.Bookkeeping

set_option autoImplicit false

/-! # The parse that started last wins

Parses of one entry overlap and are merged in any order. What the entry shows in the end is
decided by the tickets alone: for every path the merged parse with the largest ticket among those
that have a file with this path, and for the project the merged build with the largest ticket.

The invariant has two parts. `Bookkeeping` ties parses to the entries in which they began, so a
merge into a live entry is known to come from a parse that began in it. `Entry.HoldsNewest` says
of an entry that what it stores is the newest of what was merged into it; one merge preserves it
(`Entry.HoldsNewest.mergeInto`), and changes that merge nothing do so because they leave both the
entry and its merges alone.
-/

namespace EditorCore.Store

/-! ## What was merged into an entry -/

/-- What a merged parse has brought. -/
structure Merge where
  target : Target
  ticket : Nat
  result : ParseResult

/-- The result of a build; the parse of a single file has none to offer for the project. -/
def Merge.built (m : Merge) : Option ParseResult :=
  match m.target with
  | .project => some m.result
  | .file _ => none

/-- The parses that began in the present entry of a project and have been merged. -/
def World.merges (w : World) (project : String) : List Merge :=
  (w.merged.filter fun m => m.1.project = project ∧ m.1.era = w.era project).map fun m =>
    ⟨m.1.target, m.1.ticket, m.2⟩

theorem World.mem_merges {w : World} {project : String} {m : Merge} :
    m ∈ w.merges project ↔ ∃ q, (q, m.result) ∈ w.merged ∧ q.project = project ∧
      q.era = w.era project ∧ q.target = m.target ∧ q.ticket = m.ticket := by
  simp only [merges, List.mem_map, List.mem_filter, decide_eq_true_eq]
  constructor
  · rintro ⟨⟨q, r⟩, ⟨hmem, hproject, hera⟩, rfl⟩
    exact ⟨q, hmem, hproject, hera, rfl, rfl⟩
  · rintro ⟨q, hmem, hproject, hera, htarget, hticket⟩
    refine ⟨(q, m.result), ⟨hmem, hproject, hera⟩, ?_⟩
    rw [htarget, hticket]

/-! ## The newest of several merges -/

/-- What is stored comes from the merge with the largest ticket among those that `pick` finds
something in. -/
def Newest {α : Type} (merges : List Merge) (pick : Merge → Option α) :
    Option (Stamped α) → Prop
  | none => ∀ m ∈ merges, pick m = none
  | some s => ∃ m ∈ merges, m.ticket = s.ticket ∧ pick m = some s.value ∧
      ∀ m' ∈ merges, pick m' ≠ none → m'.ticket ≤ s.ticket

/-- Merges that share a ticket are one. -/
def TicketsDistinct (merges : List Merge) : Prop :=
  ∀ m ∈ merges, ∀ m' ∈ merges, m.ticket = m'.ticket → m = m'

namespace Newest

variable {α : Type} {merges : List Merge} {pick : Merge → Option α} {stored : Option (Stamped α)}

theorem append_none (h : Newest merges pick stored) {m : Merge} (hm : pick m = none) :
    Newest (merges ++ [m]) pick stored := by
  cases stored with
  | none =>
      intro m' hm'
      rcases List.mem_append.mp hm' with hm' | hm'
      · exact h m' hm'
      · rw [List.mem_singleton.mp hm', hm]
  | some s =>
      obtain ⟨n, hn, hticket, hpick, hmax⟩ := h
      refine ⟨n, List.mem_append_left _ hn, hticket, hpick, ?_⟩
      intro m' hm' hsome
      rcases List.mem_append.mp hm' with hm' | hm'
      · exact hmax m' hm' hsome
      · exact absurd (List.mem_singleton.mp hm' ▸ hm) hsome

/-- A merge with no larger ticket leaves what is stored the newest. -/
theorem append_older {s : Stamped α} (h : Newest merges pick (some s)) {m : Merge}
    (hle : m.ticket ≤ s.ticket) : Newest (merges ++ [m]) pick (some s) := by
  obtain ⟨n, hn, hticket, hpick, hmax⟩ := h
  refine ⟨n, List.mem_append_left _ hn, hticket, hpick, ?_⟩
  intro m' hm' hsome
  rcases List.mem_append.mp hm' with hm' | hm'
  · exact hmax m' hm' hsome
  · rw [List.mem_singleton.mp hm']
    exact hle

/-- A merge with no smaller ticket is the newest. -/
theorem append_newer (h : Newest merges pick stored) {m : Merge} {a : α} (hm : pick m = some a)
    (hle : ∀ s, stored = some s → s.ticket ≤ m.ticket) :
    Newest (merges ++ [m]) pick (some ⟨m.ticket, a⟩) := by
  refine ⟨m, List.mem_append_right _ (List.mem_singleton_self m), rfl, hm, ?_⟩
  intro m' hm' hsome
  rcases List.mem_append.mp hm' with hm' | hm'
  · cases stored with
    | none => exact absurd (h m' hm') hsome
    | some s =>
        obtain ⟨-, -, -, -, hmax⟩ := h
        exact Nat.le_trans (hmax m' hm' hsome) (hle s rfl)
  · exact Nat.le_of_eq (congrArg Merge.ticket (List.mem_singleton.mp hm'))

theorem isSome_iff (h : Newest merges pick stored) :
    (stored.map (·.value)).isSome ↔ ∃ m ∈ merges, pick m ≠ none := by
  cases stored with
  | none =>
      simp only [Option.map_none, Option.isSome_none, Bool.false_eq_true, false_iff]
      rintro ⟨m, hm, hsome⟩
      exact hsome (h m hm)
  | some s =>
      simp only [Option.map_some, Option.isSome_some, true_iff]
      obtain ⟨m, hm, -, hpick, -⟩ := h
      exact ⟨m, hm, by simp [hpick]⟩

/-- What is stored, as a function of the set of merges. -/
theorem value_eq_some_iff (h : Newest merges pick stored) (hd : TicketsDistinct merges) (a : α) :
    stored.map (·.value) = some a ↔
      ∃ m ∈ merges, pick m = some a ∧ ∀ m' ∈ merges, pick m' ≠ none → m'.ticket ≤ m.ticket := by
  cases stored with
  | none =>
      simp only [Option.map_none, reduceCtorEq, false_iff]
      rintro ⟨m, hm, hpick, -⟩
      rw [h m hm] at hpick
      cases hpick
  | some s =>
      obtain ⟨n, hn, hticket, hpick, hmax⟩ := h
      simp only [Option.map_some, Option.some.injEq]
      constructor
      · rintro rfl
        exact ⟨n, hn, hpick, fun m' hm' hsome => hticket ▸ hmax m' hm' hsome⟩
      · rintro ⟨m, hm, hpick', hmax'⟩
        -- Both are the largest, so the tickets are equal and the merges are one.
        have hle : m.ticket ≤ n.ticket := hticket ▸ hmax m hm (by simp [hpick'])
        have hge : n.ticket ≤ m.ticket := hmax' n hn (by simp [hpick])
        have hmn : m = n := hd m hm n hn (Nat.le_antisymm hle hge)
        rw [hmn, hpick] at hpick'
        exact Option.some.inj hpick'

/-- Two lists with the same merges, in whatever order, have the same newest value. -/
theorem value_congr (h : Newest merges pick stored) (hd : TicketsDistinct merges)
    {merges' : List Merge} {stored' : Option (Stamped α)} (h' : Newest merges' pick stored')
    (hd' : TicketsDistinct merges') (hsame : ∀ m, m ∈ merges ↔ m ∈ merges') :
    stored.map (·.value) = stored'.map (·.value) := by
  apply Option.ext
  intro a
  simp only [h.value_eq_some_iff hd, h'.value_eq_some_iff hd', hsame]

end Newest

/-- The entry holds the newest of the merges, for every path and for the project. -/
def Entry.HoldsNewest (e : Entry) (merges : List Merge) : Prop :=
  (∀ path, Newest merges (fun m => m.result.lastFile? path) (e.files.get? path)) ∧
    Newest merges Merge.built e.latest

theorem Entry.ofContext_holdsNewest (context : ContextHandle) :
    (Entry.ofContext context).HoldsNewest [] := by
  constructor
  · intro path m hm
    cases hm
  · intro m hm
    cases hm

/-- A merge leaves the files the newest. -/
theorem newest_absorb {e : Entry} {merges : List Merge} {path : Path} (m : Merge)
    (h : Newest merges (fun m => m.result.lastFile? path) (e.files.get? path)) :
    Newest (merges ++ [m]) (fun m => m.result.lastFile? path)
      ((e.absorb m.ticket m.result).files.get? path) := by
  by_cases hnewer : ∃ s, e.files.get? path = some s ∧ m.ticket < s.ticket
  · obtain ⟨s, hs, hlt⟩ := hnewer
    rw [Entry.get?_absorb_of_newer m.result hs hlt]
    rw [hs] at h
    exact h.append_older (Nat.le_of_lt hlt)
  · have hle : ∀ s, e.files.get? path = some s → s.ticket ≤ m.ticket := by
      intro s hs
      by_contra hlt
      exact hnewer ⟨s, hs, Nat.not_le.mp hlt⟩
    rw [Entry.get?_absorb_of_not_newer m.result hle]
    cases hlast : m.result.lastFile? path with
    | none => exact h.append_none hlast
    | some f => exact h.append_newer hlast hle

/-- The merge of a build leaves the project's result the newest. -/
theorem newest_install {e : Entry} {merges : List Merge} {m : Merge}
    (hbuilt : m.built = some m.result) (h : Newest merges Merge.built e.latest) :
    Newest (merges ++ [m]) Merge.built (e.install m.ticket m.result).latest := by
  by_cases hnewer : ∃ s, e.latest = some s ∧ m.ticket ≤ s.ticket
  · obtain ⟨s, hs, hle⟩ := hnewer
    rw [Entry.install_latest_of_newer m.result hs hle]
    rw [hs] at h
    exact h.append_older hle
  · have hlt : ∀ s, e.latest = some s → s.ticket < m.ticket := by
      intro s hs
      by_contra hle
      exact hnewer ⟨s, hs, Nat.not_lt.mp hle⟩
    rw [Entry.install_latest_of_not_newer m.result hlt]
    exact h.append_newer hbuilt fun s hs => Nat.le_of_lt (hlt s hs)

/-- What an entry holds stays the newest when a parse is merged into it. -/
theorem Entry.HoldsNewest.mergeInto {e : Entry} {merges : List Merge} (h : e.HoldsNewest merges)
    (m : Merge) : (m.target.mergeInto e m.ticket m.result).HoldsNewest (merges ++ [m]) := by
  cases htarget : m.target with
  | file path =>
      have hbuilt : m.built = none := by rw [Merge.built, htarget]
      refine ⟨fun path => newest_absorb m (h.1 path), ?_⟩
      rw [Target.mergeInto, Entry.absorb_latest]
      exact h.2.append_none hbuilt
  | project =>
      have hbuilt : m.built = some m.result := by rw [Merge.built, htarget]
      constructor
      · intro path
        rw [Target.mergeInto, Entry.install_files]
        exact newest_absorb m (h.1 path)
      · exact newest_install hbuilt (by rw [Entry.absorb_latest]; exact h.2)

/-! ## Every reachable world is accounted for -/

/-- The parses of a world are booked, and every live entry holds the newest of what was merged
into it. -/
structure World.Accounted (w : World) : Prop where
  books : Bookkeeping w.store w.era w.issued w.begun
  contents : ∀ project e, w.store.entry? project = some e → e.HoldsNewest (w.merges project)

namespace World

theorem start_accounted : start.Accounted where
  books := {
    held := fun project e he => by simp [start] at he
    known := by simp [start, begun]
    past := by simp [start, begun]
    current := by simp [start, begun]
    own := by simp [start, begun]
    distinct := by simp [start, begun] }
  contents project e he := by simp [start] at he

namespace Accounted

variable {w : World}

/-- Nothing is merged into an entry that is not there. -/
theorem merges_of_absent (h : w.Accounted) {project : String}
    (absent : w.store.entry? project = none) : w.merges project = [] := by
  apply List.eq_nil_iff_forall_not_mem.mpr
  intro m hm
  obtain ⟨q, hq, rfl, hera, -, -⟩ := mem_merges.mp hm
  have hbegun : q ∈ w.begun := List.mem_append_right _ (List.mem_map_of_mem (f := (·.1)) hq)
  obtain ⟨e, he, -⟩ := h.books.current q hbegun hera
  rw [absent] at he
  cases he

/-- The merges of one entry have different tickets. -/
theorem merges_distinct (h : w.Accounted) (project : String) :
    TicketsDistinct (w.merges project) := by
  -- Within one entry, that is for one project and era, a key is a ticket.
  have hkeys : (w.merged.map fun m => m.1.key).Nodup := by
    have hboth := h.books.distinct
    rw [begun, List.map_append, List.map_map] at hboth
    exact hboth.of_append_right
  intro m hm m' hm' hticket
  obtain ⟨q, hq, hproject, hera, htarget, hq'⟩ := mem_merges.mp hm
  obtain ⟨p, hp, hproject', hera', htarget', hp'⟩ := mem_merges.mp hm'
  have hkey : q.key = p.key := by
    simp only [Parse.key, hproject, hproject', hera, hera', hq', hp', hticket]
  have hpair : (q, m.result) = (p, m'.result) := List.inj_on_of_nodup_map hkeys hq hp hkey
  obtain ⟨target, ticket, result⟩ := m
  obtain ⟨target', ticket', result'⟩ := m'
  simp only [Prod.mk.injEq] at hpair
  obtain ⟨rfl, rfl⟩ := hpair
  simp only at htarget htarget' hq' hp'
  rw [← htarget, ← htarget', ← hq', ← hp']

theorem created (h : w.Accounted) {project : String} {context : ContextHandle}
    (absent : w.store.entry? project = none) (fresh : context ∉ w.issued) :
    Accounted { w with
      store := w.store.putEntry project (.ofContext context)
      issued := w.issued ++ [context] } where
  books := h.books.created absent fun q hq _ hsame => fresh (hsame ▸ h.books.known q hq)
  contents := by
    apply forall_lookup_putEntry
    · show (Entry.ofContext context).HoldsNewest (w.merges project)
      rw [h.merges_of_absent absent]
      exact Entry.ofContext_holdsNewest context
    · intro project' f _ hf
      exact h.contents project' f hf

theorem deleted (h : w.Accounted) (project : String) :
    Accounted { w with
      store := ⟨w.store.entries.erase project⟩
      era := Function.update w.era project (w.era project + 1) } where
  books := h.books.deleted project
  contents := by
    apply forall_lookup_erase
    intro project' f hne hf
    simp only [merges, Function.update_of_ne (Ne.symm hne)]
    exact h.contents project' f hf

theorem began (h : w.Accounted) (target : Target) {project : String} {e : Entry}
    (live : w.store.entry? project = some e) :
    Accounted { w with
      store := w.store.putEntry project { e with lastTicket := e.nextTicket }
      pending := w.pending ++ [⟨target, project, e.context, e.nextTicket, w.era project⟩] } where
  books := by
    refine (h.books.began target live).subperm (List.Perm.subperm ?_)
    rw [begun, begun, List.append_assoc, List.singleton_append]
    exact List.perm_middle
  contents := by
    apply forall_lookup_putEntry
    · exact h.contents project e live
    · intro project' f _ hf
      exact h.contents project' f hf

theorem dropped (h : w.Accounted) (place : Nat) :
    Accounted { w with pending := w.pending.eraseIdx place } where
  books := h.books.subperm ((List.eraseIdx_sublist _ _).append_right _).subperm
  contents := h.contents

/-- The end of a parse moves it from those under way to those merged. -/
theorem begun_merged {place : Nat} {q : Parse} (result : ParseResult)
    (underWay : w.pending[place]? = some q) :
    (w.pending.eraseIdx place ++ (w.merged ++ [(q, result)]).map (·.1)).Perm w.begun := by
  obtain ⟨hlt, rfl⟩ := List.getElem?_eq_some_iff.mp underWay
  rw [begun, List.map_append, ← List.append_assoc]
  refine (List.perm_append_singleton _ _).trans ?_
  exact (List.getElem_cons_eraseIdx_perm hlt).append_right _

theorem merged (h : w.Accounted) {place : Nat} {q : Parse} (result : ParseResult) {e : Entry}
    (underWay : w.pending[place]? = some q) (live : w.store.entry? q.project = some e)
    (same : e.context = q.context) :
    Accounted { w with
      store := w.store.putEntry q.project (q.target.mergeInto e q.ticket result)
      pending := w.pending.eraseIdx place
      merged := w.merged ++ [(q, result)] } where
  books := by
    refine (h.books.replaced live ?_ ?_).subperm (begun_merged result underWay).subperm
    · exact q.target.mergeInto_context e q.ticket result
    · exact Nat.le_of_eq (q.target.mergeInto_lastTicket e q.ticket result).symm
  contents := by
    have hq : q ∈ w.begun := List.mem_append_left _ (List.mem_of_getElem? underWay)
    -- The parse began in the very entry that is there now, as its context is still live.
    have hera : q.era = w.era q.project := h.books.own q hq e live same
    apply forall_lookup_putEntry
    · have hmerges := (h.contents q.project e live).mergeInto ⟨q.target, q.ticket, result⟩
      simpa [merges, List.filter_append, hera] using hmerges
    · intro project f hne hf
      have hmerges := h.contents project f hf
      simpa [merges, List.filter_append, hne] using hmerges

end Accounted

/-- Every change keeps a world accounted for, if no handle is handed out a second time. -/
theorem Accounted.change {w w' : World} (h : w.Accounted) (c : Change w w')
    (fresh : w'.issued.Nodup) : w'.Accounted := by
  cases c with
  | created project context absent =>
      have hdisjoint := List.disjoint_of_nodup_append fresh
      exact h.created absent fun hmem => hdisjoint hmem (List.mem_singleton_self context)
  | deleted project e live => exact h.deleted project
  | began target project e live => exact h.began target live
  | dropped place => exact h.dropped place
  | merged place q result e underWay live same => exact h.merged result underWay live same

/-- Handles once handed out stay on record. -/
theorem issued_sublist {w w' : World} (c : Change w w') : w.issued.Sublist w'.issued := by
  cases c with
  | created project context absent => exact List.sublist_append_left _ _
  | deleted project e live => exact List.Sublist.refl _
  | began target project e live => exact List.Sublist.refl _
  | dropped place => exact List.Sublist.refl _
  | merged place q result e underWay live same => exact List.Sublist.refl _

theorem Accounted.changes {w w' : World} (h : w.Accounted) (c : Changes w w')
    (fresh : w'.issued.Nodup) : w'.Accounted := by
  induction c with
  | refl => exact h
  | tail _ last ih => exact (ih ((issued_sublist last).nodup fresh)).change last fresh

end World

/-! ## What callers see -/

namespace World.Accounted

variable {w : World}

theorem newest_file (h : w.Accounted) (project : String) (path : Path) :
    Newest (w.merges project) (fun m => m.result.lastFile? path)
      ((w.store.entry? project).bind (·.files.get? path)) := by
  cases hentry : w.store.entry? project with
  | none =>
      rw [h.merges_of_absent hentry]
      exact (Entry.ofContext_holdsNewest ⟨0⟩).1 path
  | some e => exact (h.contents project e hentry).1 path

theorem newest_result (h : w.Accounted) (project : String) :
    Newest (w.merges project) Merge.built ((w.store.entry? project).bind (·.latest)) := by
  cases hentry : w.store.entry? project with
  | none =>
      rw [h.merges_of_absent hentry]
      exact (Entry.ofContext_holdsNewest ⟨0⟩).2
  | some e => exact (h.contents project e hentry).2

end World.Accounted

theorem file?_eq_map (s : Store) (project : String) (path : Path) :
    s.file? project path =
      ((s.entry? project).bind (·.files.get? path)).map (·.value) := by
  rw [file?]
  cases s.entry? project <;> rfl

theorem result?_eq_map (s : Store) (project : String) :
    s.result? project = ((s.entry? project).bind (·.latest)).map (·.value) := by
  rw [result?]
  cases s.entry? project <;> rfl

theorem Merge.lastFile?_ne_none_iff (m : Merge) (path : Path) :
    m.result.lastFile? path ≠ none ↔ m.result.Mentions path := by
  rw [Ne, ParseResult.lastFile?_eq_none_iff, not_not]

theorem Merge.built_eq_some_iff (m : Merge) (result : ParseResult) :
    m.built = some result ↔ m.target = .project ∧ m.result = result := by
  rw [built]
  cases m.target <;> simp

theorem Merge.built_ne_none_iff (m : Merge) : m.built ≠ none ↔ m.target = .project := by
  rw [built]
  cases m.target <;> simp

/-- A parse that ends without being merged leaves the store as it was. -/
theorem World.endParse_store {w : World} {place : Nat} {answer : Except FrontEndError ParseResult}
    (h : (w.turn (.endParse place answer)).merged = w.merged) :
    (w.turn (.endParse place answer)).store = w.store := by
  simp only [turn] at h ⊢
  cases hplace : w.pending[place]? with
  | none => rfl
  | some q =>
      rw [hplace] at h
      rcases endParse_cases w.store q answer with ⟨-, hstore⟩ | ⟨result, e, -, -, hvalue, -⟩
      · exact hstore
      · simp [hvalue] at h

/-- The parse that started last wins, in whatever order parses end. With a front end that hands out
no handle twice, after any turns of any callers and for every project, let the merges be the parses
that began in the project's present entry and have been merged. A file is there for a path exactly
if some merge has one, and it is the last one with that path of the merge with the largest ticket
among those that have one; the project's result is that of the build with the largest ticket. So
the set of merges decides what is stored, and the order in which they came does not; a parse that
ends without being merged changes nothing. -/
theorem newest_started_parse_wins (turns : List Turn)
    (fresh : (World.start.play turns).issued.Nodup) (project : String) :
    let w := World.start.play turns
    (∀ path, (w.store.file? project path).isSome = true ↔
      ∃ m ∈ w.merges project, m.result.Mentions path) ∧
    (∀ path file, w.store.file? project path = some file ↔
      ∃ m ∈ w.merges project, m.result.lastFile? path = some file ∧
        ∀ m' ∈ w.merges project, m'.result.Mentions path → m'.ticket ≤ m.ticket) ∧
    (w.store.result? project = none ↔ ∀ m ∈ w.merges project, m.target ≠ .project) ∧
    (∀ result, w.store.result? project = some result ↔
      ∃ m ∈ w.merges project, m.target = .project ∧ m.result = result ∧
        ∀ m' ∈ w.merges project, m'.target = .project → m'.ticket ≤ m.ticket) ∧
    TicketsDistinct (w.merges project) ∧
    (∀ (turns' : List Turn) (project' : String), (World.start.play turns').issued.Nodup →
      (∀ m, m ∈ w.merges project ↔ m ∈ (World.start.play turns').merges project') →
      (∀ path, w.store.file? project path =
        (World.start.play turns').store.file? project' path) ∧
      w.store.result? project = (World.start.play turns').store.result? project') ∧
    (∀ place answer, (w.turn (.endParse place answer)).merged = w.merged →
      (w.turn (.endParse place answer)).store = w.store) := by
  intro w
  have hw : w.Accounted := World.start_accounted.changes (World.start.play_changes turns) fresh
  have hd := hw.merges_distinct project
  have hfile := hw.newest_file project
  have hresult := hw.newest_result project
  simp only [file?_eq_map, result?_eq_map]
  refine ⟨?_, ?_, ?_, ?_, hd, ?_, fun place answer => World.endParse_store⟩
  · intro path
    simpa only [Merge.lastFile?_ne_none_iff] using (hfile path).isSome_iff
  · intro path file
    simpa only [Merge.lastFile?_ne_none_iff] using (hfile path).value_eq_some_iff hd file
  · rw [← Option.not_isSome_iff_eq_none, hresult.isSome_iff]
    simp only [Merge.built_ne_none_iff, not_exists, not_and, ne_eq]
  · intro result
    simpa only [Merge.built_ne_none_iff, Merge.built_eq_some_iff, and_assoc] using
      hresult.value_eq_some_iff hd result
  · intro turns' project' fresh' hsame
    have hw' := World.start_accounted.changes (World.start.play_changes turns') fresh'
    have hd' := hw'.merges_distinct project'
    exact ⟨fun path => (hfile path).value_congr hd (hw'.newest_file project' path) hd' hsame,
      hresult.value_congr hd (hw'.newest_result project') hd' hsame⟩

/-- A parsed file without records. -/
def bareFile (path : Path) : SourceFile := .ofRecords path [] [] []

/-- A build and an update of one of its files overlap, and the update ends first. The build spells
the path of that file in another way. -/
def overlap : List Turn :=
  [.beginParse .project .empty "blink" (.ofRoot ⟨"/p"⟩) (.ok ⟨7⟩),
    .beginParse (.file ⟨"/p/a.nc"⟩) .empty "blink" (.ofRoot ⟨"/p"⟩) (.ok ⟨8⟩),
    .endParse 1 (.ok ⟨[bareFile ⟨"/p/a.nc"⟩], []⟩),
    .endParse 0 (.ok ⟨[bareFile ⟨"/p//a.nc"⟩, bareFile ⟨"/p/b.nc"⟩], []⟩)]

theorem overlap_merges : (World.start.play overlap).merges "blink" =
    [⟨.file ⟨"/p/a.nc"⟩, 2, ⟨[bareFile ⟨"/p/a.nc"⟩], []⟩⟩,
      ⟨.project, 1, ⟨[bareFile ⟨"/p//a.nc"⟩, bareFile ⟨"/p/b.nc"⟩], []⟩⟩] := rfl

/-- The build ends last and still does not replace the file of the update that started later. Its
other file is stored, and the project's result is all that it brought. -/
theorem newest_started_parse_wins_overlap :
    let w := World.start.play overlap
    w.issued.Nodup ∧
      w.store.file? "blink" ⟨"/p//a.nc"⟩ = some (bareFile ⟨"/p/a.nc"⟩) ∧
      w.store.file? "blink" ⟨"/p/b.nc"⟩ = some (bareFile ⟨"/p/b.nc"⟩) ∧
      w.store.result? "blink" =
        some ⟨[bareFile ⟨"/p//a.nc"⟩, bareFile ⟨"/p/b.nc"⟩], []⟩ := by
  intro w
  have fresh : w.issued.Nodup := List.nodup_singleton (⟨7⟩ : ContextHandle)
  obtain ⟨-, hfile, -, hresult, -⟩ := newest_started_parse_wins overlap fresh "blink"
  simp only [overlap_merges] at hfile hresult
  refine ⟨fresh, (hfile _ _).mpr ⟨_, List.mem_cons_self, rfl, ?_⟩,
    (hfile _ _).mpr ⟨_, List.mem_cons_of_mem _ List.mem_cons_self, rfl, ?_⟩,
    (hresult _).mpr ⟨_, List.mem_cons_of_mem _ List.mem_cons_self, rfl, rfl, ?_⟩⟩ <;>
    rw [List.forall_mem_cons, List.forall_mem_singleton]
  · exact ⟨fun _ => Nat.le_refl 2, fun _ => Nat.le_succ 1⟩
  · -- The update has no file with this path.
    refine ⟨?_, fun _ => Nat.le_refl 1⟩
    rintro ⟨file, hmem, hsame⟩
    rw [List.mem_singleton.mp hmem] at hsame
    revert hsame
    decide +kernel
  · exact ⟨nofun, fun _ => Nat.le_refl 1⟩

end EditorCore.Store

import EditorCore.Proofs.Store.Bookkeeping
import EditorCore.Proofs.Store.Outlived

set_option autoImplicit false

/-! # Tickets and what is stored under them

An entry counts the tickets that it hands out, so the next parse to begin has a larger ticket than
all that began in it before. That it also has a larger ticket than all that is *stored* in the entry
takes more: a parse of an earlier entry, merged into this one by mistake, brings a ticket that was
counted elsewhere. As long as no handle is reissued while a parse has it, this does not happen, and
every entry stores only what it has counted (`World.play_tidy`).
-/

namespace EditorCore.Store

/-! ## One entry -/

/-- All that the entry stores came with a ticket below the limit. -/
structure Entry.StoresBelow (e : Entry) (limit : Nat) : Prop where
  files : ∀ path s, e.files.get? path = some s → s.ticket < limit
  latest : ∀ s, e.latest = some s → s.ticket < limit

namespace Entry.StoresBelow

variable {e : Entry} {ticket limit : Nat}

theorem ofContext (context : ContextHandle) (limit : Nat) :
    (Entry.ofContext context).StoresBelow limit where
  files _ _ hs := by cases hs
  latest _ hs := by cases hs

theorem mono (h : e.StoresBelow limit) {limit' : Nat} (hle : limit ≤ limit') :
    e.StoresBelow limit' where
  files path s hs := Nat.lt_of_lt_of_le (h.files path s hs) hle
  latest s hs := Nat.lt_of_lt_of_le (h.latest s hs) hle

/-- To count a ticket changes nothing that is stored. -/
theorem counting (h : e.StoresBelow limit) (lastTicket : Nat) :
    ({ e with lastTicket := lastTicket } : Entry).StoresBelow limit := ⟨h.files, h.latest⟩

theorem absorbFile (h : e.StoresBelow limit) (hlt : ticket < limit) (file : SourceFile) :
    (Entry.absorbFile ticket e file).StoresBelow limit where
  files path s hs := by
    rw [Entry.get?_absorbFile] at hs
    split at hs
    · rw [← Option.some.inj hs]
      exact hlt
    · exact h.files path s hs
  latest s hs := by
    rw [(Entry.absorbFile_frame e ticket file).2.2] at hs
    exact h.latest s hs

theorem absorb (h : e.StoresBelow limit) (hlt : ticket < limit) (result : ParseResult) :
    (e.absorb ticket result).StoresBelow limit := by
  rw [Entry.absorb]
  induction result.files generalizing e with
  | nil => exact h
  | cons file files ih => exact ih (h.absorbFile hlt file)

theorem install (h : e.StoresBelow limit) (hlt : ticket < limit) (result : ParseResult) :
    (e.install ticket result).StoresBelow limit where
  files path s hs := by
    rw [Entry.install_files] at hs
    exact h.files path s hs
  latest s hs := by
    by_cases hnewer : ∃ stored, e.latest = some stored ∧ ticket ≤ stored.ticket
    · obtain ⟨stored, hstored, hle⟩ := hnewer
      rw [Entry.install_latest_of_newer result hstored hle] at hs
      exact h.latest s (hstored.trans hs)
    · rw [Entry.install_latest_of_not_newer result] at hs
      · rw [← Option.some.inj hs]
        exact hlt
      · intro stored hstored
        by_contra hle
        exact hnewer ⟨stored, hstored, Nat.not_lt.mp hle⟩

theorem mergeInto (h : e.StoresBelow limit) (hlt : ticket < limit) (result : ParseResult)
    (target : Target) : (target.mergeInto e ticket result).StoresBelow limit := by
  cases target with
  | project => exact (h.absorb hlt result).install hlt result
  | file path => exact h.absorb hlt result

end Entry.StoresBelow

/-! ## All entries -/

namespace World

/-- Every entry stores only what came with a ticket that it has counted. -/
def StoresCounted (w : World) : Prop :=
  ∀ project e, w.store.entry? project = some e → e.StoresBelow e.nextTicket

/-- Entries store what they have counted, and the parses under way are tied to their entries. -/
structure Tidy (w : World) : Prop where
  stored : w.StoresCounted
  books : Bookkeeping w.store w.era w.issued w.pending

/-- A parse that would be merged now brings a ticket that its entry has counted. -/
theorem Tidy.ticket_lt {w : World} (h : w.Tidy) {q : Parse} (hq : q ∈ w.pending) {e : Entry}
    (live : w.store.entry? q.project = some e) (same : e.context = q.context) :
    q.ticket < e.nextTicket := by
  obtain ⟨f, hf, hticket⟩ := h.books.current q hq (h.books.own q hq e live same)
  rw [live] at hf
  rw [Entry.nextTicket, Option.some.inj hf]
  omega

/-- No change makes an entry store what it has not counted. -/
theorem Tidy.stored_change {w w' : World} (h : w.Tidy) (c : Change w w') : w'.StoresCounted := by
  cases c with
  | created project context absent =>
      refine forall_lookup_putEntry (.ofContext context _) ?_
      exact fun project' f _ hf => h.stored project' f hf
  | deleted project e live =>
      exact forall_lookup_erase fun project' f _ hf => h.stored project' f hf
  | began target project e live =>
      refine forall_lookup_putEntry ?_ fun project' f _ hf => h.stored project' f hf
      exact ((h.stored project e live).mono (Nat.le_succ e.nextTicket)).counting _
  | dropped place => exact h.stored
  | merged place q result e underWay live same =>
      refine forall_lookup_putEntry ?_ fun project' f _ hf => h.stored project' f hf
      have hlt := h.ticket_lt (List.mem_of_getElem? underWay) live same
      rw [Entry.nextTicket, Target.mergeInto_lastTicket]
      exact (h.stored q.project e live).mergeInto hlt result q.target

/-- A change keeps a world tidy unless it reissues the handle of a parse under way. -/
theorem Tidy.change {w w' : World} (h : w.Tidy) (c : Change w w')
    (hkeeps : ∀ q ∈ w.pending, w.store.context? q.project = none →
      w'.store.context? q.project ≠ some q.context) : w'.Tidy := by
  refine ⟨h.stored_change c, ?_⟩
  cases c with
  | created project context absent =>
      refine h.books.created absent ?_
      rintro q hq rfl hsame
      apply hkeeps q hq ((w.store.context?_eq_none_iff _).mpr absent)
      rw [context?_putEntry, if_pos rfl, hsame]
      rfl
  | deleted project e live => exact h.books.deleted project
  | began target project e live =>
      exact (h.books.began target live).subperm (List.perm_append_singleton _ _).subperm
  | dropped place => exact h.books.subperm (List.eraseIdx_sublist _ _).subperm
  | merged place q result e underWay live same =>
      refine (h.books.replaced live ?_ ?_).subperm (List.eraseIdx_sublist _ _).subperm
      · exact q.target.mergeInto_context e q.ticket result
      · exact Nat.le_of_eq (q.target.mergeInto_lastTicket e q.ticket result).symm

theorem Tidy.atMostOne {w w' : World} (h : w.Tidy) (c : AtMostOne w w')
    (hkeeps : ∀ q ∈ w.pending, w.store.context? q.project = none →
      w'.store.context? q.project ≠ some q.context) : w'.Tidy := by
  cases c with
  | refl => exact h
  | single c => exact h.change c hkeeps

/-- A turn keeps a world tidy unless it reissues a handle. -/
theorem Tidy.turn {w : World} (h : w.Tidy) {t : Turn} (hno : ¬ w.Reissues t) : (w.turn t).Tidy := by
  have hkeeps : ∀ q ∈ w.pending, w.store.context? q.project = none →
      (w.turn t).store.context? q.project ≠ some q.context := by
    intro q hq habsent hlive
    exact hno ⟨q, hq, habsent, hlive⟩
  rcases w.turn_cases t with hchange | ⟨w', target, project, context, hchange, hpending, -, hturn⟩
  · exact h.atMostOne hchange hkeeps
  · -- The ticket is taken in the contexts that the first half has left.
    have hcontexts : ∀ project', (w.turn t).store.context? project' =
        w'.store.context? project' := by
      intro project'
      rw [hturn]
      exact (w'.takeTicket_kept target project context project').1
    have hhalf : w'.Tidy := by
      refine h.atMostOne hchange ?_
      intro q hq habsent
      rw [← hcontexts]
      exact hkeeps q hq habsent
    rw [hturn] at hcontexts ⊢
    refine hhalf.atMostOne (w'.takeTicket_change target project context) ?_
    intro q _ habsent
    rw [hcontexts, habsent]
    simp

theorem start_tidy : start.Tidy where
  stored project e he := by cases he
  books := {
    held := fun project e he => by cases he
    known := fun q hq => by cases hq
    past := fun q hq => by cases hq
    current := fun q hq => by cases hq
    own := fun q hq => by cases hq
    distinct := List.nodup_nil }

/-- As long as no handle is reissued, the world stays tidy. -/
theorem play_tidy {turns : List Turn}
    (hnever : ∀ before t, before ++ [t] <+: turns → ¬ (start.play before).Reissues t) :
    (start.play turns).Tidy := by
  induction turns using List.reverseRecOn with
  | nil => exact start_tidy
  | append_singleton turns t ih =>
      rw [play_concat]
      refine (ih ?_).turn (hnever turns t (List.prefix_refl _))
      intro before t' hmoment
      exact hnever before t' (hmoment.trans (List.prefix_append turns [t]))

end World

end EditorCore.Store

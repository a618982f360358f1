import EditorCore.Proofs.Store.Interleaving
import Mathlib.Data.List.Nodup
import Mathlib.Data.List.Perm.Subperm

set_option autoImplicit false

/-! # Parses and the entries in which they began

A parse remembers the project, era, context and ticket with which it began. `Bookkeeping` is what
these say about the store as long as no handle is handed out twice: a parse of the present era has
its entry, with its ticket counted, and a parse whose context is live began in the entry that has
that context now. The second is where a repeated handle would do harm: an old parse could take a
new entry for its own.
-/

namespace EditorCore.Store

/-- What tells the parses of all entries apart. -/
def Parse.key (q : Parse) : String × Nat × Nat := (q.project, q.era, q.ticket)

/-- The parses that have begun, those under way first. -/
def World.begun (w : World) : List Parse := w.pending ++ w.merged.map (·.1)

/-- How the parses that have begun are tied to the entries of the store. -/
structure Bookkeeping (s : Store) (era : String → Nat) (issued : List ContextHandle)
    (begun : List Parse) : Prop where
  /-- Live contexts were handed out. -/
  held : ∀ project e, s.entry? project = some e → e.context ∈ issued
  /-- So were the contexts of all parses. -/
  known : ∀ q ∈ begun, q.context ∈ issued
  /-- No parse is ahead of its project. -/
  past : ∀ q ∈ begun, q.era ≤ era q.project
  /-- The entry of a parse of the present era is there, and counts its ticket. -/
  current : ∀ q ∈ begun, q.era = era q.project →
    ∃ e, s.entry? q.project = some e ∧ q.ticket ≤ e.lastTicket
  /-- A parse whose context is live began in the entry that has it. -/
  own : ∀ q ∈ begun, ∀ e, s.entry? q.project = some e → e.context = q.context →
    q.era = era q.project
  /-- Parses of one entry have different tickets. -/
  distinct : (begun.map Parse.key).Nodup

namespace Bookkeeping

variable {s : Store} {era : String → Nat} {issued : List ContextHandle} {begun : List Parse}

/-- Parses may be forgotten and reordered. -/
theorem subperm (h : Bookkeeping s era issued begun) {begun' : List Parse}
    (hsub : begun'.Subperm begun) : Bookkeeping s era issued begun' where
  held := h.held
  known q hq := h.known q (hsub.subset hq)
  past q hq := h.past q (hsub.subset hq)
  current q hq := h.current q (hsub.subset hq)
  own q hq := h.own q (hsub.subset hq)
  distinct := by
    obtain ⟨l, hperm, hsublist⟩ := hsub
    have hnodup : (l.map Parse.key).Nodup := (hsublist.map Parse.key).nodup h.distinct
    exact (hperm.map Parse.key).nodup_iff.mp hnodup

/-- A new entry gets a handle that no parse of its project has. -/
theorem created (h : Bookkeeping s era issued begun) {project : String} {context : ContextHandle}
    (absent : s.entry? project = none)
    (fresh : ∀ q ∈ begun, q.project = project → q.context ≠ context) :
    Bookkeeping (s.putEntry project (.ofContext context)) era (issued ++ [context]) begun where
  held := forall_lookup_putEntry (List.mem_append_right _ (List.mem_singleton_self _))
    fun project' e _ he => List.mem_append_left _ (h.held project' e he)
  known q hq := List.mem_append_left _ (h.known q hq)
  past := h.past
  current q hq hera := by
    obtain ⟨e, he, hticket⟩ := h.current q hq hera
    refine ⟨e, ?_, hticket⟩
    rw [lookup_putEntry_ne s _ _, he]
    rintro rfl
    rw [absent] at he
    cases he
  own q hq e he hcontext := by
    rw [lookup_putEntry] at he
    split at he
    · -- No parse of the project has the handle of the new entry and could take it for its own.
      rename_i hproject
      rw [← Option.some.inj he] at hcontext
      exact absurd hcontext.symm (fresh q hq hproject.symm)
    · exact h.own q hq e he hcontext
  distinct := h.distinct

/-- With an entry, the era of its parses ends. -/
theorem deleted (h : Bookkeeping s era issued begun) (project : String) :
    Bookkeeping ⟨s.entries.erase project⟩ (Function.update era project (era project + 1)) issued
      begun where
  held := forall_lookup_erase fun project' e _ he => h.held project' e he
  known := h.known
  past q hq := by
    have hle := h.past q hq
    by_cases hproject : q.project = project
    · rw [hproject] at hle ⊢
      rw [Function.update_self]
      exact Nat.le_succ_of_le hle
    · rw [Function.update_of_ne hproject]
      exact hle
  current q hq hera := by
    by_cases hproject : q.project = project
    · -- The era has moved on, so no parse of this project is of the present one.
      have hle := h.past q hq
      rw [hproject, Function.update_self] at hera
      rw [hproject] at hle
      omega
    · rw [Function.update_of_ne hproject] at hera
      obtain ⟨e, he, hticket⟩ := h.current q hq hera
      refine ⟨e, ?_, hticket⟩
      rw [lookup_erase, if_neg (Ne.symm hproject), he]
  own q hq e he hcontext := by
    rw [lookup_erase] at he
    split at he
    · cases he
    · rename_i hproject
      rw [Function.update_of_ne (Ne.symm hproject)]
      exact h.own q hq e he hcontext
  distinct := h.distinct

/-- An entry may change as long as it keeps its context and forgets no ticket. -/
theorem replaced (h : Bookkeeping s era issued begun) {project : String} {e e' : Entry}
    (live : s.entry? project = some e) (hcontext : e'.context = e.context)
    (hticket : e.lastTicket ≤ e'.lastTicket) :
    Bookkeeping (s.putEntry project e') era issued begun where
  held := forall_lookup_putEntry (hcontext ▸ h.held project e live)
    fun project' f _ hf => h.held project' f hf
  known := h.known
  past := h.past
  current q hq hera := by
    obtain ⟨f, hf, hle⟩ := h.current q hq hera
    by_cases hproject : project = q.project
    · subst hproject
      rw [live] at hf
      cases hf
      exact ⟨e', lookup_putEntry_self s _ e', Nat.le_trans hle hticket⟩
    · exact ⟨f, by rw [lookup_putEntry_ne s hproject, hf], hle⟩
  own q hq f hf hsame := by
    rw [lookup_putEntry] at hf
    split at hf
    · rename_i hproject
      subst hproject
      rw [← Option.some.inj hf, hcontext] at hsame
      exact h.own q hq e live hsame
    · exact h.own q hq f hf hsame
  distinct := h.distinct

/-- A parse begins with a ticket that no parse of its entry has. -/
theorem began (h : Bookkeeping s era issued begun) (target : Target) {project : String} {e : Entry}
    (live : s.entry? project = some e) :
    Bookkeeping (s.putEntry project { e with lastTicket := e.nextTicket }) era issued
      (⟨target, project, e.context, e.nextTicket, era project⟩ :: begun) := by
  have hold : Bookkeeping (s.putEntry project { e with lastTicket := e.nextTicket }) era issued
      begun := h.replaced live rfl (Nat.le_succ e.lastTicket)
  refine ⟨hold.held, ?_, ?_, ?_, ?_, ?_⟩
  · intro q hq
    rcases List.mem_cons.mp hq with rfl | hq
    · exact h.held project e live
    · exact h.known q hq
  · intro q hq
    rcases List.mem_cons.mp hq with rfl | hq
    · exact Nat.le_refl _
    · exact h.past q hq
  · intro q hq
    rcases List.mem_cons.mp hq with rfl | hq
    · intro _
      exact ⟨_, lookup_putEntry_self s project _, Nat.le_refl _⟩
    · exact hold.current q hq
  · intro q hq
    rcases List.mem_cons.mp hq with rfl | hq
    · intro f _ _
      rfl
    · exact hold.own q hq
  · rw [List.map_cons, List.nodup_cons]
    refine ⟨?_, h.distinct⟩
    intro hmem
    obtain ⟨q, hq, hkey⟩ := List.mem_map.mp hmem
    simp only [Parse.key, Prod.mk.injEq] at hkey
    obtain ⟨rfl, hera, hticket⟩ := hkey
    -- The entry has counted the ticket of `q`, and the new one is larger than all it has counted.
    obtain ⟨f, hf, hle⟩ := h.current q hq hera
    rw [live] at hf
    cases hf
    simp only [Entry.nextTicket] at hticket
    omega

end Bookkeeping

end EditorCore.Store

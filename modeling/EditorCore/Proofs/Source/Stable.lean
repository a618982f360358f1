import Mathlib.Data.List.Pairwise

set_option autoImplicit false

/-! # Stable orders

Records and runs are sorted by where they start, and several may start at one place. What is meant
by their order is said by `StableOrder`, without any sorting: the places go up, and what is tied
stays as it was given. That leaves a single result (`StableOrder.unique`), and merge sort returns it
(`mergeSort_stableOrder`).
-/

namespace EditorCore

variable {α : Type} {le : α → α → Bool}

/-- Neither of the two comes before the other. -/
def tied (le : α → α → Bool) (a b : α) : Bool := le a b && le b a

/-- The second list is the first one put in order: whatever is tied is there in full, in the order
in which it was given. -/
structure StableOrder (le : α → α → Bool) (given sorted : List α) : Prop where
  ordered : sorted.Pairwise fun a b => le a b = true
  stable : ∀ a, sorted.filter (tied le a) = given.filter (tied le a)

section Total

variable (total : ∀ a b, (le a b || le b a) = true)
include total

theorem tied_self (a : α) : tied le a a = true := by
  simpa [tied] using total a a

/-- What is first in an ordered list comes before all that the list has. -/
theorem le_of_mem_ordered {a b : α} {l : List α}
    (h : (a :: l).Pairwise fun a b => le a b = true) (hb : b ∈ a :: l) : le a b = true := by
  rcases List.mem_cons.mp hb with rfl | hb
  · simpa using total b b
  · exact (List.pairwise_cons.mp h).1 b hb

/-- The ties of a member of one list are in the other, if both lists have the same ties. -/
theorem mem_of_filter_tied {l l' : List α}
    (h : ∀ a, l.filter (tied le a) = l'.filter (tied le a)) {a : α} (ha : a ∈ l) : a ∈ l' := by
  have hfilter : a ∈ l.filter (tied le a) := List.mem_filter.mpr ⟨ha, tied_self total a⟩
  rw [h a] at hfilter
  exact (List.mem_filter.mp hfilter).1

/-- Ordered lists with the same ties are equal. -/
theorem eq_of_filter_tied {l l' : List α} (hl : l.Pairwise fun a b => le a b = true)
    (hl' : l'.Pairwise fun a b => le a b = true)
    (h : ∀ a, l.filter (tied le a) = l'.filter (tied le a)) : l = l' := by
  induction l generalizing l' with
  | nil =>
      cases l' with
      | nil => rfl
      | cons b l' =>
          exact absurd (mem_of_filter_tied total (fun a => (h a).symm) List.mem_cons_self)
            List.not_mem_nil
  | cons a l ih =>
      cases l' with
      | nil => exact absurd (mem_of_filter_tied total h List.mem_cons_self) List.not_mem_nil
      | cons b l' =>
          -- Each of the two heads is in the other list, so they are tied, and first among the ties.
          have hab : le a b = true := le_of_mem_ordered total hl
            (mem_of_filter_tied total (fun c => (h c).symm) List.mem_cons_self)
          have hba : le b a = true :=
            le_of_mem_ordered total hl' (mem_of_filter_tied total h List.mem_cons_self)
          have hheads := h a
          rw [List.filter_cons_of_pos (tied_self total a),
            List.filter_cons_of_pos (show tied le a b = true by simp [tied, hab, hba])] at hheads
          obtain ⟨rfl, -⟩ := List.cons.inj hheads
          have hrest : ∀ c, l.filter (tied le c) = l'.filter (tied le c) := by
            intro c
            have hc := h c
            rw [List.filter_cons, List.filter_cons] at hc
            split at hc
            · exact (List.cons.inj hc).2
            · exact hc
          rw [ih (List.pairwise_cons.mp hl).2 (List.pairwise_cons.mp hl').2 hrest]

/-- There is only one way to put a list in order. -/
theorem StableOrder.unique {given sorted sorted' : List α} (h : StableOrder le given sorted)
    (h' : StableOrder le given sorted') : sorted = sorted' :=
  eq_of_filter_tied total h.ordered h'.ordered fun a => (h.stable a).trans (h'.stable a).symm

/-- Merge sort puts a list in order. -/
theorem mergeSort_stableOrder
    (trans : ∀ a b c, le a b = true → le b c = true → le a c = true) (l : List α) :
    StableOrder le l (l.mergeSort le) := by
  refine ⟨List.pairwise_mergeSort trans total l, ?_⟩
  intro a
  have hties : (l.filter (tied le a)).Pairwise fun b c => le b c = true := by
    refine List.pairwise_of_forall_mem_list ?_
    intro b hb c hc
    have hb := (List.mem_filter.mp hb).2
    have hc := (List.mem_filter.mp hc).2
    simp only [tied, Bool.and_eq_true] at hb hc
    exact trans b a c hb.2 hc.1
  -- The ties are in order as they are given, so they stay a part of the sorted list; there are no
  -- more of them in it than were given.
  have hpart : (l.filter (tied le a)).Sublist (l.mergeSort le) :=
    List.sublist_mergeSort trans total hties List.filter_sublist
  have hties' : (l.filter (tied le a)).Sublist ((l.mergeSort le).filter (tied le a)) := by
    simpa using hpart.filter (tied le a)
  have hlength := ((List.mergeSort_perm l le).filter (tied le a)).length_eq
  exact (hties'.eq_of_length hlength.symm).symm

end Total

end EditorCore

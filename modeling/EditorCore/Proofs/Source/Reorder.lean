import EditorCore.Proofs.Source.Stable
import EditorCore.Source.Position

set_option autoImplicit false

/-! # Lists put in order by a position

The records of a file are listed in any order and stored in the order of their positions. Two
listings may differ in how records of different positions follow one another and still be stored
alike; what has to be the same is the order of the records of each single position (`Reordered`).
That is all that a stable sort keeps of a listing (`mergeSort_eq_iff_reordered`).
-/

namespace EditorCore

/-- Positions that are each at or before the other are the same. -/
theorem Position.le_antisymm {p q : Position} (hpq : p.le q = true) (hqp : q.le p = true) :
    p = q := by
  obtain ⟨line, column⟩ := p
  obtain ⟨line', column'⟩ := q
  simp only [le, Bool.or_eq_true, Bool.and_eq_true, beq_iff_eq, decide_eq_true_eq] at hpq hqp
  rw [Position.mk.injEq]
  omega

section Keyed

variable {α : Type} (key : α → Position)

/-- Records are ordered by their positions. -/
def leBy (a b : α) : Bool := (key a).le (key b)

/-- The second listing has the records of the first one, and those of one position in the same
order. -/
structure Reordered (given given' : List α) : Prop where
  perm : given.Perm given'
  ties : ∀ p, (given.filter fun a => key a = p) = given'.filter fun a => key a = p

variable {key} in
/-- Neighbours of different positions may be exchanged. -/
theorem Reordered.swap {a b : α} (hkeys : key a ≠ key b) (front back : List α) :
    Reordered key (front ++ a :: b :: back) (front ++ b :: a :: back) where
  perm := (List.Perm.swap b a back).append_left front
  ties := by
    intro p
    rw [List.filter_append, List.filter_append]
    congr 1
    by_cases ha : key a = p
    · have hb : key b ≠ p := fun hb => hkeys (ha.trans hb.symm)
      simp [ha, hb]
    · simp [List.filter_cons, ha]

theorem leBy_trans (a b c : α) (hab : leBy key a b = true) (hbc : leBy key b c = true) :
    leBy key a c = true :=
  Position.le_trans _ _ _ hab hbc

theorem leBy_total (a b : α) : (leBy key a b || leBy key b a) = true := Position.le_total _ _

/-- Records are tied if they have one position. -/
theorem tied_leBy (a : α) : tied (leBy key) a = fun b => decide (key b = key a) := by
  funext b
  rw [Bool.eq_iff_iff, tied, Bool.and_eq_true, decide_eq_true_eq]
  constructor
  · rintro ⟨hab, hba⟩
    exact Position.le_antisymm hba hab
  · intro heq
    have hself : (key a).le (key a) = true := by simpa using Position.le_total (key a) (key a)
    rw [leBy, leBy, heq]
    exact ⟨hself, hself⟩

/-- Sorting leaves the records of one position as they were listed. -/
theorem filter_mergeSort (l : List α) (p : Position) :
    ((l.mergeSort (leBy key)).filter fun a => key a = p) = l.filter fun a => key a = p := by
  by_cases hsome : ∃ a ∈ l, key a = p
  · obtain ⟨a, -, rfl⟩ := hsome
    have hstable := (mergeSort_stableOrder (leBy_total key) (leBy_trans key) l).stable a
    rwa [tied_leBy] at hstable
  · have hnone : ∀ a ∈ l, ¬ decide (key a = p) = true := by
      intro a ha hkey
      exact hsome ⟨a, ha, of_decide_eq_true hkey⟩
    rw [List.filter_eq_nil_iff.mpr hnone, List.filter_eq_nil_iff]
    intro a ha
    exact hnone a (List.mem_mergeSort.mp ha)

/-- **What a stable sort keeps of a listing.** Two listings are sorted alike exactly if they have
the same records, and those of one position in the same order. -/
theorem mergeSort_eq_iff_reordered (l l' : List α) :
    l.mergeSort (leBy key) = l'.mergeSort (leBy key) ↔ Reordered key l l' := by
  constructor
  · intro hsame
    refine ⟨?_, ?_⟩
    · have hperm := List.mergeSort_perm l (leBy key)
      rw [hsame] at hperm
      exact hperm.symm.trans (List.mergeSort_perm l' (leBy key))
    · intro p
      rw [← filter_mergeSort key l, hsame, filter_mergeSort key l']
  · intro h
    refine eq_of_filter_tied (leBy_total key) ?_ ?_ ?_
    · exact List.pairwise_mergeSort (leBy_trans key) (leBy_total key) l
    · exact List.pairwise_mergeSort (leBy_trans key) (leBy_total key) l'
    · intro a
      rw [tied_leBy, filter_mergeSort, filter_mergeSort, h.ties]

end Keyed

end EditorCore

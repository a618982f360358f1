import EditorCore.Proofs.Paint.Words
import EditorCore.Proofs.Source.Stable

set_option autoImplicit false

/-! # The first claim on a character wins

Several runs may cover an offset. The one that comes first in the order of their starts, a tie going
to the one that was given first, has the claim, and layering draws the offset in its category. The
pass over the runs looks only at the end of what has been painted; `find?_of_mem_trim` says why that
is enough: a run that is passed over or cut has lost to the edge nothing that it was first to cover.

The result is about the layering of 64 bits, which fails when a run ends outside them.
-/

namespace EditorCore.Paint

/-- The run covers the offset. -/
def Run.holds (x : Nat) (r : Run) : Bool := r.start ≤ x && x < r.stop

theorem Run.holds_iff {x : Nat} {r : Run} : r.holds x = true ↔ r.start ≤ x ∧ x < r.stop := by
  simp [holds]

/-- What is given out at an offset comes from the first of the given runs that covers it. -/
theorem find?_of_mem_trim {edge x : Nat} {runs : List Run} {r : Run} (hr : r ∈ trim edge runs)
    (hx : r.holds x = true) :
    ∃ given, runs.find? (Run.holds x) = some given ∧ given.category = r.category := by
  have hstart : r.start ≤ x := (Run.holds_iff.mp hx).1
  induction runs generalizing edge with
  | nil => cases hr
  | cons given runs ih =>
      have hedge : edge ≤ x := Nat.le_trans (mem_trim hr).1 hstart
      rw [trim] at hr
      split at hr
      · rename_i hover
        -- The run ends before the edge, and the offset lies behind it.
        have hpassed : ¬ given.holds x = true := by
          rw [Run.holds_iff]
          omega
        rw [List.find?_cons_of_neg hpassed]
        exact ih hr
      · rename_i hover
        rcases List.mem_cons.mp hr with rfl | hr
        · have hfirst : given.holds x = true := by
            obtain ⟨hlow, hhigh⟩ := Run.holds_iff.mp hx
            simp only [Run.stop] at hlow hhigh hover
            rw [Run.holds_iff, Run.stop]
            omega
          exact ⟨given, List.find?_cons_of_pos hfirst, rfl⟩
        · -- What comes later lies behind the end of this run.
          have hbehind : given.stop ≤ x := Nat.le_trans (mem_trim hr).1 hstart
          have hpassed : ¬ given.holds x = true := by
            rw [Run.holds_iff]
            omega
          rw [List.find?_cons_of_neg hpassed]
          exact ih hr

/-- **The first claim wins and nothing is lost.** Runs that end within 64 bits are layered. Layered
runs start one after another, do not overlap and are not empty; they cover what the given runs
cover; and the run at an offset has the category of the first run that covers the offset when the
given ones are put in order of their starts, those that start together as they were given. -/
theorem layer_draws_first_claim (runs sorted : List Run)
    (hsorted : StableOrder (fun a b : Run => a.start ≤ b.start) runs sorted) :
    ((∀ r ∈ runs, r.stop ≤ wordLimit) → Words.layer runs = .ok (layer runs)) ∧
    ∀ out, Words.layer runs = .ok out →
      out.Pairwise (fun a b => a.start < b.start ∧ a.stop ≤ b.start) ∧
      (∀ r ∈ out, r.isEmpty = false) ∧
      ∀ x, (Covers out x ↔ Covers runs x) ∧
        ∀ r ∈ out, r.holds x = true →
          ∃ given, sorted.find? (Run.holds x) = some given ∧ given.category = r.category := by
  have hcomputes := Words.layer_computes runs
  refine ⟨hcomputes.succeeds, ?_⟩
  intro out hout
  obtain rfl := hcomputes.exact out hout
  have hmerge : sorted = runs.mergeSort fun a b => a.start ≤ b.start :=
    hsorted.unique start_le_total (mergeSort_stableOrder start_le_total start_le_trans runs)
  refine ⟨layer_pairwise runs, ?_, ?_⟩
  · intro r hr
    have hlength := (mem_layer hr).1
    simp only [Run.isEmpty, beq_eq_false_iff_ne]
    omega
  · intro x
    refine ⟨covers_layer_iff runs x, ?_⟩
    intro r hr hx
    rw [hmerge]
    exact find?_of_mem_trim hr hx

/-- Runs that start together, reach into one another, lie inside one another and are empty. -/
def crowdedRuns : List Run :=
  [⟨4, 4, .comment⟩, ⟨0, 5, .string⟩, ⟨2, 0, .number⟩, ⟨0, 9, .keyword⟩, ⟨1, 2, .number⟩]

/-- `crowdedRuns` in order. -/
def crowdedOrder : List Run :=
  [⟨0, 5, .string⟩, ⟨0, 9, .keyword⟩, ⟨1, 2, .number⟩, ⟨2, 0, .number⟩, ⟨4, 4, .comment⟩]

theorem crowdedOrder_stable :
    StableOrder (fun a b : Run => a.start ≤ b.start) crowdedRuns crowdedOrder := by
  refine ⟨by decide, ?_⟩
  rintro ⟨start, length, category⟩
  rcases start with _ | _ | _ | _ | _ | start <;> simp [crowdedRuns, crowdedOrder, tied]

/-- At offset 7 a keyword and a comment meet. The comment was given first, but starts later. -/
theorem layer_draws_first_claim_crowded :
    StableOrder (fun a b : Run => a.start ≤ b.start) crowdedRuns crowdedOrder ∧
      ∃ out, Words.layer crowdedRuns = .ok out ∧ Covers out 7 ∧
        ∀ r ∈ out, r.holds 7 = true → r.category = .keyword := by
  obtain ⟨hlayered, hclaims⟩ :=
    layer_draws_first_claim crowdedRuns crowdedOrder crowdedOrder_stable
  have hlayer := hlayered (by decide)
  obtain ⟨-, -, hclaims⟩ := hclaims _ hlayer
  refine ⟨crowdedOrder_stable, _, hlayer, ?_, ?_⟩
  · exact (hclaims 7).1.mpr ⟨⟨0, 9, .keyword⟩, by decide, by decide⟩
  · intro r hr hx
    obtain ⟨given, hgiven, hcategory⟩ := (hclaims 7).2 r hr hx
    have hfirst : crowdedOrder.find? (Run.holds 7) = some ⟨0, 9, .keyword⟩ := by decide
    obtain rfl := Option.some.inj (hfirst.symm.trans hgiven)
    exact hcategory.symm

end EditorCore.Paint

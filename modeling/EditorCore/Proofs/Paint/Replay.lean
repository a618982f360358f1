import EditorCore.Proofs.Paint.Ranges
import EditorCore.Source.File

set_option autoImplicit false

/-! # Regions and the replay of directives

Whether a line is inactive can be found out without any regions: replay the directives above the
line on a stack of verdicts and see whether one of the verdicts left is negative. The regions of a
file, computed in one pass and searched by halving, answer every line in the same way, also where
branches and closes are stray, groups stay open, or directives overlap (`isInactive_iff_replay`).
-/

namespace EditorCore.Paint

/-- The verdicts on the branches around a place, innermost first, after one more directive. A
branch or a close outside every group changes nothing. -/
def verdictsAfter (stack : List Bool) (d : Directive) : List Bool :=
  match d.kind.conditional with
  | some .opens => d.taken :: stack
  | some .branches => stack.modifyHead fun _ => d.taken
  | some .closes => stack.tail
  | none => stack

/-- Replays directives on a stack of verdicts. -/
def replay (stack : List Bool) (directives : List Directive) : List Bool :=
  directives.foldl verdictsAfter stack

@[simp] theorem replay_nil (stack : List Bool) : replay stack [] = stack := rfl

@[simp] theorem replay_cons (stack : List Bool) (d : Directive) (ds : List Directive) :
    replay stack (d :: ds) = replay (verdictsAfter stack d) ds := rfl

/-- The pass over the directives treats its groups as the replay treats its stack. -/
theorem Groups.apply_eq_verdictsAfter (groups : Groups) (d : Directive) :
    groups.apply d = verdictsAfter groups d := by
  unfold apply verdictsAfter
  cases d.kind.conditional with
  | none => rfl
  | some c => cases c <;> cases groups <;> rfl

theorem Groups.inactive_iff (groups : Groups) : groups.inactive = true ↔ false ∈ groups := by
  simp [inactive]

theorem owns_eq_false_iff (d : Directive) (line : Nat) :
    d.owns line = false ↔ line < d.firstLine ∨ d.lastLine < line := by
  simp only [Directive.owns, Bool.and_eq_false_iff, decide_eq_false_iff_not, Nat.not_le]

namespace Regions

/-- The ranges left by sorted directives, from a point on: they hold the lines behind the gap that
no directive owns and whose replay ends with a negative verdict. -/
theorem exists_mem_collect_iff {line : Nat} (hline : line < wordLimit) {ds : List Directive}
    (hds : ∀ d ∈ ds, d.firstLine ≤ d.lastLine)
    (hsorted : ds.Pairwise fun a b => a.firstLine ≤ b.firstLine) (groups : Groups) (gap : Nat) :
    (∃ r ∈ collect groups gap ds, r.contains line = true) ↔
      gap ≤ line ∧ (∀ d ∈ ds, d.owns line = false) ∧
        false ∈ replay groups (ds.filter fun d => d.firstLine < line) := by
  induction ds generalizing groups gap with
  | nil =>
      simp only [mem_collect_nil, Groups.inactive_iff, LineRange.contains_iff]
      constructor
      · rintro ⟨r, ⟨hfalse, rfl⟩, hstart, -⟩
        exact ⟨hstart, by simp, hfalse⟩
      · rintro ⟨hstart, -, hfalse⟩
        exact ⟨_, ⟨hfalse, rfl⟩, hstart, hline⟩
  | cons d ds ih =>
      obtain ⟨hfirst, hsorted⟩ := List.pairwise_cons.mp hsorted
      have hd : d.firstLine ≤ d.lastLine := hds d List.mem_cons_self
      have hrest := ih (fun e he => hds e (List.mem_cons_of_mem d he)) hsorted (groups.apply d)
        (max gap (lineAfter d))
      have hsplit : (∃ r ∈ collect groups gap (d :: ds), r.contains line = true) ↔
          (false ∈ groups ∧ gap ≤ line ∧ line < d.firstLine) ∨
            ∃ r ∈ collect (groups.apply d) (max gap (lineAfter d)) ds, r.contains line = true := by
        simp only [mem_collect_cons, Groups.inactive_iff, LineRange.contains_iff]
        constructor
        · rintro ⟨r, ⟨hfalse, -, rfl⟩ | hr, hstart, hstop⟩
          · exact Or.inl ⟨hfalse, hstart, hstop⟩
          · exact Or.inr ⟨r, hr, hstart, hstop⟩
        · rintro (⟨hfalse, hstart, hstop⟩ | ⟨r, hr, hstart, hstop⟩)
          · exact ⟨_, Or.inl ⟨hfalse, Nat.lt_of_le_of_lt hstart hstop, rfl⟩, hstart, hstop⟩
          · exact ⟨r, Or.inr hr, hstart, hstop⟩
      rw [hsplit, hrest, Nat.max_le, List.forall_mem_cons]
      by_cases habove : line < d.firstLine
      · -- The line lies above this directive, and so above all the rest.
        have hbefore : ∀ e ∈ d :: ds, line < e.firstLine := by
          intro e he
          rcases List.mem_cons.mp he with rfl | he
          · exact habove
          · exact Nat.lt_of_lt_of_le habove (hfirst e he)
        have hnone : (d :: ds).filter (fun e => e.firstLine < line) = [] := by
          rw [List.filter_eq_nil_iff]
          intro e he
          have := hbefore e he
          simp only [decide_eq_true_eq]
          omega
        have hgap : ¬ lineAfter d ≤ line :=
          Nat.not_le.mpr ((lt_lineAfter_iff hline d).mpr (by omega))
        have howns : ∀ e ∈ d :: ds, e.owns line = false := fun e he =>
          (owns_eq_false_iff e line).mpr (Or.inl (hbefore e he))
        rw [hnone, replay_nil]
        constructor
        · rintro (⟨hfalse, hstart, -⟩ | ⟨⟨-, hcon⟩, -⟩)
          · exact ⟨hstart, List.forall_mem_cons.mp howns, hfalse⟩
          · exact absurd hcon hgap
        · rintro ⟨hstart, -, hfalse⟩
          exact Or.inl ⟨hfalse, hstart, habove⟩
      · -- The directive starts at or above the line; if it does not reach it, it is replayed.
        have hgap : lineAfter d ≤ line ↔ d.owns line = false := by
          have := lt_lineAfter_iff hline d
          rw [owns_eq_false_iff]
          omega
        rw [hgap, Groups.apply_eq_verdictsAfter]
        by_cases howns : d.owns line = false
        · have hlt : d.firstLine < line := by
            have := (owns_eq_false_iff d line).mp howns
            omega
          rw [List.filter_cons_of_pos (by simpa using hlt), replay_cons]
          simp only [howns, habove, and_true, and_false, false_or, true_and]
        · constructor
          · rintro (⟨-, -, hcon⟩ | ⟨⟨-, hcon⟩, -⟩)
            · exact absurd hcon habove
            · exact absurd hcon howns
          · rintro ⟨-, ⟨hcon, -⟩, -⟩
            exact absurd hcon howns

end Regions

theorem firstLine_sorted (file : SourceFile) :
    file.directives.Pairwise fun a b => a.firstLine ≤ b.firstLine :=
  file.directives_sorted.imp fun h => Position.line_le_of_le h

/-- Searching the regions of sorted directives is replaying the directives. -/
theorem Regions.isInactive_iff_of_sorted {line : Nat} (hline : line < wordLimit)
    {ds : List Directive} (proper : ∀ d ∈ ds, d.firstLine ≤ d.lastLine)
    (sorted : ds.Pairwise fun a b => a.firstLine ≤ b.firstLine) :
    (ofDirectives ds).isInactive line = true ↔
      (∀ d ∈ ds, d.owns line = false) ∧
        false ∈ replay [] (ds.filter fun d => d.firstLine < line) := by
  rw [ofDirectives, isInactive_iff_exists (collect_inOrder hline proper (Nat.zero_le _)),
    exists_mem_collect_iff hline proper sorted]
  simp only [Nat.zero_le, true_and]

/-- The search of a file's regions and the replay of its directives agree: below the last line
number there is, a line is inactive exactly if no directive owns it and the replay of the
directives that start above it, in their stored order, leaves a negative verdict. -/
theorem isInactive_iff_replay (file : SourceFile)
    (proper : ∀ d ∈ file.directives, d.firstLine ≤ d.lastLine) (line : Nat)
    (hline : line < wordLimit) :
    (Regions.ofDirectives file.directives).isInactive line = true ↔
      (∀ d ∈ file.directives, d.owns line = false) ∧
        false ∈ replay [] (file.directives.filter fun d => d.firstLine < line) :=
  Regions.isInactive_iff_of_sorted hline proper (firstLine_sorted file)

/-- A badly nested file: a stray `#else`, an untaken group whose next branch starts inside the lines
of its opening directive, and a group that is never closed. -/
def strayFile : SourceFile where
  path := ⟨"/p/a.nc"⟩
  tokens := []
  comments := []
  directives :=
    [.ofLines .otherwise ⟨⟨0, 0⟩, 1⟩ ⟨⟨0, 1⟩, 4⟩ 0 0 false,
      .ofLines (.ifDefined ⟨⟨1, 7⟩, 1⟩) ⟨⟨1, 0⟩, 1⟩ ⟨⟨1, 1⟩, 5⟩ 1 3 false,
      .ofLines .otherwiseIf ⟨⟨2, 0⟩, 1⟩ ⟨⟨2, 1⟩, 4⟩ 2 2 true,
      .ofLines .ifTrue ⟨⟨5, 0⟩, 1⟩ ⟨⟨5, 1⟩, 2⟩ 5 5 false]
  tokens_sorted := .nil
  comments_sorted := .nil
  directives_sorted := by decide

theorem isInactive_iff_replay_stray :
    (∀ d ∈ strayFile.directives, d.firstLine ≤ d.lastLine) ∧ 7 < wordLimit ∧
      (Regions.ofDirectives strayFile.directives).isInactive 7 = true ∧
      ¬ (Regions.ofDirectives strayFile.directives).isInactive 4 = true := by
  have proper : ∀ d ∈ strayFile.directives, d.firstLine ≤ d.lastLine := by decide
  refine ⟨proper, by decide, ?_, ?_⟩
  · exact (isInactive_iff_replay strayFile proper 7 (by decide)).mpr (by decide)
  · rw [isInactive_iff_replay strayFile proper 4 (by decide)]
    decide

end EditorCore.Paint

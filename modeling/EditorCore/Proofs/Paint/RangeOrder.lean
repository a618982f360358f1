import EditorCore.Proofs.Paint.Replay

set_option autoImplicit false

/-! # Ranges follow one another

The pass over the directives never compares one directive with another: all it keeps is the first
line that no directive has claimed yet. That is enough for well-formed ranges, in whatever order the
directives come, also if some start above those before them or end at the last line number there is.
Each range starts where an earlier one has ended or behind it; each has a line, apart from the one
of a group that is never closed; and halving finds the range of every line (`ranges_well_formed`).
-/

namespace EditorCore.Paint.Regions

/-- Directives close ranges that have a line. One range more, which runs on to the last line number
there is, is left exactly if a verdict of the replay is negative at the end. -/
theorem exists_collect_eq (groups : Groups) {gap : Nat} (hgap : gap ≤ wordLimit)
    (ds : List Directive) :
    ∃ closed final, collect groups gap ds = closed ++ Option.toList final ∧
      (∀ r ∈ closed, r.start < r.stop) ∧
      (∀ r ∈ final, r.start ≤ r.stop ∧ r.stop = wordLimit) ∧
      (final.isSome = true ↔ false ∈ replay groups ds) := by
  induction ds generalizing groups gap with
  | nil =>
      rw [replay_nil, ← groups.inactive_iff, collect]
      split
      · rename_i hinactive
        refine ⟨[], some ⟨gap, wordLimit⟩, rfl, by simp, ?_, by simp [hinactive]⟩
        rintro r ⟨⟩
        exact ⟨hgap, rfl⟩
      · rename_i hactive
        exact ⟨[], none, rfl, by simp, by simp, by simp [hactive]⟩
  | cons d ds ih =>
      obtain ⟨closed, final, hcollect, hclosed, hfinal, hleft⟩ :=
        ih (groups.apply d) (Nat.max_le.mpr ⟨hgap, lineAfter_le d⟩)
      rw [Groups.apply_eq_verdictsAfter, ← replay_cons] at hleft
      rw [collect, hcollect]
      split
      · -- The directive closes a range: it starts behind the gap.
        rename_i hcloses
        have hlt : gap < d.firstLine := of_decide_eq_true (Bool.and_eq_true_iff.mp hcloses).2
        exact ⟨⟨gap, d.firstLine⟩ :: closed, final, rfl,
          List.forall_mem_cons.mpr ⟨hlt, hclosed⟩, hfinal, hleft⟩
      · exact ⟨closed, final, rfl, hclosed, hfinal, hleft⟩

variable {ds : List Directive}

/-- A range starts where those before it have ended, or behind. -/
theorem collect_apart (hds : ∀ d ∈ ds, d.firstLine ≤ d.lastLine ∧ d.lastLine ≤ wordLimit)
    {groups : Groups} {gap : Nat} (hgap : gap ≤ wordLimit) :
    (collect groups gap ds).Pairwise fun a b => a.stop ≤ b.start := by
  rw [List.pairwise_iff_getElem]
  intro i j hi hj hij
  by_contra hcross
  -- The line at which the later range starts would lie before the end of the earlier one, and the
  -- ranges are in order as far as that line is concerned.
  have hfirst : ∀ d ∈ ds, d.firstLine ≤ wordLimit :=
    fun d hd => Nat.le_trans (hds d hd).1 (hds d hd).2
  have hstop := stop_of_mem_collect hfirst (List.getElem_mem hi)
  have hline : (collect groups gap ds)[j].start < wordLimit := by omega
  have horder : InOrder _ (collect groups gap ds) :=
    collect_inOrder hline (fun d hd => (hds d hd).1) hgap
  have hbehind := List.pairwise_iff_getElem.mp horder.apart i j hi hj hij (by omega)
  omega

/-- Halving answers for every line whether one of the ranges has it. -/
theorem isInactive_iff_exists_mem
    (hds : ∀ d ∈ ds, d.firstLine ≤ d.lastLine ∧ d.lastLine ≤ wordLimit) (line : Nat) :
    (ofDirectives ds).isInactive line = true ↔
      ∃ r ∈ (ofDirectives ds).ranges, r.contains line = true := by
  constructor
  · exact exists_of_isInactive
  · rintro ⟨r, hr, hcontains⟩
    have hstop : r.stop ≤ wordLimit :=
      stop_of_mem_collect (fun d hd => Nat.le_trans (hds d hd).1 (hds d hd).2) hr
    have hline : line < wordLimit :=
      Nat.lt_of_lt_of_le ((LineRange.contains_iff r line).mp hcontains).2 hstop
    have horder : InOrder line (collect [] 0 ds) :=
      collect_inOrder hline (fun d hd => (hds d hd).1) (Nat.zero_le wordLimit)
    exact (isInactive_iff_exists horder).mpr ⟨r, hr, hcontains⟩

/-- **Ranges are well formed, whatever the order of the directives.** They are in increasing order,
each starting where the one before it has ended or behind. They all have a line, apart from a final
one that ends at the last line number there is; it is there if some group is left open in a branch
that was not taken. Halving answers for every line whether some range has it. -/
theorem ranges_well_formed (directives : List Directive)
    (hlines : ∀ d ∈ directives, d.firstLine ≤ d.lastLine ∧ d.lastLine ≤ wordLimit) :
    ((ofDirectives directives).ranges.Pairwise fun a b =>
      a.start < b.start ∧ a.stop ≤ b.start) ∧
    (∃ closed final, (ofDirectives directives).ranges = closed ++ Option.toList final ∧
      (∀ r ∈ closed, r.start < r.stop) ∧
      (∀ r ∈ final, r.start ≤ r.stop ∧ r.stop = wordLimit) ∧
      (final.isSome = true ↔ false ∈ replay [] directives)) ∧
    ∀ line, (ofDirectives directives).isInactive line = true ↔
      ∃ r ∈ (ofDirectives directives).ranges, r.contains line = true := by
  have hapart : (ofDirectives directives).ranges.Pairwise fun a b => a.stop ≤ b.start :=
    collect_apart hlines (Nat.zero_le wordLimit)
  have hform := exists_collect_eq [] (Nat.zero_le wordLimit) directives
  refine ⟨?_, hform, isInactive_iff_exists_mem hlines⟩
  -- Only the last range may be without a line, so one that another follows starts before its end.
  obtain ⟨closed, final, hranges, hclosed, -, -⟩ := hform
  have hranges : (ofDirectives directives).ranges = closed ++ final.toList := hranges
  rw [hranges, List.pairwise_append] at hapart ⊢
  obtain ⟨hwithin, -, hacross⟩ := hapart
  have hgrow : ∀ a ∈ closed, ∀ b : LineRange, a.stop ≤ b.start →
      a.start < b.start ∧ a.stop ≤ b.start :=
    fun a ha b hle => ⟨Nat.lt_of_lt_of_le (hclosed a ha) hle, hle⟩
  refine ⟨hwithin.imp_of_mem fun ha _ hle => hgrow _ ha _ hle, ?_, ?_⟩
  · cases final with
    | none => exact List.Pairwise.nil
    | some last => exact List.pairwise_singleton _ last
  · intro a ha b hb
    exact hgrow a ha b (hacross a ha b hb)

/-- Directives out of order: the second one lies above the first, and the last one is on the last
line there is. The group that the first one opens is never closed. -/
def jumpingDirectives : List Directive :=
  [.ofLines .ifTrue ⟨⟨5, 0⟩, 1⟩ ⟨⟨5, 1⟩, 2⟩ 5 6 false,
    .ofLines .pragma ⟨⟨2, 0⟩, 1⟩ ⟨⟨2, 1⟩, 6⟩ 2 3 true,
    .ofLines .pragma ⟨⟨9, 0⟩, 1⟩ ⟨⟨9, 1⟩, 6⟩ 9 9 true,
    .ofLines .pragma ⟨⟨wordLimit, 0⟩, 1⟩ ⟨⟨wordLimit, 1⟩, 6⟩ wordLimit wordLimit true]

theorem ranges_well_formed_jumping :
    (∀ d ∈ jumpingDirectives, d.firstLine ≤ d.lastLine ∧ d.lastLine ≤ wordLimit) ∧
      (ofDirectives jumpingDirectives).ranges =
        [⟨7, 9⟩, ⟨10, wordLimit⟩, ⟨wordLimit, wordLimit⟩] ∧
      (ofDirectives jumpingDirectives).isInactive 8 = true ∧
      ¬ (ofDirectives jumpingDirectives).isInactive 9 = true := by
  have hlines : ∀ d ∈ jumpingDirectives, d.firstLine ≤ d.lastLine ∧ d.lastLine ≤ wordLimit := by
    decide
  have hranges : (ofDirectives jumpingDirectives).ranges =
      [⟨7, 9⟩, ⟨10, wordLimit⟩, ⟨wordLimit, wordLimit⟩] := by decide
  have hfind := (ranges_well_formed jumpingDirectives hlines).2.2
  refine ⟨hlines, hranges, (hfind 8).mpr ?_, fun h => ?_⟩
  · rw [hranges]
    decide
  · have hnone := (hfind 9).mp h
    rw [hranges] at hnone
    exact absurd hnone (by decide)

end EditorCore.Paint.Regions

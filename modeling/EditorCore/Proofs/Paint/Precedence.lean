import EditorCore.Proofs.Paint.Patches
import EditorCore.Proofs.Paint.Replay

set_option autoImplicit false

/-! # One source for each line

A line is painted from one of three sources: as inactive code, from the directives that own it, or
from its comments and tokens. Each source has its own categories, so the categories of the runs tell
which one was used. That no two of the sources apply to one line has to be proved: inactive lines
come from a search in the gaps between directives, owned lines from a look at every directive.
-/

namespace EditorCore.Paint

/-- The categories of what directives ask for. -/
def directiveCategories : List Category := [.directive, .includePath, .macroName]

/-- The categories of what comments and tokens ask for. -/
def textCategories : List Category := [.comment, .string, .number, .keyword]

/-- The sources have no category in common. -/
theorem categories_apart (c : Category) :
    (c = .inactiveCode → c ∉ directiveCategories ∧ c ∉ textCategories) ∧
      (c ∈ directiveCategories → c ∉ textCategories) := by
  cases c <;> decide

variable {line : Nat} {patch : Patch}

theorem category_of_mem_directiveParts {d : Directive} {part : Span × Category}
    (h : part ∈ directiveParts d) : part.2 ∈ directiveCategories := by
  have hall : ∀ part ∈ directiveParts d, part.2 ∈ directiveCategories := by
    unfold directiveParts
    cases d.kind <;> simp [directiveCategories]
  exact hall part h

theorem category_of_mem_directivePatches {d : Directive} (h : patch ∈ directivePatches line d) :
    patch.category ∈ directiveCategories := by
  obtain ⟨part, hpart, rfl⟩ := List.mem_map.mp h
  exact category_of_mem_directiveParts (List.mem_filter.mp hpart).1

theorem category_of_tokenPatch {t : Token} (h : tokenPatch t = some patch) :
    patch.category ∈ textCategories := by
  obtain ⟨category, hcategory, rfl⟩ := Option.map_eq_some_iff.mp h
  show category ∈ textCategories
  cases hkind : t.kind <;> rw [hkind] at hcategory <;> cases hcategory <;> decide

theorem category_of_commentPatch {c : Comment} (h : commentPatch line c = some patch) :
    patch.category ∈ textCategories := by
  obtain ⟨text, -, rfl⟩ := Option.map_eq_some_iff.mp h
  show Category.comment ∈ textCategories
  decide

namespace Painter

variable {p : Painter}

theorem category_of_mem_textPatches (h : patch ∈ p.textPatches line) :
    patch.category ∈ textCategories := by
  rcases List.mem_append.mp h with h | h
  · obtain ⟨c, -, hc⟩ := List.mem_filterMap.mp h
    exact category_of_commentPatch hc
  · obtain ⟨t, -, ht⟩ := List.mem_filterMap.mp h
    exact category_of_tokenPatch ht

/-- What a run's category tells about the line. -/
theorem category_of_mem_paintSpan {span : LineSpan} {r : Run} (hr : r ∈ p.paintSpan line span) :
    (p.regions.isInactive line = true ∧ r.category = .inactiveCode) ∨
      ¬ p.regions.isInactive line = true ∧
        ((p.owners line ≠ [] ∧ r.category ∈ directiveCategories) ∨
          (p.owners line = [] ∧ r.category ∈ textCategories)) := by
  by_cases hinactive : p.regions.isInactive line = true
  · rw [paintSpan_of_inactive hinactive, List.mem_singleton] at hr
    exact .inl ⟨hinactive, by rw [hr]⟩
  · refine .inr ⟨hinactive, ?_⟩
    obtain ⟨patch, hpatch, hcategory⟩ := exists_patch_of_mem_paintSpan hinactive hr
    rw [hcategory]
    by_cases howners : p.owners line = []
    · rw [patches_of_not_owned howners] at hpatch
      exact .inr ⟨howners, category_of_mem_textPatches hpatch⟩
    · rw [patches_of_owned howners] at hpatch
      obtain ⟨d, -, hpatch⟩ := List.mem_flatMap.mp hpatch
      exact .inl ⟨howners, category_of_mem_directivePatches hpatch⟩

end Painter

/-- No directive owns an inactive line. -/
theorem owners_of_isInactive {file : SourceFile}
    (proper : ∀ d ∈ file.directives, d.firstLine ≤ d.lastLine)
    (bounded : ∀ d ∈ file.directives, d.firstLine ≤ wordLimit)
    (h : (Painter.ofFile file).regions.isInactive line = true) :
    (Painter.ofFile file).owners line = [] := by
  rw [Painter.owners_eq_nil_iff]
  by_cases hline : line < wordLimit
  · exact ((Regions.isInactive_iff_of_sorted hline proper (firstLine_sorted file)).mp h).1
  · -- At the last line number the gaps have ended, so the line is not inactive at all.
    have hactive := Regions.isInactive_of_limit_le bounded (Nat.not_lt.mp hline)
    exact absurd (hactive.symm.trans h) Bool.false_ne_true

/-- **The sources of a line do not mix.** Line numbers have 64 bits and no directive ends before it
starts. Then no line is both inactive and owned by a directive; a line has a run of inactive code
exactly if it is inactive, and that run is then the only one and spans the whole line, be it empty;
runs of directives are only on owned lines, and runs of comments and tokens only on lines that are
neither. -/
theorem sources_do_not_mix (file : SourceFile)
    (proper : ∀ d ∈ file.directives, d.firstLine ≤ d.lastLine)
    (bounded : ∀ d ∈ file.directives, d.firstLine ≤ wordLimit) (line : Nat) (span : LineSpan) :
    let painter := Painter.ofFile file
    let runs := painter.paintSpan line span
    let inactive := painter.regions.isInactive line = true
    let owned := ∃ d ∈ file.directives, d.owns line = true
    ¬ (inactive ∧ owned) ∧
    ((∃ r ∈ runs, r.category = .inactiveCode) ↔ inactive) ∧
    (inactive → runs = [⟨span.start, span.width, .inactiveCode⟩]) ∧
    (∀ r ∈ runs, r.category ∈ directiveCategories → owned) ∧
    ∀ r ∈ runs, r.category ∈ textCategories → ¬ inactive ∧ ¬ owned := by
  intro painter runs inactive owned
  have howned : owned ↔ painter.owners line ≠ [] := by
    rw [ne_eq, Painter.owners_eq_nil_iff]
    simp [owned, painter, Painter.ofFile]
  have hapart : inactive → ¬ owned := by
    intro hinactive hcon
    exact howned.mp hcon (owners_of_isInactive proper bounded hinactive)
  have hwhole : inactive → runs = [⟨span.start, span.width, .inactiveCode⟩] :=
    Painter.paintSpan_of_inactive
  refine ⟨fun h => hapart h.1 h.2, ⟨?_, ?_⟩, hwhole, ?_, ?_⟩
  · rintro ⟨r, hr, hcategory⟩
    obtain ⟨hdirective, htext⟩ := (categories_apart r.category).1 hcategory
    rcases Painter.category_of_mem_paintSpan hr with h | ⟨-, h | h⟩
    · exact h.1
    · exact absurd h.2 hdirective
    · exact absurd h.2 htext
  · intro hinactive
    rw [hwhole hinactive]
    exact ⟨_, List.mem_singleton_self _, rfl⟩
  · intro r hr hcategory
    rcases Painter.category_of_mem_paintSpan hr with h | ⟨-, h | h⟩
    · exact absurd hcategory ((categories_apart r.category).1 h.2).1
    · exact howned.mpr h.1
    · exact absurd h.2 ((categories_apart r.category).2 hcategory)
  · intro r hr hcategory
    rcases Painter.category_of_mem_paintSpan hr with h | ⟨hactive, h | h⟩
    · exact absurd hcategory ((categories_apart r.category).1 h.2).2
    · exact absurd hcategory ((categories_apart r.category).2 h.2)
    · exact ⟨hactive, fun hcon => howned.mp hcon h.1⟩

/-- Line 7 of `strayFile` is inactive, also if it is empty, and line 2 belongs to two directives. -/
theorem sources_do_not_mix_stray :
    (∀ d ∈ strayFile.directives, d.firstLine ≤ d.lastLine) ∧
      (∀ d ∈ strayFile.directives, d.firstLine ≤ wordLimit) ∧
      (Painter.ofFile strayFile).paintSpan 7 ⟨40, 0⟩ = [⟨40, 0, .inactiveCode⟩] ∧
      ¬ (Painter.ofFile strayFile).regions.isInactive 2 = true := by
  have proper : ∀ d ∈ strayFile.directives, d.firstLine ≤ d.lastLine := by decide
  have bounded : ∀ d ∈ strayFile.directives, d.firstLine ≤ wordLimit := by decide
  refine ⟨proper, bounded, ?_, ?_⟩
  · have hinactive : (Painter.ofFile strayFile).regions.isInactive 7 = true :=
      (Regions.isInactive_iff_of_sorted (by decide) proper (firstLine_sorted strayFile)).mpr
        (by decide)
    exact (sources_do_not_mix strayFile proper bounded 7 ⟨40, 0⟩).2.2.1 hinactive
  · intro hinactive
    exact (sources_do_not_mix strayFile proper bounded 2 ⟨20, 6⟩).1 ⟨hinactive, by decide⟩

end EditorCore.Paint

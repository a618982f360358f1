import EditorCore.Proofs.Paint.ConflictFree
import EditorCore.Proofs.Source.LineIndex
import Mathlib.Data.List.Basic

set_option autoImplicit false

/-! # What a line asks for

An active line asks for the parts of the directives that own it or, if there are none, for what its
comments and tokens are. The painter looks only at the comments and tokens that can matter; nothing
is lost by that (`textPatches_eq`).
-/

namespace EditorCore

namespace Comment

theorem start_le_of_covers {c : Comment} {line : Nat} (h : c.covers line = true) :
    c.start.line ≤ line := by
  unfold covers at h
  cases hkind : c.kind with
  | block =>
      rw [hkind, Bool.and_eq_true, decide_eq_true_eq] at h
      exact h.1
  | line =>
      rw [hkind, beq_iff_eq] at h
      exact Nat.le_of_eq h.symm

end Comment

namespace Paint

/-- A comment has no part in the lines above it. -/
theorem commentPatch_eq_none {line : Nat} {c : Comment} (h : line < c.start.line) :
    commentPatch line c = none := by
  have hcovers : ¬ c.covers line = true := by
    intro hcon
    have hstart := Comment.start_le_of_covers hcon
    omega
  rw [commentPatch, Comment.bodyLine, if_neg hcovers, Option.map_none]

namespace Painter

variable {p : Painter} {line : Nat} {span : LineSpan}

/-- Without directives no line is inactive. -/
theorem not_isInactive_ofFile {file : SourceFile} (hdirectives : file.directives = []) :
    ¬ (ofFile file).regions.isInactive line = true := by
  have hregions : (ofFile file).regions = ⟨[]⟩ := by
    rw [ofFile, hdirectives]
    rfl
  rw [hregions, Regions.isInactive, List.getElem?_nil]
  exact Bool.false_ne_true

theorem patches_of_owned (h : p.owners line ≠ []) :
    p.patches line = (p.owners line).flatMap (directivePatches line) := by
  unfold patches
  split
  · rename_i hnone
    exact absurd hnone h
  · rfl

theorem patches_of_not_owned (h : p.owners line = []) : p.patches line = p.textPatches line := by
  rw [patches, h]

theorem owners_eq_nil_iff :
    p.owners line = [] ↔ ∀ d ∈ p.file.directives, d.owns line = false := by
  simp [owners]

/-- A run of an active line is cut from a patch of that line. -/
theorem exists_patch_of_mem_paintSpan (hactive : ¬ p.regions.isInactive line = true) {r : Run}
    (hr : r ∈ p.paintSpan line span) : ∃ patch ∈ p.patches line, r.category = patch.category := by
  rw [paintSpan_of_active hactive] at hr
  obtain ⟨-, given, hgiven, -, -, hcategory⟩ := mem_layer hr
  obtain ⟨patch, hpatch, hgiven⟩ := List.mem_filterMap.mp hgiven
  obtain ⟨run, -, rfl⟩ := Option.map_eq_some_iff.mp hgiven
  exact ⟨patch, hpatch, hcategory⟩

/-- Comments and tokens are asked as if all of them were. -/
theorem textPatches_eq :
    p.textPatches line = p.file.comments.filterMap (commentPatch line) ++
      (p.file.tokens.filter fun t => t.span.line == line).filterMap tokenPatch := by
  have hcomments : p.file.comments.takeWhile (fun c => c.start.line ≤ line) =
      p.file.comments.filter fun c => c.start.line ≤ line := by
    refine takeWhile_eq_filter p.file.comments_sorted ?_
    intro a b hle hb
    have hlines := Position.line_le_of_le hle
    simp only [decide_eq_true_eq] at hb ⊢
    omega
  rw [textPatches, hcomments, SourceFile.tokensOnLine_eq_filter, List.filterMap_filter]
  congr 1
  refine List.filterMap_congr ?_
  intro c _
  split
  · rfl
  · rename_i hbelow
    rw [commentPatch_eq_none (by simpa using hbelow)]

end Painter

end Paint

end EditorCore

import EditorCore.Proofs.Paint.Patches
import EditorCore.Proofs.Text.Bodies

set_option autoImplicit false

/-! # Comments are painted where they stand

A comment knows its start and its body, and it asks on each line for the part of the body that is
laid there. If it stands in the buffer, what it asks for over all lines is its inside, line breaks
left out (`exists_patch_shows_iff`). Nothing of that is lost on the way to the runs: a line looks at
all comments that reach it, although it stops at the first one that starts below it, and layering
keeps what is covered.
-/

namespace EditorCore

open Text (Visible FeedsOnly isBreak)

/-! ## Comments in a buffer -/

/-- The offset of a position that lies on its line or right at its end. -/
def Position.offset? (buffer : List Char) (p : Position) : Option Nat :=
  match LineSpan.resolve buffer p.line with
  | .ok span => if p.column ≤ span.width then some (span.start + p.column) else none
  | .error _ => none

theorem Position.exists_span_of_offset {buffer : List Char} {p : Position} {offset : Nat}
    (h : p.offset? buffer = some offset) :
    ∃ span, LineSpan.resolve buffer p.line = .ok span ∧ p.column ≤ span.width ∧
      span.start + p.column = offset := by
  unfold offset? at h
  cases hspan : LineSpan.resolve buffer p.line with
  | error cause =>
      rw [hspan] at h
      cases h
  | ok span =>
      rw [hspan] at h
      obtain ⟨hcolumn, hoffset⟩ := Option.ite_none_right_eq_some.mp h
      exact ⟨span, rfl, hcolumn, Option.some.inj hoffset⟩

/-- A text that stands at a position comes behind the part of the line before its column. -/
theorem Position.exists_front {buffer body : List Char} {p : Position} {offset : Nat}
    (hoffset : p.offset? buffer = some offset) (hbody : body <+: buffer.drop offset) :
    ∃ span front back, LineSpan.resolve buffer p.line = .ok span ∧
      span.start + p.column = offset ∧ front.length = p.column ∧
      (∀ a ∈ front, isBreak a = false) ∧ buffer.drop span.start = front ++ (body ++ back) := by
  obtain ⟨span, hspan, hcolumn, rfl⟩ := exists_span_of_offset hoffset
  obtain ⟨back, hback⟩ := hbody
  have hmem := LineSpan.mem_all_of_resolve hspan
  have hstop := LineSpan.stop_le_length hmem
  rw [LineSpan.stop] at hstop
  obtain ⟨front, hfront⟩ : ∃ front, front = (buffer.drop span.start).take p.column := ⟨_, rfl⟩
  have hbuffer : buffer.drop span.start = front ++ (body ++ back) := by
    rw [hback, hfront, ← List.drop_drop, List.take_append_drop]
  have hlength : front.length = p.column := by
    rw [hfront, List.length_take, List.length_drop]
    omega
  refine ⟨span, front, back, hspan, rfl, hlength, ?_, hbuffer⟩
  intro a ha
  obtain ⟨k, hk⟩ := List.getElem?_of_mem ha
  obtain ⟨hlt, -⟩ := List.getElem?_eq_some_iff.mp hk
  have hchar : buffer[span.start + k]? = some a := by
    rw [← List.getElem?_drop, hbuffer, List.getElem?_append_left hlt, hk]
  refine LineSpan.isBreak_of_mem_span hmem (Nat.le_add_right _ _) ?_ hchar
  rw [LineSpan.stop]
  omega

namespace Comment

/-- The comment is of its kind: a block comment has the lines of its body, all ended by line feeds,
and the body of a line comment has no line break. -/
def Written (c : Comment) : Prop :=
  match c.kind with
  | .block => c = block c.start c.body ∧ FeedsOnly c.body.toList
  | .line => ∀ a ∈ c.body.toList, isBreak a = false

/-- The body is the text that the buffer has at the start of the comment. -/
def Stands (buffer : List Char) (c : Comment) : Prop :=
  ∃ offset, c.start.offset? buffer = some offset ∧ c.body.toList <+: buffer.drop offset

/-- The offset lies inside the comment. -/
def Occupies (buffer : List Char) (c : Comment) (i : Nat) : Prop :=
  ∃ offset, c.start.offset? buffer = some offset ∧ offset ≤ i ∧ i < offset + c.body.toList.length

theorem length_parts_pos (body : String) : 0 < (parts body).length :=
  List.length_pos_iff.mpr (List.splitOn_ne_nil _ _)

section Written

variable {c : Comment} {line : Nat}

theorem Written.feedsOnly (h : c.Written) : FeedsOnly c.body.toList := by
  unfold Written at h
  cases hkind : c.kind with
  | block =>
      rw [hkind] at h
      exact h.2
  | line =>
      rw [hkind] at h
      intro i a hi hbreak
      rw [h a (List.mem_of_getElem? hi)] at hbreak
      cases hbreak

theorem Written.length_parts_of_line (h : c.Written) (hkind : c.kind = .line) :
    (parts c.body).length = 1 := by
  unfold Written at h
  rw [hkind] at h
  have hfeed : '\n' ∉ c.body.toList := by
    intro hmem
    exact absurd (h _ hmem) (by decide)
  rw [parts, List.splitOn_eq_singleton hfeed, List.length_singleton]

theorem Written.lineCount_eq (h : c.Written) (hkind : c.kind = .block) :
    c.lineCount = (parts c.body).length := by
  unfold Written at h
  rw [hkind] at h
  exact congrArg Comment.lineCount h.1

/-- The comment takes one line for each part of its body. -/
theorem Written.covers_iff (h : c.Written) :
    c.covers line = true ↔
      c.start.line ≤ line ∧ line < c.start.line + (parts c.body).length := by
  have hpos := length_parts_pos c.body
  unfold covers
  cases hkind : c.kind with
  | block =>
      have hcount := h.lineCount_eq hkind
      simp only [lastLine, hcount, Bool.and_eq_true, decide_eq_true_eq]
      omega
  | line =>
      have hone := h.length_parts_of_line hkind
      simp only [beq_iff_eq]
      omega

/-- The parts of the body lie on the lines from the start on. -/
theorem Written.bodyLine_eq_some_iff (h : c.Written) {text : List Char} :
    c.bodyLine line = some text ↔ ∃ j part, (parts c.body)[j]? = some part ∧
      line = c.start.line + j ∧ text = dropReturn part := by
  unfold bodyLine
  constructor
  · intro htext
    obtain ⟨hcovers, htext⟩ := Option.ite_none_right_eq_some.mp htext
    obtain ⟨part, hpart, rfl⟩ := Option.map_eq_some_iff.mp htext
    have hstart := start_le_of_covers hcovers
    exact ⟨line - c.start.line, part, hpart, by omega, rfl⟩
  · rintro ⟨j, part, hj, rfl, rfl⟩
    obtain ⟨hlt, -⟩ := List.getElem?_eq_some_iff.mp hj
    have hcovers := h.covers_iff.mpr ⟨Nat.le_add_right c.start.line j, by omega⟩
    rw [if_pos hcovers, Nat.add_sub_cancel_left, hj]
    rfl

theorem Written.columnOn_eq (h : c.Written) {j : Nat} (hj : j < (parts c.body).length) :
    c.columnOn (c.start.line + j) = if j = 0 then c.start.column else 0 := by
  unfold columnOn
  cases hkind : c.kind with
  | block => simp
  | line =>
      -- There is but one part.
      rw [h.length_parts_of_line hkind] at hj
      exact (if_pos (by omega)).symm

end Written

end Comment

namespace Paint

/-- What a comment asks for, part by part. -/
theorem commentPatch_eq_some_iff {c : Comment} (h : c.Written) {line : Nat} {patch : Patch} :
    commentPatch line c = some patch ↔ ∃ j part, (Comment.parts c.body)[j]? = some part ∧
      line = c.start.line + j ∧ patch =
        ⟨if j = 0 then c.start.column else 0, (Comment.dropReturn part).length, .comment⟩ := by
  unfold commentPatch
  constructor
  · intro hpatch
    obtain ⟨text, htext, rfl⟩ := Option.map_eq_some_iff.mp hpatch
    obtain ⟨j, part, hj, rfl, rfl⟩ := h.bodyLine_eq_some_iff.mp htext
    obtain ⟨hlt, -⟩ := List.getElem?_eq_some_iff.mp hj
    exact ⟨j, part, hj, rfl, by rw [h.columnOn_eq hlt]⟩
  · rintro ⟨j, part, hj, rfl, rfl⟩
    obtain ⟨hlt, -⟩ := List.getElem?_eq_some_iff.mp hj
    rw [h.bodyLine_eq_some_iff.mpr ⟨j, part, hj, rfl, rfl⟩, Option.map_some, h.columnOn_eq hlt]

/-- What a comment asks for lies inside it, and all of it that can be painted is asked for. -/
theorem exists_patch_shows_iff {buffer : List Char} {c : Comment} (hwritten : c.Written)
    (hstands : c.Stands buffer) (i : Nat) :
    (∃ line patch, commentPatch line c = some patch ∧
        LineSpan.Shows buffer line patch.column patch.length i) ↔
      Visible buffer i ∧ c.Occupies buffer i := by
  obtain ⟨offset, hoffset, hbody⟩ := hstands
  obtain ⟨span, front, back, hspan, rfl, hlength, hplain, hbuffer⟩ :=
    Position.exists_front hoffset hbody
  have hparts := Comment.partsShow_iff (LineSpan.starts_of_resolve hspan) hbuffer hplain
    hwritten.feedsOnly i
  rw [hlength] at hparts
  constructor
  · rintro ⟨line, patch, hpatch, hshows⟩
    obtain ⟨j, part, hj, rfl, rfl⟩ := (commentPatch_eq_some_iff hwritten).mp hpatch
    obtain ⟨hlow, hhigh, hvisible⟩ := hparts.mp ⟨j, part, hj, hshows⟩
    exact ⟨hvisible, _, hoffset, hlow, hhigh⟩
  · rintro ⟨hvisible, offset, hoffset', hlow, hhigh⟩
    obtain rfl : _ = offset := Option.some.inj (hoffset.symm.trans hoffset')
    obtain ⟨j, part, hj, hshows⟩ := hparts.mpr ⟨hlow, hhigh, hvisible⟩
    exact ⟨_, _, (commentPatch_eq_some_iff hwritten).mpr ⟨j, part, hj, rfl, rfl⟩, hshows⟩

/-! ## Files that have comments only -/

namespace Painter

variable {file : SourceFile} {line : Nat}

/-- A line of a file without directives and tokens asks for what the comments ask for. -/
theorem mem_patches_iff (htokens : file.tokens = []) (hdirectives : file.directives = [])
    {patch : Patch} :
    patch ∈ (ofFile file).patches line ↔
      ∃ c ∈ file.comments, commentPatch line c = some patch := by
  have howners : (ofFile file).owners line = [] := by
    rw [owners, ofFile, hdirectives, List.filter_nil]
  rw [patches_of_not_owned howners, textPatches_eq]
  show patch ∈ file.comments.filterMap (commentPatch line) ++
    (file.tokens.filter fun t => t.span.line == line).filterMap tokenPatch ↔ _
  rw [htokens, List.filter_nil, List.filterMap_nil, List.append_nil, List.mem_filterMap]

variable {p : Painter}

theorem exists_patch_of_mem_paintLines (hactive : ∀ line, ¬ p.regions.isInactive line = true)
    {buffer : List Char} {first stop : Nat} {r : Run} (hr : r ∈ p.paintLines buffer first stop) :
    ∃ line, ∃ patch ∈ p.patches line, r.category = patch.category := by
  obtain ⟨line, -, hr⟩ := List.mem_flatMap.mp hr
  obtain ⟨span, -, hr⟩ := mem_paintLine.mp hr
  exact ⟨line, exists_patch_of_mem_paintSpan (hactive line) hr⟩

theorem covers_paintSpan_iff (hactive : ¬ p.regions.isInactive line = true) {span : LineSpan}
    (i : Nat) :
    Covers (p.paintSpan line span) i ↔ ∃ patch ∈ p.patches line, ∃ run,
      span.clip patch.column patch.length = some run ∧ run.1 ≤ i ∧ i < run.1 + run.2 := by
  rw [paintSpan_of_active hactive, covers_layer_iff]
  constructor
  · rintro ⟨r, hr, hi⟩
    obtain ⟨patch, hpatch, hr⟩ := List.mem_filterMap.mp hr
    obtain ⟨run, hrun, rfl⟩ := Option.map_eq_some_iff.mp hr
    exact ⟨patch, hpatch, run, hrun, hi⟩
  · rintro ⟨patch, hpatch, run, hrun, hi⟩
    have honline : patch.onLine span = some ⟨run.1, run.2, patch.category⟩ :=
      Option.map_eq_some_iff.mpr ⟨run, hrun, rfl⟩
    exact ⟨_, List.mem_filterMap.mpr ⟨patch, hpatch, honline⟩, hi⟩

/-- Painting all lines of a buffer covers what the patches of the lines show. -/
theorem covers_paintLines_iff (hactive : ∀ line, ¬ p.regions.isInactive line = true)
    (buffer : List Char) (i : Nat) :
    Covers (p.paintLines buffer 0 (Text.lineCount buffer)) i ↔
      ∃ line, ∃ patch ∈ p.patches line,
        LineSpan.Shows buffer line patch.column patch.length i := by
  constructor
  · rintro ⟨r, hr, hi⟩
    obtain ⟨line, -, hr⟩ := List.mem_flatMap.mp hr
    obtain ⟨span, hspan, hr⟩ := mem_paintLine.mp hr
    obtain ⟨patch, hpatch, hclip⟩ := (covers_paintSpan_iff (hactive line) i).mp ⟨r, hr, hi⟩
    exact ⟨line, patch, hpatch, span, hspan, hclip⟩
  · rintro ⟨line, patch, hpatch, span, hspan, hclip⟩
    obtain ⟨r, hr, hi⟩ := (covers_paintSpan_iff (hactive line) i).mpr ⟨patch, hpatch, hclip⟩
    have hline := LineSpan.lt_lineCount_of_resolve hspan
    refine ⟨r, List.mem_flatMap.mpr ⟨line, ?_, mem_paintLine.mpr ⟨span, hspan, hr⟩⟩, hi⟩
    rw [List.mem_range'_1]
    omega

end Painter

/-- **Comments are painted exactly where they are.** For a file that reports comments only, in any
order, each of them standing in the buffer: painting all lines covers the offsets inside comments,
line breaks left out, and nothing else, and every run is drawn as a comment. Comments may touch and
even overlap. -/
theorem comments_painted_exactly (path : Path) (comments : List Comment) (buffer : List Char)
    (h : ∀ c ∈ comments, c.Written ∧ c.Stands buffer) :
    let runs := (Painter.ofFile (.ofRecords path [] comments [])).paintLines buffer 0
      (Text.lineCount buffer)
    (∀ i, Covers runs i ↔ Visible buffer i ∧ ∃ c ∈ comments, c.Occupies buffer i) ∧
      ∀ r ∈ runs, r.category = .comment := by
  intro runs
  have htokens : (SourceFile.ofRecords path [] comments []).tokens = [] := List.mergeSort_nil
  have hdirectives : (SourceFile.ofRecords path [] comments []).directives = [] :=
    List.mergeSort_nil
  have hmem : ∀ c, c ∈ (SourceFile.ofRecords path [] comments []).comments ↔ c ∈ comments :=
    fun c => List.mem_mergeSort
  have hactive : ∀ line, ¬ (Painter.ofFile (.ofRecords path [] comments [])).regions.isInactive
      line = true := fun _ => Painter.not_isInactive_ofFile hdirectives
  refine ⟨?_, ?_⟩
  · intro i
    rw [Painter.covers_paintLines_iff hactive]
    constructor
    · rintro ⟨line, patch, hpatch, hshows⟩
      obtain ⟨c, hc, hpatch⟩ := (Painter.mem_patches_iff htokens hdirectives).mp hpatch
      have hc := (hmem c).mp hc
      obtain ⟨hwritten, hstands⟩ := h c hc
      obtain ⟨hvisible, hinside⟩ :=
        (exists_patch_shows_iff hwritten hstands i).mp ⟨line, patch, hpatch, hshows⟩
      exact ⟨hvisible, c, hc, hinside⟩
    · rintro ⟨hvisible, c, hc, hinside⟩
      obtain ⟨hwritten, hstands⟩ := h c hc
      obtain ⟨line, patch, hpatch, hshows⟩ :=
        (exists_patch_shows_iff hwritten hstands i).mpr ⟨hvisible, hinside⟩
      have hpatch := (Painter.mem_patches_iff htokens hdirectives).mpr ⟨c, (hmem c).mpr hc, hpatch⟩
      exact ⟨line, patch, hpatch, hshows⟩
  · intro r hr
    obtain ⟨line, patch, hpatch, hcategory⟩ := Painter.exists_patch_of_mem_paintLines hactive hr
    obtain ⟨c, -, hpatch⟩ := (Painter.mem_patches_iff htokens hdirectives).mp hpatch
    obtain ⟨text, -, rfl⟩ := Option.map_eq_some_iff.mp hpatch
    exact hcategory

/-- A buffer in which a block comment over three lines, one of them empty, ends where a line comment
begins. -/
def touchingBuffer : List Char := "x /* a\r\n\r\n b */// c\ny".toList

/-- The comments of `touchingBuffer`, the later one first. -/
def touchingComments : List Comment :=
  [.single ⟨2, 5⟩ "// c", .block ⟨0, 2⟩ "/* a\r\n\r\n b */"]

theorem touching_comments_painted :
    (∀ c ∈ touchingComments, c.Written ∧ c.Stands touchingBuffer) ∧
    let runs := (Painter.ofFile (.ofRecords ⟨"/a.nc"⟩ [] touchingComments [])).paintLines
      touchingBuffer 0 (Text.lineCount touchingBuffer)
    (∀ i, Covers runs i ↔
        Visible touchingBuffer i ∧ ∃ c ∈ touchingComments, c.Occupies touchingBuffer i) ∧
      ∀ r ∈ runs, r.category = .comment := by
  have hstand : ∀ c ∈ touchingComments, c.Written ∧ c.Stands touchingBuffer := by
    refine List.forall_mem_cons.mpr ⟨⟨?_, 15, ?_, ?_⟩, List.forall_mem_singleton.mpr
      ⟨⟨rfl, ?_⟩, 2, ?_, ?_⟩⟩
    · show ∀ a ∈ ['/', '/', ' ', 'c'], isBreak a = false
      simp [isBreak]
    all_goals decide
  exact ⟨hstand, comments_painted_exactly ⟨"/a.nc"⟩ touchingComments touchingBuffer hstand⟩

end Paint

end EditorCore

import EditorCore.Proofs.Paint.Patches

set_option autoImplicit false

/-! # Painting in 64 bits

Places and lengths are numbers of 64 bits, and those of a parse come unchecked. Here the painting of
a line is told again, with sums and differences that fail when their result is no such number, and
with layering as a loop that looks at the run painted last. Each function of it fails or comes to
what its counterpart in the painter does, and does not fail where the numbers are small enough
(`Words.Computes`). If the line itself lies within 64 bits, and so do the lines of the comments,
nothing fails (`painting_fits_words`).

Two things keep the numbers small. A stretch of columns is clipped by comparing before anything is
added, so what comes out lies on the line (`clip_computes`, `Patch.onLine_within`); and what the
loop leaves of a run starts where a painted run ends and ends where the run does, so it lies on the
line as well (`Run.behind_within`).
-/

namespace EditorCore.Paint

namespace Words

/-! ## Sums and differences -/

/-- Why a result is no number of 64 bits. -/
inductive Fault where
  | overflow
  | underflow
deriving DecidableEq, Repr

/-- The sum, if it fits. -/
def add (a b : Nat) : Except Fault Nat :=
  if a + b ≤ wordLimit then .ok (a + b) else .error .overflow

/-- The difference, if there is one. -/
def sub (a b : Nat) : Except Fault Nat :=
  if b ≤ a then .ok (a - b) else .error .underflow

/-- The computation fails or comes to the value, and it does not fail where it `fits`. -/
structure Computes {α : Type} (fits : Prop) (x : Except Fault α) (a : α) : Prop where
  exact : ∀ b, x = .ok b → b = a
  succeeds : fits → x = .ok a

namespace Computes

variable {α β : Type} {fits : Prop} {x : Except Fault α} {a : α}

theorem ok (a : α) : Computes fits (.ok a) a where
  exact _ h := (Except.ok.inj h).symm
  succeeds _ := rfl

/-- A value that is given out after a check. -/
theorem checked [Decidable fits] (fault : Fault) (a : α) :
    Computes fits (if fits then .ok a else .error fault) a where
  exact b hb := by
    split at hb
    · exact (Except.ok.inj hb).symm
    · cases hb
  succeeds hfits := if_pos hfits

theorem mono {fits' : Prop} (h : Computes fits x a) (hfits : fits' → fits) :
    Computes fits' x a where
  exact := h.exact
  succeeds hfits' := h.succeeds (hfits hfits')

/-- A computation and one that goes on from its value. -/
theorem bind {f : α → Except Fault β} {b : β} (hx : Computes fits x a)
    (hf : Computes fits (f a) b) : Computes fits (x >>= f) b where
  exact c hc := by
    cases x with
    | error fault => cases hc
    | ok a' =>
        obtain rfl := hx.exact a' rfl
        exact hf.exact c hc
  succeeds hfits := by
    rw [hx.succeeds hfits]
    exact hf.succeeds hfits

/-- A list is gone through member by member. -/
theorem filterMapM {f : α → Except Fault (Option β)} {g : α → Option β} {l : List α}
    (h : ∀ a ∈ l, Computes fits (f a) (g a)) : Computes fits (l.filterMapM f) (l.filterMap g) := by
  induction l with
  | nil => exact ok []
  | cons a l ih =>
      have hmore := ih fun b hb => h b (List.mem_cons_of_mem a hb)
      rw [List.filterMapM_cons, List.filterMap_cons]
      refine (h a List.mem_cons_self).bind ?_
      cases g a with
      | none => exact hmore
      | some b => exact hmore.bind (ok _)

end Computes

theorem add_computes (a b : Nat) : Computes (a + b ≤ wordLimit) (add a b) (a + b) :=
  .checked .overflow _

theorem sub_computes (a b : Nat) : Computes (b ≤ a) (sub a b) (a - b) :=
  .checked .underflow _

/-! ## Columns on a line -/

/-- The part of a stretch of columns that lies on the line. -/
def clip (s : LineSpan) (column length : Nat) : Except Fault (Option (Nat × Nat)) :=
  if s.width < column then .ok none
  else do
    let start ← add s.start column
    let room ← sub s.width column
    return some (start, min length room)

/-- The part of a patch that fits on the line. -/
def onLine (span : LineSpan) (p : Patch) : Except Fault (Option Run) := do
  let place ← clip span p.column p.length
  return place.map fun (start, length) => ⟨start, length, p.category⟩

theorem clip_computes (s : LineSpan) (column length : Nat) :
    Computes (s.stop ≤ wordLimit) (clip s column length) (s.clip column length) := by
  unfold clip LineSpan.clip
  by_cases hcolumn : s.width < column
  · rw [if_pos hcolumn, if_pos hcolumn]
    exact .ok none
  · have hroom : column ≤ s.width := Nat.not_lt.mp hcolumn
    have hsum : s.stop ≤ wordLimit → s.start + column ≤ wordLimit :=
      Nat.le_trans (Nat.add_le_add_left hroom _)
    rw [if_neg hcolumn, if_neg hcolumn]
    refine ((add_computes _ _).mono hsum).bind ?_
    exact ((sub_computes _ _).mono fun _ => hroom).bind (.ok _)

-- The bound is needed: the end of a line that does not fit has no place.
example : clip ⟨wordLimit, 1⟩ 1 0 = .error .overflow := by decide

theorem onLine_computes (span : LineSpan) (p : Patch) :
    Computes (span.stop ≤ wordLimit) (onLine span p) (p.onLine span) :=
  (clip_computes span p.column p.length).bind (.ok _)

/-! ## What a line asks for -/

/-- The last line that a comment takes. -/
def lastLine (c : Comment) : Except Fault Nat := do
  let below ← add c.start.line (max c.lineCount 1)
  sub below 1

/-- The comment takes part of the line. -/
def covers (c : Comment) (line : Nat) : Except Fault Bool :=
  match c.kind with
  | .line => .ok (line == c.start.line)
  | .block => do
      let last ← lastLine c
      return c.start.line ≤ line && line ≤ last

/-- The part of the body of a comment on a line. -/
def bodyLine (c : Comment) (line : Nat) : Except Fault (Option (List Char)) := do
  if ← covers c line then
    let place ← sub line c.start.line
    return (Comment.parts c.body)[place]?.map Comment.dropReturn
  else return none

/-- What a comment asks for on a line. -/
def commentPatch (line : Nat) (c : Comment) : Except Fault (Option Patch) := do
  let text ← bodyLine c line
  return text.map fun text => ⟨c.columnOn line, text.length, .comment⟩

/-- What comments and tokens ask for on a line. -/
def textPatches (p : Painter) (line : Nat) : Except Fault (List Patch) := do
  let comments ← (p.file.comments.takeWhile fun c => c.start.line ≤ line).filterMapM
    (commentPatch line)
  return comments ++ (p.file.tokensOnLine line).filterMap tokenPatch

/-- What an active line asks for. -/
def patches (p : Painter) (line : Nat) : Except Fault (List Patch) :=
  match p.owners line with
  | [] => textPatches p line
  | owners => .ok (owners.flatMap (directivePatches line))

/-- The runs that an active line asks for, before they are layered. -/
def emit (p : Painter) (line : Nat) (span : LineSpan) : Except Fault (List Run) := do
  let patches ← patches p line
  patches.filterMapM (onLine span)

/-- The line below the comment has a number of 64 bits. -/
def CommentFits (c : Comment) : Prop := c.start.line + max c.lineCount 1 ≤ wordLimit

/-- The line and all comments lie within 64 bits. -/
structure Fits (p : Painter) (span : LineSpan) : Prop where
  line : span.stop ≤ wordLimit
  comments : ∀ c ∈ p.file.comments, CommentFits c

theorem lastLine_computes (c : Comment) : Computes (CommentFits c) (lastLine c) c.lastLine := by
  have hone : 1 ≤ c.start.line + max c.lineCount 1 :=
    Nat.le_trans (Nat.le_max_right _ _) (Nat.le_add_left _ _)
  exact (add_computes _ _).bind ((sub_computes _ _).mono fun _ => hone)

theorem covers_computes (c : Comment) (line : Nat) :
    Computes (CommentFits c) (covers c line) (c.covers line) := by
  unfold covers Comment.covers
  cases c.kind with
  | line => exact .ok _
  | block => exact (lastLine_computes c).bind (.ok _)

theorem bodyLine_computes (c : Comment) (line : Nat) :
    Computes (CommentFits c) (bodyLine c line) (c.bodyLine line) := by
  unfold bodyLine Comment.bodyLine
  refine (covers_computes c line).bind ?_
  by_cases hcovers : c.covers line = true
  · -- The comment starts on the line or above it.
    have hstart : c.start.line ≤ line := Comment.start_le_of_covers hcovers
    rw [if_pos hcovers, if_pos hcovers]
    exact ((sub_computes _ _).mono fun _ => hstart).bind (.ok _)
  · rw [if_neg hcovers, if_neg hcovers]
    exact .ok none

theorem commentPatch_computes (line : Nat) (c : Comment) :
    Computes (CommentFits c) (commentPatch line c) (Paint.commentPatch line c) :=
  (bodyLine_computes c line).bind (.ok _)

section Painter

variable (p : Painter) (line : Nat) (span : LineSpan)

theorem textPatches_computes :
    Computes (Fits p span) (textPatches p line) (p.textPatches line) := by
  refine Computes.bind (.filterMapM ?_) (.ok _)
  intro c hc
  have hmem : c ∈ p.file.comments := List.takeWhile_subset _ hc
  exact (commentPatch_computes line c).mono fun h => h.comments c hmem

theorem patches_computes : Computes (Fits p span) (patches p line) (p.patches line) := by
  unfold patches Painter.patches
  cases p.owners line with
  | nil => exact textPatches_computes p line span
  | cons owner owners => exact .ok _

theorem emit_computes :
    Computes (Fits p span) (emit p line span) ((p.patches line).filterMap (Patch.onLine span)) := by
  refine (patches_computes p line span).bind (.filterMapM ?_)
  intro patch _
  exact (onLine_computes span patch).mono Fits.line

end Painter

/-! ## Layering -/

/-- One past the last character of a run. -/
def stop (r : Run) : Except Fault Nat := add r.start r.length

/-- What the run painted last leaves of a run. -/
def leftover (last : Option Run) (r : Run) : Except Fault (Option Run) :=
  match last with
  | none => .ok (some r)
  | some last => do
      let edge ← stop last
      if r.start < edge then
        let finish ← stop r
        if finish ≤ edge then return none
        else
          let length ← sub finish edge
          return some ⟨edge, length, r.category⟩
      else return some r

/-- Paints one run more, unless nothing is left of it. -/
def push (painted : List Run) (r : Run) : Except Fault (List Run) := do
  match ← leftover painted.getLast? r with
  | some r => return if r.isEmpty then painted else painted ++ [r]
  | none => return painted

/-- Sorts the runs by where they start and paints them one after another. -/
def layer (runs : List Run) : Except Fault (List Run) :=
  (runs.mergeSort fun a b => a.start ≤ b.start).foldlM push []

/-- The style runs of a line that lies at the given place. -/
def paintSpan (p : Painter) (line : Nat) (span : LineSpan) : Except Fault (List Run) :=
  if p.regions.isInactive line then .ok [⟨span.start, span.width, .inactiveCode⟩]
  else do
    let runs ← emit p line span
    layer runs

end Words

/-- What of a run lies behind an edge. A run that starts there stays as it is, an empty one too. -/
def Run.behind (edge : Nat) (r : Run) : Option Run :=
  if r.start < edge ∧ r.stop ≤ edge then none
  else some ⟨max edge r.start, r.stop - max edge r.start, r.category⟩

/-- What lies behind an edge ends where the run does. -/
theorem Run.mem_behind {edge : Nat} {r r' : Run} (h : r' ∈ r.behind edge) :
    r'.start = max edge r.start ∧ r'.stop = r.stop := by
  have hstop : r.start ≤ r.stop := Nat.le_add_right _ _
  unfold behind at h
  split at h
  · cases h
  · rename_i hbehind
    cases h
    refine ⟨rfl, ?_⟩
    show max edge r.start + (r.stop - max edge r.start) = r.stop
    omega

theorem Run.behind_within {edge : Nat} {r r' : Run} {span : LineSpan} (h : r' ∈ r.behind edge)
    (hr : r.Within span) : r'.Within span := by
  obtain ⟨hstart, hstop⟩ := Run.mem_behind h
  obtain ⟨hlow, hhigh⟩ := hr
  constructor
  · rw [hstart]
    exact Nat.le_trans hlow (Nat.le_max_right _ _)
  · rw [hstop]
    exact hhigh

/-- Trimming is done run by run: what lies behind the edge is given out and moves the edge. -/
theorem trim_cons (edge : Nat) (r : Run) (runs : List Run) :
    trim edge (r :: runs) =
      match (r.behind edge).filter fun r' => !r'.isEmpty with
      | none => trim edge runs
      | some r' => r' :: trim r'.stop runs := by
  have hstop : r.stop = r.start + r.length := rfl
  rw [trim]
  by_cases hover : r.stop ≤ max edge r.start
  · have hnone : ((r.behind edge).filter fun r' => !r'.isEmpty) = none := by
      rw [Option.filter_eq_none_iff]
      intro r' hr'
      obtain ⟨hstart', hstop'⟩ := Run.mem_behind hr'
      have hempty : r'.length = 0 := by
        rw [Run.stop] at hstop'
        omega
      simp [Run.isEmpty, hempty]
    rw [if_pos hover, hnone]
  · have hbehind : r.behind edge =
        some ⟨max edge r.start, r.stop - max edge r.start, r.category⟩ := by
      rw [Run.behind, if_neg (by omega)]
    have hend : (⟨max edge r.start, r.stop - max edge r.start, r.category⟩ : Run).stop = r.stop :=
      (Run.mem_behind hbehind).2
    have hlength : r.stop - max edge r.start ≠ 0 := by omega
    rw [if_neg hover, hbehind, Option.filter_some, if_pos (by simpa [Run.isEmpty] using hlength)]
    simp only [hend]

theorem trim_within {span : LineSpan} {runs : List Run} (h : ∀ r ∈ runs, r.Within span)
    (edge : Nat) : ∀ r ∈ trim edge runs, r.Within span := by
  intro r hr
  obtain ⟨-, -, given, hgiven, hstart, hstop, -⟩ := mem_trim hr
  obtain ⟨hlow, hhigh⟩ := h given hgiven
  exact ⟨Nat.le_trans hlow hstart, hstop ▸ hhigh⟩

namespace Words

/-- The end of what has been painted. -/
def edge (painted : List Run) : Nat := painted.getLast?.elim 0 Run.stop

/-- All runs end within 64 bits. -/
def RunsFit (runs : List Run) : Prop := ∀ r ∈ runs, r.stop ≤ wordLimit

theorem stop_computes (r : Run) : Computes (r.stop ≤ wordLimit) (stop r) r.stop :=
  add_computes _ _

/-- The run painted last leaves what lies behind its end. -/
theorem leftover_computes (painted : List Run) (r : Run) :
    Computes (RunsFit painted ∧ r.stop ≤ wordLimit) (leftover painted.getLast? r)
      (r.behind (edge painted)) := by
  have hsame : r.stop - r.start = r.length := Nat.add_sub_cancel_left _ _
  unfold leftover edge
  cases hlast : painted.getLast? with
  | none =>
      rw [Option.elim_none, Run.behind, if_neg (by omega), Nat.zero_max, hsame]
      exact .ok _
  | some last =>
      have hmem : last ∈ painted := List.mem_of_getLast? hlast
      refine ((stop_computes last).mono fun h => h.1 last hmem).bind ?_
      rw [Option.elim_some]
      -- The run starts before the edge and is lost or cut, or it starts behind and stays.
      by_cases hstart : r.start < last.stop
      · rw [if_pos hstart]
        refine ((stop_computes r).mono And.right).bind ?_
        by_cases hover : r.stop ≤ last.stop
        · rw [if_pos hover, Run.behind, if_pos ⟨hstart, hover⟩]
          exact .ok _
        · rw [if_neg hover, Run.behind, if_neg (by omega), Nat.max_eq_left (by omega)]
          exact ((sub_computes _ _).mono fun _ => by omega).bind (.ok _)
      · rw [if_neg hstart, Run.behind, if_neg (by omega), Nat.max_eq_right (by omega), hsame]
        exact .ok _

theorem push_computes (painted : List Run) (r : Run) :
    Computes (RunsFit painted ∧ r.stop ≤ wordLimit) (push painted r)
      (painted ++ ((r.behind (edge painted)).filter fun r' => !r'.isEmpty).toList) := by
  refine (leftover_computes painted r).bind ?_
  cases r.behind (edge painted) with
  | none =>
      rw [Option.filter_none, Option.toList_none, List.append_nil]
      exact .ok painted
  | some left =>
      have hkept : (if left.isEmpty then painted else painted ++ [left]) =
          painted ++ ((some left).filter fun r' => !r'.isEmpty).toList := by
        cases hempty : left.isEmpty <;> simp [Option.filter_some, hempty]
      rw [← hkept]
      exact .ok _

/-- The loop paints what trimming gives out. -/
theorem foldlM_push_computes (painted runs : List Run) :
    Computes (RunsFit painted ∧ RunsFit runs) (runs.foldlM push painted)
      (painted ++ trim (edge painted) runs) := by
  induction runs generalizing painted with
  | nil =>
      rw [trim, List.append_nil]
      exact .ok painted
  | cons r runs ih =>
      rw [List.foldlM_cons, trim_cons]
      have hfirst : RunsFit (r :: runs) → r.stop ≤ wordLimit ∧ RunsFit runs :=
        List.forall_mem_cons.mp
      refine ((push_computes painted r).mono fun h => ⟨h.1, (hfirst h.2).1⟩).bind ?_
      cases hleft : (r.behind (edge painted)).filter fun r' => !r'.isEmpty with
      | none =>
          rw [Option.toList_none, List.append_nil]
          exact (ih painted).mono fun h => ⟨h.1, (hfirst h.2).2⟩
      | some left =>
          -- What is left of the run ends where the run does, and its end is the new edge.
          have hstop : left.stop = r.stop :=
            (Run.mem_behind (Option.filter_eq_some_iff.mp hleft).1).2
          have hedge : edge (painted ++ [left]) = left.stop := by
            rw [edge, List.getLast?_concat]
            rfl
          have hmore := ih (painted ++ [left])
          rw [hedge, List.append_assoc] at hmore
          refine hmore.mono ?_
          rintro ⟨hpainted, hruns⟩
          refine ⟨?_, (hfirst hruns).2⟩
          intro r' hr'
          rcases List.mem_append.mp hr' with hold | hnew
          · exact hpainted r' hold
          · rw [List.mem_singleton.mp hnew, hstop]
            exact (hfirst hruns).1

theorem layer_computes (runs : List Run) :
    Computes (RunsFit runs) (layer runs) (Paint.layer runs) := by
  refine (foldlM_push_computes [] (runs.mergeSort fun a b => a.start ≤ b.start)).mono ?_
  intro hruns
  exact ⟨by simp [RunsFit], fun r hr => hruns r (List.mem_mergeSort.mp hr)⟩

/-- The runs that a line asks for lie on it. -/
theorem onLine_within {p : Painter} {line : Nat} {span : LineSpan} :
    ∀ r ∈ (p.patches line).filterMap (Patch.onLine span), r.Within span := by
  intro r hr
  obtain ⟨patch, -, hpatch⟩ := List.mem_filterMap.mp hr
  exact Patch.onLine_within hpatch

theorem paintSpan_computes (p : Painter) (line : Nat) (span : LineSpan) :
    Computes (Fits p span) (paintSpan p line span) (p.paintSpan line span) := by
  unfold paintSpan Painter.paintSpan
  by_cases hinactive : p.regions.isInactive line = true
  · rw [if_pos hinactive, if_pos hinactive]
    exact .ok _
  · rw [if_neg hinactive, if_neg hinactive]
    refine (emit_computes p line span).bind ((layer_computes _).mono ?_)
    intro hfits r hr
    exact Nat.le_trans (onLine_within r hr).2 hfits.line

end Words

/-- **Painting a line stays within 64 bits, whatever the parse.** If the line ends within 64 bits
and so does every comment, no sum and no difference that painting the line takes leaves them, and
the result is that of the painter. The runs of the line lie on it; so do the runs that it asks for,
wherever their columns and lengths are, and in every turn of the loop that layers them the runs
painted so far and what they leave of the next one. -/
theorem painting_fits_words (file : SourceFile) (line : Nat) (span : LineSpan)
    (hspan : span.start + span.width ≤ wordLimit)
    (hcomments : ∀ c ∈ file.comments, c.start.line + max c.lineCount 1 ≤ wordLimit) :
    let painter := Painter.ofFile file
    Words.paintSpan painter line span = .ok (painter.paintSpan line span) ∧
    (∀ r ∈ painter.paintSpan line span, r.Within span) ∧
    ∃ emitted, Words.emit painter line span = .ok emitted ∧ (∀ r ∈ emitted, r.Within span) ∧
      ∀ done next rest, (emitted.mergeSort fun a b => a.start ≤ b.start) = done ++ next :: rest →
        ∃ painted left, done.foldlM Words.push [] = .ok painted ∧
          (∀ r ∈ painted, r.Within span) ∧
          Words.leftover painted.getLast? next = .ok left ∧ ∀ r ∈ left, r.Within span := by
  intro painter
  have hfits : Words.Fits painter span := ⟨hspan, hcomments⟩
  have hlimit : ∀ r : Run, r.Within span → r.stop ≤ wordLimit :=
    fun r hr => Nat.le_trans hr.2 hspan
  refine ⟨(Words.paintSpan_computes painter line span).succeeds hfits,
    fun r hr => (Painter.mem_paintSpan hr).1, _,
    (Words.emit_computes painter line span).succeeds hfits, Words.onLine_within, ?_⟩
  intro done next rest hsplit
  have hsorted : ∀ r ∈ done ++ next :: rest, r.Within span :=
    fun r hr => Words.onLine_within r (List.mem_mergeSort.mp (hsplit ▸ hr))
  have hdone : ∀ r ∈ done, r.Within span := fun r hr => hsorted r (List.mem_append_left _ hr)
  have hnext : next.Within span := hsorted next (by simp)
  have hpainted := trim_within hdone 0
  refine ⟨trim 0 done, next.behind (Words.edge (trim 0 done)), ?_, hpainted, ?_,
    fun r hr => Run.behind_within hr hnext⟩
  · exact (Words.foldlM_push_computes [] done).succeeds
      ⟨by simp [Words.RunsFit], fun r hr => hlimit r (hdone r hr)⟩
  · exact (Words.leftover_computes (trim 0 done) next).succeeds
      ⟨fun r hr => hlimit r (hpainted r hr), hlimit next hnext⟩

/-- A file with columns, lengths and line numbers up to the end of 64 bits. On line 5 a comment that
claims all lines to come reaches into a keyword, a number stands at column 8, and a string far
outside. -/
def farFile : SourceFile where
  path := ⟨"/p/a.nc"⟩
  tokens :=
    [⟨.keyword, ⟨⟨5, 4⟩, wordLimit⟩, "return"⟩, ⟨.number, ⟨⟨5, 8⟩, 1⟩, "7"⟩,
      ⟨.string, ⟨⟨5, wordLimit⟩, wordLimit⟩, "ab"⟩]
  comments := [⟨.block, ⟨5, 2⟩, wordLimit - 5, "/**/"⟩]
  directives := [.ofLines .pragma ⟨⟨wordLimit, 0⟩, wordLimit⟩ ⟨⟨wordLimit, wordLimit⟩, 6⟩ 0 0 true]
  tokens_sorted := by decide
  comments_sorted := by decide
  directives_sorted := by decide

theorem patches_farFile :
    (Painter.ofFile farFile).patches 5 =
      [⟨2, 4, .comment⟩, ⟨4, 6, .keyword⟩, ⟨8, 1, .number⟩, ⟨wordLimit, 4, .string⟩] := by
  decide

theorem paintSpan_farFile :
    (Painter.ofFile farFile).paintSpan 5 ⟨wordLimit - 8, 8⟩ =
      [⟨wordLimit - 6, 4, .comment⟩, ⟨wordLimit - 2, 2, .keyword⟩] := by
  have hactive : ¬ (Painter.ofFile farFile).regions.isInactive 5 = true := by decide
  rw [Painter.paintSpan_of_active hactive, patches_farFile, layer, List.mergeSort_of_pairwise]
  · decide
  · decide

/-- On the last line that 64 bits have room for. -/
theorem painting_fits_words_far :
    (wordLimit - 8) + 8 ≤ wordLimit ∧
      (∀ c ∈ farFile.comments, c.start.line + max c.lineCount 1 ≤ wordLimit) ∧
      Words.paintSpan (.ofFile farFile) 5 ⟨wordLimit - 8, 8⟩ =
        .ok [⟨wordLimit - 6, 4, .comment⟩, ⟨wordLimit - 2, 2, .keyword⟩] := by
  have hspan : (wordLimit - 8) + 8 ≤ wordLimit := by decide
  have hcomments : ∀ c ∈ farFile.comments, c.start.line + max c.lineCount 1 ≤ wordLimit := by
    decide
  have hpaint := (painting_fits_words farFile 5 ⟨wordLimit - 8, 8⟩ hspan hcomments).1
  rw [paintSpan_farFile] at hpaint
  exact ⟨hspan, hcomments, hpaint⟩

end EditorCore.Paint

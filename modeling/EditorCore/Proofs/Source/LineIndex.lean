import EditorCore.Source.File
import Mathlib.Data.List.Induction

set_option autoImplicit false

/-! # Records of a line

A file finds the records of a line without a look at all of them: tokens through an index of the
lines, comments by stopping at the first one that starts too far down. Because the records are
sorted, both ways give what filtering all records gives (`tokensOnLine_eq_filter`,
`takeWhile_eq_filter`).

The index has one stretch of places for each line, and entering a token never looks at what lies
between the end of that stretch and the token. The stretch of a line is therefore described by
numbers of tokens (`placesOf`): it starts behind the tokens above the line and ends behind those on
it. Entering one more token of a sorted list keeps this description (`placesOf_concat_self`,
`placesOf_concat_ne`), and exactly the tokens of the line lie there (`extract_countP`).
-/

namespace EditorCore

/-- Taking from the front of a sorted list is filtering it, if the test goes down the order. -/
theorem takeWhile_eq_filter {α : Type} {r : α → α → Prop} {test : α → Bool} {l : List α}
    (hsorted : l.Pairwise r) (hdown : ∀ a b, r a b → test b = true → test a = true) :
    l.takeWhile test = l.filter test := by
  induction l with
  | nil => rfl
  | cons first l ih =>
      obtain ⟨hfirst, hrest⟩ := List.pairwise_cons.mp hsorted
      by_cases htest : test first = true
      · rw [List.takeWhile_cons_of_pos htest, List.filter_cons_of_pos htest, ih hrest]
      · have hnone : l.filter test = [] := by
          rw [List.filter_eq_nil_iff]
          intro a ha htesta
          exact htest (hdown first a (hfirst a ha) htesta)
        rw [List.takeWhile_cons_of_neg htest, List.filter_cons_of_neg htest, hnone]

/-- In a sorted list what passes the first test comes before what passes the second one. -/
theorem filter_append_filter {α : Type} {r : α → α → Prop} {first second : α → Bool} {l : List α}
    (hsorted : l.Pairwise r) (hdown : ∀ a b, r a b → second a = true → first b = false)
    (hapart : ∀ a, second a = true → first a = false) :
    l.filter first ++ l.filter second = l.filter fun a => first a || second a := by
  induction l with
  | nil => rfl
  | cons a l ih =>
      obtain ⟨hhead, hrest⟩ := List.pairwise_cons.mp hsorted
      rw [List.filter_cons, List.filter_cons, List.filter_cons, ← ih hrest]
      by_cases hsecond : second a = true
      · -- Nothing that follows passes the first test any more.
        have hnone : l.filter first = [] := by
          rw [List.filter_eq_nil_iff]
          intro b hb
          simp [hdown a b (hhead b hb) hsecond]
        simp [hsecond, hapart a hsecond, hnone]
      · cases hfirst : first a <;> simp [hsecond]

namespace SourceFile

/-! ## The index of the lines -/

theorem lookup_row (index : List (Nat × Places)) (line key : Nat) (places : Places) :
    ((line, places) :: index).lookup key =
      if key = line then some places else index.lookup key := by
  rw [List.lookup_cons]
  by_cases hkey : key = line
  · rw [if_pos hkey, beq_iff_eq.mpr hkey]
  · rw [if_neg hkey, beq_eq_false_iff_ne.mpr hkey]

/-- Entering a token ends the stretch of its line behind it, and leaves the other lines alone. -/
theorem lookup_enter (index : List (Nat × Places)) (line place key : Nat) :
    (enter line place index).lookup key =
      if key = line then some ⟨((index.lookup line).map Places.start).getD place, place + 1⟩
      else index.lookup key := by
  induction index with
  | nil => rw [enter, lookup_row]; rfl
  | cons row index ih =>
      obtain ⟨line', places⟩ := row
      rw [enter]
      by_cases hrow : line' = line
      · rw [if_pos hrow, hrow, lookup_row, lookup_row, lookup_row, if_pos rfl]
        split <;> rfl
      · rw [if_neg hrow, lookup_row, lookup_row, lookup_row, if_neg (Ne.symm hrow), ih]
        by_cases hkey : key = line'
        · rw [if_pos hkey, if_pos hkey, if_neg (hkey ▸ hrow)]
        · rw [if_neg hkey, if_neg hkey]

theorem indexLines_concat (ts : List Token) (t : Token) :
    indexLines (ts ++ [t]) = enter t.span.line ts.length (indexLines ts) := by
  simp [indexLines, List.zipIdx_append]

/-- Where the tokens of a line lie in a sorted list: behind those above the line, up to the last one
that is on it. -/
def placesOf (ts : List Token) (line : Nat) : Option Places :=
  if ∃ t ∈ ts, t.span.line = line then
    some ⟨ts.countP fun t => t.span.line < line, ts.countP fun t => t.span.line ≤ line⟩
  else none

section Concat

variable {ts : List Token} {t : Token} (hbefore : ∀ s ∈ ts, s.span.line ≤ t.span.line)
include hbefore

/-- The line of a token that is put at the end reaches up to that token. -/
theorem placesOf_concat_self :
    placesOf (ts ++ [t]) t.span.line =
      some ⟨((placesOf ts t.span.line).map Places.start).getD ts.length, ts.length + 1⟩ := by
  have hhere : ∃ s ∈ ts ++ [t], s.span.line = t.span.line := ⟨t, by simp, rfl⟩
  have hupTo : (ts.countP fun s => s.span.line ≤ t.span.line) = ts.length :=
    List.countP_eq_length.mpr fun s hs => decide_eq_true (hbefore s hs)
  rw [placesOf, placesOf, if_pos hhere, List.countP_append, List.countP_append, hupTo]
  by_cases hsome : ∃ s ∈ ts, s.span.line = t.span.line
  · simp [hsome]
  · -- The line is new: all tokens so far are above it.
    have habove : (ts.countP fun s => s.span.line < t.span.line) = ts.length := by
      rw [List.countP_eq_length]
      intro s hs
      have hne : s.span.line ≠ t.span.line := fun heq => hsome ⟨s, hs, heq⟩
      have hle := hbefore s hs
      simp only [decide_eq_true_eq]
      omega
    simp [hsome, habove]

/-- The other lines keep their places: those that have tokens lie above the new one. -/
theorem placesOf_concat_ne {line : Nat} (hline : line ≠ t.span.line) :
    placesOf (ts ++ [t]) line = placesOf ts line := by
  have hsame : (∃ s ∈ ts ++ [t], s.span.line = line) ↔ ∃ s ∈ ts, s.span.line = line := by
    simp [Ne.symm hline]
  rw [placesOf, placesOf, if_congr hsame rfl rfl]
  split
  · rename_i hsome
    obtain ⟨s, hs, rfl⟩ := hsome
    have hle := hbefore s hs
    have hbelow : ¬ t.span.line ≤ s.span.line := by omega
    simp [hbelow, Nat.not_lt.mpr hle]
  · rfl

end Concat

/-- Entered one by one, sorted tokens give every line its places. -/
theorem lookup_indexLines {ts : List Token}
    (hsorted : ts.Pairwise fun a b => a.span.line ≤ b.span.line) (line : Nat) :
    (indexLines ts).lookup line = placesOf ts line := by
  -- Tokens are entered from the front, so the induction takes them off the end.
  induction ts using List.reverseRecOn generalizing line with
  | nil => rfl
  | append_singleton ts t ih =>
      obtain ⟨hts, -, hlast⟩ := List.pairwise_append.mp hsorted
      have hbefore : ∀ s ∈ ts, s.span.line ≤ t.span.line :=
        fun s hs => hlast s hs t (List.mem_singleton_self t)
      rw [indexLines_concat, lookup_enter, ih hts, ih hts]
      by_cases hline : line = t.span.line
      · rw [if_pos hline, hline, placesOf_concat_self hbefore]
      · rw [if_neg hline, placesOf_concat_ne hbefore hline]

/-- In a sorted list the tokens of a line lie behind those above it. -/
theorem extract_countP {ts : List Token}
    (hsorted : ts.Pairwise fun a b => a.span.line ≤ b.span.line) (line : Nat) :
    ts.extract (ts.countP fun t => t.span.line < line) (ts.countP fun t => t.span.line ≤ line) =
      ts.filter fun t => t.span.line == line := by
  have hupTo : (ts.filter fun t => t.span.line < line) ++ (ts.filter fun t => t.span.line == line) =
      ts.filter fun t => t.span.line ≤ line := by
    rw [filter_append_filter hsorted]
    · refine List.filter_congr fun t _ => ?_
      rw [Bool.eq_iff_iff]
      simp only [Bool.or_eq_true, decide_eq_true_eq, beq_iff_eq]
      omega
    · intro a b hab ha
      simp only [beq_iff_eq, decide_eq_false_iff_not] at ha ⊢
      omega
    · intro a ha
      simp only [beq_iff_eq, decide_eq_false_iff_not] at ha ⊢
      omega
  -- The tokens down to the line are the front of the list, and those above it the front of these.
  have hfront : (ts.filter fun t => t.span.line ≤ line) <+: ts := by
    rw [← takeWhile_eq_filter hsorted]
    · exact List.takeWhile_prefix _
    · intro a b hab hb
      simp only [decide_eq_true_eq] at hb ⊢
      omega
  rw [List.extract_eq_take_drop, ← List.drop_take, List.countP_eq_length_filter,
    List.countP_eq_length_filter, ← List.prefix_iff_eq_take.mp hfront, ← hupTo]
  exact List.drop_left

theorem tokensOnLine_eq_filter (file : SourceFile) (line : Nat) :
    file.tokensOnLine line = file.tokens.filter fun t => t.span.line == line := by
  have hsorted : file.tokens.Pairwise fun a b => a.span.line ≤ b.span.line :=
    file.tokens_sorted.imp fun h => Position.line_le_of_le h
  rw [tokensOnLine, lineIndex, lookup_indexLines hsorted, placesOf]
  by_cases hsome : ∃ t ∈ file.tokens, t.span.line = line
  · rw [if_pos hsome]
    exact extract_countP hsorted line
  · rw [if_neg hsome]
    symm
    rw [List.filter_eq_nil_iff]
    intro t ht hline
    exact hsome ⟨t, ht, by simpa using hline⟩

end SourceFile

end EditorCore

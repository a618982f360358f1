import EditorCore.Text.Class

set_option autoImplicit false

/-! # The character classes are apart

A character that may stand in a word is no whitespace. Both classes are tables of ranges, so this
is a check on the tables (`apart`) together with the fact that a table holds nothing outside its
ranges. Line breaks are whitespace, so they are no word characters either.
-/

namespace EditorCore.Text

/-! ## Tables -/

/-- No range of the one table meets a range of the other. -/
def apart (table table' : List (Nat × Nat)) : Bool :=
  table.all fun r => table'.all fun r' => r.2.blt r'.1 || r'.2.blt r.1

/-- A number in a table lies in one of its ranges. -/
theorem exists_range_of_inRanges {table : List (Nat × Nat)} {n : Nat}
    (h : inRanges table n = true) : ∃ r ∈ table, r.1 ≤ n ∧ n ≤ r.2 := by
  induction table with
  | nil => cases h
  | cons r rest ih =>
      obtain ⟨lo, hi⟩ := r
      rw [inRanges] at h
      split at h
      · cases h
      · rename_i hlo
        rcases Bool.or_eq_true_iff.mp h with hhi | hrest
        · exact ⟨(lo, hi), List.mem_cons_self, Nat.not_lt.mp hlo, of_decide_eq_true hhi⟩
        · obtain ⟨r, hr, hbounds⟩ := ih hrest
          exact ⟨r, List.mem_cons_of_mem _ hr, hbounds⟩

theorem inRanges_of_apart {table table' : List (Nat × Nat)} (hapart : apart table table' = true)
    {n : Nat} (h : inRanges table n = true) : inRanges table' n = false := by
  rw [Bool.eq_false_iff]
  intro h'
  obtain ⟨r, hr, hlo, hhi⟩ := exists_range_of_inRanges h
  obtain ⟨r', hr', hlo', hhi'⟩ := exists_range_of_inRanges h'
  have hpair := List.all_eq_true.mp (List.all_eq_true.mp hapart r hr) r' hr'
  simp only [Bool.or_eq_true, Nat.blt_eq] at hpair
  omega

/-! ## Classes -/

theorem isWordChar_of_isWhitespace {c : Char} (h : isWhitespace c = true) :
    isWordChar c = false := by
  have halphabetic : isAlphabetic c = false := inRanges_of_apart (by decide +kernel) h
  have hnumeric : isNumeric c = false := inRanges_of_apart (by decide +kernel) h
  have hunderscore : c ≠ '_' := by
    rintro rfl
    exact absurd h (by decide)
  simp [isWordChar, isAlphanumeric, halphabetic, hnumeric, hunderscore]

theorem isWhitespace_of_isBreak {c : Char} (h : isBreak c = true) : isWhitespace c = true := by
  simp only [isBreak, Bool.or_eq_true, beq_iff_eq] at h
  rcases h with (((((rfl | rfl) | rfl) | rfl) | rfl) | rfl) | rfl <;> decide

theorem isWordChar_of_isBreak {c : Char} (h : isBreak c = true) : isWordChar c = false :=
  isWordChar_of_isWhitespace (isWhitespace_of_isBreak h)

theorem isBlank_iff (c : Char) : isBlank c = true ↔ isWhitespace c = true ∧ isBreak c = false := by
  simp [isBlank]

end EditorCore.Text

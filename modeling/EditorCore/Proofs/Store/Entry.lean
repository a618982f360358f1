import EditorCore.Proofs.Store.Table
import Mathlib.Data.List.Induction

set_option autoImplicit false

/-! # What a merge stores

`Entry.absorb` goes through the files of a parse one by one. Seen through look-ups it is a single
comparison for each path: the last file of the parse with that path takes the place of what is
stored, unless what is stored has a larger ticket. `Entry.install` is the same comparison for the
result of the whole project.
-/

namespace EditorCore

/-- The last file of the result with the given path, in any spelling. -/
def ParseResult.lastFile? (r : ParseResult) (path : Path) : Option SourceFile :=
  (r.files.filter (fun f => f.path.same path)).getLast?

/-- Some file of the result has the given path. -/
def ParseResult.Mentions (r : ParseResult) (path : Path) : Prop :=
  ∃ f ∈ r.files, f.path.same path = true

theorem ParseResult.lastFile?_eq_none_iff (r : ParseResult) (path : Path) :
    r.lastFile? path = none ↔ ¬ r.Mentions path := by
  simp [lastFile?, Mentions]

namespace Store.Entry

/-! ## Files -/

theorem newer?_congr (e : Entry) (ticket : Nat) {p q : Path} (h : p.same q = true) :
    e.newer? ticket p = e.newer? ticket q := by
  rw [newer?, newer?, Table.get?_congr path_equivalence e.files h]

/-- A later parse has stored the path exactly if a larger ticket is there. -/
theorem newer?_eq_none_iff (e : Entry) (ticket : Nat) (path : Path) :
    e.newer? ticket path = none ↔ ∀ s, e.files.get? path = some s → s.ticket ≤ ticket := by
  rw [newer?]
  cases e.files.get? path with
  | none => simp
  | some s => simp

/-- One file replaces what is stored for its path if that is not newer, and nothing else. -/
theorem get?_absorbFile (e : Entry) (ticket : Nat) (file : SourceFile) (path : Path) :
    (absorbFile ticket e file).files.get? path =
      if file.path.same path = true ∧ e.newer? ticket path = none then some ⟨ticket, file⟩
      else e.files.get? path := by
  rw [absorbFile]
  by_cases hsame : file.path.same path = true
  · rw [newer?_congr e ticket hsame]
    cases hnew : e.newer? ticket path with
    | some t => simp
    | none => simp [Table.get?_put path_equivalence, hsame]
  · rw [if_neg (fun h => hsame h.1)]
    cases e.newer? ticket file.path with
    | some t => rfl
    | none => simp [Table.get?_put path_equivalence, hsame]

/-- What a later parse has stored stays. -/
theorem get?_absorb_of_newer {e : Entry} {ticket : Nat} (result : ParseResult) {path : Path}
    {s : Stamped SourceFile} (hs : e.files.get? path = some s) (hlt : ticket < s.ticket) :
    (e.absorb ticket result).files.get? path = some s := by
  rw [absorb]
  induction result.files generalizing e with
  | nil => exact hs
  | cons file files ih =>
      refine ih ?_
      rw [get?_absorbFile, if_neg, hs]
      rintro ⟨-, hnone⟩
      exact absurd ((e.newer?_eq_none_iff ticket path).mp hnone s hs) (Nat.not_le.mpr hlt)

/-- What no later parse has stored is replaced by the last file with that path, if there is one. -/
theorem get?_absorb_of_not_newer {e : Entry} {ticket : Nat} (result : ParseResult) {path : Path}
    (hle : ∀ s, e.files.get? path = some s → s.ticket ≤ ticket) :
    (e.absorb ticket result).files.get? path =
      ((result.lastFile? path).map (Stamped.mk ticket)).or (e.files.get? path) := by
  rw [absorb, ParseResult.lastFile?]
  -- The last file decides, so the induction takes files off the end.
  induction result.files using List.reverseRecOn with
  | nil => rfl
  | append_singleton files file ih =>
      rw [List.foldl_append, List.foldl_cons, List.foldl_nil, get?_absorbFile, List.filter_append]
      by_cases hsame : file.path.same path = true
      · have hnone : (files.foldl (absorbFile ticket) e).newer? ticket path = none := by
          rw [newer?_eq_none_iff, ih]
          intro s hs
          rcases Option.or_eq_some_iff.mp hs with hmap | ⟨-, hold⟩
          · obtain ⟨f, -, rfl⟩ := Option.map_eq_some_iff.mp hmap
            exact Nat.le_refl ticket
          · exact hle s hold
        rw [if_pos ⟨hsame, hnone⟩]
        simp [hsame]
      · rw [if_neg (fun h => hsame h.1), ih]
        simp [hsame]

/-! ## What a merge leaves alone -/

/-- Storing one file changes the files only. -/
theorem absorbFile_frame (e : Entry) (ticket : Nat) (file : SourceFile) :
    (absorbFile ticket e file).context = e.context ∧
      (absorbFile ticket e file).lastTicket = e.lastTicket ∧
      (absorbFile ticket e file).latest = e.latest := by
  rw [absorbFile]
  cases e.newer? ticket file.path <;> exact ⟨rfl, rfl, rfl⟩

/-- Storing files changes the files only. -/
theorem absorb_frame (e : Entry) (ticket : Nat) (result : ParseResult) :
    (e.absorb ticket result).context = e.context ∧
      (e.absorb ticket result).lastTicket = e.lastTicket ∧
      (e.absorb ticket result).latest = e.latest := by
  rw [absorb]
  induction result.files generalizing e with
  | nil => exact ⟨rfl, rfl, rfl⟩
  | cons file files ih =>
      have hfile := absorbFile_frame e ticket file
      have hrest := ih (absorbFile ticket e file)
      rw [hfile.1, hfile.2.1, hfile.2.2] at hrest
      exact hrest

@[simp] theorem absorb_context (e : Entry) (ticket : Nat) (result : ParseResult) :
    (e.absorb ticket result).context = e.context := (absorb_frame e ticket result).1

@[simp] theorem absorb_lastTicket (e : Entry) (ticket : Nat) (result : ParseResult) :
    (e.absorb ticket result).lastTicket = e.lastTicket := (absorb_frame e ticket result).2.1

@[simp] theorem absorb_latest (e : Entry) (ticket : Nat) (result : ParseResult) :
    (e.absorb ticket result).latest = e.latest := (absorb_frame e ticket result).2.2

/-- Making a result the project's result changes that only. -/
theorem install_frame (e : Entry) (ticket : Nat) (result : ParseResult) :
    (e.install ticket result).context = e.context ∧
      (e.install ticket result).lastTicket = e.lastTicket ∧
      (e.install ticket result).files = e.files := by
  rw [install]
  cases e.latest with
  | none => exact ⟨rfl, rfl, rfl⟩
  | some s => by_cases h : s.ticket < ticket <;> simp [h]

@[simp] theorem install_context (e : Entry) (ticket : Nat) (result : ParseResult) :
    (e.install ticket result).context = e.context := (install_frame e ticket result).1

@[simp] theorem install_lastTicket (e : Entry) (ticket : Nat) (result : ParseResult) :
    (e.install ticket result).lastTicket = e.lastTicket := (install_frame e ticket result).2.1

@[simp] theorem install_files (e : Entry) (ticket : Nat) (result : ParseResult) :
    (e.install ticket result).files = e.files := (install_frame e ticket result).2.2

/-! ## The result of the project -/

theorem install_latest_of_newer {e : Entry} {ticket : Nat} (result : ParseResult)
    {s : Stamped ParseResult} (hs : e.latest = some s) (hle : ticket ≤ s.ticket) :
    (e.install ticket result).latest = some s := by
  rw [install, hs]
  simp [Nat.not_lt.mpr hle, hs]

theorem install_latest_of_not_newer {e : Entry} {ticket : Nat} (result : ParseResult)
    (hlt : ∀ s, e.latest = some s → s.ticket < ticket) :
    (e.install ticket result).latest = some ⟨ticket, result⟩ := by
  rw [install]
  cases hs : e.latest with
  | none => rfl
  | some s => simp [hlt s hs]

end Store.Entry

end EditorCore

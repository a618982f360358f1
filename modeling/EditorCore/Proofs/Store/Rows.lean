import EditorCore.Proofs.Store.Table

set_option autoImplicit false

/-! # The rows of a table

Look-ups do not tell whether a row is hidden behind another one with the same key. In a table that
was built by storing and dropping there is none: it has one row for each key (`Table.Distinct`). A
key that is there then splits the rows in two, and an update changes what stands between the two
halves and nothing else.
-/

namespace EditorCore.Store.Table

variable {κ α : Type} {same : κ → κ → Bool} {t : Table κ α same} {key : κ}

/-- No two rows have the same key. -/
def Distinct (t : Table κ α same) : Prop :=
  t.rows.Pairwise fun row row' => same row.1 row'.1 = false

theorem contains_eq_false_iff :
    t.contains key = false ↔ ∀ row ∈ t.rows, same row.1 key = false := by
  rw [contains, List.any_eq_false]
  simp

theorem rows_put_of_contains (h : t.contains key = true) (value : α) :
    (t.put key value).rows =
      t.rows.map fun row => if same row.1 key then (row.1, value) else row := by
  rw [put, if_pos h]

theorem rows_put_of_none (h : t.get? key = none) (value : α) :
    (t.put key value).rows = t.rows ++ [(key, value)] := by
  have hcontains : t.contains key = false := by
    rw [contains_eq_isSome, h]
    rfl
  rw [put, hcontains]
  rfl

theorem distinct_empty : (empty : Table κ α same).Distinct := List.Pairwise.nil

theorem Distinct.put (h : t.Distinct) (key : κ) (value : α) : (t.put key value).Distinct := by
  by_cases hcontains : t.contains key = true
  · -- A row that is replaced keeps its key.
    rw [Distinct, rows_put_of_contains hcontains, List.pairwise_map]
    refine h.imp ?_
    intro row row' hrows
    split <;> split <;> exact hrows
  · have hnone : t.get? key = none := by
      rw [contains_eq_isSome] at hcontains
      simpa using hcontains
    rw [Distinct, rows_put_of_none hnone, List.pairwise_append]
    refine ⟨h, List.pairwise_singleton _ _, ?_⟩
    intro row hrow row' hrow'
    rw [List.mem_singleton.mp hrow']
    exact contains_eq_false_iff.mp (by simpa using hcontains) row hrow

theorem Distinct.erase (h : t.Distinct) (key : κ) : (t.erase key).Distinct :=
  h.sublist List.filter_sublist

/-- The rows on the two sides of a key, and what updates do between them. -/
theorem Distinct.split (eqv : Equivalence fun a b => same a b = true) (h : t.Distinct) {v : α}
    (hget : t.get? key = some v) :
    ∃ front k back, t.rows = front ++ (k, v) :: back ∧
      (∀ value, (t.put key value).rows = front ++ (k, value) :: back) ∧
      (t.erase key).rows = front ++ back := by
  have hcontains : t.contains key = true := by
    rw [contains_eq_isSome, hget]
    rfl
  rw [get?, Option.map_eq_some_iff] at hget
  obtain ⟨⟨k, v⟩, hfind, rfl⟩ := hget
  obtain ⟨hk, front, back, hrows, hfront⟩ := List.find?_eq_some_iff_append.mp hfind
  have hfront' : ∀ row ∈ front, same row.1 key = false := fun row hrow => by
    simpa using hfront row hrow
  -- A second row with the key would have the key of the row that was found.
  have hback : ∀ row ∈ back, same row.1 key = false := by
    intro row hrow
    rw [Distinct, hrows, List.pairwise_append, List.pairwise_cons] at h
    have hne : same k row.1 = false := h.2.1.1 row hrow
    rw [Bool.eq_false_iff]
    intro hsame
    rw [eqv.trans hk (eqv.symm hsame)] at hne
    cases hne
  refine ⟨front, k, back, hrows, ?_, ?_⟩
  · intro value
    have hkeep : ∀ rows : List (κ × α), (∀ row ∈ rows, same row.1 key = false) →
        rows.map (fun row => if same row.1 key then (row.1, value) else row) = rows := by
      intro rows hnone
      rw [List.map_congr_left (g := id), List.map_id]
      intro row hrow
      rw [hnone row hrow]
      rfl
    rw [rows_put_of_contains hcontains, hrows, List.map_append, List.map_cons, hkeep front hfront',
      hkeep back hback, if_pos hk]
  · have hkeep : ∀ rows : List (κ × α), (∀ row ∈ rows, same row.1 key = false) →
        rows.filter (fun row => !same row.1 key) = rows := by
      intro rows hnone
      rw [List.filter_eq_self]
      intro row hrow
      rw [hnone row hrow]
      rfl
    show t.rows.filter (fun row => !same row.1 key) = front ++ back
    rw [hrows, List.filter_append, hkeep front hfront', List.filter_cons, hk, hkeep back hback]
    rfl

end EditorCore.Store.Table

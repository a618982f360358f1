import EditorCore.Store.Steps

set_option autoImplicit false

/-! # Tables and the store, seen through look-ups

A table whose test is an equivalence is determined by `get?`: the lemmas below say what every
update does to look-ups, and nothing after them opens the rows. The last section says the same of
the store, a table of entries by project name.
-/

namespace EditorCore.Store

namespace Table

variable {κ α : Type} {same : κ → κ → Bool}

/-- Keys that count as one have one value. -/
theorem get?_congr (eqv : Equivalence fun a b => same a b = true) (t : Table κ α same)
    {k k' : κ} (h : same k k' = true) : t.get? k = t.get? k' := by
  have htest : (fun row : κ × α => same row.1 k) = fun row => same row.1 k' := by
    funext row
    rw [Bool.eq_iff_iff]
    exact ⟨fun hr => eqv.trans hr h, fun hr => eqv.trans hr (eqv.symm h)⟩
  rw [get?, get?, htest]

theorem contains_eq_isSome (t : Table κ α same) (key : κ) :
    t.contains key = (t.get? key).isSome := by
  rw [contains, get?, Option.isSome_map, Bool.eq_iff_iff, List.find?_isSome, List.any_eq_true]

/-- Replacing the value of every row under `key` replaces what a look-up under it finds. -/
private theorem find?_replace (eqv : Equivalence fun a b => same a b = true)
    (rows : List (κ × α)) (key key' : κ) (value : α) :
    ((rows.map fun row => if same row.1 key then (row.1, value) else row).find?
        (fun row => same row.1 key')).map (·.2) =
      if same key key' then (rows.find? (fun row => same row.1 key)).map (fun _ => value)
      else (rows.find? (fun row => same row.1 key')).map (·.2) := by
  induction rows with
  | nil => simp
  | cons row rows ih =>
      by_cases hrow : same row.1 key = true
      · by_cases hkey : same key key' = true
        · have hrow' : same row.1 key' = true := eqv.trans hrow hkey
          simp [hrow, hkey, hrow']
        · have hrow' : ¬ same row.1 key' = true := fun h =>
            hkey (eqv.trans (eqv.symm hrow) h)
          simpa [hrow, hkey, hrow'] using ih
      · by_cases hkey : same key key' = true
        · have hrow' : ¬ same row.1 key' = true := fun h =>
            hrow (eqv.trans h (eqv.symm hkey))
          simpa [hrow, hkey, hrow'] using ih
        · by_cases hrow' : same row.1 key' = true
          · simp [hrow, hkey, hrow']
          · simpa [hrow, hkey, hrow'] using ih

/-- What a look-up finds after a value was stored. -/
theorem get?_put (eqv : Equivalence fun a b => same a b = true) (t : Table κ α same)
    (key key' : κ) (value : α) :
    (t.put key value).get? key' = if same key key' then some value else t.get? key' := by
  by_cases hc : t.contains key = true
  · have hsome : (t.rows.find? fun row => same row.1 key).isSome = true := by
      rw [contains_eq_isSome, get?, Option.isSome_map] at hc
      exact hc
    obtain ⟨row, hrow⟩ := Option.isSome_iff_exists.mp hsome
    rw [put, if_pos hc, get?, find?_replace eqv, hrow]
    rfl
  · have hnone : t.rows.find? (fun row => same row.1 key) = none := by
      rw [contains_eq_isSome, get?, Option.isSome_map] at hc
      simpa using hc
    -- No row has the key, so the new one, behind all others, is the first that can be found.
    rw [put, if_neg hc, get?, get?, List.find?_append]
    by_cases hkey : same key key' = true
    · have hcongr : t.get? key' = none := by
        rw [← get?_congr eqv t hkey, get?, hnone]
        rfl
      rw [get?, Option.map_eq_none_iff] at hcongr
      simp [hcongr, hkey]
    · simp [hkey]

/-- What a look-up finds after a key was dropped. -/
theorem get?_erase (eqv : Equivalence fun a b => same a b = true) (t : Table κ α same)
    (key key' : κ) :
    (t.erase key).get? key' = if same key key' then none else t.get? key' := by
  rw [erase, get?, List.find?_filter]
  by_cases hkey : same key key' = true
  · rw [if_pos hkey, Option.map_eq_none_iff, List.find?_eq_none]
    intro row _ hrow
    simp only [Bool.not_eq_true', decide_eq_true_eq] at hrow
    have hback : same row.1 key = true := eqv.trans hrow.2 (eqv.symm hkey)
    rw [hback] at hrow
    exact Bool.noConfusion hrow.1
  · rw [if_neg hkey, get?]
    congr 2
    funext row
    by_cases hrow : same row.1 key' = true
    · have hrow' : ¬ same row.1 key = true := fun h => hkey (eqv.trans (eqv.symm h) hrow)
      simp [hrow, hrow']
    · simp [hrow]

end Table

/-- The test on project names is equality. -/
theorem name_equivalence : Equivalence fun a b : String => (a == b) = true where
  refl := beq_self_eq_true
  symm h := beq_iff_eq.mpr (beq_iff_eq.mp h).symm
  trans h h' := beq_iff_eq.mpr ((beq_iff_eq.mp h).trans (beq_iff_eq.mp h'))

/-- The test on paths is equality of components. -/
theorem path_equivalence : Equivalence fun p q : Path => p.same q = true where
  refl p := beq_self_eq_true p.components
  symm h := beq_iff_eq.mpr (beq_iff_eq.mp h).symm
  trans h h' := beq_iff_eq.mpr ((beq_iff_eq.mp h).trans (beq_iff_eq.mp h'))

/-! ## The store -/

@[simp] theorem lookup_empty (project : String) : empty.entry? project = none := rfl

theorem lookup_putEntry (s : Store) (project project' : String) (e : Entry) :
    entry? (s.putEntry project e) project' =
      if project = project' then some e else s.entry? project' := by
  simp only [putEntry, entry?, Table.get?_put name_equivalence, beq_iff_eq]

theorem lookup_erase (s : Store) (project project' : String) :
    entry? ⟨s.entries.erase project⟩ project' =
      if project = project' then none else s.entry? project' := by
  simp only [Table.get?_erase name_equivalence, beq_iff_eq, entry?]

@[simp] theorem lookup_putEntry_self (s : Store) (project : String) (e : Entry) :
    entry? (s.putEntry project e) project = some e := by
  rw [lookup_putEntry, if_pos rfl]

theorem lookup_putEntry_ne (s : Store) {project project' : String} (h : project ≠ project')
    (e : Entry) : entry? (s.putEntry project e) project' = s.entry? project' := by
  rw [lookup_putEntry, if_neg h]

/-- What holds of all entries after one was put. -/
theorem forall_lookup_putEntry {P : String → Entry → Prop} {s : Store} {project : String}
    {e : Entry} (hnew : P project e)
    (hold : ∀ project' f, project ≠ project' → s.entry? project' = some f → P project' f) :
    ∀ project' f, entry? (s.putEntry project e) project' = some f → P project' f := by
  intro project' f hf
  by_cases hproject : project = project'
  · subst hproject
    rw [lookup_putEntry_self] at hf
    exact Option.some.inj hf ▸ hnew
  · rw [lookup_putEntry_ne s hproject] at hf
    exact hold project' f hproject hf

/-- What holds of all entries after one was dropped. -/
theorem forall_lookup_erase {P : String → Entry → Prop} {s : Store} {project : String}
    (hold : ∀ project' f, project ≠ project' → s.entry? project' = some f → P project' f) :
    ∀ project' f, entry? ⟨s.entries.erase project⟩ project' = some f →
      P project' f := by
  intro project' f hf
  rw [lookup_erase] at hf
  by_cases hproject : project = project'
  · rw [if_pos hproject] at hf
    cases hf
  · rw [if_neg hproject] at hf
    exact hold project' f hproject hf

theorem context?_eq_none_iff (s : Store) (project : String) :
    s.context? project = none ↔ s.entry? project = none := by
  rw [context?, Option.map_eq_none_iff]

end EditorCore.Store

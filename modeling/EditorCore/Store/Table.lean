set_option autoImplicit false

/-! # Tables

A table maps keys to values, keys being compared by a given test. Storing under a key that is
already there replaces the value and keeps the key as it was first spelled.
-/

namespace EditorCore.Store

/-- A table whose keys are compared by `same`. -/
structure Table (κ α : Type) (same : κ → κ → Bool) where
  rows : List (κ × α)

namespace Table

variable {κ α : Type} {same : κ → κ → Bool}

/-- The table without rows. -/
def empty : Table κ α same := ⟨[]⟩

/-- The value under a key. -/
def get? (t : Table κ α same) (key : κ) : Option α :=
  (t.rows.find? (fun row => same row.1 key)).map (·.2)

/-- There is a value under the key. -/
def contains (t : Table κ α same) (key : κ) : Bool := t.rows.any (fun row => same row.1 key)

/-- Stores a value under a key. -/
def put (t : Table κ α same) (key : κ) (value : α) : Table κ α same :=
  if t.contains key then
    ⟨t.rows.map fun row => if same row.1 key then (row.1, value) else row⟩
  else ⟨t.rows ++ [(key, value)]⟩

/-- Drops what is stored under a key. -/
def erase (t : Table κ α same) (key : κ) : Table κ α same :=
  ⟨t.rows.filter fun row => !same row.1 key⟩

/-- The keys, each as it was first spelled. -/
def keys (t : Table κ α same) : List κ := t.rows.map (·.1)

end Table

end EditorCore.Store

set_option autoImplicit false

/-! # Settings documents

A settings document is a list of nodes in the KDL 2.0 notation. A node has a name, arguments and
properties, and possibly nodes of its own. Type annotations are checked when a document is read
and not kept, nor is anything that was struck out.
-/

namespace EditorCore.Document

/-- A value in a document. A number is kept as it was spelled. -/
inductive Value where
  | text (s : String)
  | number (spelling : String)
  | boolean (b : Bool)
  | null
deriving DecidableEq, Repr

/-- What stands behind the name of a node: a value, or a key with a value. -/
inductive Entry where
  | argument (value : Value)
  | property (key : String) (value : Value)
deriving DecidableEq, Repr

/-- A node of a document. -/
structure Node where
  name : String
  entries : List Entry
  children : List Node
deriving Repr

mutual

/-- Two nodes are compared part by part. -/
def Node.decEq : (m n : Node) → Decidable (m = n)
  | ⟨name, entries, children⟩, ⟨name', entries', children'⟩ =>
      have := decEqNodes children children'
      decidable_of_iff (name = name' ∧ entries = entries' ∧ children = children')
        (by rw [Node.mk.injEq])

/-- Two lists of nodes are compared node by node. -/
def decEqNodes : (ms ns : List Node) → Decidable (ms = ns)
  | [], [] => isTrue rfl
  | [], _ :: _ => isFalse (by simp)
  | _ :: _, [] => isFalse (by simp)
  | m :: ms, n :: ns =>
      have := Node.decEq m n
      have := decEqNodes ms ns
      decidable_of_iff (m = n ∧ ms = ns) (by rw [List.cons.injEq])

end

instance : DecidableEq Node := Node.decEq

/-- The text of an entry that is an argument and a text. -/
def Entry.text? : Entry → Option String
  | .argument (.text s) => some s
  | _ => none

/-- The arguments of a node that are texts. -/
def Node.texts (n : Node) : List String := n.entries.filterMap Entry.text?

theorem Entry.text?_eq_some_iff {e : Entry} {s : String} :
    e.text? = some s ↔ e = .argument (.text s) := by
  unfold text?
  split
  · simp
  · rename_i hother
    simp only [reduceCtorEq, false_iff]
    exact hother s

/-- The texts of a node are the texts among its arguments. -/
theorem Node.mem_texts_iff {n : Node} {s : String} :
    s ∈ n.texts ↔ .argument (.text s) ∈ n.entries := by
  simp [texts, Entry.text?_eq_some_iff]

end EditorCore.Document

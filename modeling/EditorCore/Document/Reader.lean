import EditorCore.Document.Number

set_option autoImplicit false

/-! # Reading a settings document

A document is a list of nodes, each ended by a line end, a semicolon, a line comment or the end of
the text. A node is a name and then entries, each behind a blank; after the entries there may be
one block of children in braces. A slash and a dash strike out the node, entry or block after
them, which must still be well formed. A struck-out node counts as a blank between nodes and has
no end of its own. A byte order mark in front of the document is passed over.

The functions on nodes call each other, so they take a bound on the depth of their calls; every
round of calls reads some character, and `parse` gives a bound that no text can exhaust.
-/

namespace EditorCore.Document

/-- Passes over a type annotation and the blanks behind it, if there is one. -/
def skipAnnotation : List Char → Option (List Char)
  | '(' :: rest => do
      let (_, rest) ← anyText (← skipBlanks rest)
      match ← skipBlanks rest with
      | ')' :: rest => skipBlanks rest
      | _ => none
  | cs => some cs

/-- Reads a value. -/
def value (cs : List Char) : Option (Value × List Char) := do
  let cs ← skipAnnotation cs
  match anyText cs with
  | some (s, rest) => some (.text s, rest)
  | none => (keyword cs).or (number cs)

/-- The rest behind a key and its equals sign, if this is a property. -/
def propertyKey (cs : List Char) : Option (String × List Char) := do
  let (key, rest) ← anyText cs
  match ← skipBlanks rest with
  | '=' :: rest => some (key, rest)
  | _ => none

/-- Reads an entry of a node. -/
def entry (cs : List Char) : Option (Entry × List Char) :=
  match propertyKey cs with
  | some (key, rest) => do
      let (v, rest) ← value (← skipBlanks rest)
      some (.property key v, rest)
  | none => (value cs).map fun (v, rest) => (.argument v, rest)

/-- The entries of a node are over: the node ends here, or a block starts. -/
def endsEntries : List Char → Bool
  | [] => true
  | '/' :: '/' :: _ => true
  | c :: _ => c == ';' || c == '\x7b' || c == '\x7d' || Text.isBreak c

/-- Passes over what is struck out as an entry. Struck out in its turn, such an entry takes the next
one along. -/
def struckEntry : Nat → List Char → Option (List Char)
  | 0, _ => none
  | bound + 1, '/' :: '-' :: rest => do
      let rest ← struckEntry bound (← skipLines rest)
      let (_, rest) ← entry (← skipBlanks rest)
      some rest
  | _, cs => (entry cs).map (·.2)

/-- Reads entries, each behind a blank, and leaves the blanks behind the last one. -/
def entries : Nat → List Char → Option (List Entry × List Char)
  | 0, _ => none
  | bound + 1, cs =>
      if startsBlank cs then do
        match ← skipBlanks cs with
        | '/' :: '-' :: rest =>
            match ← skipLines rest with
            | '\x7b' :: _ => some ([], cs)
            | rest => entries bound (← struckEntry (rest.length + 1) rest)
        | rest =>
            if endsEntries rest then some ([], cs)
            else
              let (e, rest) ← entry rest
              let (es, rest) ← entries bound rest
              some (e :: es, rest)
      else some ([], cs)

/-- The rest behind the end of a node. A line comment is left to the blanks between nodes. -/
def nodeEnd : List Char → Option (List Char)
  | [] => some []
  | ';' :: rest => some rest
  | '/' :: '/' :: rest => some ('/' :: '/' :: rest)
  | cs => newline? cs

mutual

/-- Passes over the blanks between nodes and the nodes that are struck out there. These need no
end of their own and must not have a semicolon. -/
def gap : Nat → List Char → Option (List Char)
  | 0, _ => none
  | bound + 1, cs => do
      match ← skipLines cs with
      | '/' :: '-' :: rest =>
          let (_, rest) ← node bound (← skipLines rest)
          gap bound rest
      | rest => some rest

/-- Reads nodes as far as they go. Behind a node without an end only a gap may follow. -/
def nodes : Nat → List Char → Option (List Node × List Char)
  | 0, _ => none
  | bound + 1, cs => do
      match ← gap bound cs with
      | [] => some ([], [])
      | '\x7d' :: rest => some ([], '\x7d' :: rest)
      | rest =>
          let (n, rest) ← node bound rest
          match nodeEnd rest with
          | some rest =>
              let (ns, rest) ← nodes bound rest
              some (n :: ns, rest)
          | none =>
              let rest ← gap bound rest
              some ([n], rest)

/-- Reads a node without its end. -/
def node : Nat → List Char → Option (Node × List Char)
  | 0, _ => none
  | bound + 1, cs => do
      let (name, rest) ← anyText (← skipAnnotation cs)
      let (es, rest) ← entries (rest.length + 1) rest
      let rest ← struckBlocks bound true rest
      match ← skipBlanks rest with
      | '\x7b' :: rest =>
          let (children, rest) ← block bound rest
          let rest ← struckBlocks bound false rest
          some (⟨name, es, children⟩, ← skipBlanks rest)
      | rest => some (⟨name, es, []⟩, rest)

/-- Reads a block of nodes behind its opening brace. -/
def block : Nat → List Char → Option (List Node × List Char)
  | 0, _ => none
  | bound + 1, cs => do
      match ← nodes bound cs with
      | (ns, '\x7d' :: rest) => some (ns, rest)
      | _ => none

/-- Passes over blocks that are struck out. Blanks must stand before each of them; only the first
needs none if `apart` is false. -/
def struckBlocks : Nat → Bool → List Char → Option (List Char)
  | 0, _, _ => none
  | bound + 1, apart, cs =>
      if apart && !startsBlank cs then some cs
      else do
        match ← skipBlanks cs with
        | '/' :: '-' :: rest =>
            match ← skipLines rest with
            | '\x7b' :: rest =>
                let (_, rest) ← block bound rest
                struckBlocks bound true rest
            | _ => some cs
        | _ => some cs

end

/-- The text without a byte order mark. -/
def dropMark : List Char → List Char
  | '\uFEFF' :: rest => rest
  | cs => cs

/-- Reads a document. -/
def parse (text : String) : Option (List Node) :=
  let cs := dropMark text.toList
  match nodes (2 * cs.length + 5) cs with
  | some (ns, []) => some ns
  | _ => none

end EditorCore.Document

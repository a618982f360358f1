import EditorCore.Proofs.Paint.Replay

set_option autoImplicit false

/-! # Regions and the nesting of a source text

A well-nested source text is a forest: code lines, directives that open or close nothing, and
groups of branches that hold forests again. Written line by line it gives a list of directives, and
the regions of that list are the nesting read back: a code line is inactive exactly if some branch
around it was not taken, and a directive never is (`isInactive_nested`).

The nesting is walked only once. `Forest.pieces` flattens a forest into the sequence of what is
written, each code line with the verdicts around it, and `agrees_forest` says that a replay of that
sequence meets at every code line the stack of exactly these verdicts. Everything about line
numbers is then proved along the flat sequence.
-/

namespace EditorCore.Paint

/-! ## Forests -/

/-- A directive apart from its place, for the directives that play a given part in groups. It takes
`extraLines` lines beside its first. -/
structure Heading (role : Option Conditional) where
  kind : DirectiveKind
  hash : Span
  keyword : Span
  extraLines : Nat
  taken : Bool
  plays : kind.conditional = role

mutual

/-- One item of a well-nested text: a code line, a directive outside the nesting, or a group of
branches, of which `body` is the first. -/
inductive Item where
  | code
  | plain (heading : Heading none)
  | group (opening : Heading (some .opens)) (body : Forest) (more : Branches)
      (ending : Heading (some .closes))

/-- A well-nested text. -/
inductive Forest where
  | nil
  | cons (item : Item) (rest : Forest)

/-- The branches of a group after the first. -/
inductive Branches where
  | nil
  | cons (heading : Heading (some .branches)) (body : Forest) (rest : Branches)

end

/-! ## Layout -/

/-- What is written: a code line, with the verdicts on the branches around it, innermost first, or
a directive. -/
inductive Piece where
  | code (around : List Bool)
  | directive (role : Option Conditional) (heading : Heading role)

mutual

/-- What is written of an item that stands inside branches with the given verdicts. -/
def Item.pieces (around : List Bool) : Item → List Piece
  | .code => [.code around]
  | .plain heading => [.directive _ heading]
  | .group opening body more ending =>
      .directive _ opening :: (body.pieces (opening.taken :: around) ++ more.pieces around) ++
        [.directive _ ending]

/-- What is written of a forest. -/
def Forest.pieces (around : List Bool) : Forest → List Piece
  | .nil => []
  | .cons item rest => item.pieces around ++ rest.pieces around

/-- What is written of the branches after the first. -/
def Branches.pieces (around : List Bool) : Branches → List Piece
  | .nil => []
  | .cons heading body rest =>
      .directive _ heading :: body.pieces (heading.taken :: around) ++ rest.pieces around

end

/-- What a line of the text is. -/
inductive Row where
  | code (around : List Bool)
  | directive

/-- The lines of one piece. -/
def Piece.rows : Piece → List Row
  | .code around => [.code around]
  | .directive _ heading => List.replicate (heading.extraLines + 1) .directive

/-- The directive whose first line is the given one. -/
def Heading.startingAt {role : Option Conditional} (heading : Heading role) (line : Nat) :
    Directive :=
  .ofLines heading.kind heading.hash heading.keyword line (line + heading.extraLines) heading.taken

/-- The directives of a sequence of pieces written from the given line on. -/
def directivesFrom : Nat → List Piece → List Directive
  | _, [] => []
  | line, .code _ :: rest => directivesFrom (line + 1) rest
  | line, .directive _ heading :: rest =>
      heading.startingAt line :: directivesFrom (line + (heading.extraLines + 1)) rest

/-- The lines of a forest, one after another. -/
def Forest.rows (forest : Forest) : List Row := (forest.pieces []).flatMap Piece.rows

/-- The directives of a forest that is written from the given line on. -/
def Forest.directives (forest : Forest) (first : Nat) : List Directive :=
  directivesFrom first (forest.pieces [])

/-! ## The nesting, once -/

/-- The stack of verdicts after a directive. -/
def Heading.effect {role : Option Conditional} (heading : Heading role) (stack : List Bool) :
    List Bool :=
  verdictsAfter stack (heading.startingAt 0)

theorem effect_none (heading : Heading none) (stack : List Bool) :
    heading.effect stack = stack := by
  show verdictsAfter stack (heading.startingAt 0) = stack
  simp only [verdictsAfter, Heading.startingAt, Directive.ofLines, heading.plays]

theorem effect_opens (heading : Heading (some .opens)) (stack : List Bool) :
    heading.effect stack = heading.taken :: stack := by
  show verdictsAfter stack (heading.startingAt 0) = heading.taken :: stack
  simp only [verdictsAfter, Heading.startingAt, Directive.ofLines, heading.plays]

theorem effect_branches (heading : Heading (some .branches)) (verdict : Bool) (stack : List Bool) :
    heading.effect (verdict :: stack) = heading.taken :: stack := by
  show verdictsAfter (verdict :: stack) (heading.startingAt 0) = heading.taken :: stack
  simp only [verdictsAfter, Heading.startingAt, Directive.ofLines, heading.plays,
    List.modifyHead_cons]

theorem effect_closes (heading : Heading (some .closes)) (verdict : Bool) (stack : List Bool) :
    heading.effect (verdict :: stack) = stack := by
  show verdictsAfter (verdict :: stack) (heading.startingAt 0) = stack
  simp only [verdictsAfter, Heading.startingAt, Directive.ofLines, heading.plays, List.tail_cons]

/-- A replay of the pieces that starts with one stack ends with the other, and meets at every code
line the stack that the line is marked with. -/
def Agrees : List Bool → List Piece → List Bool → Prop
  | stack, [], final => stack = final
  | stack, .code around :: rest, final => around = stack ∧ Agrees stack rest final
  | stack, .directive _ heading :: rest, final => Agrees (heading.effect stack) rest final

theorem Agrees.append {stack middle final : List Bool} {ps qs : List Piece}
    (hps : Agrees stack ps middle) (hqs : Agrees middle qs final) :
    Agrees stack (ps ++ qs) final := by
  induction ps generalizing stack with
  | nil => exact (show stack = middle from hps) ▸ hqs
  | cons p ps ih =>
      cases p with
      | code around => exact ⟨hps.1, ih hps.2⟩
      | directive role heading =>
          show Agrees (heading.effect stack) (ps ++ qs) final
          exact ih hps

mutual

theorem agrees_item (stack : List Bool) : ∀ item : Item, Agrees stack (item.pieces stack) stack
  | .code => ⟨rfl, rfl⟩
  | .plain heading => by
      simp only [Item.pieces, Agrees]
      exact effect_none heading stack
  | .group opening body more ending => by
      -- Which verdict the last branch leaves on top does not matter: the close drops it.
      obtain ⟨verdict, hmore⟩ := agrees_branches stack more opening.taken
      have hbody : Agrees (opening.effect stack) (body.pieces (opening.taken :: stack))
          (opening.taken :: stack) := by
        rw [effect_opens]
        exact agrees_forest (opening.taken :: stack) body
      have hending : Agrees (verdict :: stack) [.directive _ ending] stack :=
        effect_closes ending verdict stack
      exact (hbody.append hmore).append hending

/-- A forest leaves the stack as it was. -/
theorem agrees_forest (stack : List Bool) :
    ∀ forest : Forest, Agrees stack (forest.pieces stack) stack
  | .nil => rfl
  | .cons item rest => (agrees_item stack item).append (agrees_forest stack rest)

/-- Further branches leave a stack with another verdict on top. -/
theorem agrees_branches (stack : List Bool) : ∀ (branches : Branches) (verdict : Bool),
    ∃ last, Agrees (verdict :: stack) (branches.pieces stack) (last :: stack)
  | .nil, verdict => ⟨verdict, rfl⟩
  | .cons heading body rest, verdict => by
      obtain ⟨last, hrest⟩ := agrees_branches stack rest heading.taken
      refine ⟨last, ?_⟩
      show Agrees (heading.effect (verdict :: stack)) _ _
      rw [effect_branches]
      exact (agrees_forest (heading.taken :: stack) body).append hrest

end

/-! ## Line numbers, along the flat sequence -/

/-- The lines of a sequence of pieces. -/
abbrev rowsOf (pieces : List Piece) : List Row := pieces.flatMap Piece.rows

theorem rowsOf_code (around : List Bool) (pieces : List Piece) :
    rowsOf (.code around :: pieces) = .code around :: rowsOf pieces := rfl

theorem rowsOf_directive {role : Option Conditional} (heading : Heading role)
    (pieces : List Piece) :
    rowsOf (.directive role heading :: pieces) =
      List.replicate (heading.extraLines + 1) .directive ++ rowsOf pieces := rfl

theorem startingAt_firstLine {role : Option Conditional} (heading : Heading role) (line : Nat) :
    (heading.startingAt line).firstLine = line := rfl

theorem startingAt_lastLine {role : Option Conditional} (heading : Heading role) (line : Nat) :
    (heading.startingAt line).lastLine = line + heading.extraLines :=
  Nat.max_eq_right (Nat.le_add_right line heading.extraLines)

/-- Directives lie within the lines of their pieces. -/
theorem bounds_of_mem_directivesFrom {pieces : List Piece} {line : Nat} {d : Directive}
    (hd : d ∈ directivesFrom line pieces) :
    line ≤ d.firstLine ∧ d.firstLine ≤ d.lastLine ∧
      d.lastLine < line + (rowsOf pieces).length := by
  induction pieces generalizing line with
  | nil => cases hd
  | cons p pieces ih =>
      cases p with
      | code around =>
          have := ih hd
          rw [rowsOf_code, List.length_cons]
          omega
      | directive role heading =>
          rw [rowsOf_directive, List.length_append, List.length_replicate]
          rcases List.mem_cons.mp hd with rfl | hd
          · rw [startingAt_firstLine, startingAt_lastLine]
            omega
          · have := ih hd
            omega

section Regions

variable {forest : Forest} {first : Nat}

theorem Forest.bounds {d : Directive} (hd : d ∈ forest.directives first) :
    first ≤ d.firstLine ∧ d.firstLine ≤ d.lastLine ∧ d.lastLine < first + forest.rows.length :=
  bounds_of_mem_directivesFrom hd

theorem Forest.isInactive_of_limit_le (fits : first + forest.rows.length ≤ wordLimit + 1)
    {line : Nat} (hline : wordLimit ≤ line) :
    (Regions.ofDirectives (forest.directives first)).isInactive line = false := by
  refine Regions.isInactive_of_limit_le (fun d hd => ?_) hline
  have := bounds hd
  omega

end Regions

end EditorCore.Paint

import EditorCore.Source.Directive

set_option autoImplicit false

/-! # Inactive regions

Lines between directives are inactive while some enclosing conditional branch was not taken. The
open groups are a stack of verdicts, innermost first: opening a group pushes the verdict on its
first branch, a further branch replaces the top one, closing pops it. Lines of a directive belong
to no region.
-/

namespace EditorCore.Paint

/-- A range of lines, `stop` not included. -/
structure LineRange where
  start : Nat
  stop : Nat
deriving DecidableEq, Repr

/-- The line lies in the range. -/
def LineRange.contains (r : LineRange) (line : Nat) : Bool := r.start ≤ line && line < r.stop

/-- The open conditional groups, innermost first: was the current branch taken? -/
abbrev Groups := List Bool

namespace Groups

/-- The groups after a directive. A branch or a close outside every group changes nothing. -/
def apply (groups : Groups) (d : Directive) : Groups :=
  match d.kind.conditional, groups with
  | some .opens, _ => d.taken :: groups
  | some .branches, _ :: outer => d.taken :: outer
  | some .closes, _ :: outer => outer
  | _, _ => groups

/-- Some enclosing branch was not taken. -/
def inactive (groups : Groups) : Bool := groups.contains false

end Groups

/-- The inactive regions of a file, in the order in which they were closed. -/
structure Regions where
  ranges : List LineRange
deriving DecidableEq, Repr

namespace Regions

/-- The first line after a directive, as far as there is one. -/
def lineAfter (d : Directive) : Nat := min (d.lastLine + 1) wordLimit

/-- The regions from a point on: the groups open there, and the first line that no directive has
claimed yet. An inactive group that is never closed runs on to the end of the file. -/
def collect (groups : Groups) (gap : Nat) : List Directive → List LineRange
  | [] => if groups.inactive then [⟨gap, wordLimit⟩] else []
  | d :: rest =>
      let later := collect (groups.apply d) (max gap (lineAfter d)) rest
      if groups.inactive && gap < d.firstLine then ⟨gap, d.firstLine⟩ :: later else later

/-- The inactive regions that a file's directives leave. -/
def ofDirectives (directives : List Directive) : Regions := ⟨collect [] 0 directives⟩

/-- Halving search for the number of leading ranges that end at or before a line. The answer lies
among the `size` places from `base` on. -/
def search (ranges : List LineRange) (line base size : Nat) : Nat :=
  if size ≤ 1 then
    match ranges[base]? with
    | some r => if r.stop ≤ line then base + 1 else base
    | none => base
  else
    let middle := base + size / 2
    match ranges[middle]? with
    | some r => search ranges line (if r.stop ≤ line then middle else base) (size - size / 2)
    | none => base
termination_by size

/-- The line lies in an inactive region. -/
def isInactive (regions : Regions) (line : Nat) : Bool :=
  match regions.ranges[search regions.ranges line 0 regions.ranges.length]? with
  | some r => r.contains line
  | none => false

end Regions

end EditorCore.Paint

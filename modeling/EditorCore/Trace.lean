import EditorCore.Event
import EditorCore.Cursor.Scan
import EditorCore.Paint.Painter

set_option autoImplicit false

/-! # Events of reading and painting

Reading and painting have no effects; what they report is a function of the same arguments.
-/

namespace EditorCore

/-- What `Cursor.scan` reports: a cursor outside the buffer. -/
def Cursor.scanEvents (buffer : List Char) (offset : Nat) : List Event :=
  if buffer.length < offset then [.scanOutside offset buffer.length] else []

/-- What `Cursor.wordBefore` reports, and with it a request for completion: a cursor outside the
buffer. -/
def Cursor.wordEvents (buffer : List Char) (offset : Nat) : List Event :=
  if buffer.length < offset then [.wordOutside offset buffer.length] else []

namespace Paint

/-- What a directive reports that finds no open group although it needs one. -/
def Groups.strayEvent (groups : Groups) (d : Directive) : List Event :=
  match d.kind.conditional, groups with
  | some .branches, [] => [.strayBranch d.firstLine]
  | some .closes, [] => [.strayClose d.firstLine]
  | _, _ => []

/-- What `Regions.collect` reports from the given open groups on. -/
def Regions.collectEvents (groups : Groups) : List Directive → List Event
  | [] => []
  | d :: rest => groups.strayEvent d ++ collectEvents (groups.apply d) rest

/-- What `Regions.ofDirectives` reports. -/
def Regions.events (directives : List Directive) : List Event := collectEvents [] directives

/-- What `Painter.ofFile` reports. -/
def Painter.fileEvents (file : SourceFile) : List Event := Regions.events file.directives

/-- What `Painter.paintLine` reports: a line that the buffer does not have. -/
def Painter.lineEvents (buffer : List Char) (line : Nat) : List Event :=
  match LineSpan.resolve buffer line with
  | .ok _ => []
  | .error cause => [.lineSkipped cause]

/-- What `Painter.paintLines` reports. -/
def Painter.linesEvents (buffer : List Char) (first stop : Nat) : List Event :=
  (List.range' first (stop - first)).flatMap (Painter.lineEvents buffer)

end Paint

/-- What `Config.options` reports: include paths that are no directories. -/
def Settings.Config.optionEvents (files : FileTree) (c : Config) : List Event :=
  (c.absentIncludePaths files).map .includePathAbsent

end EditorCore

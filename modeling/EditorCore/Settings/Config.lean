import EditorCore.Settings.Error
import EditorCore.Document.Reader

set_option autoImplicit false

/-! # Project settings

The settings of a project are the top-level nodes of its settings document: each is a name with
the texts given to it. `root` and `main-config` take one text, and the last node that has one
wins; the other settings collect all their texts. A node without a text and a node of an unknown
name leave a warning and nothing else.
-/

namespace EditorCore.Settings

/-- One setting: a name and the texts given to it. -/
structure Setting where
  name : String
  values : List String
deriving DecidableEq, Repr

/-- The setting that a node of the document is. -/
def Setting.ofNode (n : Document.Node) : Setting := ⟨n.name, n.texts⟩

/-- The settings of one project, as far as the front end is concerned. A macro is a name, or a
name and a value with an equals sign between them. -/
structure Config where
  root : Path
  mainConfig : Option String
  includePaths : List Path
  macros : List String
  defaultIncludes : List Path
  warnings : List Warning
deriving DecidableEq, Repr

/-- Settings that may still lack a root. -/
structure Draft where
  root : Option Path
  mainConfig : Option String
  includePaths : List Path
  macros : List String
  defaultIncludes : List Path
  warnings : List Warning
deriving DecidableEq, Repr

namespace Draft

/-- Nothing set. -/
def empty : Draft := ⟨none, none, [], [], [], []⟩

/-- The draft with one more warning. -/
def warn (d : Draft) (w : Warning) : Draft := { d with warnings := d.warnings ++ [w] }

/-- The draft with one more setting. -/
def add (d : Draft) (s : Setting) : Draft :=
  match s.values with
  | [] => d.warn (.empty s.name)
  | first :: _ =>
      match s.name with
      | "root" => { d with root := some ⟨first⟩ }
      | "main-config" => { d with mainConfig := some first }
      | "include" => { d with includePaths := d.includePaths ++ s.values.map Path.mk }
      | "define" => { d with macros := d.macros ++ s.values }
      | "default-include" => { d with defaultIncludes := d.defaultIncludes ++ s.values.map Path.mk }
      | name => d.warn (.unknown name)

/-- Settings are complete once they have a root. -/
def complete (d : Draft) : Except SettingsError Config :=
  match d.root with
  | none => .error .missingRoot
  | some root =>
      .ok ⟨root, d.mainConfig, d.includePaths, d.macros, d.defaultIncludes, d.warnings⟩

end Draft

namespace Config

/-- The settings with nothing but a root. -/
def ofRoot (root : Path) : Config := ⟨root, none, [], [], [], []⟩

/-- Reads a sequence of settings. -/
def ofSettings (settings : List Setting) : Except SettingsError Config :=
  (settings.foldl Draft.add Draft.empty).complete

/-- Reads a settings document, whatever turns its text into nodes. -/
def parseWith (read : String → Option (List Document.Node)) (text : String) :
    Except SettingsError Config :=
  match read text with
  | none => .error .malformed
  | some nodes => ofSettings (nodes.map Setting.ofNode)

/-- Reads a settings document. -/
def parse (text : String) : Except SettingsError Config := parseWith Document.parse text

/-- Reads a settings document from a file. -/
def load (files : FileTree) (path : Path) : Except SettingsError Config :=
  match files.read path with
  | .error reason => .error (.unreadable path reason)
  | .ok text => parse text

end Config

end EditorCore.Settings

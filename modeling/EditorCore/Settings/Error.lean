import EditorCore.Files.Tree

set_option autoImplicit false

/-! # What can be wrong with project settings -/

namespace EditorCore.Settings

/-- Why settings cannot be read, or cannot be used. -/
inductive SettingsError where
  | malformed
  | unreadable (path : Path) (reason : ReadError)
  | missingRoot
  | relativeRoot (root : Path)
  | invalidMacro (definition : String)
  | missingFile (path : Path)
deriving DecidableEq, Repr

/-- The text shown for the error. -/
def SettingsError.message : SettingsError → String
  | malformed => "KDL parse error: Failed to parse KDL document"
  | unreadable path reason => s!"I/O error reading {path.text}: {reason.message}"
  | missingRoot => "missing required field: root"
  | relativeRoot root => s!"project root is not absolute: {root.text}"
  | invalidMacro definition => s!"invalid macro definition: '{definition}'"
  | missingFile path => s!"default include not found: {path.text}"

/-- Something in the settings that was passed over. -/
inductive Warning where
  | unknown (name : String)
  | empty (name : String)
deriving DecidableEq, Repr

/-- The text shown for the warning. -/
def Warning.message : Warning → String
  | unknown name => s!"unknown setting '{name}' ignored"
  | empty name => s!"setting '{name}' has no value"

end EditorCore.Settings

import EditorCore.Settings.Config

set_option autoImplicit false

/-! # Options for the front end

Valid settings give an ordered list of options: include paths, macros, files included by default,
the main configuration, and last the root. Relative paths are taken from the root, which must be
absolute. An include path need not exist; a file included by default must.
-/

namespace EditorCore.Settings

/-- One option of the front end. -/
inductive Flag where
  | includePath (path : Path)
  | define (definition : String)
  | defaultInclude (path : Path)
  | mainConfig (name : String)
  | projectRoot (path : Path)
deriving DecidableEq, Repr

namespace Flag

/-- The switch that introduces the option. -/
def switch : Flag → String
  | includePath _ => "-I"
  | define _ => "-D"
  | defaultInclude _ => "-include"
  | mainConfig _ => "-m"
  | projectRoot _ => "-p"

/-- The value behind the switch. -/
def value : Flag → String
  | includePath path => path.text
  | define definition => definition
  | defaultInclude path => path.text
  | mainConfig name => name
  | projectRoot path => path.text

/-- The argument list that carries the options. -/
def arguments (flags : List Flag) : List String := flags.flatMap fun f => [f.switch, f.value]

end Flag

/-- An ASCII letter or an underscore. -/
def isNameStart (c : Char) : Bool := c.isAlpha || c == '_'

/-- An ASCII letter, an ASCII digit or an underscore. -/
def isNameChar (c : Char) : Bool := c.isAlphanum || c == '_'

/-- A name that the preprocessor takes for a macro. -/
def isMacroName : List Char → Bool
  | [] => false
  | c :: rest => isNameStart c && rest.all isNameChar

/-- The name that a macro definition defines: what stands before its first equals sign. -/
def macroName (definition : String) : List Char := definition.toList.takeWhile (· != '=')

/-- The option for a macro definition, if it defines a proper name. -/
def checkMacro (definition : String) : Except SettingsError Flag :=
  if isMacroName (macroName definition) then .ok (.define definition)
  else .error (.invalidMacro definition)

/-- The option for a file included by default, if there is such a file. -/
def checkInclude (isFile : Path → Bool) (path : Path) : Except SettingsError Flag :=
  if isFile path then .ok (.defaultInclude path) else .error (.missingFile path)

namespace Config

/-- The option for the main configuration; an empty name counts as none. -/
def mainFlag (c : Config) : List Flag :=
  match c.mainConfig with
  | some name => if name.isEmpty then [] else [.mainConfig name]
  | none => []

/-- The include paths, seen from the root. -/
def resolvedIncludePaths (c : Config) : List Path := c.includePaths.map c.root.resolve

/-- The files included by default, seen from the root. -/
def resolvedDefaultIncludes (c : Config) : List Path := c.defaultIncludes.map c.root.resolve

/-- Checks the settings and gives the options for the front end. All that the check asks of a file
system is which paths lead to regular files. -/
def optionsWhere (isFile : Path → Bool) (c : Config) : Except SettingsError (List Flag) :=
  if c.root.isAbsolute then do
    let defines ← c.macros.mapM checkMacro
    let includes ← c.resolvedDefaultIncludes.mapM (checkInclude isFile)
    return c.resolvedIncludePaths.map .includePath ++ defines ++ includes ++ c.mainFlag ++
      [.projectRoot c.root]
  else .error (.relativeRoot c.root)

/-- The options of the settings in a file tree. -/
def options (files : FileTree) (c : Config) : Except SettingsError (List Flag) :=
  c.optionsWhere files.isFile

/-- The include paths that are looked at and are no directories. With a relative root none is
looked at. -/
def absentIncludePaths (files : FileTree) (c : Config) : List Path :=
  if c.root.isAbsolute then c.resolvedIncludePaths.filter (fun p => !files.isDirectory p) else []

end Config

end EditorCore.Settings

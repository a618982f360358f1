import EditorCore.Settings.Options

set_option autoImplicit false

/-! # The compiler front end, seen from the store

The front end owns the parse contexts. The store knows a context by its handle, and a request to
the front end is recorded as a `Call`.
-/

namespace EditorCore.Store

/-- The name of one live parse context. -/
structure ContextHandle where
  number : Nat
deriving DecidableEq, Repr

/-- How a handle is shown. -/
def ContextHandle.display (h : ContextHandle) : String := s!"ContextHandle({h.number})"

/-- What the front end reports instead of an answer. -/
inductive FrontEndError where
  | configuration (message : String)
  | failed (message : String)
deriving DecidableEq, Repr

/-- The text shown for the error. -/
def FrontEndError.message : FrontEndError → String
  | configuration m => s!"front end rejected the configuration: {m}"
  | failed m => s!"front end failed: {m}"

/-- A request to the front end. -/
inductive Call where
  | createContext (options : List Settings.Flag)
  | updateSettings (context : ContextHandle) (options : List Settings.Flag)
  | deleteContext (context : ContextHandle)
  | build (context : ContextHandle)
  | update (context : ContextHandle) (path : Path)
deriving DecidableEq, Repr

/-- Why an operation of the store has no result. -/
inductive StoreError where
  | settings (cause : Settings.SettingsError)
  | frontEnd (cause : FrontEndError)
  | contextDeleted (project : String)
deriving DecidableEq, Repr

/-- The text shown for the error. -/
def StoreError.message : StoreError → String
  | settings cause => cause.message
  | frontEnd cause => cause.message
  | contextDeleted project =>
      s!"parse context for project '{project}' was deleted during the parse"

end EditorCore.Store

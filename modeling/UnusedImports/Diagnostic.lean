import UnusedImports.Edit
import UnusedImports.Value

/-!
# Warnings and diagnostics

A warning says that something is wrong at an offset and may carry actions that mend it. A
diagnostic is a warning about a file. `Diagnostic.edits` gathers the edits of all actions in the
order of the warnings, and `Diagnostic.fixSource` applies them.
-/

set_option autoImplicit false

namespace UnusedImports

/-- An edit under a title. -/
structure CodeAction where
  title : Text
  description : Text
  edit : Edit
  deriving DecidableEq, Repr

/-- A warning at `position`; `origin` names what the warning is about. -/
structure Warning where
  position : Int
  message : Value
  category : Value
  owner : Value
  origin : Value
  actions : List CodeAction
  deriving Repr

/-- A warning about a file. -/
structure Diagnostic extends Warning where
  file : Value
  deriving Repr

namespace Diagnostic

/-- The edits of all actions, in order. -/
def edits (ds : List Diagnostic) : List Edit :=
  ds.flatMap fun d => d.actions.map CodeAction.edit

/-- The text with every fix applied. -/
def fixSource (t : Text) (ds : List Diagnostic) : Except Edit.Refusal Text :=
  Edit.applyAll t (edits ds)

end Diagnostic

end UnusedImports

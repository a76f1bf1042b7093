import UnusedImports.Diagnostic
import UnusedImports.Schema
import UnusedImports.Text.Position

/-!
# The protocol of reported diagnostics

`Diagnostic.toValue` is the protocol object of a diagnostic, with the lines and columns of its
offsets and with its owner spelled out. `Report.write` makes the objects of diagnostics, which needs
owners that can be written, and `Report.build` wraps those of a file. `Report.errors` checks
protocol objects against the schema of the protocol, and `Report.validate` needs messages that can
be written.
-/

set_option autoImplicit false

namespace UnusedImports

/-- A mapping whose keys are texts. -/
def Value.object (fields : List (String × Value)) : Value :=
  .map (fields.map fun f => (Value.ofString f.1, f.2))

/-- The lines and columns of a range. -/
def Range.toValue (r : Range) : Value :=
  .object
    [("startLine", .int r.start.line), ("startCol", .int r.start.column),
      ("endLine", .int r.stop.line), ("endCol", .int r.stop.column)]

/-- An action on the text `t`. -/
def CodeAction.toValue (t : Text) (a : CodeAction) : Value :=
  .object
    [("title", .text a.title), ("description", .text a.description),
      ("start", .int a.edit.start), ("end", .int a.edit.stop),
      ("replacement", .text a.edit.replacement),
      ("range", (t.range a.edit.start a.edit.stop).toValue)]

/-- The owner of a warning spelled as it is shown, and a missing owner as null. -/
def spelledOwner (owner : Value) : Value :=
  if owner.isNull then .null else .ofPoints owner.shownPoints

/-- The owner of a warning in writing, which has to show it. -/
def ownerValue (owner : Value) : Except Unwritable Value :=
  if owner.isNull then .ok .null else owner.written

/-- The object of a diagnostic about the text `t`, in which `owner` is written for its owner. -/
def Diagnostic.object (t : Text) (d : Diagnostic) (owner : Value) : Value :=
  .object
    [("file", d.file), ("position", .int d.position),
      ("range", (t.range d.position d.position).toValue), ("message", d.message),
      ("category", d.category), ("owner", owner), ("origin", d.origin),
      ("actions", .list (d.actions.map (CodeAction.toValue t)))]

/-- A diagnostic about the text `t`. -/
def Diagnostic.toValue (t : Text) (d : Diagnostic) : Value :=
  d.object t (spelledOwner d.owner)

namespace Report

/-! ## Reports -/

/-- The diagnostics about the text `t` as protocol objects. -/
def items (t : Text) (ds : List Diagnostic) : List Value :=
  ds.map (Diagnostic.toValue t)

/-- The protocol objects of diagnostics, all of whose owners have to be shown. -/
def write (t : Text) (ds : List Diagnostic) : Except Unwritable (List Value) :=
  ds.mapM fun d => (ownerValue d.owner).map (d.object t)

/-- The number of diagnostics that carry actions. -/
def fixable (ds : List Diagnostic) : Nat :=
  ds.countP fun d => !d.actions.isEmpty

/-- The report about a file. -/
def build (t : Text) (ds : List Diagnostic) (file : Value) : Value :=
  .object
    [("protocol", Value.ofString "1"), ("file", file), ("diagnostics", .list (items t ds)),
      ("fixable", .int (fixable ds))]

/-- The report about a file, if the owners of its diagnostics can be shown. -/
def writeReport (t : Text) (ds : List Diagnostic) (file : Value) : Except Unwritable Value := do
  let _ ← write t ds
  return build t ds file

/-! ## Checking protocol objects -/

/-- A field that has to be there. -/
def required (name : String) (s : Schema) : Text × Bool × Schema :=
  (name.toList, true, s)

/-- Lines count from one and columns from zero. -/
def rangeSchema : Schema :=
  .object
    [required "startLine" (.integer 1), required "startCol" (.integer 0),
      required "endLine" (.integer 1), required "endCol" (.integer 0)]

/-- An action with its edit. -/
def actionSchema : Schema :=
  .object
    [required "title" .text, required "description" .text, required "start" (.integer 0),
      required "end" (.integer 0), required "replacement" .text, required "range" rangeSchema]

/-- A diagnostic; only the owner may be missing. -/
def diagnosticSchema : Schema :=
  .object
    [required "file" .text, required "position" (.integer 0), required "range" rangeSchema,
      required "message" .text, required "category" .text, ("owner".toList, false, .textOrNull),
      required "origin" .text, required "actions" (.array actionSchema)]

/-- The message about the item at `index`. -/
def numbered (index : Nat) (complaint : Text) : Text :=
  "Diagnostic ".toList ++ Text.ofNat index ++ ": ".toList ++ complaint

/-- One message for each item that is not a diagnostic of the protocol. -/
def errors (items : List Value) : List Text :=
  items.zipIdx.filterMap fun (v, i) => (diagnosticSchema.complaint? v).map (numbered i)

/-- The messages about items, for which all their faults have to be put into writing, also those
that are not reported. -/
def validate (items : List Value) : Except Unwritable (List Text) := do
  let _ ← items.mapM fun v => (diagnosticSchema.violations v).mapM fun w => w.fault.written
  return errors items

end Report

end UnusedImports

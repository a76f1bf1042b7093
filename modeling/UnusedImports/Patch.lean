import UnusedImports.Diagnostic
import UnusedImports.Diff.Unified
import UnusedImports.Text.Utf8

/-!
# Mending a file

`Patch.file` applies the fixes of diagnostics to the bytes of a file and shows the change as a
diff. The file stays as it is if it cannot be read, if the edits are refused, if nothing changes,
or if only the diff is wanted.
-/

set_option autoImplicit false

namespace UnusedImports.Patch

/-- Why a file is not mended. -/
inductive Obstacle where
  | noFile
  | notUtf8
  | refused (r : Edit.Refusal)
  deriving Repr

/-- The text of a file. -/
def read (bytes : Option ByteArray) : Except Obstacle Text :=
  match bytes with
  | none => .error .noFile
  | some bytes =>
    match Text.decode? bytes with
    | some t => .ok t
    | none => .error .notUtf8

/-- The text of a file before and after the fixes. -/
def versions (bytes : Option ByteArray) (ds : List Diagnostic) :
    Except Obstacle (Text × Text) := do
  let before ← read bytes
  match Diagnostic.fixSource before ds with
  | .ok after => return (before, after)
  | .error r => throw (.refused r)

/-- The diff of the fixes, and the bytes of the file afterwards. -/
def file (path : Text) (bytes : Option ByteArray) (ds : List Diagnostic) (dryRun : Bool) :
    Except Obstacle Text × Option ByteArray :=
  match versions bytes ds with
  | .error e => (.error e, bytes)
  | .ok (before, after) =>
    if after = before then (.ok [], bytes)
    else (.ok (Diff.unified path before after), if dryRun then bytes else some after.encode)

end UnusedImports.Patch

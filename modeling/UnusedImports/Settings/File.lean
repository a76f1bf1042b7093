import UnusedImports.Settings
import UnusedImports.Text.Utf8
import UnusedImports.Yaml
import UnusedImports.Yaml.Writer

/-!
# Settings files

Settings are stored as a document in UTF-8. `Settings.save` puts the document at a path and
`Settings.load` reads it. Without a file the standard settings hold. They also hold, with a
warning, if the path leads to a directory, if the document is malformed, or if its value describes
no settings. All other obstacles end the reading.
-/

set_option autoImplicit false

namespace UnusedImports.Settings

/-- What stands at a path. -/
inductive Found where
  | nothing
  | directory
  | file (bytes : ByteArray)

/-- Why a path does not lead to settings. -/
inductive Obstacle where
  | directory
  | unreadable (f : Yaml.Failure)
  | rejected (r : Rejection)
  deriving Repr

/-- What a warning says about an obstacle; those that end the reading have no words. The wording
of obstacles outside the settings themselves is left open. -/
def Obstacle.message? : Obstacle → Option Text
  | .directory => some "<error>".toList
  | .unreadable .malformed => some "<error>".toList
  | .unreadable _ => none
  | .rejected r => r.message?

/-! ## Reading -/

/-- How far a part of what is said about a qualifier is looked into: a symbol, or a section of
symbols. -/
def sectionDepth (key : Value) : Yaml.Depth :=
  if key.key? = some (.text "symbol".toList) then .fields fun _ => .whole
  else .fields fun _ => .fields fun _ => .whole

/-- How far the value of a field is looked into. The items of the lists are shown one by one, and
the deprecations are read symbol by symbol. -/
def Field.depth : Field → Yaml.Depth
  | suppressedOwners => .items
  | disabledCategories => .items
  | deprecations => .fields fun _ => .fields sectionDepth
  | _ => .whole

/-- How far a settings file is looked into. -/
def depth : Yaml.Depth :=
  .fields fun key => ((Field.ofKey? key).map Field.depth).getD .whole

/-- The value of a document, where everything that counts as false stands for an empty mapping. -/
def documentValue (bytes : ByteArray) : Except Obstacle Value :=
  match Yaml.read depth bytes with
  | .error f => .error (.unreadable f)
  | .ok v => .ok (if v.truthy then v else .map [])

/-- The settings that a document describes, and the remarks about it. -/
def decode (bytes : ByteArray) : Except Obstacle Settings × List Points :=
  match documentValue bytes with
  | .error e => (.error e, [])
  | .ok v =>
    match ofValue v with
    | (.ok s, remarks) => (.ok s.filled, remarks)
    | (.error r, remarks) => (.error (.rejected r), remarks)

/-- The warning that the standard settings hold because of an obstacle. -/
def fallbackWarning (path message : Text) : Points :=
  .ofText ("Failed to load config from ".toList ++ path ++ ": ".toList ++ message
    ++ "; using default configuration".toList)

/-- The settings after an attempt to read them, with all warnings: those read, or else the standard
settings if the obstacle can be put into words. -/
def orStandard (path : Text) (attempt : Except Obstacle Settings × List Points) :
    Except Obstacle Settings × List Points :=
  match attempt with
  | (.ok s, remarks) => (.ok s, remarks)
  | (.error e, remarks) =>
    match e.message? with
    | some m => (.ok standard, remarks ++ [fallbackWarning path m])
    | none => (.error e, remarks)

/-- The settings that hold for a path and what stands there, with all warnings. -/
def load (path : Text) (found : Found) : Except Obstacle Settings × List Points :=
  match found with
  | .nothing => (.ok standard, [])
  | .directory => orStandard path (.error .directory, [])
  | .file bytes => orStandard path (decode bytes)

/-- The settings as a document. -/
def encode (s : Settings) : ByteArray :=
  (Yaml.write s.toValue).encode

/-- Save the settings at a path, whatever stands there but a directory. Nothing is written if a
number is too long. -/
def save (s : Settings) (found : Found) : Except Obstacle Unit × Found :=
  match found with
  | .directory => (.error .directory, .directory)
  | _ =>
    if s.toValue.isWritable then (.ok (), .file s.encode)
    else (.error (.rejected (.unwritable s.toValue)), .file .empty)

end UnusedImports.Settings

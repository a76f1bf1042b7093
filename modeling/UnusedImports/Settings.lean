import UnusedImports.Value

/-!
# Settings

Settings say whether fixes are proposed, under which category warnings are reported, which of
them are suppressed, and which qualifiers are deprecated. They come from files that nobody has
checked, so every field is an open value.

* `Settings.standard`: the settings that hold without a file.
* `Settings.ofValue`: the settings that a mapping describes, with a remark for every key that is
  not known.
* `Settings.emitFixes`: whether warnings carry fixes.
-/

set_option autoImplicit false

namespace UnusedImports

/-- What the report of unused imports depends on. -/
structure Settings where
  quickfix : Value
  quickfixSilent : Value
  category : Value
  suppressedOwners : Value
  disabledCategories : Value
  deprecations : Value
  deriving Repr

namespace Settings

/-- The fields of the settings. -/
inductive Field where
  | quickfix
  | quickfixSilent
  | category
  | suppressedOwners
  | disabledCategories
  | deprecations
  deriving DecidableEq, Repr

namespace Field

/-- All fields. -/
def all : List Field :=
  [quickfix, quickfixSilent, category, suppressedOwners, disabledCategories, deprecations]

/-- The word for a field in a settings file. -/
def word : Field → String
  | quickfix => "quickfix"
  | quickfixSilent => "quickfix_silent"
  | category => "category"
  | suppressedOwners => "suppressed_owners"
  | disabledCategories => "disabled_categories"
  | deprecations => "deprecations"

/-- The name of a field in a settings file. -/
def name (f : Field) : Text :=
  f.word.toList

/-- The field with a name. -/
def ofName? (t : Text) : Option Field :=
  all.find? fun f => f.name = t

/-- The field that a key of a mapping names. -/
def ofKey? : Value → Option Field
  | .text t => ofName? t
  | _ => none

end Field

/-- The value of a field. -/
def get (s : Settings) : Field → Value
  | .quickfix => s.quickfix
  | .quickfixSilent => s.quickfixSilent
  | .category => s.category
  | .suppressedOwners => s.suppressedOwners
  | .disabledCategories => s.disabledCategories
  | .deprecations => s.deprecations

/-- The settings with another value of a field. -/
def set (s : Settings) (f : Field) (v : Value) : Settings :=
  match f with
  | .quickfix => { s with quickfix := v }
  | .quickfixSilent => { s with quickfixSilent := v }
  | .category => { s with category := v }
  | .suppressedOwners => { s with suppressedOwners := v }
  | .disabledCategories => { s with disabledCategories := v }
  | .deprecations => { s with deprecations := v }

/-- The settings that hold without a file: no fixes and nothing suppressed. -/
def standard : Settings :=
  { quickfix := .bool false
    quickfixSilent := .bool false
    category := Value.ofString "unused-imports"
    suppressedOwners := .list []
    disabledCategories := .list []
    deprecations := .map [] }

/-- `v`, or `default` if it is null. -/
def orDefault (v default : Value) : Value :=
  if v.isNull then default else v

/-- Null stands for an empty list or mapping where one of them is expected. -/
def filled (s : Settings) : Settings :=
  { s with
    suppressedOwners := orDefault s.suppressedOwners (.list [])
    disabledCategories := orDefault s.disabledCategories (.list [])
    deprecations := orDefault s.deprecations (.map []) }

/-- Set fields one after the other. -/
def assign (s : Settings) (fields : List (Field × Value)) : Settings :=
  fields.foldl (fun s e => s.set e.1 e.2) s

/-- The standard settings with other values of some fields. -/
def ofFields (fields : List (Field × Value)) : Settings :=
  (standard.assign fields).filled

/-- Whether warnings carry fixes: the quick fix flag itself if it counts as false, and otherwise
whether the silent flag does. -/
def emitFixes (s : Settings) : Value :=
  if s.quickfix.truthy then .bool (!s.quickfixSilent.truthy) else s.quickfix

/-- Equality of all fields. -/
def same (s t : Settings) : Bool :=
  Field.all.all fun f => (s.get f).same (t.get f)

/-! ## Reading settings from a mapping -/

/-- Why a value does not describe settings. -/
inductive Rejection where
  | notMapping (found : Value)
  | notList (field : Field)
  | deprecationsNotMapping
  /-- A value that has to be shown contains a number that is too long. -/
  | unwritable (v : Value)
  deriving Repr

/-- The wording of a rejection. For a number that is too long there is none. -/
def Rejection.message? : Rejection → Option Text
  | .notMapping v => some ("expected a mapping, got ".toList ++ v.kindName)
  | .notList f => some ('\'' :: f.name ++ "' must be a list".toList)
  | .deprecationsNotMapping => some "'deprecations' must be a mapping".toList
  | .unwritable _ => none

/-- A value that has to be shown. -/
def showable (v : Value) : Except Rejection Value :=
  if v.isWritable then .ok v else .error (.unwritable v)

/-- The remark about a key that names no field. -/
def unknownKeyRemark (key : Value) : Points :=
  .ofText "Ignoring unknown config key: ".toList ++ key.shownPoints

/-- The entries of a mapping whose keys name fields. -/
def knownFields (entries : List (Value × Value)) : List (Field × Value) :=
  entries.filterMap fun e => (Field.ofKey? e.1).map (·, e.2)

/-- The keys of a mapping that name no field. -/
def unknownKeys (entries : List (Value × Value)) : List Value :=
  (entries.filter fun e => (Field.ofKey? e.1).isNone).map Prod.fst

/-- The remarks about the keys of a mapping that name no field, up to one that cannot be shown. -/
def remarks (entries : List (Value × Value)) : List Points :=
  ((unknownKeys entries).takeWhile Value.isWritable).map unknownKeyRemark

/-- A list of values as the texts that show them. -/
def shownItems (f : Field) (v : Value) : Except Rejection Value :=
  match v with
  | .list items => do
    let items ← items.mapM showable
    return .list (items.map fun item => .ofPoints item.shownPoints)
  | _ => .error (.notList f)

/-- A mapping. -/
def checkMapping (v : Value) : Except Rejection Value :=
  match v with
  | .map entries => .ok (.map entries)
  | _ => .error .deprecationsNotMapping

/-- Settings whose lists are lists of texts and whose deprecations are a mapping. -/
def checked (s : Settings) : Except Rejection Settings := do
  let owners ← shownItems .suppressedOwners s.suppressedOwners
  let categories ← shownItems .disabledCategories s.disabledCategories
  let deprecations ← checkMapping s.deprecations
  return { s with
    suppressedOwners := owners, disabledCategories := categories, deprecations := deprecations }

/-- The settings that the entries of a mapping describe. -/
def ofEntries (entries : List (Value × Value)) : Except Rejection Settings := do
  let _ ← (unknownKeys entries).mapM showable
  (standard.assign (knownFields entries)).checked

/-- The settings that a value describes, and the remarks about it. -/
def ofValue (v : Value) : Except Rejection Settings × List Points :=
  match v with
  | .map entries => (ofEntries entries, remarks entries)
  | v => (.error (.notMapping v), [])

/-- The settings as a mapping. -/
def toValue (s : Settings) : Value :=
  .map (Field.all.map fun f => (.text f.name, s.get f))

end Settings

end UnusedImports

import UnusedImports.Clause
import UnusedImports.Keyed
import UnusedImports.Value

/-!
# Deprecations

A table knows which qualifiers, and which of their members, are deprecated. Members that are
types are kept apart from the others. `DeprecationTable.ofSettings` reads a table from a nested
mapping, and `DeprecationTable.addendum` describes what an import goes through that is deprecated.
`DeprecationTable.writtenAddendum` does so unless the description has a number that is too long.

```
scala.util:
  symbol: {kind: object, message: "gone"}
  members:
    Sorting: {kind: object}
  types:
    Sorting: {deprecated: false}
```
-/

set_option autoImplicit false

namespace UnusedImports

/-- A symbol with its deprecation. -/
structure SymbolInfo where
  kind : Value
  name : Value
  deprecated : Value
  message : Value
  deriving Repr

namespace SymbolInfo

/-- Kind and name. -/
def text (s : SymbolInfo) : Text :=
  s.kind.shown ++ ' ' :: s.name.shown

/-- Kind and name, and the message if there is one. -/
def describe (s : SymbolInfo) : Text :=
  if s.message.truthy then s.text ++ ": ".toList ++ s.message.shown else s.text

/-- The description in writing, for which all that it shows has to be written. -/
def written (s : SymbolInfo) : Except Unwritable Text := do
  let _ ← s.kind.written
  let _ ← s.name.written
  let _ ← s.message.written
  return s.describe

end SymbolInfo

/-- Deprecations by qualifier, and by qualifier, member name and whether the member is a type. All
three are open values and are looked up by their keys. -/
structure DeprecationTable where
  symbols : Keyed Key SymbolInfo
  members : Keyed (Key × Key × Key) SymbolInfo
  deriving Repr

/-- A value that is not a mapping stands where a table needs one. -/
structure NotMapping where
  found : Value
  deriving Repr

namespace DeprecationTable

/-- The table without symbols. -/
def empty : DeprecationTable := ⟨.empty, .empty⟩

/-- Enter a qualifier; an earlier symbol of it is replaced. -/
def addQualifier (table : DeprecationTable) (qualifier : Key) (s : SymbolInfo) :
    DeprecationTable :=
  { table with symbols := table.symbols.put qualifier s }

/-- Enter a member; an earlier symbol of it is replaced. -/
def addMember (table : DeprecationTable) (qualifier name isType : Key) (s : SymbolInfo) :
    DeprecationTable :=
  { table with members := table.members.put (qualifier, name, isType) s }

/-- The number of symbols. -/
def size (table : DeprecationTable) : Nat :=
  table.symbols.size + table.members.size

/-- The symbol of a qualifier. -/
def qualifierSymbol? (table : DeprecationTable) (qualifier : Key) : Option SymbolInfo :=
  table.symbols.get? qualifier

/-- The symbol of a member. -/
def member? (table : DeprecationTable) (qualifier name isType : Key) : Option SymbolInfo :=
  table.members.get? (qualifier, name, isType)

/-- The key of a flag. -/
def flagKey (flag : Bool) : Key :=
  .number (.integer (if flag then 1 else 0))

/-- A qualifier, or a member of it if there is a name, to be entered into a table. -/
structure Listing where
  qualifier : Value
  name : Option Value
  isType : Value
  kind : Option Value
  message : Value
  deprecated : Option Value
  deriving Repr

/-- The symbol of a listing. Unless the listing says otherwise a qualifier is a package, a member
is a value, and both are deprecated. -/
def Listing.symbol (l : Listing) : SymbolInfo :=
  { kind := l.kind.getD (Value.ofString (if l.name.isSome then "value" else "package"))
    name := l.name.getD l.qualifier
    deprecated := l.deprecated.getD (.bool true)
    message := l.message }

/-- Enter a listing, in which no collection may stand where a key is needed. -/
def add (table : DeprecationTable) (l : Listing) : Except NotKey DeprecationTable := do
  let qualifier ← l.qualifier.key
  match l.name with
  | some name => return table.addMember qualifier (← name.key) (← l.isType.key) l.symbol
  | none => return table.addQualifier qualifier l.symbol

/-- The table of listings that are entered one after the other. -/
def ofListings (ls : List Listing) : Except NotKey DeprecationTable :=
  ls.foldlM add empty

/-! ## Describing what an import goes through -/

/-- The symbol, if it is deprecated. -/
def ifDeprecated (s : Option SymbolInfo) : Option SymbolInfo :=
  s.filter fun s => s.deprecated.truthy

/-- The deprecated member that the selector names, looked for among the terms and then among the
types. -/
def deprecatedMember? (table : DeprecationTable) (qualifier : Text) (s : Selector) :
    Option SymbolInfo :=
  if s.isExclusion || s.isWildcard then none
  else
    (ifDeprecated (table.member? (.text qualifier) (.text s.name) (flagKey false))).or
      (ifDeprecated (table.member? (.text qualifier) (.text s.name) (flagKey true)))

/-- What a warning about the selector adds: the deprecated member that it names, or else the
deprecated qualifier. -/
def addendum (table : DeprecationTable) (c : Clause) (s : Selector) : Text :=
  match table.deprecatedMember? c.qualifier s with
  | some m => " of deprecated ".toList ++ m.describe
  | none =>
    match ifDeprecated (table.qualifierSymbol? (.text c.qualifier)) with
    | some q => " from deprecated ".toList ++ q.describe
    | none => []

/-- What a warning about the selector adds, in writing. -/
def writtenAddendum (table : DeprecationTable) (c : Clause) (s : Selector) :
    Except Unwritable Text :=
  match table.deprecatedMember? c.qualifier s with
  | some m => m.written.map (" of deprecated ".toList ++ ·)
  | none =>
    match ifDeprecated (table.qualifierSymbol? (.text c.qualifier)) with
    | some q => q.written.map (" from deprecated ".toList ++ ·)
    | none => .ok []

/-! ## Reading a table -/

/-- The entries of a mapping; anything that counts as false has none. -/
def entriesOf (v : Value) : Except NotMapping (List (Value × Value)) :=
  match v with
  | .map entries => .ok entries
  | v => if v.truthy then .error ⟨v⟩ else .ok []

/-- The value under a key, or `default` if the key is missing. -/
def fieldOr (entries : List (Value × Value)) (key : String) (default : Value) : Value :=
  (Value.lookup? key.toList entries).getD default

/-- The symbol that a mapping describes. -/
def symbolOf (name : Value) (kind : String) (entries : List (Value × Value)) : SymbolInfo :=
  { kind := fieldOr entries "kind" (Value.ofString kind)
    name := name
    deprecated := fieldOr entries "deprecated" (.bool true)
    message := fieldOr entries "message" .null }

/-- The kind that a member has by default. -/
def memberKind (isType : Bool) : String :=
  if isType then "class" else "value"

/-- Enter one member. -/
def readMember (qualifier : Key) (isType : Bool) (table : DeprecationTable)
    (entry : Value × Value) : Except NotMapping DeprecationTable := do
  let entries ← entriesOf entry.2
  match entry.1.key? with
  | some name =>
    return table.addMember qualifier name (flagKey isType)
      (symbolOf entry.1 (memberKind isType) entries)
  | none => return table

/-- Enter the members of one section of a qualifier. -/
def readSection (qualifier : Key) (entries : List (Value × Value)) (isType : Bool)
    (table : DeprecationTable) : Except NotMapping DeprecationTable := do
  let members ← entriesOf (fieldOr entries (if isType then "types" else "members") .null)
  members.foldlM (readMember qualifier isType) table

/-- Enter the symbol of a qualifier; null stands for none. -/
def readSymbol (qualifier : Value) (k : Key) (entries : List (Value × Value))
    (table : DeprecationTable) : Except NotMapping DeprecationTable :=
  match fieldOr entries "symbol" .null with
  | .null => .ok table
  | .map symbol => .ok (table.addQualifier k (symbolOf qualifier "package" symbol))
  | v => .error ⟨v⟩

/-- Enter a qualifier with its symbol, its terms and its types. -/
def readQualifier (table : DeprecationTable) (entry : Value × Value) :
    Except NotMapping DeprecationTable := do
  let entries ← entriesOf entry.2
  match entry.1.key? with
  | some qualifier => do
    let read ← readSymbol entry.1 qualifier entries table
    let read ← readSection qualifier entries false read
    readSection qualifier entries true read
  | none => return table

/-- Read a table from a mapping of qualifiers. The keys of a mapping are no collections, so all of
them are entered. -/
def ofSettings (data : Value) : Except NotMapping DeprecationTable := do
  let qualifiers ← entriesOf data
  qualifiers.foldlM readQualifier empty

end DeprecationTable

end UnusedImports

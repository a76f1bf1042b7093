import UnusedImports.Number.Shortest
import UnusedImports.Text.Points
import UnusedImports.Value.Stamp

/-!
# Open values

Settings files, deprecation tables, lexical owners and protocol objects carry values whose shape
nobody has checked yet. A `Value` is any of them.

* `Value.truthy`: zero, false, null and everything empty count as false.
* `Value.key?`: what tells a value apart from others where values are looked up. A number has the
  key of every spelling of it, true being one and false zero; collections have no key.
* `Value.same`: equality, by keys and item by item, in which the order of a mapping does not
  matter.
* `Value.literal` and `Value.shown`: a value in constructor form, and as it appears in a message.
  Both write numbers of any length; `Value.isWritable` says whether all of them are short enough,
  and `Value.written` refuses a value with another one.
* `Value.field?`: the value stored under a text in a mapping.
-/

set_option autoImplicit false

namespace UnusedImports

/-- The kinds of collections that can stand inside themselves. -/
inductive Container where
  | list
  | map
  | pair
  deriving DecidableEq, Repr

/-- A value of no fixed shape. The keys of a mapping are pairwise different. -/
inductive Value where
  | null
  | bool (b : Bool)
  | int (n : Int)
  | float (x : Binary64)
  | text (t : Text)
  /-- A text with code points that are no characters. -/
  | points (ps : Points)
  | bytes (b : List UInt8)
  | stamp (s : Stamp)
  | pair (first second : Value)
  | list (items : List Value)
  | set (items : List Value)
  | map (entries : List (Value × Value))
  /-- A collection at a place inside itself. -/
  | again (c : Container)
  deriving Repr, Inhabited

namespace Value

/-- The words of a message as a value. -/
def ofString (s : String) : Value :=
  .text s.toList

/-- The text of code points. -/
def ofPoints (ps : Points) : Value :=
  match ps.text? with
  | some t => .text t
  | none => .points ps

/-- The value is null. -/
def isNull : Value → Bool
  | .null => true
  | _ => false

/-- The value counts as true where a flag is expected. -/
def truthy : Value → Bool
  | .null => false
  | .bool b => b
  | .int n => n ≠ 0
  | .float x => !x.isZero
  | .text t => !t.isEmpty
  | .points ps => !ps.isEmpty
  | .bytes b => !b.isEmpty
  | .stamp _ => true
  | .pair _ _ => true
  | .list items => !items.isEmpty
  | .set items => !items.isEmpty
  | .map entries => !entries.isEmpty
  | .again _ => true

/-- The name of the kind of a value, as messages give it. -/
def kindName : Value → Text
  | .null => "NoneType".toList
  | .bool _ => "bool".toList
  | .int _ => "int".toList
  | .float _ => "float".toList
  | .text _ => "str".toList
  | .points _ => "str".toList
  | .bytes _ => "bytes".toList
  | .stamp (.date _) => "date".toList
  | .stamp (.moment _ _) => "datetime".toList
  | .pair _ _ => "tuple".toList
  | .list _ => "list".toList
  | .set _ => "set".toList
  | .map _ => "dict".toList
  | .again .list => "list".toList
  | .again .map => "dict".toList
  | .again .pair => "tuple".toList

end Value

/-! ## Keys -/

/-- A number in the form in which equal numbers are the same: integers first. -/
inductive Quantity where
  | integer (n : Int)
  | other (x : Binary64)
  deriving DecidableEq, Repr

/-- The number that a float is. -/
def Binary64.quantity (x : Binary64) : Quantity :=
  match x.integer? with
  | some n => .integer n
  | none => .other x

/-- What tells a value apart from others where values are looked up. -/
inductive Key where
  | null
  | number (q : Quantity)
  /-- The key of what is not a number, which has this key without being equal to itself. -/
  | notNumber
  | text (t : Text)
  | points (ps : Points)
  | bytes (b : List UInt8)
  | date (d : Date)
  | clock (d : Date) (c : Clock)
  | instant (micros : Int)
  deriving DecidableEq, Repr

/-- The key of a day, of a moment by the clock, or of a moment in universal time. -/
def Stamp.key : Stamp → Key
  | .date d => .date d
  | .moment d c =>
    match c.zone with
    | some z => .instant (d.instant c z)
    | none => .clock d c

/-- A collection stands where a key is needed. -/
structure NotKey where
  found : Value
  deriving Repr

namespace Value

/-- The key of a value; a collection has none. -/
def key? : Value → Option Key
  | .null => some .null
  | .bool b => some (.number (.integer (if b then 1 else 0)))
  | .int n => some (.number (.integer n))
  | .float .nan => some .notNumber
  | .float x => some (.number x.quantity)
  | .text t => some (.text t)
  | .points ps => some (.points ps)
  | .bytes b => some (.bytes b)
  | .stamp s => some s.key
  | _ => none

/-- The key of a value that has to have one. -/
def key (v : Value) : Except NotKey Key :=
  match v.key? with
  | some k => .ok k
  | none => .error ⟨v⟩

/-! ## Equality -/

/-- Equality of values that are not collections. What is not a number is not equal to itself. -/
def sameKey (a b : Value) : Bool :=
  match a.key?, b.key? with
  | some k, some l => k = l && k ≠ .notNumber
  | _, _ => false

mutual

/-- Equality of values: collections are compared by their items, sets and mappings without regard
to order. -/
def same : Value → Value → Bool
  | .pair a b, .pair c d => same a c && same b d
  | .list xs, .list ys => sameItems xs ys
  | .set xs, .set ys => xs.length = ys.length && allAmong xs ys
  | .map xs, .map ys => xs.length = ys.length && allEntriesAmong xs ys
  | a, b => sameKey a b

/-- Equality of lists, item by item. -/
def sameItems : List Value → List Value → Bool
  | [], [] => true
  | x :: xs, y :: ys => same x y && sameItems xs ys
  | _, _ => false

/-- Every item of the first list is equal to one of the second. -/
def allAmong : List Value → List Value → Bool
  | [], _ => true
  | x :: xs, ys => ys.any (same x) && allAmong xs ys

/-- Every entry of the first mapping is equal to one of the second. -/
def allEntriesAmong : List (Value × Value) → List (Value × Value) → Bool
  | [], _ => true
  | (k, v) :: xs, ys => ys.any (fun e => same k e.1 && same v e.2) && allEntriesAmong xs ys

end

/-! ## Mappings -/

/-- The value stored under the text `key`. -/
def lookup? (key : Text) : List (Value × Value) → Option Value
  | [] => none
  | (.text t, v) :: entries => if t = key then some v else lookup? key entries
  | _ :: entries => lookup? key entries

/-- The value stored under the text `key`, if the value is a mapping that has the key. -/
def field? (v : Value) (key : Text) : Option Value :=
  match v with
  | .map entries => lookup? key entries
  | _ => none

/-- Store a value: under an equal key in its place, which keeps the key it has, or else at the
end. -/
def store (key v : Value) : List (Value × Value) → List (Value × Value)
  | [] => [(key, v)]
  | (k, w) :: entries => if same k key then (k, v) :: entries else (k, w) :: store key v entries

/-- The mapping that results from storing entries one after the other. -/
def ofEntries (entries : List (Value × Value)) : Value :=
  .map (entries.foldl (fun stored e => store e.1 e.2 stored) [])

/-! ## Texts of values -/

/-- Texts separated by commas, between two brackets. -/
def bracketed (opening closing : Text) (items : List Text) : Text :=
  opening ++ Text.join ", ".toList items ++ closing

mutual

/-- A value in constructor form. -/
def literal : Value → Text
  | .null => "None".toList
  | .bool true => "True".toList
  | .bool false => "False".toList
  | .int n => Text.ofInt n
  | .float x => x.text
  | .text t => t.quoted
  | .points ps => ps.quoted
  | .bytes b => Text.quotedBytes b
  | .stamp s => s.literal
  | .pair a b => bracketed ['('] [')'] [literal a, literal b]
  | .list items => bracketed ['['] [']'] (literals items)
  | .set [] => "set()".toList
  | .set items => bracketed ['\x7b'] ['\x7d'] (literals items)
  | .map entries => bracketed ['\x7b'] ['\x7d'] (entryLiterals entries)
  | .again .list => "[...]".toList
  | .again .map => "\x7b...\x7d".toList
  | .again .pair => "(...)".toList

/-- The constructor forms of the items of a list. -/
def literals : List Value → List Text
  | [] => []
  | v :: vs => literal v :: literals vs

/-- The entries of a mapping, each with a colon between its key and its value. -/
def entryLiterals : List (Value × Value) → List Text
  | [] => []
  | (k, v) :: entries => (literal k ++ ": ".toList ++ literal v) :: entryLiterals entries

end

/-- A value as it appears in a message: texts and stamps as they are, all else in constructor
form. -/
def shown : Value → Text
  | .text t => t
  | .points ps => ps.readable
  | .stamp s => s.text
  | v => v.literal

/-- The code points of a value as it appears in a message. -/
def shownPoints : Value → Points
  | .points ps => ps
  | v => .ofText v.shown

/-! ## Numbers that are too long -/

/-- The least number that is too long to be written. -/
def leastUnwritten : Nat :=
  Nat.pow 10 Text.longestNumber

mutual

/-- All numbers in a value are short enough to be written. -/
def isWritable : Value → Bool
  | .int n => n.natAbs < leastUnwritten
  | .pair a b => isWritable a && isWritable b
  | .list items => areWritable items
  | .set items => areWritable items
  | .map entries => areWritableEntries entries
  | _ => true

/-- All numbers in the values of a list are short enough to be written. -/
def areWritable : List Value → Bool
  | [] => true
  | v :: vs => isWritable v && areWritable vs

/-- All numbers in the entries of a mapping are short enough to be written. -/
def areWritableEntries : List (Value × Value) → Bool
  | [] => true
  | (k, v) :: entries => isWritable k && isWritable v && areWritableEntries entries

end

end Value

/-- A number in a value is too long to be written. -/
structure Unwritable where
  found : Value
  deriving Repr

/-- The text that shows a value, whose numbers have to be short enough to be written. -/
def Value.written (v : Value) : Except Unwritable Value :=
  if v.isWritable then .ok (.ofPoints v.shownPoints) else .error ⟨v⟩

end UnusedImports

import UnusedImports.Value
import UnusedImports.Yaml.Base64
import UnusedImports.Yaml.Style

/-!
# Writing documents

`Yaml.write` writes a value as a document in block style. The entries of a mapping are sorted by
their keys (`byKey`), if these can be compared with each other. A collection inside a mapping stands
on new lines, a mapping indented and a list not; one inside a list begins behind the hyphen. A key
that is too long, empty or of several lines is written behind a question mark.
-/

set_option autoImplicit false

namespace UnusedImports.Yaml

/-! ## Scalars -/

/-- A floating point number: the shortest text, in which a point is put in front of an exponent if
there is none. -/
def floatText (x : Binary64) : Text :=
  match x with
  | .infinite negative => if negative then "-.inf".toList else ".inf".toList
  | .nan => ".nan".toList
  | x =>
    if x.text.contains '.' then x.text
    else x.text.flatMap fun c => if c = 'e' then ".0e".toList else [c]

/-- A value that is not a collection, or an empty collection, from `column` on. Of a collection
inside itself nothing is written. -/
def atomText (canFold : Bool) (indent column : Nat) : Value → Text
  | .null => "null".toList
  | .bool b => if b then "true".toList else "false".toList
  | .int n => Text.ofInt n
  | .float x => floatText x
  | .text t => scalarText canFold indent column t
  | .points ps => pointsText canFold indent column ps
  | .bytes b => "!!binary \"".toList ++ Base64.write b ++ ['"']
  | .stamp s => s.text
  | .list _ => "[]".toList
  | .set _ => "!!set \x7b\x7d".toList
  | .pair _ _ => "[]".toList
  | .map _ => "\x7b\x7d".toList
  | .again _ => "null".toList

/-! ## Keys -/

/-- The length up to which a key needs no question mark; the name of its kind counts. -/
def longestSimpleKey : Nat := 127

/-- The key can stand in front of a colon on one line. -/
def isSimpleKey : Value → Bool
  | .null => true
  | .bool _ => true
  | .int n => (Text.ofInt n).length + "!!int".length ≤ longestSimpleKey
  | .float _ => true
  | .text t => !t.isEmpty && !t.any isBreak && t.length + "!!str".length ≤ longestSimpleKey
  | .points ps =>
    !ps.isEmpty && !ps.readable.any isBreak && ps.length + "!!str".length ≤ longestSimpleKey
  | .stamp _ => true
  | _ => false

/-! ## The order of keys -/

/-- The kinds of keys that are compared with each other. -/
inductive KeyKind where
  | number
  | text
  | bytes
  | date
  | clock
  | instant
  deriving DecidableEq, Repr

/-- A finite number as a multiple of the least positive one. -/
def multiple (negative : Bool) (mantissa : Nat) (exponent : Int) : Int :=
  let n : Nat := mantissa * Nat.pow 2 (exponent - Binary64.minExponent).toNat
  if negative then -n else n

/-- What a key is compared by: its kind, and integers in lexicographic order. Numbers come between
the two infinities. Null is not compared, nor is what is not a number. -/
def rank? : Value → Option (KeyKind × List Int)
  | .bool b => some (.number, [0, multiple false (if b then 1 else 0) 0])
  | .int n => some (.number, [0, multiple (n < 0) n.natAbs 0])
  | .float (.finite negative mantissa exponent) =>
    some (.number, [0, multiple negative mantissa exponent])
  | .float (.infinite negative) => some (.number, [if negative then -1 else 1])
  | .text t => some (.text, t.map fun c => Int.ofNat c.toNat)
  | .points ps => some (.text, ps.map Int.ofNat)
  | .bytes b => some (.bytes, b.map fun n => Int.ofNat n.toNat)
  | .stamp (.date d) => some (.date, [d.dayNumber])
  | .stamp (.moment d c) =>
    match c.zone with
    | some z => some (.instant, [d.instant c z])
    | none => some (.clock, [d.dayNumber, c.micros])
  | _ => none

/-- Two keys can be compared. -/
def areComparable (a b : Value) : Bool :=
  match rank? a, rank? b with
  | some (k, _), some (l, _) => k = l
  | _, _ => false

/-- The first key does not come behind the second one. -/
def keyLe (a b : Value) : Bool :=
  match rank? a, rank? b with
  | some (_, x), some (_, y) => !decide (y < x)
  | none, _ => true
  | some _, none => false

/-- Entries in the order of their keys. Keys that cannot all be compared have none, and the entries
stay where they are. -/
def byKey {α : Type} (entries : List (Value × α)) : List (Value × α) :=
  match entries with
  | [] => []
  | e :: rest =>
    if rest.all fun f => areComparable e.1 f.1 then
      (e :: rest).mergeSort fun a b => keyLe a.1 b.1
    else e :: rest

/-! ## Collections -/

/-- What precedes a value on its line: the colon behind a key, or a mark of one character. -/
inductive Place where
  | key
  | mark
  deriving DecidableEq, Repr

namespace Place

/-- The indentation of the items of a list that belongs to a collection indented by `indent`. -/
def listIndent (place : Place) (indent : Nat) : Nat :=
  match place with
  | key => indent
  | mark => indent + 2

/-- What separates a collection, indented by `indent`, from what precedes it. -/
def lead (place : Place) (indent : Nat) : Text :=
  match place with
  | key => newLine indent
  | mark => [' ']

end Place

/-- Texts on lines of their own, the first one excepted. -/
def stacked (indent : Nat) (ts : List Text) : Text :=
  Text.join (newLine indent) ts

/-- The entries of a mapping in the order of their keys. -/
def stackedEntries (indent : Nat) (entries : List (Value × Text)) : Text :=
  stacked indent ((byKey entries).map (·.2))

mutual

/-- A value behind a key or a mark of a collection that is indented by `indent`; `column` is where
a scalar begins. -/
def placed (place : Place) (indent column : Nat) : Value → Text
  | .list items =>
    if items.isEmpty then " []".toList
    else
      let inner := place.listIndent indent
      place.lead inner ++ stacked inner (itemTexts inner items)
  | .pair a b =>
    let inner := place.listIndent indent
    place.lead inner ++ stacked inner
      ['-' :: placed .mark inner (inner + 2) a, '-' :: placed .mark inner (inner + 2) b]
  | .set items =>
    if items.isEmpty then " !!set \x7b\x7d".toList
    else
      " !!set".toList ++ newLine (indent + 2)
        ++ stackedEntries (indent + 2) (memberTexts (indent + 2) items)
  | .map entries =>
    if entries.isEmpty then " \x7b\x7d".toList
    else place.lead (indent + 2) ++ stackedEntries (indent + 2) (entryTexts (indent + 2) entries)
  | v => ' ' :: atomText true (indent + 2) column v

/-- The items of a list, each behind a hyphen. -/
def itemTexts (indent : Nat) : List Value → List Text
  | [] => []
  | v :: vs => ('-' :: placed .mark indent (indent + 2) v) :: itemTexts indent vs

/-- The members of a set as the keys of empty entries. -/
def memberTexts (indent : Nat) : List Value → List (Value × Text)
  | [] => []
  | v :: vs =>
    let text :=
      if isSimpleKey v then atomText false (indent + 2) indent v ++ ": null".toList
      else '?' :: placed .mark indent (indent + 2) v ++ newLine indent ++ ": null".toList
    (v, text) :: memberTexts indent vs

/-- The entries of a mapping, each beside its key. -/
def entryTexts (indent : Nat) : List (Value × Value) → List (Value × Text)
  | [] => []
  | (k, v) :: entries =>
    let key := atomText false (indent + 2) indent k
    let text :=
      if isSimpleKey k then key ++ ':' :: placed .key indent (indent + key.length + 2) v
      else
        '?' :: placed .mark indent (indent + 2) k ++ newLine indent
          ++ ':' :: placed .mark indent (indent + 2) v
    (k, text) :: entryTexts indent entries

end

/-- The lines of a document without the last line end. -/
def outline : Value → Text
  | .list (v :: vs) => stacked 0 (itemTexts 0 (v :: vs))
  | .pair a b => stacked 0 (itemTexts 0 [a, b])
  | .set (v :: vs) => "!!set\n".toList ++ stackedEntries 0 (memberTexts 0 (v :: vs))
  | .map (e :: entries) => stackedEntries 0 (entryTexts 0 (e :: entries))
  | v => atomText true 2 0 v

/-- A value as a document. -/
def write (v : Value) : Text :=
  outline v ++ ['\n']

end UnusedImports.Yaml

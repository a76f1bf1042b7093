import UnusedImports.Value
import UnusedImports.Yaml.Base64
import UnusedImports.Yaml.Node
import UnusedImports.Yaml.Numeral

/-!
# What a scalar denotes

`scalarValue` gives the value of a text under a tag, and `Graph.scalarPart` that of a node. A
mapping can stand in for a scalar through its value key.
-/

set_option autoImplicit false

namespace UnusedImports.Yaml

/-! ## Scalars -/

/-- The spellings of true, in lower case. -/
def trueTexts : List Text :=
  ["yes".toList, "true".toList, "on".toList]

/-- The spellings of false, in lower case. -/
def falseTexts : List Text :=
  ["no".toList, "false".toList, "off".toList]

/-- The boolean that a text denotes in any case of its letters. -/
def boolean (t : Text) : Except Failure Bool :=
  if trueTexts.contains (t.map Char.toLower) then .ok true
  else if falseTexts.contains (t.map Char.toLower) then .ok false
  else .error .notBoolean

/-- The stamp that a text denotes; a line feed may end it. -/
def stamp (t : Text) : Except Failure Stamp :=
  match Timestamp.stamp? (Tag.chomped t) with
  | none => .error .notDate
  | some s => if s.isValid then .ok s else .error .noSuchDate

/-- The bytes that a text denotes. -/
def bytes (t : Text) : Except Failure (List UInt8) :=
  match Base64.read? t with
  | some bs => if t.all (·.toNat < 0x80) then .ok bs else .error .malformed
  | none => .error .malformed

/-- What a text with a tag denotes. -/
def textValue (tag : Tag) (t : Text) : Except Failure Value :=
  match tag with
  | .null => .ok .null
  | .bool => (boolean t).map .bool
  | .int => (Numeral.int t).map .int
  | .float => (Numeral.float t).map .float
  | .binary => (bytes t).map .bytes
  | .timestamp => (stamp t).map .stamp
  | .str => .ok (.text t)
  | _ => .error .malformed

/-- What code points that are no text denote. They spell nothing. -/
def pointsValue (tag : Tag) (ps : Points) : Except Failure Value :=
  match tag with
  | .null => .ok .null
  | .bool => .error .notBoolean
  | .int => .error .notNumber
  | .float => .error .notNumber
  | .timestamp => .error .notDate
  | .str => .ok (.points ps)
  | _ => .error .malformed

/-- What code points with a tag denote. -/
def scalarValue (tag : Tag) (ps : Points) : Except Failure Value :=
  match ps.text? with
  | some t => textValue tag t
  | none => pointsValue tag ps

/-- The tag is one under which nodes denote collections. -/
def isCollectionTag : Tag → Bool
  | .seq | .omap | .pairs | .map | .set => true
  | _ => false

/-- The tag is one under which nodes denote scalars. -/
def isScalarTag : Tag → Bool
  | .null | .bool | .int | .float | .binary | .timestamp | .str => true
  | _ => false

/-! ## Nodes -/

/-- What a node denotes: a scalar, or the collection that belongs to a node. Scalars that are not
numbers are not equal to themselves, but each is one and the same: `own` is the node to which such a
scalar belongs, and all those that are written with the mark for it are one. -/
inductive Part where
  | scalar (v : Value) (own : Option NodeId)
  | collection (id : NodeId)
  deriving Repr

namespace Graph

/-- The code points that stand for a node: those of a scalar, or those under the value key. A node
that stands for itself has none. -/
def standIn (g : Graph) : Nat → NodeId → Except Failure Points
  | 0, _ => .error .tooDeep
  | steps + 1, id =>
    match g.content id with
    | .scalar ps => .ok ps
    | .sequence _ => .error .malformed
    | .mapping entries =>
      match entries.find? fun e => g.tag e.1 = .value with
      | some (_, v) => standIn g steps v
      | none => .error .malformed

/-- A date is looked for in the node itself and not in what stands for it. -/
def checkDate (g : Graph) (id : NodeId) : Except Failure Unit :=
  match g.tag id, g.content id with
  | .timestamp, .scalar _ => .ok ()
  | .timestamp, _ => .error .dateNotText
  | _, _ => .ok ()

/-- The node to which a scalar that is not a number belongs. -/
def owner (id : NodeId) (v : Value) (ps : Points) : Option NodeId :=
  match v with
  | .float .nan => if (ps.text?.map Numeral.isMarkedNan).getD false then none else some id
  | _ => none

/-- What a node denotes under the tag of a scalar. -/
def scalarPart (g : Graph) (id : NodeId) : Except Failure Part := do
  if !isScalarTag (g.tag id) then throw .malformed
  let ps ← g.standIn (g.size + 1) id
  checkDate g id
  let v ← scalarValue (g.tag id) ps
  return .scalar v (owner id v ps)

end Graph

end UnusedImports.Yaml

import UnusedImports.Value

/-!
# Schemas of protocol objects

A schema says which values a protocol allows. `Schema.violations` lists everything that is wrong
with a value, outer faults before inner ones and each with the path to the value that has it, and
`Schema.complaint?` chooses the fault to report:

* the fault with the shortest path;
* of those the one with the greatest path;
* of those one whose value is not even of the right kind;
* of those the first.
-/

set_option autoImplicit false

namespace UnusedImports

/-- The values that a protocol allows. An object has no other fields than those listed, each with
a mark that says whether it has to be there. -/
inductive Schema where
  | text
  | textOrNull
  | integer (minimum : Int)
  | array (items : Schema)
  | object (fields : List (Text × Bool × Schema))
  deriving Repr

namespace Schema

/-! ## Kinds -/

/-- The integer that a value is; a float with an integral value is one, a boolean is not. -/
def integral? : Value → Option Int
  | .int n => some n
  | .float x => x.integer?
  | _ => none

/-- The value is of the kind that the schema asks for. -/
def kindFits : Schema → Value → Bool
  | .text, .text _ => true
  | .text, .points _ => true
  | .textOrNull, .text _ => true
  | .textOrNull, .points _ => true
  | .textOrNull, .null => true
  | .integer _, v => (integral? v).isSome
  | .array _, .list _ => true
  | .object _, .map _ => true
  | _, _ => false

/-- The names of the kinds that a schema allows. -/
def kindNames : Schema → Text
  | .text => "'string'".toList
  | .textOrNull => "'string', 'null'".toList
  | .integer _ => "'integer'".toList
  | .array _ => "'array'".toList
  | .object _ => "'object'".toList

/-! ## Violations -/

/-- A step from a value to a part of it. -/
inductive Step where
  | field (name : Text)
  | item (index : Nat)
  deriving DecidableEq, Repr

/-- What is wrong with a value. -/
inductive Fault where
  | wrongKind (found : Value) (kinds : Text)
  | tooSmall (found : Value) (minimum : Int)
  | missing (name : Text)
  | unexpected (names : List Text)
  deriving Repr

/-- A fault with the path to the value that has it. -/
structure Violation where
  path : List Step
  fault : Fault
  deriving Repr

/-- The wording of a fault. -/
def Fault.message : Fault → Text
  | .wrongKind v kinds => v.literal ++ " is not of type ".toList ++ kinds
  | .tooSmall v minimum =>
    v.literal ++ " is less than the minimum of ".toList ++ Text.ofInt minimum
  | .missing name => name.quoted ++ " is a required property".toList
  | .unexpected names =>
    "Additional properties are not allowed (".toList
      ++ Text.join ", ".toList (names.map Text.quoted)
      ++ (if names.length = 1 then " was".toList else " were".toList)
      ++ " unexpected)".toList

/-- The value that the wording of a fault quotes. -/
def Fault.quoted? : Fault → Option Value
  | .wrongKind v _ => some v
  | .tooSmall v _ => some v
  | .missing _ => none
  | .unexpected _ => none

/-- A fault in writing, for which the value that it quotes has to be written. -/
def Fault.written (f : Fault) : Except Unwritable Text :=
  match f.quoted? with
  | some v => v.written.map fun _ => f.message
  | none => .ok f.message

/-- The names of the fields of an object. -/
def fieldNames (fields : List (Text × Bool × Schema)) : List Text :=
  fields.map Prod.fst

/-- The fault of a value that is not of the right kind. -/
def kindFaults (s : Schema) (path : List Step) (v : Value) : List Violation :=
  if s.kindFits v then [] else [⟨path, .wrongKind v s.kindNames⟩]

/-- The faults of fields that have to be there and are not. -/
def missingFaults (fields : List (Text × Bool × Schema)) (path : List Step) (v : Value) :
    List Violation :=
  (fields.filter fun f => f.2.1 && (v.field? f.1).isNone).map fun f => ⟨path, .missing f.1⟩

/-- The fields of a mapping that are not listed, in the order of their names. -/
def unexpectedNames (fields : List (Text × Bool × Schema)) (entries : List (Value × Value)) :
    List Text :=
  let names := entries.map fun e => e.1.shown
  (names.filter fun n => !(fieldNames fields).contains n).mergeSort Text.le

/-- The fault of an object with fields that are not listed. -/
def unexpectedFaults (fields : List (Text × Bool × Schema)) (path : List Step)
    (entries : List (Value × Value)) : List Violation :=
  match unexpectedNames fields entries with
  | [] => []
  | names => [⟨path, .unexpected names⟩]

/-- The fault of an integer below the minimum. -/
def minimumFaults (minimum : Int) (path : List Step) (v : Value) : List Violation :=
  match integral? v with
  | some n => if n < minimum then [⟨path, .tooSmall v minimum⟩] else []
  | none => []

mutual

/-- Everything that is wrong with a value that stands at the end of `path`. -/
def violationsAt : Schema → List Step → Value → List Violation
  | .text, path, v => kindFaults .text path v
  | .textOrNull, path, v => kindFaults .textOrNull path v
  | .integer minimum, path, v =>
    kindFaults (.integer minimum) path v ++ minimumFaults minimum path v
  | .array items, path, .list vs =>
    vs.zipIdx.flatMap fun (v, i) => violationsAt items (path ++ [.item i]) v
  | .array items, path, v => kindFaults (.array items) path v
  | .object fields, path, .map entries =>
    fieldViolations fields path (.map entries) ++ missingFaults fields path (.map entries)
      ++ unexpectedFaults fields path entries
  | .object fields, path, v => kindFaults (.object fields) path v

/-- What is wrong with the fields of a mapping, in the order of the schema. -/
def fieldViolations : List (Text × Bool × Schema) → List Step → Value → List Violation
  | [], _, _ => []
  | (name, _, s) :: fields, path, v =>
    (match v.field? name with
      | some w => violationsAt s (path ++ [.field name]) w
      | none => [])
      ++ fieldViolations fields path v

end

/-- Everything that is wrong with a value. -/
def violations (s : Schema) (v : Value) : List Violation :=
  s.violationsAt [] v

/-! ## The fault to report -/

/-- Items come before fields, items in their order and fields by name. -/
def Step.before : Step → Step → Bool
  | .item i, .item j => i < j
  | .item _, .field _ => true
  | .field _, .item _ => false
  | .field a, .field b => decide (a < b)

/-- Lexicographic order of paths. -/
def pathBefore : List Step → List Step → Bool
  | [], [] => false
  | [], _ :: _ => true
  | _ :: _, [] => false
  | a :: as, b :: bs => a.before b || (a = b && pathBefore as bs)

/-- The value with the fault is of the wrong kind. -/
def Violation.ofWrongKind (v : Violation) : Bool :=
  match v.fault with
  | .wrongKind _ _ => true
  | _ => false

/-- `b` is to be reported rather than `a`. -/
def Violation.yieldsTo (a b : Violation) : Bool :=
  if a.path.length ≠ b.path.length then b.path.length < a.path.length
  else if a.path ≠ b.path then pathBefore a.path b.path
  else !a.ofWrongKind && b.ofWrongKind

/-- The violation to report, the earlier one if two are equally fit. -/
def chosen? : List Violation → Option Violation
  | [] => none
  | v :: vs => some (vs.foldl (fun a b => if a.yieldsTo b then b else a) v)

/-- The message about a value that the schema does not allow. -/
def complaint? (s : Schema) (v : Value) : Option Text :=
  (chosen? (s.violations v)).map fun w => w.fault.message

end Schema

end UnusedImports

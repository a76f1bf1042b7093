import UnusedImports.Text

/-!
# Edits of a text

An edit replaces a stretch of a text. The edits of one run are all computed against the same
text, so a batch is applied from the end of the text towards its start, where no replacement
moves an offset that is still to come.

* `Edit.inOrder` sorts a batch by where the edits start, then by where they stop; edits that
  agree in both keep their order.
* `Edit.check` refuses a batch for its first edit, in that order, that lies outside the text or
  starts before its predecessor stops.
* `Edit.applyAll` applies a batch that passes the check.
-/

set_option autoImplicit false

namespace UnusedImports

/-- Replace the characters from `start` up to `stop`. -/
structure Edit where
  start : Int
  stop : Int
  replacement : Text
  deriving DecidableEq, Repr

namespace Edit

/-- Why a batch of edits is refused. -/
inductive Refusal where
  | outside (edit : Edit) (length : Nat)
  | overlap (first second : Edit)
  deriving DecidableEq, Repr

/-- The stretch of an edit as it appears in a message. -/
def stretchText (e : Edit) : Text :=
  "[".toList ++ Text.ofInt e.start ++ ", ".toList ++ Text.ofInt e.stop ++ ")".toList

/-- The wording of a refusal. -/
def Refusal.message : Refusal → Text
  | .outside e length =>
    "edit ".toList ++ e.stretchText ++ " outside text of length ".toList ++ Text.ofNat length
  | .overlap first second =>
    "edit ".toList ++ second.stretchText ++ " overlaps edit ".toList ++ first.stretchText

/-- Order by start, then by stop. -/
def le (a b : Edit) : Bool :=
  a.start < b.start || (a.start = b.start && a.stop ≤ b.stop)

/-- A batch by start, then by stop, then by its own order. -/
def inOrder (edits : List Edit) : List Edit :=
  edits.mergeSort le

/-- The edit lies in a text of `length` characters. -/
def Within (e : Edit) (length : Nat) : Prop :=
  0 ≤ e.start ∧ e.start ≤ e.stop ∧ e.stop ≤ length

instance (e : Edit) (length : Nat) : Decidable (e.Within length) :=
  inferInstanceAs (Decidable (_ ∧ _))

/-- The first fault of a sorted batch that comes after the edit `previous`, if there is one. -/
def fault? (length : Nat) : Option Edit → List Edit → Option Refusal
  | _, [] => none
  | previous, e :: rest =>
    if ¬ e.Within length then some (.outside e length)
    else
      match previous with
      | some p => if e.start < p.stop then some (.overlap p e) else fault? length (some e) rest
      | none => fault? length (some e) rest

/-- Accept a sorted batch without a fault. -/
def check (t : Text) (sorted : List Edit) : Except Refusal Unit :=
  match fault? t.length none sorted with
  | some refusal => .error refusal
  | none => .ok ()

/-- Put the replacement in the place of the stretch. -/
def apply (e : Edit) (t : Text) : Text :=
  t.take e.start.toNat ++ e.replacement ++ t.drop e.stop.toNat

/-- Apply a batch: the last edit of the sorted batch first. -/
def applyAll (t : Text) (edits : List Edit) : Except Refusal Text := do
  check t (inOrder edits)
  return (inOrder edits).foldr apply t

end Edit

end UnusedImports

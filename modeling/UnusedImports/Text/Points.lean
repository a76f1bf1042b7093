import UnusedImports.Text.Quoted

/-!
# Texts as code points

An escape can denote one half of a surrogate pair, which is a code point but no character. A list
of code points holds what a text with such escapes denotes. Two halves that stand side by side
stay two code points.

* `Points.ofText` and `Points.text?`: the code points of a text, and the text of code points that
  are all characters; `text?_ofText` says that the text comes back.
* `Points.quoted`: code points between quotes, halves as escapes.
-/

set_option autoImplicit false

namespace UnusedImports

/-- Code points, halves of surrogate pairs included. -/
abbrev Points := List Nat

namespace Points

/-- The character that a code point is. -/
def char? (n : Nat) : Option Char :=
  if n.isValidChar then some (Char.ofNat n) else none

/-- The code points of a text. -/
def ofText (t : Text) : Points :=
  t.map Char.toNat

/-- The text of code points that are all characters. -/
def text? (ps : Points) : Option Text :=
  ps.mapM char?

theorem char?_toNat (c : Char) : char? c.toNat = some c := by
  have h : c.toNat.isValidChar := c.valid
  simp [char?, h]

theorem text?_ofText (t : Text) : text? (ofText t) = some t := by
  induction t with
  | nil => rfl
  | cons c t ih =>
    simp only [text?, ofText, List.map_cons, List.mapM_cons, char?_toNat] at ih ⊢
    simp [ih]

/-- The code points as characters, each half replaced by the mark for what cannot be shown. -/
def readable (ps : Points) : Text :=
  ps.map fun n => (char? n).getD '\ufffd'

/-- A code point inside quotes. -/
def escaped (quote : Char) (n : Nat) : Text :=
  match char? n with
  | some c => Text.escaped Text.isPrintable quote c
  | none => Text.hexEscape n

/-- The code points between quotes. -/
def quoted (ps : Points) : Text :=
  let quote := Text.quoteFor ps.readable
  quote :: (ps.flatMap (escaped quote) ++ [quote])

end Points

end UnusedImports

import UnusedImports.Text

/-!
# White space repair

Cutting words out of a text can leave blanks at the end of a line, or a line with nothing but
blanks. `Text.repair` widens the stretch that an edit replaces so that neither stays behind.

* If the rest of the line after the stretch is blank, the stretch reaches up to the line break.
* If nothing is put in its place and the line before the stretch is blank too, the stretch
  takes the whole line and its line break.
-/

set_option autoImplicit false

namespace UnusedImports.Text

/-- The offset of the last character before `offset` that is not a blank, or a negative number
if only blanks precede it. -/
def lastNonBlank (t : Text) (offset : Int) : Int :=
  if offset < 0 then offset - 1
  else ((t.take offset.toNat).reverse.dropWhile isBlank).length - 1

/-- The offset of the first character at or after `offset` that is not a blank. -/
def nextNonBlank? (t : Text) (offset : Int) : Option Nat :=
  let skipped := offset.toNat + ((t.drop offset.toNat).takeWhile isBlank).length
  if skipped < t.length then some skipped else none

/-- The character at `offset` ends a line, or there is none. -/
def endsLine (t : Text) (offset : Nat) : Bool :=
  match t[offset]? with
  | some c => isLineBreak c
  | none => true

/-- Only blanks stand between the start of the line and `offset`. -/
def blankBefore (t : Text) (offset : Int) : Bool :=
  t.lastNonBlank offset < 0 || t.endsLine (t.lastNonBlank offset).toNat

/-- Only blanks stand between `offset` and the end of the line. -/
def blankAfter (t : Text) (offset : Int) : Bool :=
  match t.nextNonBlank? offset with
  | some next => t.endsLine next
  | none => true

/-- Replacing the stretch by `replacement` would leave a line of blanks. -/
def emptiesLine (t : Text) (start stop : Int) (replacement : Text) : Bool :=
  t.blankBefore start && t.blankAfter stop && replacement.isEmpty

/-- Where the repaired stretch starts: an emptied line goes from its first character on. -/
def repairStart (t : Text) (start stop : Int) (replacement : Text) : Int :=
  if t.emptiesLine start stop replacement then t.lastNonBlank start + 1 else start

/-- Where the repaired stretch stops: before the line break if only blanks remain in front of it,
and after it if the line is emptied. At the end of the text nothing is taken. -/
def repairStop (t : Text) (start stop : Int) (replacement : Text) : Int :=
  match t.nextNonBlank? stop with
  | none => stop
  | some next =>
    if t.emptiesLine start stop replacement then next + 1
    else if t.blankAfter stop then next
    else stop

/-- The stretch that an edit has to replace so that it leaves no trailing blanks and no blank
line behind. -/
def repair (t : Text) (start stop : Int) (replacement : Text) : Int × Int :=
  (t.repairStart start stop replacement, t.repairStop start stop replacement)

end UnusedImports.Text

/-!
# Texts and the characters that edits care about

A text is a list of characters; an offset counts characters from its start and may be any
integer, since hosts hand over offsets that nobody has checked.

* `Text.isBlank` and `Text.isLineBreak`: the two character classes of the white space repair.
  A carriage return belongs to both.
* `Text.before`: the part of a text that precedes an offset, a negative offset counting from
  the end.
* `Text.find?`: the first place of a character at or after an offset.
-/

set_option autoImplicit false

namespace UnusedImports

/-- A text is the list of its characters. -/
abbrev Text := List Char

namespace Text

/-! ## Character classes -/

/-- Blanks are the characters that separate words inside a line. -/
def isBlank (c : Char) : Bool :=
  c = ' ' || c = '\t' || c = '\r'

/-- Line breaks are line feed, form feed, carriage return and substitute. -/
def isLineBreak (c : Char) : Bool :=
  c = '\n' || c = '\x0c' || c = '\r' || c = '\x1a'

/-- A text that consists of one character of the class `p`. -/
def isSingle (p : Char → Bool) : Text → Bool
  | [c] => p c
  | _ => false

/-! ## Offsets -/

/-- The number of characters that precede `offset`; a negative offset counts from the end. -/
def reach (t : Text) (offset : Int) : Nat :=
  if offset < 0 then (offset + t.length).toNat else min offset.toNat t.length

/-- The part of the text that precedes `offset`. -/
def before (t : Text) (offset : Int) : Text :=
  t.take (t.reach offset)

/-- The first offset at or after `start` where `c` stands. -/
def find? (t : Text) (c : Char) (start : Int) : Option Nat :=
  ((t.drop (t.reach start)).findIdx? (· = c)).map (t.reach start + ·)

/-! ## Order -/

/-- The order of texts by the code points of their characters. -/
def le (a b : Text) : Bool :=
  !decide (b < a)

/-! ## Cutting and building texts -/

/-- Cut a text at every character `c`; neighbouring cuts leave an empty piece between them. -/
def cutAt (t : Text) (c : Char) : List Text :=
  match t with
  | [] => [[]]
  | x :: rest =>
    if x = c then [] :: cutAt rest c
    else
      match cutAt rest c with
      | [] => [[x]]
      | piece :: others => (x :: piece) :: others

theorem cutAt_of_not_mem {w : Text} {c : Char} (hc : c ∉ w) : w.cutAt c = [w] := by
  induction w with
  | nil => rfl
  | cons x rest ih =>
    rw [List.mem_cons, not_or] at hc
    rw [cutAt, if_neg (Ne.symm hc.1), ih hc.2]

/-- Up to the first cut stands the first piece. -/
theorem cutAt_append {w rest : Text} {c : Char} (hc : c ∉ w) :
    (w ++ c :: rest).cutAt c = w :: rest.cutAt c := by
  induction w with
  | nil => rw [List.nil_append, cutAt, if_pos rfl]
  | cons x w ih =>
    rw [List.mem_cons, not_or] at hc
    rw [List.cons_append, cutAt, if_neg (Ne.symm hc.1), ih hc.2]

/-- The texts of a list one after the other, with `separator` between neighbours. -/
def join (separator : Text) : List Text → Text
  | [] => []
  | [t] => t
  | t :: u :: ts => t ++ separator ++ join separator (u :: ts)

/-- A natural number in decimal digits. -/
def ofNat (n : Nat) : Text :=
  Nat.toDigits 10 n

/-- An integer in decimal digits, after a minus sign if it is negative. -/
def ofInt : Int → Text
  | .ofNat n => ofNat n
  | .negSucc n => '-' :: ofNat (n + 1)

/-- A number of more decimal digits is neither read nor written. -/
def longestNumber : Nat := 4300

end Text

end UnusedImports

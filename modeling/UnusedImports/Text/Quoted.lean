import UnusedImports.Text.Printable

/-!
# Quoted texts

`Text.quoted` writes a text, and `Text.quotedBytes` a list of bytes, on one line between quotes:
single quotes, or double quotes if only single quotes occur inside. Backslashes and the
surrounding quote are escaped, and so is everything that is not printable.
-/

set_option autoImplicit false

namespace UnusedImports.Text

/-- A number in hexadecimal digits, with zeros in front up to `width` digits. -/
def hex (width n : Nat) : Text :=
  let digits := Nat.toDigits 16 n
  List.replicate (width - digits.length) '0' ++ digits

/-- A code point as an escape of two, four or eight hexadecimal digits. -/
def hexEscape (n : Nat) : Text :=
  if n < 0x100 then '\\' :: 'x' :: hex 2 n
  else if n < 0x10000 then '\\' :: 'u' :: hex 4 n
  else '\\' :: 'U' :: hex 8 n

/-- A character inside a quoted text: `verbatim` says which characters stand for themselves. -/
def escaped (verbatim : Char → Bool) (quote c : Char) : Text :=
  if c = quote || c = '\\' then ['\\', c]
  else if c = '\n' then ['\\', 'n']
  else if c = '\r' then ['\\', 'r']
  else if c = '\t' then ['\\', 't']
  else if verbatim c then [c]
  else hexEscape c.toNat

/-- The quote that surrounds a text. -/
def quoteFor (t : Text) : Char :=
  if t.contains '\'' && !t.contains '"' then '"' else '\''

/-- The text between quotes. -/
def quoted (t : Text) : Text :=
  quoteFor t :: (t.flatMap (escaped isPrintable (quoteFor t)) ++ [quoteFor t])

/-- A character of the visible part of the ASCII table, or the space. -/
def isVisibleAscii (c : Char) : Bool :=
  0x20 ≤ c.toNat && c.toNat < 0x7f

/-- Bytes between quotes, written as the characters with these code points. -/
def quotedBytes (bytes : List UInt8) : Text :=
  let t : Text := bytes.map fun b => Char.ofNat b.toNat
  'b' :: quoteFor t :: (t.flatMap (escaped isVisibleAscii (quoteFor t)) ++ [quoteFor t])

end UnusedImports.Text

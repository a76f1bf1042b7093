import UnusedImports.Text

/-!
# Lines and columns

`Text.position` turns an offset into a line, counted from one, and a column, counted from zero.
Only a line feed ends a line. Every offset beyond the end stands for the end.
-/

set_option autoImplicit false

namespace UnusedImports

/-- A place in a text: the line counts from one and the column from zero. -/
structure Position where
  line : Nat
  column : Int
  deriving DecidableEq, Repr

/-- The places where a stretch of text starts and ends. -/
structure Range where
  start : Position
  stop : Position
  deriving DecidableEq, Repr

namespace Text

/-- The characters after the last line feed. -/
def lastLine (t : Text) : Text :=
  (t.reverse.takeWhile (· ≠ '\n')).reverse

/-- The place of `offset`: its line is one more than the line feeds before it, and its column is
its distance from the last of them, or from the start of the text. -/
def position (t : Text) (offset : Int) : Position :=
  let offset := min offset t.length
  let done := t.before offset
  { line := done.count '\n' + 1
    column := offset - (done.length - done.lastLine.length : Nat) }

/-- The places of two offsets. -/
def range (t : Text) (start stop : Int) : Range :=
  { start := t.position start, stop := t.position stop }

end Text

end UnusedImports

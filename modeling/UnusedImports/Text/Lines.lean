import UnusedImports.Text

/-!
# Lines

`Text.lines` cuts a text after every line end and keeps the line ends, so the lines joined are
the text (`flatten_lines`). A carriage return and the line feed after it are one line end.
-/

set_option autoImplicit false

namespace UnusedImports.Text

/-- The characters that end a line: line feed, vertical tab, form feed, carriage return, the
separators of files, groups and records, next line, and the separators of lines and
paragraphs. -/
def endsLineAlone (c : Char) : Bool :=
  c = '\n' || c = '\x0b' || c = '\x0c' || c = '\r' || c = '\x1c' || c = '\x1d' || c = '\x1e'
    || c = '\u0085' || c = '\u2028' || c = '\u2029'

/-- Put a character in front of the first line. -/
def extendFirst (c : Char) : List Text → List Text
  | [] => [[c]]
  | line :: rest => (c :: line) :: rest

/-- The lines of a text, each with its line end; the last line may lack one. -/
def lines : Text → List Text
  | [] => []
  | '\r' :: '\n' :: rest => ['\r', '\n'] :: lines rest
  | c :: rest => if endsLineAlone c then [c] :: lines rest else extendFirst c (lines rest)

theorem flatten_extendFirst (c : Char) (ls : List Text) :
    (extendFirst c ls).flatten = c :: ls.flatten := by
  cases ls with
  | nil => rfl
  | cons line rest => rfl

/-- Cutting a text into lines loses nothing. -/
theorem flatten_lines (t : Text) : (lines t).flatten = t := by
  fun_induction lines t with
  | case1 => rfl
  | case2 rest ih => simp [ih]
  | case3 c rest _ _ ih => simp [ih]
  | case4 c rest _ _ ih => rw [flatten_extendFirst, ih]

end UnusedImports.Text

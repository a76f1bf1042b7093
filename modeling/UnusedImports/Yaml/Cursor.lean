import UnusedImports.Text

/-!
# Reading YAML character by character

A `Cursor` is a place in a document: the text that is left, and where it begins. The line ends of
a document have been unified before it is read, so a carriage return never occurs.
-/

set_option autoImplicit false

namespace UnusedImports.Yaml

/-! ## Characters -/

/-- The characters that end a line of a document. -/
def isBreak (c : Char) : Bool :=
  c = '\n' || c = '\u0085' || c = '\u2028' || c = '\u2029'

/-- A line end as it appears in a value: a next line character counts as a line feed. -/
def breakText (c : Char) : Char :=
  if c = '\u0085' then '\n' else c

/-- Spaces and tabs. -/
def isSpace (c : Char) : Bool :=
  c = ' ' || c = '\t'

/-- The characters that a document may consist of. -/
def isAllowed (c : Char) : Bool :=
  c = '\t' || c = '\n' || c = '\r' || c = '\u0085' || (0x20 ≤ c.toNat && c.toNat ≤ 0x7e)
    || (0xa0 ≤ c.toNat && c.toNat ≤ 0xfffd) || 0x10000 ≤ c.toNat

/-- Letters, digits, hyphens and underscores of the ASCII table. -/
def isNameChar (c : Char) : Bool :=
  c.isAlphanum || c = '-' || c = '_'

/-- The text is over, or a line of it is. -/
def atLineEnd : Text → Bool
  | [] => true
  | c :: _ => isBreak c

/-- The text is over, or begins with a space, a tab or a line end. -/
def atGap : Text → Bool
  | [] => true
  | c :: _ => isSpace c || isBreak c

/-- The text begins with the mark that starts a document. -/
def atDocumentStart : Text → Bool
  | '-' :: '-' :: '-' :: rest => atGap rest
  | _ => false

/-- The text begins with the mark that ends a document. -/
def atDocumentEnd : Text → Bool
  | '.' :: '.' :: '.' :: rest => atGap rest
  | _ => false

/-- The text begins with a mark that separates documents. -/
def atDocumentMark (t : Text) : Bool :=
  atDocumentStart t || atDocumentEnd t

/-- The text is too short to tell whether a mark that separates documents is at its start, if more
text follows. -/
def cutsDocumentMark (t : Text) : Bool :=
  (t.drop 2).isEmpty || ((t.drop 3).isEmpty && atDocumentMark t)

/-! ## Cursors -/

/-- A place in a document: what is left, how many characters precede it, its line and its
column. -/
structure Cursor where
  rest : Text
  index : Nat
  line : Nat
  column : Nat
  deriving Repr

namespace Cursor

/-- The start of a document. -/
def start (t : Text) : Cursor := ⟨t, 0, 0, 0⟩

/-- Pass one character. A byte order mark takes no column. -/
def advance (c : Cursor) : Cursor :=
  match c.rest with
  | [] => c
  | x :: rest =>
    if isBreak x then ⟨rest, c.index + 1, c.line + 1, 0⟩
    else ⟨rest, c.index + 1, c.line, if x = '\ufeff' then c.column else c.column + 1⟩

/-- Pass `n` characters. -/
def skip (c : Cursor) : Nat → Cursor
  | 0 => c
  | n + 1 => c.advance.skip n

/-- Pass everything in front of `rest`, which is what is left of the text afterwards. -/
def moveTo (c : Cursor) (rest : Text) : Cursor :=
  c.skip (c.rest.length - rest.length)

end Cursor

end UnusedImports.Yaml

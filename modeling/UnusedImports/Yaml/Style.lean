import UnusedImports.Text.Points
import UnusedImports.Yaml.Tag

/-!
# How a text is written as a scalar

A text is written plainly if it reads back as the same text, else between single quotes if these
can hold it, and else between double quotes. Long scalars are folded at a space once a line has
grown beyond its width.
-/

set_option autoImplicit false

namespace UnusedImports.Yaml

/-- The width of a line. -/
def lineWidth : Nat := 80

/-! ## Which styles are possible -/

/-- The characters that only double quotes can hold: all but line feeds and the visible part of
the ASCII table. -/
def isSpecial (c : Char) : Bool :=
  !(c = '\n' || Text.isVisibleAscii c)

/-- The first of two neighbours is of the class `p` and the second one of the class `q`. -/
def hasNeighbours (p q : Char → Bool) : Text → Bool
  | a :: b :: rest => (p a && q b) || hasNeighbours p q (b :: rest)
  | _ => false

/-- The character is `c`. -/
def isChar (c x : Char) : Bool :=
  x = c

/-- A blank or a line end. -/
def isGap (c : Char) : Bool :=
  isSpace c || isBreak c

/-- The text begins like something that is not a plain scalar. -/
def beginsWithIndicator (t : Text) : Bool :=
  match t with
  | [] => false
  | c :: rest =>
    "#,[]\x7b\x7d&*!|>'\"%@\u0060".toList.contains c
      || ((c = '?' || c = ':' || c = '-') && atGap rest)
      || ['-', '-', '-'].isPrefixOf t || ['.', '.', '.'].isPrefixOf t

/-- The text contains something that would end a plain scalar: a colon in front of a gap, or a
comment. -/
def containsIndicator (t : Text) : Bool :=
  hasNeighbours (isChar ':') isGap t || t.getLast? = some ':'
    || hasNeighbours isGap (isChar '#') t

/-- Quotes are needed because a gap at either end would be lost. -/
def hasOuterGap (t : Text) : Bool :=
  t.head?.any (fun c => c = ' ' || isBreak c) || t.getLast?.any (fun c => c = ' ' || isBreak c)

/-- The text can be written between single quotes: it has no special characters, and no space
beside a line end. -/
def allowsSingle (t : Text) : Bool :=
  !t.any isSpecial && !hasNeighbours isBreak (isChar ' ') t && !hasNeighbours (isChar ' ') isBreak t

/-- The text can be written plainly on one line. -/
def allowsPlain (t : Text) : Bool :=
  allowsSingle t && !t.any isBreak && !hasOuterGap t && !beginsWithIndicator t
    && !containsIndicator t

/-- The styles of a text. -/
inductive Style where
  | plain
  | single
  | double
  deriving DecidableEq, Repr

/-- The style of a text: a plain scalar has to be read back as a text. -/
def styleOf (t : Text) : Style :=
  if allowsPlain t && Tag.ofPlain t = .str then .plain
  else if allowsSingle t then .single
  else .double

/-! ## Folding -/

/-- A new line, indented. -/
def newLine (indent : Nat) : Text :=
  '\n' :: List.replicate indent ' '

/-- Two characters belong to the same run: both are spaces, both are line feeds, or neither is
either. -/
def sameRun (a b : Char) : Bool :=
  (a = ' ') = (b = ' ') && (a = '\n') = (b = '\n')

/-- The runs of spaces, of line feeds and of other characters that make up a text. -/
def runs (t : Text) : List Text :=
  t.splitBy sameRun

/-- The runs of a plain text from `column` on. A single space is replaced by a new line if the
line has grown beyond its width and may be folded. -/
def foldPlain (canFold : Bool) (indent column : Nat) : List Text → Text
  | [] => []
  | run :: rest =>
    if run = [' '] && canFold && lineWidth < column then
      newLine indent ++ foldPlain canFold indent indent rest
    else run ++ foldPlain canFold indent (column + run.length) rest

/-- A text with its quotes doubled. -/
def doubledQuotes (t : Text) : Text :=
  t.flatMap fun c => if c = '\'' then ['\'', '\''] else [c]

/-- The runs of a text between single quotes from `column` on; `isInner` says that others precede
them. Line feeds are written once more than they occur, and a single space that is neither the
first nor the last character may be replaced by a new line. -/
def foldSingle (canFold : Bool) (indent column : Nat) (isInner : Bool) : List Text → Text
  | [] => []
  | run :: rest =>
    if run.head? = some '\n' then
      run ++ newLine indent ++ foldSingle canFold indent indent true rest
    else if run = [' '] && canFold && lineWidth < column && isInner && !rest.isEmpty then
      newLine indent ++ foldSingle canFold indent indent true rest
    else
      let written := doubledQuotes run
      written ++ foldSingle canFold indent (column + written.length) true rest

/-- The letters that stand for characters behind a backslash. -/
def letterEscapes : List (Char × Char) :=
  [('\x00', '0'), ('\x07', 'a'), ('\x08', 'b'), ('\t', 't'), ('\n', 'n'), ('\x0b', 'v'),
    ('\x0c', 'f'), ('\r', 'r'), ('\x1b', 'e'), ('"', '"'), ('\\', '\\'), ('\u0085', 'N'),
    ('\u00a0', '_'), ('\u2028', 'L'), ('\u2029', 'P')]

/-- The character that a code point is, if it stands for itself between double quotes. -/
def verbatim? (n : Nat) : Option Char :=
  (Points.char? n).filter fun c => Text.isVisibleAscii c && c ≠ '"' && c ≠ '\\'

/-- An escaped code point, with hexadecimal digits in upper case. -/
def escapeOf (n : Nat) : Text :=
  match (Points.char? n).bind (letterEscapes.lookup ·) with
  | some l => ['\\', l]
  | none =>
    match Text.hexEscape n with
    | a :: b :: digits => a :: b :: digits.map Char.toUpper
    | t => t

/-- A backslash that protects a space at the start of a line. -/
def guardSpace (ps : Points) : Text :=
  if ps.head? = some ' '.toNat then ['\\'] else []

/-- Code points between double quotes from `column` on. `isFresh` says that an escape or the start
of a line precedes them, and `isInner` that they are not the start of the text. Behind an escape and
in front of a space the line can be folded, which a backslash marks. -/
def foldDouble (canFold : Bool) (indent column : Nat) (isFresh isInner : Bool) : Points → Text
  | [] => []
  | n :: rest =>
    let foldsAt (column : Nat) : Bool :=
      canFold && isInner && !rest.isEmpty && lineWidth < column
    match verbatim? n with
    | some c =>
      if (c = ' ' || isFresh) && foldsAt column then
        let start := guardSpace (n :: rest)
        '\\' :: newLine indent ++ start
          ++ c :: foldDouble canFold indent (indent + start.length + 1) false true rest
      else c :: foldDouble canFold indent (column + 1) false true rest
    | none =>
      let escape := escapeOf n
      if foldsAt (column + escape.length - 1) then
        let start := guardSpace rest
        escape ++ '\\' :: newLine indent ++ start
          ++ foldDouble canFold indent (indent + start.length) true true rest
      else escape ++ foldDouble canFold indent (column + escape.length) true true rest

/-- Code points between double quotes as a scalar that starts at `column`. -/
def doubleQuoted (canFold : Bool) (indent column : Nat) (ps : Points) : Text :=
  '"' :: foldDouble canFold indent (column + 1) false false ps ++ ['"']

/-- A text as a scalar that starts at `column`; `indent` is the indentation of the lines after the
first one. -/
def scalarText (canFold : Bool) (indent column : Nat) (t : Text) : Text :=
  match styleOf t with
  | .plain => foldPlain canFold indent column (runs t)
  | .single => '\'' :: foldSingle canFold indent (column + 1) false (runs t) ++ ['\'']
  | .double => doubleQuoted canFold indent column (.ofText t)

/-- Code points as a scalar. If they are no text, only double quotes can hold them. -/
def pointsText (canFold : Bool) (indent column : Nat) (ps : Points) : Text :=
  match ps.text? with
  | some t => scalarText canFold indent column t
  | none => doubleQuoted canFold indent column ps

end UnusedImports.Yaml

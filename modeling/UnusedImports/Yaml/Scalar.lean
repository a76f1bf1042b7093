import UnusedImports.Text.Digit
import UnusedImports.Text.Points
import UnusedImports.Yaml.Cursor
import UnusedImports.Yaml.Failure

/-!
# The three spellings of a scalar

A scalar is written plainly, between quotes, or as a block of lines. In each spelling a line end
inside the scalar can be folded: a single one becomes a space, and of several ones all but the
first are kept.
-/

set_option autoImplicit false

namespace UnusedImports.Yaml

/-- What a line end and the line ends after it become: the first one is folded if it is a line
feed. -/
def folded (first : Char) (more : Text) : Text :=
  if breakText first ≠ '\n' then breakText first :: more
  else if more.isEmpty then [' ']
  else more

/-! ## Plain scalars -/

/-- The first character of the text begins with one of the given ones. -/
def startsWithOneOf (cs : List Char) : Text → Bool
  | [] => false
  | c :: _ => cs.contains c

/-- A word of a plain scalar stops here. Inside brackets the characters that structure them stop
it too. -/
def stopsWord (inFlow : Bool) : Text → Bool
  | [] => true
  | c :: rest =>
    isSpace c || isBreak c
      || (c = ':' && (atGap rest
        || (inFlow && startsWithOneOf [',', '[', ']', '\x7b', '\x7d'] rest)))
      || (inFlow && startsWithOneOf [',', '?', '[', ']', '\x7b', '\x7d'] [c])

/-- A word of a plain scalar, and the text behind it. -/
def word (inFlow : Bool) : Text → Text × Text
  | [] => ([], [])
  | c :: rest =>
    if stopsWord inFlow (c :: rest) then ([], c :: rest)
    else
      let (w, after) := word inFlow rest
      (c :: w, after)

/-- The line ends of blank lines and the text behind them and the spaces among them. Nothing is
returned for the line ends if a mark that separates documents follows one. -/
def blankLines : Text → Option Text × Text
  | [] => (some [], [])
  | c :: rest =>
    if c = ' ' then blankLines rest
    else if isBreak c then
      if atDocumentMark rest then (none, rest)
      else
        let (more, after) := blankLines rest
        (more.map (breakText c :: ·), after)
    else (some [], c :: rest)

/-- What stands between two words of a plain scalar. -/
structure WordGap where
  /-- The text that the gap contributes if a word follows, or nothing if none can follow. -/
  text : Option Text
  rest : Text
  /-- The gap contains a line end. -/
  newLine : Bool
  deriving Repr

/-- The gap at the start of a text. Tabs do not belong to it. -/
def wordGap (t : Text) : WordGap :=
  let spaces := t.takeWhile (· = ' ')
  match t.dropWhile (· = ' ') with
  | [] => ⟨if spaces.isEmpty then none else some spaces, [], false⟩
  | c :: rest =>
    if isBreak c then
      if atDocumentMark rest then ⟨none, rest, true⟩
      else
        let (more, after) := blankLines rest
        ⟨more.map (folded c), after, true⟩
    else ⟨if spaces.isEmpty then none else some spaces, c :: rest, false⟩

/-- A plain scalar, the cursor behind it and the blanks after it, and whether a line end is among
those. Lines that continue it are indented by at least `indent` columns. -/
def plainScalar (inFlow : Bool) (indent : Int) (c : Cursor) : Text × Cursor × Bool :=
  let (w, after) := word inFlow c.rest
  if w.isEmpty || startsWithOneOf ['#'] c.rest then ([], c, false)
  else
    let gap := wordGap after
    let next := c.moveTo gap.rest
    match gap.text with
    | none => (w, next, gap.newLine)
    | some between =>
      if startsWithOneOf ['#'] gap.rest || (!inFlow && (next.column : Int) < indent) then
        (w, next, gap.newLine)
      else if _h : next.rest.length < c.rest.length then
        let (more, last, newLine) := plainScalar inFlow indent next
        if more.isEmpty then (w, next, gap.newLine) else (w ++ between ++ more, last, newLine)
      else (w, next, gap.newLine)
  termination_by c.rest.length

/-! ## Quoted scalars

The text may be cut off by a barrier. Then its end is none of the document, but that failure. -/

/-- The failure of a text that ends too early. -/
def endFailure (barrier : Option Failure) : Failure :=
  barrier.getD .malformed

/-- The number that hexadecimal digits denote. -/
def hexValue? (t : Text) : Option Nat :=
  t.foldlM (fun n c => (Text.hexDigit? c).map (n * 16 + ·)) 0

/-- The characters that one letter after a backslash stands for. -/
def shortEscapes : List (Char × Char) :=
  [('0', '\x00'), ('a', '\x07'), ('b', '\x08'), ('t', '\t'), ('\t', '\t'), ('n', '\n'),
    ('v', '\x0b'), ('f', '\x0c'), ('r', '\r'), ('e', '\x1b'), (' ', ' '), ('"', '"'),
    ('\\', '\\'), ('/', '/'), ('N', '\u0085'), ('_', '\u00a0'), ('L', '\u2028'),
    ('P', '\u2029')]

/-- The letters after a backslash that announce hexadecimal digits, and how many follow. -/
def longEscapes : List (Char × Nat) :=
  [('x', 2), ('u', 4), ('U', 8)]

/-- The code point that `count` hexadecimal digits denote, and the text behind them. -/
def hexCodePoint (barrier : Option Failure) (count : Nat) (t : Text) :
    Except Failure (Nat × Text) :=
  match hexValue? (t.take count) with
  | none => .error .malformed
  | some n =>
    if t.length < count then .error (endFailure barrier)
    else if 0x80000000 ≤ n then .error .hugeEscape
    else if 0x110000 ≤ n then .error .noCodePoint
    else .ok (n, t.drop count)

/-- Blank lines inside quotes, and the text behind them. No mark that separates documents may
stand at the start of a line. -/
def quotedBlankLines (barrier : Option Failure) (t : Text) : Except Failure (Text × Text) :=
  if barrier.isSome && cutsDocumentMark t then .error (endFailure barrier)
  else if atDocumentMark t then .error .malformed
  else
    match _h : t.dropWhile isSpace with
    | [] => .ok ([], [])
    | c :: rest =>
      if isBreak c then do
        let (more, after) ← quotedBlankLines barrier rest
        return (breakText c :: more, after)
      else .ok ([], c :: rest)
  termination_by t.length
  decreasing_by
    have hl := (t.dropWhile_sublist isSpace).length_le
    rw [_h] at hl
    simp only [List.length_cons] at hl
    omega

/-- Put a code point in front of what was read. -/
def consTo (n : Nat) (r : Except Failure (Points × Text)) : Except Failure (Points × Text) :=
  r.map fun (w, after) => (n :: w, after)

/-- What the characters up to the next gap or the closing quote denote, and the text behind
them. -/
def quotedWord (barrier : Option Failure) (quote : Char) (t : Text) :
    Except Failure (Points × Text) :=
  match t with
  | [] => .ok ([], [])
  | c :: rest =>
    if isSpace c || isBreak c then .ok ([], c :: rest)
    else if quote = '\'' then
      if c ≠ '\'' then consTo c.toNat (quotedWord barrier quote rest)
      else
        match rest with
        | '\'' :: rest => consTo c.toNat (quotedWord barrier quote rest)
        | rest => .ok ([], '\'' :: rest)
    else if c = '"' then .ok ([], c :: rest)
    else if c ≠ '\\' then consTo c.toNat (quotedWord barrier quote rest)
    else
      match rest with
      | [] => .error (endFailure barrier)
      | e :: rest =>
        if isBreak e then
          match quotedBlankLines barrier rest with
          | .error f => .error f
          | .ok (more, after) =>
            if _h : after.length ≤ rest.length then
              (quotedWord barrier quote after).map fun (w, last) => (.ofText more ++ w, last)
            else .error .malformed
        else
          match shortEscapes.lookup e, longEscapes.lookup e with
          | some x, _ => consTo x.toNat (quotedWord barrier quote rest)
          | none, none => .error .malformed
          | none, some count =>
            match hexCodePoint barrier count rest with
            | .error f => .error f
            | .ok (n, after) =>
              if _h : after.length ≤ rest.length then consTo n (quotedWord barrier quote after)
              else .error .malformed
  termination_by t.length
  decreasing_by all_goals (simp only [List.length_cons]; omega)

/-- What the gap between two words inside quotes denotes, and the text behind it. -/
def quotedGap (barrier : Option Failure) (t : Text) : Except Failure (Text × Text) :=
  match t.dropWhile isSpace with
  | [] => .error (endFailure barrier)
  | c :: rest =>
    if isBreak c then do
      let (more, after) ← quotedBlankLines barrier rest
      return (folded c more, after)
    else .ok (t.takeWhile isSpace, c :: rest)

/-- A scalar up to its closing quote, and the text behind the quote. -/
def quotedScalar (barrier : Option Failure) (quote : Char) (t : Text) :
    Except Failure (Points × Text) := do
  let (w, after) ← quotedWord barrier quote t
  match after with
  | [] => throw (endFailure barrier)
  | c :: rest =>
    if c = quote then return (w, rest)
    else
      let (between, next) ← quotedGap barrier (c :: rest)
      if _h : next.length < t.length then
        let (more, last) ← quotedScalar barrier quote next
        return (w ++ .ofText between ++ more, last)
      else throw (endFailure barrier)
  termination_by t.length

/-! ## Block scalars -/

/-- What becomes of the line ends at the end of a block scalar. -/
inductive Chomping where
  /-- None is kept. -/
  | strip
  /-- The first one is kept. -/
  | clip
  /-- All are kept. -/
  | keep
  deriving DecidableEq, Repr

/-- The chomping that a sign asks for. -/
def chompingOf? : Text → Option Chomping
  | '+' :: _ => some .keep
  | '-' :: _ => some .strip
  | _ => none

/-- The indentation that a digit asks for. -/
def incrementOf? : Text → Option Nat
  | c :: _ => if c.isDigit then some (c.toNat - 48) else none
  | [] => none

/-- The indicators behind the sign of a block scalar, in either order, and the text behind them.
An increment of zero is refused. -/
def blockIndicators (t : Text) : Except Failure (Chomping × Option Nat × Text) :=
  let (chomping, increment, after) :=
    match chompingOf? t, incrementOf? t with
    | some chomping, _ =>
      match incrementOf? t.tail with
      | some n => (chomping, some n, t.tail.tail)
      | none => (chomping, none, t.tail)
    | none, some n =>
      match chompingOf? t.tail with
      | some chomping => (chomping, some n, t.tail.tail)
      | none => (.clip, some n, t.tail)
    | none, none => (.clip, none, t)
  if increment = some 0 || !(atLineEnd after || startsWithOneOf [' '] after) then
    .error .malformed
  else .ok (chomping, increment, after)

/-- The text behind a line on which only spaces and a comment may stand. -/
def passIgnoredLine (t : Text) : Except Failure Text :=
  let t := t.dropWhile (· = ' ')
  let t := if startsWithOneOf ['#'] t then t.dropWhile (!isBreak ·) else t
  if atLineEnd t then .ok t.tail else .error .malformed

/-- The text behind at most `count` spaces, and how many there were. -/
def dropSpaces : Nat → Text → Text × Nat
  | n + 1, ' ' :: rest =>
    let (after, k) := dropSpaces n rest
    (after, k + 1)
  | _, t => (t, 0)

theorem length_dropSpaces_le (n : Nat) (t : Text) : (dropSpaces n t).1.length ≤ t.length := by
  fun_induction dropSpaces n t with
  | case1 n rest after k h ih =>
    rw [h] at ih
    simp only [List.length_cons]
    exact Nat.le_succ_of_le ih
  | case2 => exact Nat.le_refl _

/-- Blank lines in front of a line of a block, the text behind them and behind at most `indent`
spaces, and the number of these spaces. -/
def blockBlankLines (indent : Nat) (t : Text) : Text × Text × Nat :=
  match _h : dropSpaces indent t with
  | ([], k) => ([], [], k)
  | (c :: rest, k) =>
    if isBreak c then
      let (more, after, last) := blockBlankLines indent rest
      (breakText c :: more, after, last)
    else ([], c :: rest, k)
  termination_by t.length
  decreasing_by
    have hl := length_dropSpaces_le indent t
    rw [_h] at hl
    simp only [List.length_cons] at hl
    omega

/-- Blank lines at the start of a block whose indentation is not known: their line ends, the
greatest number of spaces on a line, the text behind, and the number of spaces in front of it. -/
def blockStart (spaces greatest : Nat) : Text → Text × Nat × Text × Nat
  | [] => ([], greatest, [], spaces)
  | c :: rest =>
    if c = ' ' then blockStart (spaces + 1) (max greatest (spaces + 1)) rest
    else if isBreak c then
      let (more, result) := blockStart 0 greatest rest
      (breakText c :: more, result)
    else ([], greatest, c :: rest, spaces)

/-- The lines of a block scalar. -/
structure BlockLines where
  text : Text
  /-- The line end of the last line. -/
  lastBreak : Text
  /-- The line ends of the blank lines behind the last line. -/
  tail : Text
  rest : Text
  deriving Repr

/-- The lines from here on, `blank` being the line ends of the blank lines in front. The text is
preceded by `column` spaces; a line that is indented less ends the block. -/
def blockLines (isFolded : Bool) (indent column : Nat) (blank t : Text) : BlockLines :=
  if column ≠ indent || t.isEmpty then ⟨[], [], blank, t⟩
  else
    let line := t.takeWhile (!isBreak ·)
    let after := t.dropWhile (!isBreak ·)
    let lineEnd : Text := (after.take 1).map breakText
    let (more, next, k) := blockBlankLines indent after.tail
    if k = indent && !next.isEmpty then
      let canFold := isFolded && lineEnd = ['\n'] && !startsWithOneOf [' ', '\t'] t
        && !startsWithOneOf [' ', '\t'] next
      let between : Text :=
        if !canFold then lineEnd else if more.isEmpty then [' '] else []
      if _h : next.length < t.length then
        let others := blockLines isFolded indent k more next
        { others with text := blank ++ line ++ between ++ others.text }
      else ⟨blank ++ line, lineEnd, more, next⟩
    else ⟨blank ++ line, lineEnd, more, next⟩
  termination_by t.length

/-- A block scalar behind its sign, and the text behind it. `indent` is the indentation of what
surrounds it. -/
def blockScalar (isFolded : Bool) (indent : Int) (t : Text) : Except Failure (Text × Text) := do
  let (chomping, increment, after) ← blockIndicators t
  let body ← passIgnoredLine after
  let least := (max (indent + 1) 1).toNat
  let lines :=
    match increment with
    | some n =>
      let indent := least + n - 1
      let (blank, first, k) := blockBlankLines indent body
      blockLines isFolded indent k blank first
    | none =>
      let (blank, greatest, first, k) := blockStart 0 0 body
      blockLines isFolded (max least greatest) k blank first
  let ending :=
    match chomping with
    | .strip => []
    | .clip => lines.lastBreak
    | .keep => lines.lastBreak ++ lines.tail
  return (lines.text ++ ending, lines.rest)

end UnusedImports.Yaml

import UnusedImports.Yaml.Scalar
import UnusedImports.Yaml.Source

/-!
# The tokens of a document

`Token.ofSource` cuts a document into tokens. Indentation becomes tokens too: a block sequence or
block mapping starts where the indentation grows and ends where it shrinks.

A key is often known as such only when the colon behind it is reached. The places where a key may
have started are therefore kept, one for each level of brackets, and the tokens of the key are put
in front of it later. Such a key has to end on its line and within 1024 characters.

A token is asked for only when it is needed, and then the document is cut until the token is known
for certain: as long as it may turn out to belong to a key, the tokens behind it are cut too. If
that fails, the failure takes the place of the token.
-/

set_option autoImplicit false

namespace UnusedImports.Yaml

/-- A tag as it is written: a handle that stands for a beginning, if there is one, and the
rest. -/
structure WrittenTag where
  handle : Option Text
  suffix : Text
  deriving DecidableEq, Repr

/-- A token of a document. -/
inductive Token where
  | versionDirective (major : Nat)
  | tagDirective (handle start : Text)
  | otherDirective
  | documentStart
  | documentEnd
  | blockSequenceStart
  | blockMappingStart
  | blockEnd
  | flowSequenceStart
  | flowSequenceEnd
  | flowMappingStart
  | flowMappingEnd
  | blockEntry
  | flowEntry
  | key
  | value
  | anchor (name : Text)
  | alias (name : Text)
  | tag (t : WrittenTag)
  | scalar (ps : Points) (isPlain : Bool)
  /-- The rest of the text cannot be cut into tokens. -/
  | invalid (f : Failure)
  deriving DecidableEq, Repr

/-! ## Names, tags and directives

What is read here may be cut off by the end of the text. `atEnd` is the failure if it is. -/

/-- The failure of meeting this text where something else has to follow. -/
def unexpected (atEnd : Failure) (t : Text) : Failure :=
  if t.isEmpty then atEnd else .malformed

/-- The name of an anchor, and the text behind it. -/
def anchorName (atEnd : Failure) (t : Text) : Except Failure (Text × Text) :=
  let name := t.takeWhile isNameChar
  let after := t.dropWhile isNameChar
  if name.isEmpty then .error (unexpected atEnd t)
  else if atGap after
      || startsWithOneOf ['?', ':', ',', ']', '\x7d', '%', '@', '\u0060'] after then
    .ok (name, after)
  else .error .malformed

/-- The characters of a tag, the percent sign apart. -/
def isTagChar (c : Char) : Bool :=
  c.isAlphanum || "-;/?:@&=+$,_.!~*'()[]".toList.contains c

/-- The bytes that percent signs with two hexadecimal digits denote, and the text behind them. -/
def tagBytes (atEnd : Failure) : Text → Except Failure (List UInt8 × Text)
  | '%' :: a :: b :: rest =>
    match hexValue? [a, b] with
    | none => .error .malformed
    | some n => (tagBytes atEnd rest).map fun (bytes, after) => (UInt8.ofNat n :: bytes, after)
  | '%' :: rest => .error (if (hexValue? rest).isSome then atEnd else .malformed)
  | t => .ok ([], t)

/-- The text of a tag, with percent escapes resolved, and the text behind it. -/
def tagText (atEnd : Failure) (t : Text) : Except Failure (Text × Text) :=
  match t with
  | [] => .ok ([], [])
  | c :: rest =>
    if c = '%' then
      match tagBytes atEnd (c :: rest) with
      | .error f => .error f
      | .ok (bytes, after) =>
        match String.fromUTF8? ⟨bytes.toArray⟩ with
        | none => .error (unexpected atEnd after)
        | some s =>
          if _h : after.length ≤ rest.length then
            (tagText atEnd after).map fun (more, last) => (s.toList ++ more, last)
          else .error .malformed
    else if isTagChar c then (tagText atEnd rest).map fun (more, last) => (c :: more, last)
    else .ok ([], c :: rest)
  termination_by t.length
  decreasing_by all_goals (simp only [List.length_cons]; omega)

/-- The text of a tag that is not empty. -/
def someTagText (atEnd : Failure) (t : Text) : Except Failure (Text × Text) := do
  let (tag, after) ← tagText atEnd t
  if tag.isEmpty then throw (unexpected atEnd after)
  return (tag, after)

/-- A tag handle: an exclamation mark, or a name between two of them. -/
def tagHandle (atEnd : Failure) : Text → Except Failure (Text × Text)
  | '!' :: rest =>
    if startsWithOneOf [' '] rest then .ok (['!'], rest)
    else
      match rest.dropWhile isNameChar with
      | '!' :: after => .ok ('!' :: (rest.takeWhile isNameChar ++ ['!']), after)
      | after => .error (unexpected atEnd after)
  | t => .error (unexpected atEnd t)

/-- A space or a line end follows. -/
def atSpaceOrEnd (t : Text) : Bool :=
  atLineEnd t || startsWithOneOf [' '] t

/-- A tag behind its exclamation mark, and the text behind the tag. -/
def writtenTag (atEnd : Failure) (t : Text) : Except Failure (WrittenTag × Text) := do
  let (tag, after) ←
    match t with
    | '<' :: rest => do
      let (suffix, after) ← someTagText atEnd rest
      match after with
      | '>' :: after => pure (WrittenTag.mk none suffix, after)
      | after => throw (unexpected atEnd after)
    | rest =>
      if atGap rest then pure (WrittenTag.mk none ['!'], rest)
      else
        match rest.dropWhile fun c => c ≠ ' ' && c ≠ '!' && !isBreak c with
        | '!' :: _ => do
          let (handle, after) ← tagHandle atEnd ('!' :: rest)
          let (suffix, after) ← someTagText atEnd after
          pure (WrittenTag.mk (some handle) suffix, after)
        | gap => do
          let (suffix, after) ← (someTagText atEnd rest).mapError fun f =>
            if gap.isEmpty then atEnd else f
          if gap.isEmpty && !after.isEmpty then throw atEnd
          pure (WrittenTag.mk (some ['!']) suffix, after)
  if atSpaceOrEnd after then return (tag, after) else throw .malformed

/-- A number of digits, and the text behind it. -/
def directiveNumber (atEnd : Failure) (t : Text) : Except Failure (Nat × Text) :=
  let digits := t.takeWhile Char.isDigit
  let after := t.dropWhile Char.isDigit
  if digits.isEmpty then .error (unexpected atEnd after)
  else if Text.longestNumber < digits.length then
    .error (if after.isEmpty then atEnd else .notNumber)
  else .ok (digits.foldl (fun n c => n * 10 + (c.toNat - 48)) 0, after)

/-- The version of a version directive. -/
def versionNumber (atEnd : Failure) (t : Text) : Except Failure (Token × Text) := do
  let (major, after) ← directiveNumber atEnd (t.dropWhile (· = ' '))
  match after with
  | '.' :: after =>
    let (_, after) ← directiveNumber atEnd after
    if atSpaceOrEnd after then return (.versionDirective major, after) else throw .malformed
  | after => throw (unexpected atEnd after)

/-- The handle of a tag directive and what it stands for. -/
def tagAssignment (atEnd : Failure) (t : Text) : Except Failure (Token × Text) := do
  let (handle, after) ← tagHandle atEnd (t.dropWhile (· = ' '))
  if !startsWithOneOf [' '] after then throw (unexpected atEnd after)
  let (start, after) ← someTagText atEnd (after.dropWhile (· = ' '))
  if atSpaceOrEnd after then return (.tagDirective handle start, after) else throw .malformed

/-- A directive behind its percent sign, and the text behind its line. -/
def directive (atEnd : Failure) (t : Text) : Except Failure (Token × Text) := do
  let name := t.takeWhile isNameChar
  let after := t.dropWhile isNameChar
  if name.isEmpty then throw (unexpected atEnd after)
  if !atSpaceOrEnd after then throw .malformed
  let (token, after) ←
    if name = "YAML".toList then versionNumber atEnd after
    else if name = "TAG".toList then tagAssignment atEnd after
    else pure (.otherDirective, after.dropWhile (!isBreak ·))
  return (token, ← passIgnoredLine after)

/-! ## The state of the lexer -/

/-- A place where a key may have started: the number of tokens in front of it, and whether it has
to be a key because nothing else can stand there. -/
structure PossibleKey where
  tokenCount : Nat
  isRequired : Bool
  index : Nat
  line : Nat
  column : Nat
  deriving Repr

/-- What the lexer knows: the tokens so far, the latest one first; the indentation of the
innermost block and of those around it; the depth of brackets; whether a key may start here; and
the places where one may have started, by depth of brackets. -/
structure Lexer where
  cursor : Cursor
  barrier : Option Failure
  tokens : List Token
  indent : Int
  outerIndents : List Int
  depth : Nat
  keyAllowed : Bool
  possibleKeys : List (Nat × PossibleKey)
  deriving Repr

namespace Lexer

/-- The lexer at the start of a document. -/
def start (source : Source) : Lexer :=
  { cursor := .start source.text, barrier := source.barrier, tokens := [], indent := -1
    outerIndents := [], depth := 0, keyAllowed := true, possibleKeys := [] }

/-- The lexer is between brackets. -/
def inFlow (s : Lexer) : Bool :=
  s.depth ≠ 0

/-- Add a token. -/
def emit (s : Lexer) (t : Token) : Lexer :=
  { s with tokens := t :: s.tokens }

/-- Add a token behind the first `count` tokens. -/
def insertAt (s : Lexer) (count : Nat) (t : Token) : Lexer :=
  let later := s.tokens.length - count
  { s with tokens := s.tokens.take later ++ t :: s.tokens.drop later }

/-- Pass everything in front of `rest`. -/
def moveTo (s : Lexer) (rest : Text) : Lexer :=
  { s with cursor := s.cursor.moveTo rest }

/-- Say whether a key may start here. -/
def allowKey (s : Lexer) (allowed : Bool) : Lexer :=
  { s with keyAllowed := allowed }

/-! ### Possible keys -/

/-- Forget the possible key of this depth. It is an error if it had to be a key. -/
def dropPossibleKey (s : Lexer) : Except Failure Lexer :=
  match s.possibleKeys.lookup s.depth with
  | none => .ok s
  | some k =>
    if k.isRequired then .error .malformed
    else .ok { s with possibleKeys := s.possibleKeys.filter (·.1 ≠ s.depth) }

/-- Note that a key may start here. -/
def savePossibleKey (s : Lexer) : Except Failure Lexer :=
  if s.keyAllowed then do
    let s ← s.dropPossibleKey
    let k : PossibleKey :=
      { tokenCount := s.tokens.length
        isRequired := !s.inFlow && s.indent = s.cursor.column
        index := s.cursor.index, line := s.cursor.line, column := s.cursor.column }
    return { s with possibleKeys := (s.depth, k) :: s.possibleKeys }
  else .ok s

/-- The key can no longer be completed: its line is over, or it is too long. -/
def isStale (s : Lexer) (k : PossibleKey) : Bool :=
  k.line ≠ s.cursor.line || k.index + 1024 < s.cursor.index

/-- Forget the possible keys that can no longer be completed. It is an error if one of them had to
be a key. -/
def dropStaleKeys (s : Lexer) : Except Failure Lexer :=
  if s.possibleKeys.any fun e => s.isStale e.2 && e.2.isRequired then .error .malformed
  else .ok { s with possibleKeys := s.possibleKeys.filter fun e => !s.isStale e.2 }

/-! ### Indentation -/

/-- End the blocks that are indented by more than `column`; `outer` are the indentations around
the innermost block. -/
def unwindTo (column : Int) (s : Lexer) : List Int → Lexer
  | [] => { s with outerIndents := [] }
  | i :: outer =>
    if column < s.indent then
      unwindTo column { s with indent := i, tokens := .blockEnd :: s.tokens } outer
    else { s with outerIndents := i :: outer }

/-- End the blocks that are indented by more than `column`. Between brackets indentation means
nothing. -/
def unwind (s : Lexer) (column : Int) : Lexer :=
  if s.inFlow then s else unwindTo column s s.outerIndents

/-- Start a block at `column` with the token `t`, put behind the first `count` tokens, unless the
innermost block has this indentation already. -/
def startBlock (s : Lexer) (column count : Nat) (t : Token) : Lexer :=
  if s.indent < column then
    { s.insertAt count t with indent := column, outerIndents := s.indent :: s.outerIndents }
  else s

/-- Start a block here. -/
def startBlockHere (s : Lexer) (t : Token) : Lexer :=
  s.startBlock s.cursor.column s.tokens.length t

/-! ### Tokens -/

/-- The number of characters in blanks, comments and line ends, and whether there was a line end;
`count` precede the text. -/
def countBlanks (inComment newLine : Bool) (count : Nat) : Text → Nat × Bool
  | [] => (count, newLine)
  | c :: rest =>
    if isBreak c then countBlanks false true (count + 1) rest
    else if inComment then countBlanks true newLine (count + 1) rest
    else if c = ' ' then countBlanks false newLine (count + 1) rest
    else if c = '#' then countBlanks true newLine (count + 1) rest
    else (count, newLine)

/-- Pass a byte order mark at the very start. -/
def passMark (s : Lexer) : Lexer :=
  match s.cursor.rest with
  | '\ufeff' :: _ => if s.cursor.index = 0 then { s with cursor := s.cursor.advance } else s
  | _ => s

/-- Pass blanks and comments, after which the next token starts. Outside brackets a key may start
on a new line. -/
def toNextToken (s : Lexer) : Lexer :=
  let s := s.passMark
  let (count, newLine) := countBlanks false false 0 s.cursor.rest
  let s := { s with cursor := s.cursor.skip count }
  if newLine && !s.inFlow then s.allowKey true else s

/-- Draw the consequences of the place where the next token starts for possible keys and blocks. -/
def settle (s : Lexer) : Except Failure Lexer := do
  let s ← s.dropStaleKeys
  return s.unwind s.cursor.column

/-- Finish the document. -/
def close (s : Lexer) : Except Failure Lexer :=
  (s.unwind (-1)).dropPossibleKey

/-- A token of `count` characters that ends all blocks. -/
def documentMark (s : Lexer) (t : Token) : Except Failure Lexer := do
  let s ← (s.unwind (-1)).dropPossibleKey
  return ((s.allowKey false).moveTo (s.cursor.rest.drop 3)).emit t

/-- The failure of what the text ends in. -/
def atEnd (s : Lexer) : Failure :=
  endFailure s.barrier

/-- Nothing is left in front of the barrier. -/
def isAtBarrier (s : Lexer) : Bool :=
  s.barrier.isSome && s.cursor.rest.isEmpty

/-- A directive. -/
def directiveLine (s : Lexer) : Except Failure Lexer := do
  let s ← (s.unwind (-1)).dropPossibleKey
  let (t, after) ← directive s.atEnd s.cursor.rest.tail
  return ((s.allowKey false).moveTo after).emit t

/-- Pass one character, which is the token `t`. -/
def single (s : Lexer) (t : Token) : Lexer :=
  { s with cursor := s.cursor.advance }.emit t

/-- An opening bracket. -/
def openFlow (s : Lexer) (t : Token) : Except Failure Lexer := do
  let s ← s.savePossibleKey
  return ({ s with depth := s.depth + 1 }.allowKey true).single t

/-- A closing bracket. -/
def closeFlow (s : Lexer) (t : Token) : Except Failure Lexer := do
  let s ← s.dropPossibleKey
  return ({ s with depth := s.depth - 1 }.allowKey false).single t

/-- A comma between brackets. -/
def flowEntry (s : Lexer) : Except Failure Lexer := do
  let s ← (s.allowKey true).dropPossibleKey
  return s.single .flowEntry

/-- A hyphen in front of an item. -/
def blockEntry (s : Lexer) : Except Failure Lexer := do
  if !s.inFlow && !s.keyAllowed then throw .malformed
  let s := if s.inFlow then s else s.startBlockHere .blockSequenceStart
  let s ← (s.allowKey true).dropPossibleKey
  return s.single .blockEntry

/-- A question mark in front of a key. -/
def explicitKey (s : Lexer) : Except Failure Lexer := do
  if !s.inFlow && !s.keyAllowed then throw .malformed
  let s := if s.inFlow then s else s.startBlockHere .blockMappingStart
  let s ← (s.allowKey (!s.inFlow)).dropPossibleKey
  return s.single .key

/-- A colon in front of a value. If a possible key stands in front of it, that is a key, and may
be the first one of a mapping. -/
def valueMark (s : Lexer) : Except Failure Lexer := do
  match s.possibleKeys.lookup s.depth with
  | some k =>
    let s := { s with possibleKeys := s.possibleKeys.filter (·.1 ≠ s.depth) }
    let s := s.insertAt k.tokenCount .key
    let s := if s.inFlow then s else s.startBlock k.column k.tokenCount .blockMappingStart
    return (s.allowKey false).single .value
  | none =>
    if !s.inFlow && !s.keyAllowed then throw .malformed
    let s := if s.inFlow then s else s.startBlockHere .blockMappingStart
    let s ← (s.allowKey (!s.inFlow)).dropPossibleKey
    return s.single .value

/-- A token read from the text behind the first character, in front of which a key may start. -/
def keyed (s : Lexer) (read : Text → Except Failure (Token × Text)) : Except Failure Lexer := do
  let s ← s.savePossibleKey
  let (t, after) ← read s.cursor.rest.tail
  return ((s.allowKey false).moveTo after).emit t

/-- A block scalar. -/
def block (s : Lexer) (isFolded : Bool) : Except Failure Lexer := do
  let s ← (s.allowKey true).dropPossibleKey
  let (t, after) ← blockScalar isFolded s.indent s.cursor.rest.tail
  return (s.moveTo after).emit (.scalar (.ofText t) false)

/-- To know that a plain scalar ends here, more is needed than the text that is left: what follows
a colon, or what decides about a mark that separates documents on a new line. -/
def looksFurther (newLine : Bool) (c : Cursor) : Bool :=
  c.rest = [':']
    || (newLine && c.column < 3 && cutsDocumentMark (List.replicate c.column ' ' ++ c.rest))

/-- A plain scalar. -/
def plain (s : Lexer) : Except Failure Lexer := do
  let s ← s.savePossibleKey
  let (t, cursor, newLine) := plainScalar s.inFlow (s.indent + 1) s.cursor
  if s.barrier.isSome && looksFurther newLine cursor then throw s.atEnd
  return { s.allowKey newLine with cursor := cursor }.emit (.scalar (.ofText t) true)

/-- A plain scalar can start with the first of two characters. -/
def startsPlain (inFlow : Bool) : Text → Bool
  | [] => false
  | c :: rest =>
    !(atGap [c] || "-?:,[]\x7b\x7d#&*!|>'\"%@\u0060".toList.contains c)
      || (!atGap rest && (c = '-' || (!inFlow && (c = '?' || c = ':'))))

/-- What starts with this character can be told without the next one. -/
def isTelling (s : Lexer) (c : Char) : Bool :=
  startsPlain s.inFlow [c] || "[]\x7b\x7d,*&!'\"".toList.contains c
    || (c = '%' && s.cursor.column = 0)
    || (if s.inFlow then c = '?' || c = ':' else c = '|' || c = '>')

/-- The text that is left is too short to tell what starts here. -/
def isUndecided (s : Lexer) : Bool :=
  match s.cursor.rest with
  | [] => false
  | c :: rest =>
    (rest.isEmpty && !s.isTelling c)
      || (s.cursor.column = 0 && (c = '-' || c = '.') && cutsDocumentMark (c :: rest))

/-- Read the next token. -/
def next (s : Lexer) : Except Failure Lexer :=
  let t := s.cursor.rest
  let marks := s.inFlow || atGap t.tail
  let atStart := s.cursor.column = 0
  match t with
  | [] => s.close
  | c :: _ =>
    if s.barrier.isSome && s.isUndecided then .error s.atEnd
    else if c = '%' && atStart then s.directiveLine
    else if atStart && atDocumentStart t then s.documentMark .documentStart
    else if atStart && atDocumentEnd t then s.documentMark .documentEnd
    else if c = '[' then s.openFlow .flowSequenceStart
    else if c = '\x7b' then s.openFlow .flowMappingStart
    else if c = ']' then s.closeFlow .flowSequenceEnd
    else if c = '\x7d' then s.closeFlow .flowMappingEnd
    else if c = ',' then s.flowEntry
    else if c = '-' && atGap t.tail then s.blockEntry
    else if c = '?' && marks then s.explicitKey
    else if c = ':' && marks then s.valueMark
    else if c = '*' then s.keyed fun t => (anchorName s.atEnd t).map fun r => (.alias r.1, r.2)
    else if c = '&' then s.keyed fun t => (anchorName s.atEnd t).map fun r => (.anchor r.1, r.2)
    else if c = '!' then s.keyed fun t => (writtenTag s.atEnd t).map fun r => (.tag r.1, r.2)
    else if c = '|' && !s.inFlow then s.block false
    else if c = '>' && !s.inFlow then s.block true
    else if c = '\'' || c = '"' then
      s.keyed fun t => (quotedScalar s.barrier c t).map fun r => (.scalar r.1 false, r.2)
    else if startsPlain s.inFlow t then s.plain
    else .error .malformed

/-- The number of tokens that are known for certain: those in front of the first possible key that
can still be completed. -/
def certainCount (s : Lexer) : Nat :=
  let pending := s.possibleKeys.filter fun e => !s.isStale e.2
  (pending.map fun e => e.2.tokenCount).foldl min s.tokens.length

/-- The tokens known for certain, and the failure that ends them. -/
def failed (s : Lexer) (f : Failure) : List Token :=
  s.tokens.reverse.take s.certainCount ++ [.invalid f]

/-- All tokens. -/
def run (s : Lexer) : List Token :=
  let moved := s.toNextToken
  if moved.isAtBarrier then
    match s.dropStaleKeys with
    | .error f => s.failed f
    | .ok _ => s.failed s.atEnd
  else
    match moved.settle with
    | .error f => s.failed f
    | .ok ready =>
      match ready.next with
      | .error f => s.failed f
      | .ok after =>
        if after.isAtBarrier then s.failed s.atEnd
        else if ready.cursor.rest.isEmpty then after.tokens.reverse
        else if _h : after.cursor.rest.length < s.cursor.rest.length then run after
        else s.failed .malformed
  termination_by s.cursor.rest.length

end Lexer

/-- The tokens of a document. -/
def Token.ofSource (source : Source) : List Token :=
  (Lexer.start source).run

end UnusedImports.Yaml

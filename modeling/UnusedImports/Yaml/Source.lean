import UnusedImports.Text.Utf8
import UnusedImports.Yaml.Cursor
import UnusedImports.Yaml.Failure

/-!
# Documents as bytes

A document is read page by page, and only as far as its tokens are asked for. So what is wrong
with the bytes of a page, or with its characters, counts only if everything on the pages before
could be read. A `Source` is what can be read, and the barrier behind it.

Pages are counted in characters and bytes are taken in blocks, so a fault in the bytes can show
earlier than on its own page.
-/

set_option autoImplicit false

namespace UnusedImports.Yaml

/-- The text of a document as far as it can be read, and why it cannot be read any further. Without
a barrier the document ends there. -/
structure Source where
  text : Text
  barrier : Option Failure
  deriving Repr

/-! ## Blocks -/

/-- Bytes on their way into a text: those not yet taken, the beginning of a character and a
carriage return that wait for what follows, the characters that are ready, and the numbers of
bytes and of characters of the latest block. -/
structure Intake where
  left : List UInt8
  partialCharacter : List UInt8
  waitingReturn : Bool
  ready : Text
  blockBytes : Nat
  blockCharacters : Nat
  deriving Repr

namespace Intake

/-- Bytes of which none is taken. -/
def start (bytes : List UInt8) : Intake :=
  ⟨bytes, [], false, [], 0, 0⟩

/-- A text whose lines all end in a line feed: a carriage return ends a line, alone or together
with a line feed behind it. -/
def unixLines : Text → Text
  | [] => []
  | '\r' :: '\n' :: rest => '\n' :: unixLines rest
  | c :: rest => (if c = '\r' then '\n' else c) :: unixLines rest

/-- The number of characters of a page. -/
def pageSize : Nat := 4096

/-- The least number of bytes of a block. -/
def leastBlock : Nat := 8192

/-- The number of bytes of the next block if `wanted` characters are missing: enough for them if
they take as many bytes as those of the latest block. -/
def blockSize (i : Intake) (wanted : Nat) : Nat :=
  max leastBlock (max wanted (i.blockBytes * wanted / i.blockCharacters))

/-- Take the next block. At the end of the bytes nothing may be left waiting for more. -/
def takeBlock (i : Intake) (wanted : Nat) : Except Failure Intake :=
  let block := i.left.take (i.blockSize wanted)
  let isLast := block.isEmpty
  let (decoded, rest) := Text.decodePrefix (i.partialCharacter ++ block)
  if !Text.beginsCharacter rest || (isLast && !rest.isEmpty) then .error .notUtf8
  else
    let decoded := if i.waitingReturn && (isLast || !decoded.isEmpty) then '\r' :: decoded
      else decoded
    let waits := !isLast && decoded.getLast? = some '\r'
    let t := unixLines (if waits then decoded.dropLast else decoded)
    .ok
      { left := i.left.drop block.length
        partialCharacter := rest
        waitingReturn := waits || (i.waitingReturn && decoded.isEmpty)
        ready := i.ready ++ t
        blockBytes := block.length
        blockCharacters := t.length }

/-- Take blocks until a page is ready or the bytes are at their end. -/
def fill : Nat → Intake → Except Failure Intake
  | 0, i => .ok i
  | steps + 1, i =>
    if pageSize ≤ i.ready.length then .ok i
    else
      match i.takeBlock (pageSize - i.ready.length) with
      | .error f => .error f
      | .ok next =>
        if i.left.isEmpty && next.ready.length = i.ready.length then .ok next
        else fill steps next

/-- The next page, which is empty at the end. -/
def page (i : Intake) : Except Failure (Text × Intake) :=
  match fill (i.left.length + 2) i with
  | .error f => .error f
  | .ok i => .ok (i.ready.take pageSize, { i with ready := i.ready.drop pageSize })

end Intake

/-! ## Pages -/

namespace Source

/-- Put a text in front. -/
def prepend (t : Text) (s : Source) : Source :=
  { s with text := t ++ s.text }

/-- What can be read page by page. -/
def ofPages : Nat → Intake → Source
  | 0, _ => ⟨[], none⟩
  | steps + 1, i =>
    match i.page with
    | .error f => ⟨[], some f⟩
    | .ok ([], _) => ⟨[], none⟩
    | .ok (t, next) =>
      if t.all isAllowed then (ofPages steps next).prepend t else ⟨[], some .malformed⟩

/-- What can be read of a document. The first two pages are read together. -/
def ofBytes (bytes : List UInt8) : Source :=
  match (Intake.start bytes).page with
  | .error f => ⟨[], some f⟩
  | .ok (first, i) =>
    match i.page with
    | .error f => ⟨[], some f⟩
    | .ok (second, i) =>
      if (first ++ second).all isAllowed then
        (ofPages (bytes.length + 1) i).prepend (first ++ second)
      else ⟨[], some .malformed⟩

end Source

end UnusedImports.Yaml

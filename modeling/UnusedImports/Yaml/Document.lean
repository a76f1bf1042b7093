import UnusedImports.Yaml.Node
import UnusedImports.Yaml.Token

/-!
# The graph of a document

`Document.ofTokens` builds the graph of a document from its tokens. A scalar, a sequence or a
mapping may carry a tag and an anchor. What a node may consist of depends on where it stands, so
there is one reader for each kind of place. A collection gets its id when it begins, before its
parts are read, so that an alias inside it can name it.

A token is looked at only when it is needed, because the failure that stands in its place counts
from then on.

Every step of a reader takes a token or goes down in a fixed order of readers, so a number of
steps that grows with the number of tokens is enough.
-/

set_option autoImplicit false

namespace UnusedImports.Yaml

/-- A graph, and the node that the document consists of. -/
structure Document where
  graph : Graph
  root : NodeId
  deriving Repr

namespace Document

/-! ## The state of a reader -/

/-- The tokens that are left, the graph so far, the nodes with anchors, what the tag handles stand
for, and the number of collections around the next node. -/
structure Reader where
  tokens : List Token
  graph : Graph
  anchors : List (Text × NodeId)
  handles : List (Text × Text)
  level : Nat
  deriving Repr

/-- The handles that every document has. -/
def standardHandles : List (Text × Text) :=
  [(['!'], ['!']), (['!', '!'], Tag.namespaceText)]

/-- The failure at a token that cannot stand where it does. -/
def unexpected {α : Type} (r : Reader) : Except Failure α :=
  match r.tokens with
  | .invalid f :: _ => .error f
  | _ => .error .malformed

namespace Reader

/-- The next token satisfies `p`. -/
def sees (r : Reader) (p : Token → Bool) : Bool :=
  r.tokens.head?.any p

/-- The reader behind its next token. -/
def advance (r : Reader) : Reader :=
  { r with tokens := r.tokens.tail }

/-- Take the token `t`. -/
def take (r : Reader) (t : Token) : Except Failure Reader :=
  if r.sees (· = t) then .ok r.advance else unexpected r

/-- The next token is known. -/
def look (r : Reader) : Except Failure Unit :=
  match r.tokens with
  | .invalid f :: _ => .error f
  | _ => .ok ()

/-- Collections stand inside one another at most this often. -/
def deepest : Nat := 489

/-- Go into a collection. -/
def enter (r : Reader) : Except Failure Reader :=
  if deepest ≤ r.level then .error .tooDeep else .ok { r with level := r.level + 1 }

/-- Add a node, under an anchor if it has one. -/
def place (r : Reader) (anchor : Option Text) (n : Node) : NodeId × Reader :=
  let id := r.graph.size
  (id, { r with
    graph := r.graph.add n
    anchors := anchor.elim r.anchors fun a => (a, id) :: r.anchors })

/-- Add a scalar. -/
def placeScalar (r : Reader) (anchor : Option Text) (tag : Tag) (ps : Points) : NodeId × Reader :=
  r.place anchor ⟨tag, .scalar ps⟩

/-- Add the node that stands where nothing is written. -/
def placeEmpty (r : Reader) : NodeId × Reader :=
  r.place none .empty

/-- Add a collection whose parts are still to come, and go into it. -/
def openCollection (r : Reader) (anchor : Option Text) (tag : Tag) (content : Content) :
    Except Failure (NodeId × Reader) := do
  let (id, r) := r.place anchor ⟨tag, content⟩
  return (id, ← r.enter)

/-- Give a collection its parts and go out of it. -/
def closeCollection (r : Reader) (id : NodeId) (content : Content) : NodeId × Reader :=
  (id, { r with graph := r.graph.setContent id content, level := r.level - 1 })

end Reader

/-! ## Anchors and tags -/

/-- The anchor and the tag in front of a node. -/
structure Properties where
  anchor : Option Text
  tag : Option WrittenTag
  deriving Repr

/-- There is an anchor or a tag. -/
def Properties.isSome (p : Properties) : Bool :=
  p.anchor.isSome || p.tag.isSome

/-- Take an anchor, a tag, or both in either order. Whether there are both takes a look at the
token behind the first one. -/
def properties (r : Reader) : Except Failure (Properties × Reader) :=
  let behind (p : Properties) (rest : List Token) : Except Failure (Properties × Reader) := do
    let r := { r with tokens := rest }
    r.look
    return (p, r)
  match r.tokens with
  | .anchor a :: .tag t :: rest => .ok (⟨some a, some t⟩, { r with tokens := rest })
  | .tag t :: .anchor a :: rest => .ok (⟨some a, some t⟩, { r with tokens := rest })
  | .anchor a :: rest => behind ⟨some a, none⟩ rest
  | .tag t :: rest => behind ⟨none, some t⟩ rest
  | _ => .ok (⟨none, none⟩, r)

/-- The full name of a tag. -/
def tagName (r : Reader) (t : WrittenTag) : Except Failure Text :=
  match t.handle with
  | none => .ok t.suffix
  | some h =>
    match r.handles.lookup h with
    | some start => .ok (start ++ t.suffix)
    | none => .error .malformed

/-- The tag that a node is given explicitly. A lone exclamation mark gives none. -/
def givenTag (r : Reader) (p : Properties) : Except Failure (Option Tag) :=
  match p.tag with
  | none => .ok none
  | some t => do
    let name ← tagName r t
    return if name = ['!'] then none else some (Tag.ofName name)

/-- No anchor may be used twice. -/
def checkAnchor (r : Reader) : Option Text → Except Failure Unit
  | none => .ok ()
  | some a => if (r.anchors.lookup a).isSome then .error .malformed else .ok ()

/-- The node with an anchor. -/
def aliased (r : Reader) (a : Text) : Except Failure NodeId :=
  match r.anchors.lookup a with
  | some id => .ok id
  | none => .error .malformed

/-- The tag of a scalar. Without a tag of its own a plain scalar gets one by its form, and any
other scalar is a text; a lone exclamation mark asks for the form in any case. -/
def scalarTag (p : Properties) (given : Option Tag) (isPlain : Bool) (ps : Points) : Tag :=
  match given with
  | some tag => tag
  | none => if isPlain || p.tag.isSome then (ps.text?.map Tag.ofPlain).getD .str else .str

/-! ## The readers -/

/-- An anchor or a tag without a node behind it belongs to an empty scalar. -/
def bare (p : Properties) (given : Option Tag) (r : Reader) : Except Failure (NodeId × Reader) :=
  if p.isSome then .ok (r.placeScalar p.anchor (scalarTag p given true []) []) else unexpected r

/-- A key, a value mark, or one of the tokens given. -/
def endsEntry (others : List Token) (t : Token) : Bool :=
  t = .key || t = .value || others.contains t

mutual

/-- A node, or nothing if the next token satisfies `stop`. -/
def nodeUnless (steps : Nat) (inBlock indentless : Bool) (stop : Token → Bool) (r : Reader) :
    Except Failure (NodeId × Reader) :=
  match steps with
  | 0 => .error .malformed
  | steps + 1 => if r.sees stop then .ok r.placeEmpty else node steps inBlock indentless r

/-- A node. Block collections are allowed if `inBlock`, and a sequence without an indentation of
its own if `indentless`. -/
def node (steps : Nat) (inBlock indentless : Bool) (r : Reader) :
    Except Failure (NodeId × Reader) :=
  match steps with
  | 0 => .error .malformed
  | steps + 1 =>
    match r.tokens with
    | .alias a :: _ => do
      let id ← aliased r a
      return (id, r.advance)
    | _ => do
      let (p, r) ← properties r
      let given ← givenTag r p
      r.look
      checkAnchor r p.anchor
      match r.tokens with
      | .scalar ps isPlain :: _ =>
        return r.advance.placeScalar p.anchor (scalarTag p given isPlain ps) ps
      | .flowSequenceStart :: _ => do
        let (id, r) ← r.advance.openCollection p.anchor (given.getD .seq) (.sequence [])
        let (items, r) ← flowItems steps true r
        return r.closeCollection id (.sequence items)
      | .flowMappingStart :: _ => do
        let (id, r) ← r.advance.openCollection p.anchor (given.getD .map) (.mapping [])
        let (entries, r) ← flowEntries steps true r
        return r.closeCollection id (.mapping entries)
      | .blockEntry :: _ =>
        if indentless then do
          let (id, r) ← r.openCollection p.anchor (given.getD .seq) (.sequence [])
          let (items, r) ← blockItems steps true r
          return r.closeCollection id (.sequence items)
        else bare p given r
      | .blockSequenceStart :: _ =>
        if inBlock then do
          let (id, r) ← r.advance.openCollection p.anchor (given.getD .seq) (.sequence [])
          let (items, r) ← blockItems steps false r
          return r.closeCollection id (.sequence items)
        else bare p given r
      | .blockMappingStart :: _ =>
        if inBlock then do
          let (id, r) ← r.advance.openCollection p.anchor (given.getD .map) (.mapping [])
          let (entries, r) ← blockEntries steps r
          return r.closeCollection id (.mapping entries)
        else bare p given r
      | _ => bare p given r

/-- The items of a block sequence. One without an indentation of its own ends at the first token
that is not an item; any other ends with its block. -/
def blockItems (steps : Nat) (indentless : Bool) (r : Reader) :
    Except Failure (List NodeId × Reader) :=
  match steps with
  | 0 => .error .malformed
  | steps + 1 =>
    if r.sees (· = .blockEntry) then do
      let stop (t : Token) : Bool :=
        t = .blockEntry || t = .blockEnd || (indentless && endsEntry [] t)
      let (item, r) ← nodeUnless steps true false stop r.advance
      let (items, r) ← blockItems steps indentless r
      return (item :: items, r)
    else if indentless then do
      r.look
      return ([], r)
    else do
      let r ← r.take .blockEnd
      return ([], r)

/-- The entries of a block mapping. -/
def blockEntries (steps : Nat) (r : Reader) : Except Failure (List (NodeId × NodeId) × Reader) :=
  match steps with
  | 0 => .error .malformed
  | steps + 1 =>
    if r.sees (· = .key) then do
      let (k, r) ← nodeUnless steps true true (endsEntry [.blockEnd]) r.advance
      let (v, r) ← blockValue steps r
      let (entries, r) ← blockEntries steps r
      return ((k, v) :: entries, r)
    else do
      let r ← r.take .blockEnd
      return ([], r)

/-- The value of an entry of a block mapping. -/
def blockValue (steps : Nat) (r : Reader) : Except Failure (NodeId × Reader) :=
  match steps with
  | 0 => .error .malformed
  | steps + 1 =>
    if r.sees (· = .value) then nodeUnless steps true true (endsEntry [.blockEnd]) r.advance
    else do
      r.look
      return r.placeEmpty

/-- The items of a sequence between brackets. A key makes an item a mapping with one entry. -/
def flowItems (steps : Nat) (isFirst : Bool) (r : Reader) :
    Except Failure (List NodeId × Reader) :=
  match steps with
  | 0 => .error .malformed
  | steps + 1 =>
    if r.sees (· = .flowSequenceEnd) then .ok ([], r.advance)
    else do
      let r ← if isFirst then pure r else r.take .flowEntry
      if r.sees (· = .flowSequenceEnd) then return ([], r.advance)
      let (item, r) ←
        if r.sees (· = .key) then flowPair steps r.advance else node steps false false r
      let (items, r) ← flowItems steps false r
      return (item :: items, r)

/-- A mapping with one entry that is an item of a sequence between brackets. -/
def flowPair (steps : Nat) (r : Reader) : Except Failure (NodeId × Reader) :=
  match steps with
  | 0 => .error .malformed
  | steps + 1 => do
    let stop (t : Token) : Bool := t = .flowEntry || t = .flowSequenceEnd
    let (id, r) ← r.openCollection none .map (.mapping [])
    let (k, r) ← nodeUnless steps false false (fun t => t = .value || stop t) r
    r.look
    let (v, r) ←
      if r.sees (· = .value) then nodeUnless steps false false stop r.advance
      else pure r.placeEmpty
    return r.closeCollection id (.mapping [(k, v)])

/-- The entries of a mapping between braces. An entry without a mark for its key has no value. -/
def flowEntries (steps : Nat) (isFirst : Bool) (r : Reader) :
    Except Failure (List (NodeId × NodeId) × Reader) :=
  match steps with
  | 0 => .error .malformed
  | steps + 1 =>
    if r.sees (· = .flowMappingEnd) then .ok ([], r.advance)
    else do
      let r ← if isFirst then pure r else r.take .flowEntry
      if r.sees (· = .flowMappingEnd) then return ([], r.advance)
      let stop (t : Token) : Bool := t = .flowEntry || t = .flowMappingEnd
      let (k, r, hasMark) ←
        if r.sees (· = .key) then do
          let (k, r) ← nodeUnless steps false false (fun t => t = .value || stop t) r.advance
          pure (k, r, r.sees (· = .value))
        else do
          let (k, r) ← node steps false false r
          pure (k, r, false)
      r.look
      let (v, r) ←
        if hasMark then nodeUnless steps false false stop r.advance else pure r.placeEmpty
      let (entries, r) ← flowEntries steps false r
      return ((k, v) :: entries, r)

end

/-! ## Whole documents -/

/-- Take the directives in front of a document. There may be one version, which has to be of the
first generation, and a handle may be assigned once. -/
def directives (hasVersion : Bool) (handles : List (Text × Text)) :
    List Token → Except Failure (List (Text × Text) × List Token)
  | .versionDirective major :: rest =>
    if hasVersion || major ≠ 1 then .error .malformed else directives true handles rest
  | .tagDirective handle start :: rest =>
    if (handles.lookup handle).isSome then .error .malformed
    else directives hasVersion ((handle, start) :: handles) rest
  | .otherDirective :: rest => directives hasVersion handles rest
  | tokens => .ok (handles, tokens)

/-- The token is a directive or the mark that starts a document. -/
def announcesDocument : Token → Bool
  | .versionDirective _ => true
  | .tagDirective _ _ => true
  | .otherDirective => true
  | .documentStart => true
  | _ => false

/-- A document without content follows. -/
def endsDocument (t : Token) : Bool :=
  announcesDocument t || t = .documentEnd

/-- The reader at the start of a document. -/
def Reader.start (handles : List (Text × Text)) (tokens : List Token) : Reader :=
  { tokens, graph := .empty, anchors := [], handles := handles ++ standardHandles, level := 0 }

/-- The content of a document, and the reader behind it. -/
def content (tokens : List Token) : Except Failure (NodeId × Reader) :=
  let steps := 4 * tokens.length + 4
  if tokens.head?.any announcesDocument then do
    let (handles, rest) ← directives false [] tokens
    let r ← (Reader.start handles rest).take .documentStart
    if r.tokens.isEmpty then return r.placeEmpty
    nodeUnless steps true false endsDocument r
  else node steps true false (Reader.start [] tokens)

/-- Nothing may stand behind the content of the only document. Directives are read before it is
noticed that another document follows. -/
def checkEnd (tokens : List Token) : Except Failure Unit :=
  match tokens.dropWhile (· = .documentEnd) with
  | [] => .ok ()
  | rest => do
    let (_, rest) ← directives false [] rest
    unexpected (Reader.start [] rest)

/-- The only document, or nothing if there is none. -/
def ofTokens (tokens : List Token) : Except Failure (Option Document) :=
  if tokens.isEmpty then .ok none
  else do
    let (root, r) ← content tokens
    checkEnd r.tokens
    return some ⟨r.graph, root⟩

end Document

end UnusedImports.Yaml

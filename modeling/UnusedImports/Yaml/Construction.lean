import UnusedImports.Value.Scatter
import UnusedImports.Yaml.Denotation
import UnusedImports.Yaml.Document
import UnusedImports.Yaml.Merge

/-!
# The value of a document

`Document.value` gives the value that a document denotes. Its collections are built level by level:
a collection is there, still empty, as soon as it is first named, and gets its parts after all
collections that were named before. So of several faults the one nearest to the root counts, and
among those the first one; and a merge key is carried out when its mapping gets its parts, which
other places that name the mapping may see or not.

In a mapping a later key replaces an equal earlier one, which keeps its place. A collection that
contains itself is unfolded once: where it is met again inside itself stands a mark. Who reads a
value says how far its parts are unfolded one by one (`Depth`).
-/

set_option autoImplicit false

namespace UnusedImports.Yaml

/-- The parts of a collection. -/
inductive Parts where
  | list (items : List Part)
  | pairs (items : List (Part × Part))
  | map (entries : List (Part × Part))
  | set (items : List Part)
  deriving Repr

/-- The kind of a collection, as far as collections can stand inside themselves. -/
def Parts.container : Parts → Container
  | .map _ => .map
  | _ => .list

/-- How far the parts of a value are unfolded one by one, each as if nothing stood around it. -/
inductive Depth where
  /-- The value is unfolded as a whole. -/
  | whole
  /-- The items of a list are unfolded one by one. -/
  | items
  /-- So are the fields of a mapping, each as far as its key says. -/
  | fields (depth : Value → Depth)

/-- A document under construction: its graph, what the nodes denote as far as it is known, the parts
of the collections, and those that wait for their parts, the latest one first. -/
structure Construction where
  graph : Graph
  denoted : Array (Option Part)
  parts : Array (Option Parts)
  waiting : List NodeId

namespace Construction

/-- A step of the construction. -/
abbrev Build (α : Type) := StateT Construction (Except Failure) α

/-- A construction that has not begun. -/
def start (g : Graph) : Construction :=
  { graph := g, denoted := Array.replicate g.size none, parts := Array.replicate g.size none
    waiting := [] }

/-- Let a collection wait for its parts. -/
def await (id : NodeId) : Build Part := do
  modify fun s => { s with waiting := id :: s.waiting }
  return .collection id

/-- What a node denotes. -/
def denote (id : NodeId) : Build Part := do
  let s ← get
  match s.denoted.getD id none with
  | some p => return p
  | none =>
    let p ← if isCollectionTag (s.graph.tag id) then await id else s.graph.scalarPart id
    modify fun s => { s with denoted := s.denoted.setIfInBounds id (some p) }
    return p

/-! ## Mappings -/

/-- The key of a part and, if it is not a number, the node to which it belongs. -/
def identity? : Part → Option (Key × Option NodeId)
  | .scalar v own => v.key?.map (·, own)
  | .collection _ => none

/-- Store a part under a key: in the place of an equal key, or else at the end. -/
def store (key part : Part) : List (Part × Part) → List (Part × Part)
  | [] => [(key, part)]
  | (k, p) :: entries =>
    if identity? k = identity? key then (k, part) :: entries else (k, p) :: store key part entries

/-- Build an entry of a mapping; a collection cannot be its key. -/
def buildEntry (entries : List (Part × Part)) (e : NodeId × NodeId) :
    Build (List (Part × Part)) := do
  let key ← denote e.1
  if (identity? key).isNone then throw .malformed
  let part ← denote e.2
  return store key part entries

/-- Build the entries of a mapping. -/
def buildEntries (id : NodeId) : Build (List (Part × Part)) := do
  let s ← get
  match s.graph.content id with
  | .mapping _ => do
    let g ← s.graph.merged id
    set { s with graph := g }
    (g.entries id).foldlM buildEntry []
  | _ => throw .malformed

/-! ## Sequences -/

/-- Build the items of a list. -/
def buildItems (id : NodeId) : Build (List Part) := do
  match (← get).graph.content id with
  | .sequence items => items.mapM denote
  | _ => throw .malformed

/-- Build a pair from a mapping with one entry. -/
def buildPair (id : NodeId) : Build (Part × Part) := do
  match (← get).graph.content id with
  | .mapping [(k, v)] => do
    let first ← denote k
    return (first, ← denote v)
  | _ => throw .malformed

/-- Build the items of a list of pairs. -/
def buildPairs (id : NodeId) : Build (List (Part × Part)) := do
  match (← get).graph.content id with
  | .sequence items => items.mapM buildPair
  | _ => throw .malformed

/-! ## Levels -/

/-- The parts of a collection. -/
def buildParts (id : NodeId) : Build Parts := do
  match (← get).graph.tag id with
  | .omap => return .pairs (← buildPairs id)
  | .pairs => return .pairs (← buildPairs id)
  | .map => return .map (← buildEntries id)
  | .set => return .set ((← buildEntries id).map Prod.fst)
  | _ => return .list (← buildItems id)

/-- Give a collection its parts. -/
def complete (id : NodeId) : Build Unit := do
  let parts ← buildParts id
  modify fun s => { s with parts := s.parts.setIfInBounds id (some parts) }

/-- Give all collections their parts, level by level. -/
def completeLevels : Nat → Build Unit
  | 0 => return
  | steps + 1 => do
    let s ← get
    match s.waiting with
    | [] => return
    | ids => do
      set { s with waiting := [] }
      ids.reverse.forM complete
      completeLevels steps

/-- Build everything that a node denotes. Each level has a node that the levels before it do not
have, so there are no more levels than nodes. -/
def buildAll (id : NodeId) : Build Part := do
  let p ← denote id
  completeLevels ((← get).graph.size + 1)
  return p

/-! ## Unfolding -/

/-- A collection around a part: that of a node, or one of the pairs of that collection. -/
inductive Around where
  | whole (id : NodeId)
  | pair (id : NodeId) (index : Nat)
  deriving DecidableEq, Repr

/-- The value of a scalar. -/
def scalarOf : Part → Value
  | .scalar v _ => v
  | .collection _ => .null

/-- The value of a part inside the given collections. -/
def unfold (s : Construction) : Nat → List Around → Part → Value
  | 0, _, _ => .null
  | _, _, .scalar v _ => v
  | steps + 1, around, .collection id =>
    match s.parts.getD id none with
    | none => .null
    | some parts =>
      if around.contains (.whole id) then .again parts.container
      else
        let inner := Around.whole id :: around
        match parts with
        | .list items => .list (items.map (unfold s steps inner))
        | .pairs items =>
          .list (items.zipIdx.map fun (p, i) =>
            if around.contains (.pair id i) then .again .pair
            else
              let within := Around.pair id i :: inner
              .pair (unfold s steps within p.1) (unfold s steps within p.2))
        | .map entries =>
          .map (entries.map fun e => (scalarOf e.1, unfold s steps inner e.2))
        | .set items => .set (Value.scattered (items.map scalarOf))

/-- The value of a part by itself. Around each part stand different collections, so it lies no
deeper than there are nodes. -/
def alone (s : Construction) (p : Part) : Value :=
  s.unfold (s.graph.size + 1) [] p

/-- The value of a pair by itself, which is one of those of a collection. -/
def alonePair (s : Construction) (id : NodeId) (p : Part × Part) (index : Nat) : Value :=
  let within := [Around.pair id index]
  .pair (s.unfold (s.graph.size + 1) within p.1) (s.unfold (s.graph.size + 1) within p.2)

/-- The value of a part, unfolded as far as `depth` says. -/
def valueOf (s : Construction) : Depth → Part → Value
  | _, .scalar v _ => v
  | .whole, p => s.alone p
  | .items, .collection id =>
    match s.parts.getD id none with
    | some (.list items) => .list (items.map s.alone)
    | some (.pairs items) => .list (items.zipIdx.map fun (p, i) => s.alonePair id p i)
    | _ => s.alone (.collection id)
  | .fields depth, .collection id =>
    match s.parts.getD id none with
    | some (.map entries) =>
      .map (entries.map fun e => (scalarOf e.1, s.valueOf (depth (scalarOf e.1)) e.2))
    | _ => s.alone (.collection id)

end Construction

/-- The value that a document denotes. -/
def Document.value (d : Document) (depth : Depth) : Except Failure Value := do
  let (p, s) ← (Construction.buildAll d.root).run (.start d.graph)
  return s.valueOf depth p

end UnusedImports.Yaml

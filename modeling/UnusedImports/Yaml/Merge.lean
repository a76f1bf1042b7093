import UnusedImports.Yaml.Failure
import UnusedImports.Yaml.Node

/-!
# Merge keys

A merge key names a mapping or a list of mappings, whose entries come in front of those of the
mapping around it. `Graph.merged` carries that out in the graph, so that every other place that
names the same node sees the result. Of the mappings of a list the last one comes first. A value
key becomes a text.

A mapping may name itself: its merge key is gone by the time that its entries are asked for. As
every step takes one merge key out of the graph, the number of merge keys bounds the steps.
-/

set_option autoImplicit false

namespace UnusedImports.Yaml.Graph

/-- The key of an entry is a merge key. -/
def isMerge (g : Graph) (entry : NodeId × NodeId) : Bool :=
  g.tag entry.1 = .merge

/-- The number of merge keys. -/
def mergeCount (g : Graph) : Nat :=
  ((List.range g.size).map fun id => (g.entries id).countP g.isMerge).foldl (· + ·) 0

/-- The mappings that a merge key names. -/
def sources (g : Graph) (id : NodeId) : Except Failure (List NodeId) :=
  match g.content id with
  | .mapping _ => .ok [id]
  | .sequence items => .ok items
  | .scalar _ => .error .malformed

/-- The node is a mapping. -/
def isMapping (g : Graph) (id : NodeId) : Bool :=
  match g.content id with
  | .mapping _ => true
  | _ => false

/-- Make the value keys of a mapping texts. -/
def withTextKeys (g : Graph) (id : NodeId) : Graph :=
  (g.entries id).foldl (fun g e => if g.tag e.1 = .value then g.setTag e.1 .str else g) g

/-- Put entries in front of those of a mapping. -/
def prependEntries (g : Graph) (id : NodeId) (es : List (NodeId × NodeId)) : Graph :=
  if es.isEmpty then g else g.setContent id (.mapping (es ++ g.entries id))

/-- Carry out the merge keys of a mapping, the first one before the others. -/
def mergedWithin : Nat → Graph → NodeId → Except Failure Graph
  | 0, g, id => .ok (g.withTextKeys id)
  | steps + 1, g, id =>
    let es := g.entries id
    match es.find? g.isMerge with
    | none => .ok (g.withTextKeys id)
    | some (_, v) => do
      let g := g.setContent id (.mapping (es.eraseP g.isMerge))
      let named ← g.sources v
      let (g, found) ← named.foldlM
        (fun (s : Graph × List (NodeId × NodeId)) n => do
          if !s.1.isMapping n then throw .malformed
          let g ← mergedWithin steps s.1 n
          return (g, g.entries n ++ s.2))
        (g, [])
      let g ← mergedWithin steps g id
      return g.prependEntries id found

/-- Carry out the merge keys of a mapping and of all mappings that they name. -/
def merged (g : Graph) (id : NodeId) : Except Failure Graph :=
  mergedWithin (g.mergeCount + 1) g id

end UnusedImports.Yaml.Graph

import UnusedImports.Text.Points
import UnusedImports.Yaml.Tag

/-!
# The nodes of a document

A node is a scalar, a sequence or a mapping, with a tag. An alias stands for the node with its
anchor, and that may be a node around the alias. So the nodes of a document form a graph: a
collection names its parts by their ids, and two nodes with the same tag and content remain two
nodes.

`Graph.get_set` and `Graph.get_add` say what a change of the graph does to its nodes.
-/

set_option autoImplicit false

namespace UnusedImports.Yaml

/-- What tells the nodes of a document apart. -/
abbrev NodeId := Nat

/-- What a node consists of. -/
inductive Content where
  | scalar (ps : Points)
  | sequence (items : List NodeId)
  | mapping (entries : List (NodeId × NodeId))
  deriving Repr

/-- A node with its tag. -/
structure Node where
  tag : Tag
  content : Content
  deriving Repr

/-- The node that stands where nothing is written. -/
def Node.empty : Node :=
  ⟨.null, .scalar []⟩

/-- The nodes of a document; the id of a node is its place among them. -/
structure Graph where
  nodes : Array Node
  deriving Repr

namespace Graph

/-- The graph without nodes. -/
def empty : Graph := ⟨#[]⟩

/-- The number of nodes. -/
def size (g : Graph) : Nat :=
  g.nodes.size

/-- The node with an id. -/
def get (g : Graph) (id : NodeId) : Node :=
  g.nodes.getD id .empty

/-- The graph with another node. Its id is the former size of the graph. -/
def add (g : Graph) (n : Node) : Graph :=
  ⟨g.nodes.push n⟩

/-- The graph in which another node has the id. -/
def set (g : Graph) (id : NodeId) (n : Node) : Graph :=
  ⟨g.nodes.setIfInBounds id n⟩

/-- The tag of a node. -/
def tag (g : Graph) (id : NodeId) : Tag :=
  (g.get id).tag

/-- The content of a node. -/
def content (g : Graph) (id : NodeId) : Content :=
  (g.get id).content

/-- The entries of a mapping; any other node has none. -/
def entries (g : Graph) (id : NodeId) : List (NodeId × NodeId) :=
  match g.content id with
  | .mapping es => es
  | _ => []

/-- Give a node another tag. -/
def setTag (g : Graph) (id : NodeId) (tag : Tag) : Graph :=
  g.set id { g.get id with tag }

/-- Give a node another content. -/
def setContent (g : Graph) (id : NodeId) (content : Content) : Graph :=
  g.set id { g.get id with content }

/-! ## The view -/

/-- A changed node is found under its id, and every other node stays. -/
theorem get_set (g : Graph) (id other : NodeId) (n : Node) (h : id < g.size) :
    (g.set id n).get other = if id = other then n else g.get other := by
  simp only [get, set, size, Array.getD_eq_getD_getElem?] at h ⊢
  grind

/-- An added node is found under the former size, and every other node stays. -/
theorem get_add (g : Graph) (n : Node) (other : NodeId) :
    (g.add n).get other = if other = g.size then n else g.get other := by
  simp only [get, add, size, Array.getD_eq_getD_getElem?]
  grind

end Graph

end UnusedImports.Yaml

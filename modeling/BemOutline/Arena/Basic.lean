import BemOutline.Line.Basic

/-! The store of a document's nodes. Nodes refer to each other by number; a node may be listed as a
child in several places, and then stands in the document at each of them. -/

namespace BemOutline

abbrev NodeId := Nat

structure Arena.Node where
  data : Line
  /-- The node it was attached to. Only the search for an ancestor reads it. -/
  parent : Option NodeId
  /-- The children in document order; a number may be repeated, or name no node. -/
  children : List NodeId
deriving DecidableEq, Repr

structure Arena where
  nodes : Array Arena.Node
  root : Option NodeId
deriving DecidableEq, Repr

namespace Arena

def empty : Arena := ⟨#[], none⟩

def size (a : Arena) : Nat := a.nodes.size

@[inline]
def node? (a : Arena) (id : NodeId) : Option Node := a.nodes[id]?

def modify (a : Arena) (id : NodeId) (f : Node → Node) : Arena :=
  { a with nodes := a.nodes.modify id f }

/-- Stores a node under the next number. It becomes the last child of its parent, if that exists; a
node without a parent becomes the root. -/
def insert (a : Arena) (data : Line) (parent : Option NodeId) : Arena × NodeId :=
  let id := a.size
  let stored : Arena := { a with nodes := a.nodes.push ⟨data, parent, []⟩ }
  match parent with
  | none => ({ stored with root := some id }, id)
  | some p => (stored.modify p fun n => { n with children := n.children ++ [id] }, id)

def depthOf (a : Arena) (id : NodeId) : Nat :=
  match a.node? id with
  | some n => n.data.depth
  | none => 0

def parentOf (a : Arena) (id : NodeId) : Option NodeId := (a.node? id).bind (·.parent)

end Arena

end BemOutline

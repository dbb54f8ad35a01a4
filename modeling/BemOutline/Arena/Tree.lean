import BemOutline.Arena.Basic

/-! The document of an arena as a tree: what the root and the children links spell out, with shared
nodes written out at each of their places and numbers of no node left out. -/

namespace BemOutline

structure Tree where
  data : Line
  children : List Tree

namespace Tree

mutual

def size : Tree → Nat
  | ⟨_, children⟩ => 1 + sizes children

def sizes : List Tree → Nat
  | [] => 0
  | t :: ts => t.size + sizes ts

end

mutual

def preorder : Tree → List Line
  | ⟨data, children⟩ => data :: preorders children

def preorders : List Tree → List Line
  | [] => []
  | t :: ts => t.preorder ++ preorders ts

end

end Tree

namespace Arena

def treeAt (a : Arena) : Nat → NodeId → Option Tree
  | 0, _ => none
  | levels + 1, id =>
    (a.node? id).map fun n => ⟨n.data, n.children.filterMap (a.treeAt levels)⟩

/-- The document from one node on. Without a cycle it has at most as many levels as there are
nodes. -/
def subtree (a : Arena) (id : NodeId) : Option Tree := a.treeAt a.size id

def document (a : Arena) : Option Tree := a.root.bind a.subtree

end Arena

end BemOutline

import BemOutline.Arena.Measure

/-! Copying a part of the document into new nodes. -/

namespace BemOutline

namespace Arena

def childrenOf (a : Arena) (id : NodeId) : List NodeId :=
  match a.node? id with
  | some n => n.children
  | none => []

def push (a : Arena) (n : Node) : Arena := { a with nodes := a.nodes.push n }

def copyChild (copy : NodeId) :
    Arena × List (NodeId × NodeId) → NodeId → Arena × List (NodeId × NodeId)
  | (a, stack), child =>
    match a.node? child with
    | none => (a, stack)
    | some n =>
      let (a, id) := a.insert n.data (some copy)
      (a, (child, id) :: stack)

/-- Takes a node and its copy off the stack and copies its children, at most so many times. -/
def copyBelow : Nat → Arena → List (NodeId × NodeId) → Arena
  | 0, a, _ => a
  | _ + 1, a, [] => a
  | left + 1, a, (source, copy) :: stack =>
    let (a, stack) := (a.childrenOf source).foldl (copyChild copy) (a, stack)
    copyBelow left a stack

/-- Copies the document from one node on: every node of the copy is new and stands in one place. Its
top names the parent, but is not listed among its children. Every node of the document is taken off
the stack once; their number is also where the copy of a cycle breaks off. -/
@[inline]
def cloneSubtree? (a : Arena) (id : NodeId) (parent : Option NodeId) : Option (Arena × NodeId) :=
  match a.node? id with
  | none => none
  | some n =>
    let left := a.subtreeLength id
    let copy := a.size
    some ((a.push ⟨n.data, parent, []⟩).copyBelow left [(id, copy)], copy)

end Arena

end BemOutline

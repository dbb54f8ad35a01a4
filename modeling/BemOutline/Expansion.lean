import BemOutline.Arena.Clone
import BemOutline.Arena.Search

/-! Expanding counts: a node that stands for several siblings is replaced by that many. -/

namespace BemOutline

namespace Expansion

inductive Mode where
  | copy
  | aliased
deriving DecidableEq, Repr

def Mode.name : Mode → String
  | copy => "copy"
  | aliased => "alias"

inductive Overrun where
  | stepLimit (limit : Nat)
  | nodeLimit (limit : Nat)
deriving DecidableEq, Repr

structure Report where
  steps : Nat
  /-- By how many nodes the document has grown. -/
  nodesAdded : Nat
  overrun : Option Overrun
deriving DecidableEq, Repr

namespace Report

def empty : Report := ⟨0, 0, none⟩

def isComplete (r : Report) : Bool := r.overrun.isNone

end Report

structure Expander where
  mode : Mode := .copy
  stepLimit : Nat := 2000
  nodeLimit : Option Nat := none
deriving DecidableEq, Repr

def countOf (a : Arena) (id : NodeId) : Nat :=
  match a.node? id with
  | some n => n.data.count
  | none => 1

def firstMultiple (a : Arena) : Option Place :=
  a.first fun id => 1 < countOf a id

def resetCount (a : Arena) (id : NodeId) : Arena :=
  a.modify id fun n => { n with data := { n.data with count := 1 } }

/-- Makes copies of what stands below a node, the tops of the copies in front of those made so far. -/
def copies (id parent : NodeId) : Nat → Arena → List NodeId → Arena × List NodeId
  | 0, a, made => (a, made)
  | k + 1, a, made =>
    match a.cloneSubtree? id (some parent) with
    | none => copies id parent k a made
    | some (a, copy) => copies id parent k a (copy :: made)

def entries (mode : Mode) (a : Arena) (id parent : NodeId) (count : Nat) : Arena × List NodeId :=
  match mode with
  | .aliased => (a, List.replicate count id)
  | .copy =>
    let (a, made) := copies id parent (count - 1) a []
    (a, id :: made.reverse)

def splice (a : Arena) (parent : NodeId) (position : Nat) (ids : List NodeId) : Arena :=
  a.modify parent fun n =>
    { n with children := n.children.take position ++ (ids ++ n.children.drop (position + 1)) }

def replaceSlot (mode : Mode) (a : Arena) (id parent : NodeId) (position : Nat) : Arena :=
  let count := countOf a id
  let (a, ids) := entries mode (resetCount a id) id parent count
  splice a parent position ids

/-- By how much the document grows when the node in a slot of this parent is expanded: the slot
shows wherever its parent stands. -/
def growth (a : Arena) (id parent : NodeId) : Nat :=
  (countOf a id - 1) * a.subtreeLength id * a.occurrences parent

/-- Takes steps, at most `stepsLeft` of them. `length` is the length of the document so far. -/
def run (e : Expander) : Nat → Nat → Arena → Report → Arena × Report
  | stepsLeft, length, a, r =>
    match firstMultiple a with
    | none => (a, r)
    | some p =>
      match stepsLeft with
      | 0 => (a, { r with overrun := some (.stepLimit e.stepLimit) })
      | stepsLeft + 1 =>
        match p.slot with
        | none =>
          run e stepsLeft length (resetCount a p.node) { r with steps := r.steps + 1 }
        | some (parent, position) =>
          let added := growth a p.node parent
          match e.nodeLimit.filter (· < length + added) with
          | some limit => (a, { r with overrun := some (.nodeLimit limit) })
          | none =>
            run e stepsLeft (length + added) (replaceSlot e.mode a p.node parent position)
              { r with steps := r.steps + 1, nodesAdded := r.nodesAdded + added }

/-- Expands the counts of a document in document order. The root is never repeated; its count is
only set to one. -/
def expand (e : Expander) (a : Arena) : Arena × Report :=
  run e e.stepLimit a.documentLength a .empty

def nextGrowth (a : Arena) : Nat :=
  match firstMultiple a with
  | some ⟨id, some (parent, _)⟩ => growth a id parent
  | _ => 0

def warning? (a : Arena) (r : Report) : Option String :=
  match r.overrun with
  | none => none
  | some (.stepLimit _) => some ("expansion stopped after " ++ toString r.steps ++ " steps")
  | some (.nodeLimit limit) =>
    some ("expansion stopped: " ++ toString (nextGrowth a) ++ " more nodes would exceed " ++
      toString limit)

end Expansion

end BemOutline

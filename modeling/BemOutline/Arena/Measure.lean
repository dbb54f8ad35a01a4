import BemOutline.Arena.Repeats

/-! The size and the height of a document, as its nodes list each other. -/

namespace BemOutline.Arena

/-- No path without a cycle has more entries: every node once, and a number of no node. -/
def levelBound (a : Arena) : Nat := a.size + 1

/-- What the nodes from one node on count for together, on at most so many levels. -/
def total (a : Arena) (value : NodeId → Nat) : Nat → NodeId → Nat
  | 0, _ => 0
  | levels + 1, id =>
    match a.node? id with
    | none => 0
    | some n => foldRepeats (a.total value levels) (· + ·) (value id) n.children

def subtreeLength (a : Arena) (id : NodeId) : Nat := a.total (fun _ => 1) a.levelBound id

def documentLength (a : Arena) : Nat :=
  match a.root with
  | none => 0
  | some r => a.subtreeLength r

def occurrences (a : Arena) (id : NodeId) : Nat :=
  match a.root with
  | none => 0
  | some r => a.total (fun i => if i = id then 1 else 0) a.levelBound r

def heightAt (a : Arena) : Nat → NodeId → Nat
  | 0, _ => 0
  | levels + 1, id =>
    match a.node? id with
    | none => 1
    | some n => 1 + foldRepeats (a.heightAt levels) max 0 n.children

def height (a : Arena) : Nat :=
  match a.root with
  | none => 0
  | some r => a.heightAt a.levelBound r

end BemOutline.Arena

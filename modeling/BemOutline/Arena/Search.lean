import BemOutline.Arena.Measure

/-! Looking for a node in document order, and for the slot in which it stands first. -/

namespace BemOutline

structure Place where
  node : NodeId
  slot : Option (NodeId × Nat)
deriving DecidableEq, Repr

namespace Arena

def firstBelow (a : Arena) (test : NodeId → Bool) : Nat → NodeId → Option Place
  | 0, _ => none
  | levels + 1, id =>
    match a.node? id with
    | none => none
    | some n =>
      searchRepeats
        (fun i c => if test c then some ⟨c, some (id, i)⟩ else a.firstBelow test levels c)
        n.children

def first (a : Arena) (test : NodeId → Bool) : Option Place :=
  match a.root with
  | none => none
  | some r => if test r then some ⟨r, none⟩ else a.firstBelow test a.levelBound r

end Arena

end BemOutline

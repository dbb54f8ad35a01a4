import BemOutline.Arena.Clone

/-! Looking up nodes after an arena has changed. -/

namespace BemOutline.Arena

variable {a b : Arena} {i j : Nat}

theorem node?_lt {n : Node} (h : a.node? i = some n) : i < a.size :=
  (Array.getElem?_eq_some_iff.1 h).1

theorem exists_node?_iff : (∃ n, a.node? i = some n) ↔ i < a.size := by
  constructor
  · rintro ⟨n, h⟩
    exact node?_lt h
  · intro h
    exact ⟨a.nodes[i], Array.getElem?_eq_getElem h⟩

theorem node?_eq_none_iff : a.node? i = none ↔ a.size ≤ i :=
  Array.getElem?_eq_none_iff

theorem childrenOf_eq {n : Node} (hn : a.node? i = some n) : a.childrenOf i = n.children := by
  rw [childrenOf, hn]

theorem childrenOf_of_none (hn : a.node? i = none) : a.childrenOf i = [] := by
  rw [childrenOf, hn]

theorem depthOf_eq {n : Node} (hn : a.node? i = some n) : a.depthOf i = n.data.depth := by
  rw [depthOf, hn]

theorem ext_node? (hroot : a.root = b.root) (h : ∀ i, a.node? i = b.node? i) : a = b := by
  cases a
  cases b
  simp only [mk.injEq]
  exact ⟨Array.ext_getElem? h, hroot⟩

@[simp]
theorem size_modify (a : Arena) (j : Nat) (f : Node → Node) : (a.modify j f).size = a.size :=
  Array.size_modify

theorem root_modify (a : Arena) (j : Nat) (f : Node → Node) : (a.modify j f).root = a.root := rfl

theorem node?_modify (a : Arena) (j : Nat) (f : Node → Node) (i : Nat) :
    (a.modify j f).node? i = if j = i then (a.node? i).map f else a.node? i :=
  Array.getElem?_modify

theorem node?_insert (a : Arena) (l : Line) (p : Nat) (i : Nat) :
    (a.insert l (some p)).1.node? i =
      let stored := if i = a.size then some ⟨l, some p, []⟩ else a.node? i
      if p = i then stored.map fun n => { n with children := n.children ++ [a.size] }
      else stored := by
  rw [insert]
  simp only [node?_modify]
  simp only [node?, Array.getElem?_push]
  rfl

end BemOutline.Arena

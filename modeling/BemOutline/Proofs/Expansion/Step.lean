import BemOutline.Proofs.Expansion.Copies
import BemOutline.Proofs.Tree.Full

/-! What a step of an expansion does to the nodes: the count is reset, new nodes are stored, and
the entry of one slot gives way to several. -/

namespace BemOutline.Expansion

open Arena

variable {a : Arena} {i : Nat}

theorem countOf_eq {n : Node} (hn : a.node? i = some n) : countOf a i = n.data.count := by
  rw [countOf, hn]

theorem node?_resetCount (a : Arena) (x i : Nat) :
    (resetCount a x).node? i =
      (a.node? i).map fun n => { n with data := if i = x then n.data.single else n.data } := by
  rw [resetCount, node?_modify]
  cases a.node? i with
  | none => simp
  | some n => by_cases h : x = i <;> simp [h, eq_comm, Line.single]

theorem node?_splice (a : Arena) (p k : Nat) (ids : List Nat) (i : Nat) :
    (splice a p k ids).node? i = (a.node? i).map fun n => { n with
      children :=
        if i = p then n.children.take k ++ (ids ++ n.children.drop (k + 1)) else n.children } := by
  rw [splice, node?_modify]
  cases a.node? i with
  | none => simp
  | some n => by_cases h : p = i <;> simp [h, eq_comm]

theorem node?_resetCount_of_some (x : Nat) {n : Node} (hn : a.node? i = some n) :
    (resetCount a x).node? i =
      some { n with data := if i = x then n.data.single else n.data } := by
  rw [node?_resetCount, hn, Option.map_some]

theorem node?_splice_of_some (p k : Nat) (ids : List Nat) {n : Node} (hn : a.node? i = some n) :
    (splice a p k ids).node? i = some { n with
      children :=
        if i = p then n.children.take k ++ (ids ++ n.children.drop (k + 1)) else n.children } := by
  rw [node?_splice, hn, Option.map_some]

/-- A node behind a change of one slot is one that has been there, with its children and, in that
slot, the new ones. -/
theorem splice_cases {p k : Nat} {ids : List Nat} {n' : Node}
    (hn' : (splice a p k ids).node? i = some n') :
    ∃ n, a.node? i = some n ∧ n'.data = n.data ∧
      ∀ c ∈ n'.children, c ∈ n.children ∨ i = p ∧ c ∈ ids := by
  rw [node?_splice] at hn'
  obtain ⟨n, hn, rfl⟩ := Option.map_eq_some_iff.1 hn'
  refine ⟨n, hn, rfl, fun c hc => ?_⟩
  dsimp only at hc
  split at hc
  · next hip =>
    rw [List.mem_append, List.mem_append] at hc
    rcases hc with hc | hc | hc
    · exact .inl (List.mem_of_mem_take hc)
    · exact .inr ⟨hip, hc⟩
    · exact .inl (List.mem_of_mem_drop hc)
  · exact .inl hc

def provided (mode : Mode) (a : Arena) (x p : Nat) : Arena :=
  (entries mode (resetCount a x) x p (countOf a x)).1

def siblings (mode : Mode) (a : Arena) (x p : Nat) : List Nat :=
  (entries mode (resetCount a x) x p (countOf a x)).2

/-- A step resets the count, provides what is to stand for the node and lists it. -/
theorem replaceSlot_eq (mode : Mode) (a : Arena) (x p k : Nat) :
    replaceSlot mode a x p k = splice (provided mode a x p) p k (siblings mode a x p) := rfl

end BemOutline.Expansion

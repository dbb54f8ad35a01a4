import BemOutline.Arena.Tree
import Mathlib.Data.List.Basic

/-! Induction over trees, and the readings of a list of trees in terms of those of its members. -/

namespace BemOutline.Tree

theorem induction {P : Tree → Prop}
    (step : ∀ data children, (∀ t ∈ children, P t) → P ⟨data, children⟩) : ∀ t, P t
  | ⟨data, children⟩ => step data children fun t _ => induction step t

theorem preorders_eq (ts : List Tree) : preorders ts = ts.flatMap preorder := by
  induction ts with
  | nil => rfl
  | cons t ts ih => rw [preorders, ih, List.flatMap_cons]

theorem preorder_mk (data : Line) (children : List Tree) :
    preorder ⟨data, children⟩ = data :: children.flatMap preorder := by
  rw [preorder, preorders_eq]

theorem mem_preorder_mk {l data : Line} {children : List Tree} :
    l ∈ preorder ⟨data, children⟩ ↔ l = data ∨ ∃ t ∈ children, l ∈ t.preorder := by
  rw [preorder_mk, List.mem_cons, List.mem_flatMap]

end BemOutline.Tree

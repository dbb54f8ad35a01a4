import BemOutline.Arena.Tree
import BemOutline.Proofs.Arena.Lookup
import Mathlib.Data.List.Basic
import Mathlib.Data.Nat.Init
import Mathlib.Logic.Relation

/-! Arenas whose child links lead downwards. The bound on the levels in the definition of the
document is then no restriction: every node spells out its data and what its children spell out. -/

namespace BemOutline.Arena

variable {a b : Arena} {rank : Nat → Nat}

/-- A measure of the levels from a number on. It falls along every child link, and every node has
at least its own level. -/
structure Ranked (a : Arena) (rank : Nat → Nat) : Prop where
  le_size : ∀ i, rank i ≤ a.size
  pos : ∀ {i n}, a.node? i = some n → 0 < rank i
  lt : ∀ {i n}, a.node? i = some n → ∀ c ∈ n.children, rank c < rank i

/-- Every child link leads to a stored node with a greater number. -/
def Ascending (a : Arena) : Prop :=
  ∀ (i : Nat) n, a.node? i = some n → ∀ c : Nat, c ∈ n.children → i < c ∧ c < a.size

theorem Ascending.ranked (h : a.Ascending) : a.Ranked (a.size - ·) where
  le_size i := Nat.sub_le ..
  pos hn := Nat.sub_pos_of_lt (node?_lt hn)
  lt {i n} hn c hc := by
    have hlt := h i n hn c hc
    change a.size - c < a.size - i
    omega

def Child (a : Arena) (i c : Nat) : Prop := ∃ n, a.node? i = some n ∧ c ∈ n.children

theorem mem_childrenOf {i c : Nat} : c ∈ a.childrenOf i ↔ a.Child i c := by
  unfold childrenOf Child
  cases a.node? i <;> simp

theorem acyclic_of_lt (hlt : ∀ i c, a.Child i c → i < c) (i : Nat) :
    ¬ Relation.TransGen a.Child i i := by
  intro hi
  have hup : Relation.TransGen (· < ·) i i := Relation.TransGen.mono hlt i i hi
  rw [Relation.transGen_eq_self] at hup
  exact Nat.lt_irrefl i hup

theorem Ascending.acyclic (h : a.Ascending) (i : Nat) : ¬ Relation.TransGen a.Child i i := by
  refine acyclic_of_lt (fun j c hc => ?_) i
  obtain ⟨n, hn, hc⟩ := hc
  exact (h j n hn c hc).1

namespace Ranked

theorem node?_eq_none (h : a.Ranked rank) {i : Nat} (hi : rank i = 0) : a.node? i = none := by
  cases hn : a.node? i with
  | none => rfl
  | some n =>
    have := h.pos hn
    omega

theorem induction (h : a.Ranked rank) {P : Nat → Prop}
    (step : ∀ i, (∀ n, a.node? i = some n → ∀ c ∈ n.children, P c) → P i) (i : Nat) : P i := by
  induction hr : rank i using Nat.strong_induction_on generalizing i with
  | _ r ih =>
    apply step
    intro n hn c hc
    exact ih (rank c) (hr ▸ h.lt hn c hc) c rfl

/-- A reading that goes down level by level does not change once the levels suffice. -/
theorem levels_eq (h : a.Ranked rank) {α : Type} {read : Nat → Nat → α}
    (none : ∀ k l i, a.node? i = none → read k i = read l i)
    (some : ∀ k l i n, a.node? i = some n → (∀ c ∈ n.children, read k c = read l c) →
      read (k + 1) i = read (l + 1) i)
    {k l i : Nat} (hk : rank i ≤ k) (hl : rank i ≤ l) : read k i = read l i := by
  induction k generalizing l i with
  | zero => exact none _ _ i (h.node?_eq_none (Nat.le_zero.1 hk))
  | succ k ih =>
    cases l with
    | zero => exact none _ _ i (h.node?_eq_none (Nat.le_zero.1 hl))
    | succ l =>
      cases hn : a.node? i with
      | none => exact none _ _ i hn
      | some n =>
        apply some k l i n hn
        intro c hc
        have := h.lt hn c hc
        exact ih (by omega) (by omega)

theorem treeAt_eq (h : a.Ranked rank) {k l i : Nat} (hk : rank i ≤ k) (hl : rank i ≤ l) :
    a.treeAt k i = a.treeAt l i := by
  apply h.levels_eq _ _ hk hl
  · intro k l i hn
    cases k <;> cases l <;> simp [treeAt, hn]
  · intro k l i n hn hc
    simp only [treeAt, hn, Option.map_some]
    rw [List.filterMap_congr hc]

theorem subtree_eq (h : a.Ranked rank) (i : Nat) :
    a.subtree i = (a.node? i).map fun n => ⟨n.data, n.children.filterMap a.subtree⟩ :=
  h.treeAt_eq (l := a.size + 1) (h.le_size i) (Nat.le_succ_of_le (h.le_size i))

theorem subtree_of_node? (h : a.Ranked rank) {i : Nat} {n : Node} (hn : a.node? i = some n) :
    a.subtree i = some ⟨n.data, n.children.filterMap a.subtree⟩ := by
  rw [h.subtree_eq, hn, Option.map_some]

theorem exists_subtree_iff (h : a.Ranked rank) {i : Nat} :
    (∃ t, a.subtree i = some t) ↔ i < a.size := by
  rw [← exists_node?_iff, h.subtree_eq]
  constructor
  · rintro ⟨t, ht⟩
    obtain ⟨n, hn, -⟩ := Option.map_eq_some_iff.1 ht
    exact ⟨n, hn⟩
  · rintro ⟨n, hn⟩
    exact ⟨_, by rw [hn, Option.map_some]⟩

end Ranked

theorem subtree_congr {rank' : Nat → Nat} (ha : a.Ranked rank) (hb : b.Ranked rank')
    {S : Nat → Prop} (closed : ∀ {i n}, S i → a.node? i = some n → ∀ c ∈ n.children, S c)
    (same : ∀ i, S i → b.node? i = a.node? i) {i : Nat} (hi : S i) :
    b.subtree i = a.subtree i := by
  induction i using ha.induction with
  | step i ih =>
    rw [ha.subtree_eq, hb.subtree_eq, same i hi]
    cases hn : a.node? i with
    | none => rfl
    | some n =>
      have hc : ∀ c ∈ n.children, b.subtree c = a.subtree c :=
        fun c hc => ih n hn c hc (closed hi hn c hc)
      rw [Option.map_some, Option.map_some, List.filterMap_congr hc]

end BemOutline.Arena

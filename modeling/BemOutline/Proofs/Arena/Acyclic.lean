import BemOutline.Proofs.Arena.DocumentOrder
import Mathlib.Data.Finset.Card
import Mathlib.Data.Finset.Range

/-! Arenas without cycles, everywhere or below one node. The number of nodes below a node falls along
every child link. What is read below a node hangs on the nodes there, so that cycles elsewhere do not
matter. -/

namespace BemOutline.Arena

open Relation

variable {a b : Arena} {i j c k : Nat}

open Classical in
noncomputable def descendants (a : Arena) (i : Nat) : Finset Nat :=
  (Finset.range a.size).filter (ReflTransGen a.Child i)

theorem mem_descendants : j ∈ a.descendants i ↔ j < a.size ∧ ReflTransGen a.Child i j := by
  simp [descendants]

theorem ranked_of_acyclic (h : ∀ i, ¬ TransGen a.Child i i) :
    a.Ranked fun i => (a.descendants i).card where
  le_size i := by
    have hsubset : a.descendants i ⊆ Finset.range a.size :=
      fun j hj => Finset.mem_range.2 (mem_descendants.1 hj).1
    exact (Finset.card_le_card hsubset).trans_eq (Finset.card_range _)
  pos hn := Finset.card_pos.2 ⟨_, mem_descendants.2 ⟨node?_lt hn, .refl⟩⟩
  lt {i n} hn c hc := by
    have hchild : a.Child i c := ⟨n, hn, hc⟩
    have hsubset : a.descendants c ⊆ a.descendants i := by
      intro j hj
      obtain ⟨hsize, hj⟩ := mem_descendants.1 hj
      exact mem_descendants.2 ⟨hsize, .head hchild hj⟩
    have hself : i ∈ a.descendants i := mem_descendants.2 ⟨node?_lt hn, .refl⟩
    have hnot : i ∉ a.descendants c :=
      fun hi => h i (TransGen.head' hchild (mem_descendants.1 hi).2)
    exact Finset.card_lt_card ((Finset.ssubset_iff_of_subset hsubset).2 ⟨i, hself, hnot⟩)

section Congr
variable {S : Nat → Prop} (closed : ∀ {i n}, S i → a.node? i = some n → ∀ c ∈ n.children, S c)
  (same : ∀ i, S i → b.node? i = a.node? i)
include closed same

theorem treeAt_congr (hi : S i) : b.treeAt k i = a.treeAt k i := by
  induction k generalizing i with
  | zero => rfl
  | succ k ih =>
    unfold treeAt
    rw [same i hi]
    cases hn : a.node? i with
    | none => rfl
    | some n =>
      have hchildren : n.children.filterMap (b.treeAt k) = n.children.filterMap (a.treeAt k) :=
        List.filterMap_congr fun c hc => ih (closed hi hn c hc)
      simp only [Option.map_some, hchildren]

theorem orderAt_congr (hi : S i) : b.orderAt k i = a.orderAt k i := by
  induction k generalizing i with
  | zero => rfl
  | succ k ih =>
    unfold orderAt
    rw [same i hi]
    cases hn : a.node? i with
    | none => rfl
    | some n =>
      have hchildren : n.children.flatMap (b.orderAt k) = n.children.flatMap (a.orderAt k) :=
        List.flatMap_congr fun c hc => ih (closed hi hn c hc)
      simp only [hchildren]

theorem total_congr {value : Nat → Nat} (hi : S i) : b.total value k i = a.total value k i := by
  induction k generalizing i with
  | zero => rfl
  | succ k ih =>
    unfold total
    rw [same i hi]
    cases hn : a.node? i with
    | none => rfl
    | some n =>
      simp only [foldRepeats_eq_foldl]
      exact List.foldl_ext _ _ _ fun acc c hc => by rw [ih (closed hi hn c hc)]

end Congr

/-- The arena in which only some nodes keep their children. -/
def prune (a : Arena) (S : Nat → Prop) [DecidablePred S] : Arena :=
  { a with nodes := a.nodes.mapIdx fun i n => if S i then n else { n with children := [] } }

variable {S : Nat → Prop} [DecidablePred S]

theorem size_prune : (a.prune S).size = a.size := Array.size_mapIdx

theorem node?_prune (a : Arena) (i : Nat) : (a.prune S).node? i =
    (a.node? i).map fun n => if S i then n else { n with children := [] } :=
  Array.getElem?_mapIdx

theorem node?_prune_of_mem (hi : S i) : (a.prune S).node? i = a.node? i := by
  rw [node?_prune]
  simp [hi]

theorem child_prune : (a.prune S).Child i c ↔ S i ∧ a.Child i c := by
  unfold Child
  rw [node?_prune]
  by_cases hi : S i <;> simp [hi]

def AcyclicBelow (a : Arena) (i : Nat) : Prop :=
  ∀ j, ReflTransGen a.Child i j → ¬ TransGen a.Child j j

theorem acyclicBelow_of_closed {S : Nat → Prop}
    (hS : ∀ j c, S j → a.Child j c → S c ∧ j < c) (hi : S i) : a.AcyclicBelow i := by
  intro j hj
  have hmem : S j := by
    induction hj with
    | refl => exact hi
    | tail _ hc ih => exact (hS _ _ ih hc).1
  have hlt : ∀ {k}, TransGen a.Child j k → S k ∧ j < k := by
    intro k hk
    induction hk with
    | single hc => exact hS j _ hmem hc
    | tail _ hc ih =>
      obtain ⟨hk, hlt⟩ := hS _ _ ih.1 hc
      exact ⟨hk, ih.2.trans hlt⟩
  exact fun hcycle => Nat.lt_irrefl j (hlt hcycle).2

variable {n : Node}

theorem reaches_child (hj : ReflTransGen a.Child i j) (hn : a.node? j = some n) :
    ∀ c ∈ n.children, ReflTransGen a.Child i c :=
  fun _ hc => hj.tail ⟨n, hn, hc⟩

theorem subtreeLength_of_none (hn : a.node? j = none) : a.subtreeLength j = 0 := by
  unfold subtreeLength levelBound total
  rw [hn]

theorem subtreeLength_congr (hsize : b.size = a.size)
    (same : ∀ j, ReflTransGen a.Child i j → b.node? j = a.node? j)
    (hj : ReflTransGen a.Child i j) : b.subtreeLength j = a.subtreeLength j := by
  unfold subtreeLength levelBound
  rw [hsize]
  exact total_congr reaches_child same hj

namespace AcyclicBelow

/-- Without its links elsewhere the arena has no cycle at all. -/
theorem exists_ranked (h : a.AcyclicBelow i) : ∃ (b : Arena) (rank : Nat → Nat), b.Ranked rank ∧
    b.size = a.size ∧ ∀ j, ReflTransGen a.Child i j → b.node? j = a.node? j := by
  classical
  let S : Nat → Prop := ReflTransGen a.Child i
  have hacyclic : ∀ j, ¬ TransGen (a.prune S).Child j j := by
    intro j hj
    obtain ⟨c, hc, -⟩ := TransGen.head'_iff.1 hj
    have hlinks : (a.prune S).Child ≤ a.Child := fun _ _ hc => (child_prune.1 hc).2
    exact h j (child_prune.1 hc).1 (TransGen.mono hlinks _ _ hj)
  exact ⟨a.prune S, _, ranked_of_acyclic hacyclic, size_prune, fun j => node?_prune_of_mem⟩

theorem treeAt_eq (h : a.AcyclicBelow i) (hk : a.size ≤ k) : a.treeAt k i = a.subtree i := by
  obtain ⟨b, rank, hb, hsize, same⟩ := h.exists_ranked
  have hread : ∀ k, b.treeAt k i = a.treeAt k i := fun k => treeAt_congr reaches_child same .refl
  have hlevels : rank i ≤ a.size := (hb.le_size i).trans_eq hsize
  unfold subtree
  rw [← hread, ← hread]
  exact hb.treeAt_eq (hlevels.trans hk) hlevels

theorem exists_subtree (h : a.AcyclicBelow i) (hn : a.node? i = some n) :
    ∃ t, a.subtree i = some t := by
  rw [← h.treeAt_eq (Nat.le_succ a.size), treeAt, hn]
  exact ⟨_, rfl⟩

theorem subtreeLength_of_some (h : a.AcyclicBelow i) (hj : ReflTransGen a.Child i j)
    (hn : a.node? j = some n) :
    a.subtreeLength j = 1 + (n.children.map a.subtreeLength).sum := by
  obtain ⟨b, rank, hb, hsize, same⟩ := h.exists_ranked
  have hread : ∀ c, ReflTransGen a.Child i c → a.subtreeLength c = (b.order c).length := by
    intro c hc
    rw [← hb.subtreeLength_eq, subtreeLength_congr hsize same hc]
  have hchildren : n.children.map a.subtreeLength = n.children.map fun c => (b.order c).length :=
    List.map_congr_left fun c hc => hread c (reaches_child hj hn c hc)
  rw [hread j hj, hb.order_of_some ((same j hj).trans hn), hchildren, List.length_cons,
    List.length_flatMap, Nat.add_comm]

theorem size_of_subtree {t : Tree} (h : a.AcyclicBelow i) (ht : a.subtree i = some t) :
    t.size = a.subtreeLength i := by
  obtain ⟨b, rank, hb, hsize, same⟩ := h.exists_ranked
  have hread : b.subtree i = some t := by
    unfold subtree at ht ⊢
    rw [hsize, treeAt_congr reaches_child same .refl, ht]
  rw [← hb.length_order hread, ← hb.subtreeLength_eq, subtreeLength_congr hsize same .refl]

end AcyclicBelow

end BemOutline.Arena

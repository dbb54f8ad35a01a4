import BemOutline.Proofs.Arena.DocumentOrder
import Mathlib.Data.List.Lex

/-! The addresses in a document: the positions among the children on the way down to a node. A node
that is listed in several places has an address for each of them. Taken in lexicographic order, the
addresses go through the document in its own order. -/

namespace BemOutline.Arena

variable {a : Arena} {rank : Nat → Nat} {i : Nat} {path : List Nat}

def follow (a : Arena) : Nat → List Nat → Option Nat
  | i, [] => if a.isNode i then some i else none
  | i, k :: path => (a.childrenOf i)[k]?.bind (a.follow · path)

/-- For every entry on the way down to an address, whether the list that holds it goes on behind
it. -/
def goesOn (a : Arena) : Nat → List Nat → List Bool
  | _, [] => []
  | i, k :: path =>
    decide (k + 1 < (a.childrenOf i).length) :: (a.childrenOf i)[k]?.elim [] (a.goesOn · path)

def addressesAt (a : Arena) : Nat → Nat → List (List Nat)
  | 0, _ => []
  | levels + 1, i =>
    match a.node? i with
    | none => []
    | some n =>
      [] :: n.children.zipIdx.flatMap fun e => (a.addressesAt levels e.1).map (e.2 :: ·)

def addresses (a : Arena) (i : Nat) : List (List Nat) := a.addressesAt a.size i

theorem follow_cons_eq_some_iff {j k : Nat} :
    a.follow i (k :: path) = some j ↔
      ∃ c, (a.childrenOf i)[k]? = some c ∧ a.follow c path = some j := Option.bind_eq_some_iff

theorem length_goesOn {j : Nat} (h : a.follow i path = some j) :
    (a.goesOn i path).length = path.length := by
  induction path generalizing i with
  | nil => rfl
  | cons k path ih =>
    obtain ⟨c, hc, hj⟩ := follow_cons_eq_some_iff.1 h
    rw [goesOn, hc, Option.elim_some, List.length_cons, List.length_cons, ih hj]

theorem pairwise_zipIdx {α : Type} (l : List α) : l.zipIdx.Pairwise fun e f => e.2 < f.2 := by
  have hrange : (l.zipIdx.map Prod.snd).Pairwise (· < ·) := by
    rw [List.zipIdx_map_snd]
    exact List.pairwise_lt_range'
  exact List.pairwise_map.1 hrange

namespace Ranked

theorem addressesAt_eq (h : a.Ranked rank) {k l i : Nat} (hk : rank i ≤ k) (hl : rank i ≤ l) :
    a.addressesAt k i = a.addressesAt l i := by
  apply h.levels_eq _ _ hk hl
  · intro k l i hn
    cases k <;> cases l <;> simp [addressesAt, hn]
  · intro k l i n hn hc
    simp only [addressesAt, hn]
    congr 1
    exact List.flatMap_congr fun e he => by rw [hc e.1 (List.fst_mem_of_mem_zipIdx he)]

theorem addresses_eq (h : a.Ranked rank) (i : Nat) :
    a.addresses i = (a.node? i).elim [] fun n =>
      [] :: n.children.zipIdx.flatMap fun e => (a.addresses e.1).map (e.2 :: ·) := by
  have hlevels : rank i ≤ a.size + 1 := Nat.le_succ_of_le (h.le_size i)
  rw [addresses, h.addressesAt_eq (h.le_size i) hlevels, addressesAt]
  cases a.node? i <;> rfl

theorem addresses_of_none (h : a.Ranked rank) (hn : a.node? i = none) : a.addresses i = [] := by
  rw [h.addresses_eq, hn, Option.elim_none]

theorem addresses_of_some (h : a.Ranked rank) {n : Node} (hn : a.node? i = some n) :
    a.addresses i =
      [] :: n.children.zipIdx.flatMap fun e => (a.addresses e.1).map (e.2 :: ·) := by
  rw [h.addresses_eq, hn, Option.elim_some]

theorem map_follow_addresses (h : a.Ranked rank) (i : Nat) :
    (a.addresses i).map (a.follow i) = (a.order i).map some := by
  induction i using h.induction with
  | step i ih =>
    cases hn : a.node? i with
    | none => rw [h.addresses_of_none hn, h.order_of_none hn, List.map_nil, List.map_nil]
    | some n =>
      have hchild : ∀ e ∈ n.children.zipIdx,
          ((a.addresses e.1).map (e.2 :: ·)).map (a.follow i) = (a.order e.1).map some := by
        intro e he
        have hk := List.mk_mem_zipIdx_iff_getElem?.1 he
        rw [List.map_map, ← ih n hn e.1 (List.mem_of_getElem? hk)]
        refine List.map_congr_left fun path _ => ?_
        rw [Function.comp_apply, follow, childrenOf_eq hn, hk, Option.bind_some]
      have hself : a.follow i [] = some i := if_pos (isNode_of_node? hn)
      rw [h.addresses_of_some hn, h.order_of_some hn, List.map_cons, List.map_cons, hself,
        List.map_flatMap, List.flatMap_congr hchild, List.map_flatMap]
      conv_rhs => rw [← List.zipIdx_map_fst 0 n.children, List.flatMap_map]

theorem length_addresses (h : a.Ranked rank) (i : Nat) :
    (a.addresses i).length = (a.order i).length := by
  rw [← List.length_map (f := a.follow i), h.map_follow_addresses, List.length_map]

theorem mem_addresses_iff (h : a.Ranked rank) :
    path ∈ a.addresses i ↔ ∃ j, a.follow i path = some j := by
  induction path generalizing i with
  | nil =>
    rw [h.addresses_eq, follow, isNode]
    cases a.node? i <;> simp
  | cons k path ih =>
    simp only [follow_cons_eq_some_iff]
    cases hn : a.node? i with
    | none => simp [h.addresses_of_none hn, childrenOf, hn]
    | some n =>
      rw [h.addresses_of_some hn, childrenOf_eq hn, List.mem_cons, List.mem_flatMap]
      constructor
      · rintro (heq | ⟨e, he, hp⟩)
        · cases heq
        · obtain ⟨rest, hrest, heq⟩ := List.mem_map.1 hp
          cases heq
          obtain ⟨j, hj⟩ := ih.1 hrest
          exact ⟨j, e.1, List.mk_mem_zipIdx_iff_getElem?.1 he, hj⟩
      · rintro ⟨j, c, hc, hj⟩
        exact .inr ⟨(c, k), List.mk_mem_zipIdx_iff_getElem?.2 hc,
          List.mem_map_of_mem (ih.2 ⟨j, hj⟩)⟩

theorem pairwise_addresses (h : a.Ranked rank) (i : Nat) :
    (a.addresses i).Pairwise (· < ·) := by
  induction i using h.induction with
  | step i ih =>
    cases hn : a.node? i with
    | none =>
      rw [h.addresses_of_none hn]
      exact .nil
    | some n =>
      rw [h.addresses_of_some hn, List.pairwise_cons, List.pairwise_flatMap]
      refine ⟨fun path hp => ?_, fun e he => ?_, ?_⟩
      · obtain ⟨e, -, hp⟩ := List.mem_flatMap.1 hp
        obtain ⟨rest, -, rfl⟩ := List.mem_map.1 hp
        exact List.nil_lt_cons ..
      · rw [List.pairwise_map]
        refine (ih n hn e.1 (List.fst_mem_of_mem_zipIdx he)).imp fun hlt => ?_
        exact List.cons_lt_cons_self.2 hlt
      · refine (pairwise_zipIdx n.children).imp fun {e f} hlt p hp q hq => ?_
        obtain ⟨p, -, rfl⟩ := List.mem_map.1 hp
        obtain ⟨q, -, rfl⟩ := List.mem_map.1 hq
        exact List.cons_lt_cons_iff.2 (.inl hlt)

end Ranked

end BemOutline.Arena

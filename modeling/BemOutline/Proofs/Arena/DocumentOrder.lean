import BemOutline.Arena.Measure
import BemOutline.Arena.Walk
import BemOutline.Proofs.Arena.Unfolding
import BemOutline.Proofs.Tree.Reading
import Mathlib.Algebra.GroupWithZero.Nat

/-! The document order as a list of numbers. The walk by a stack, the counts and the tree of the
document all read this list. -/

namespace BemOutline.Arena

variable {a : Arena} {rank : Nat → Nat}

def orderAt (a : Arena) : Nat → Nat → List Nat
  | 0, _ => []
  | levels + 1, i =>
    match a.node? i with
    | none => []
    | some n => i :: n.children.flatMap (a.orderAt levels)

def order (a : Arena) (i : Nat) : List Nat := a.orderAt a.size i

theorem isNode_of_node? {i : Nat} {n : Node} (hn : a.node? i = some n) : a.isNode i = true := by
  rw [isNode, hn, Option.isSome_some]

theorem isNode_eq_false {i : Nat} (hn : a.node? i = none) : a.isNode i = false := by
  rw [isNode, hn, Option.isSome_none]

theorem isNode_iff {i : Nat} : a.isNode i ↔ i < a.size := by
  rw [isNode, Option.isSome_iff_exists, exists_node?_iff]

namespace Ranked

theorem orderAt_eq (h : a.Ranked rank) {k l i : Nat} (hk : rank i ≤ k) (hl : rank i ≤ l) :
    a.orderAt k i = a.orderAt l i := by
  apply h.levels_eq _ _ hk hl
  · intro k l i hn
    cases k <;> cases l <;> simp [orderAt, hn]
  · intro k l i n hn hc
    simp only [orderAt, hn]
    rw [List.flatMap_congr hc]

theorem order_eq (h : a.Ranked rank) (i : Nat) :
    a.order i = (a.node? i).elim [] fun n => i :: n.children.flatMap a.order := by
  have hlevels : rank i ≤ a.size + 1 := Nat.le_succ_of_le (h.le_size i)
  rw [order, h.orderAt_eq (h.le_size i) hlevels, orderAt]
  cases a.node? i <;> rfl

theorem order_of_none (h : a.Ranked rank) {i : Nat} (hn : a.node? i = none) : a.order i = [] := by
  rw [h.order_eq, hn, Option.elim_none]

theorem order_of_some (h : a.Ranked rank) {i : Nat} {n : Node} (hn : a.node? i = some n) :
    a.order i = i :: n.children.flatMap a.order := by
  rw [h.order_eq, hn, Option.elim_some]

theorem isNode_of_mem_order (h : a.Ranked rank) {i j : Nat} (hj : j ∈ a.order i) :
    a.isNode j = true := by
  induction i using h.induction with
  | step i ih =>
    cases hn : a.node? i with
    | none => simp [h.order_of_none hn] at hj
    | some n =>
      rw [h.order_of_some hn, List.mem_cons, List.mem_flatMap] at hj
      rcases hj with rfl | ⟨c, hc, hj⟩
      · exact isNode_of_node? hn
      · exact ih n hn c hc hj

theorem mem_order_self (h : a.Ranked rank) {i : Nat} (hi : i < a.size) : i ∈ a.order i := by
  obtain ⟨n, hn⟩ := exists_node?_iff.2 hi
  rw [h.order_of_some hn]
  exact List.mem_cons_self

theorem order_trans (h : a.Ranked rank) {i j k : Nat} (hj : j ∈ a.order i)
    (hk : k ∈ a.order j) : k ∈ a.order i := by
  induction i using h.induction with
  | step i ih =>
    cases hn : a.node? i with
    | none => simp [h.order_of_none hn] at hj
    | some n =>
      rw [h.order_of_some hn] at hj
      rcases List.mem_cons.1 hj with rfl | hj
      · exact hk
      · obtain ⟨c, hc, hj⟩ := List.mem_flatMap.1 hj
        rw [h.order_of_some hn]
        exact List.mem_cons_of_mem _ (List.mem_flatMap.2 ⟨c, hc, ih n hn c hc hj⟩)

theorem mem_order_of_child (h : a.Ranked rank) {i c : Nat} {n : Node} (hn : a.node? i = some n)
    (hc : c ∈ n.children) (hsize : c < a.size) : c ∈ a.order i := by
  rw [h.order_of_some hn]
  exact List.mem_cons_of_mem _ (List.mem_flatMap.2 ⟨c, hc, h.mem_order_self hsize⟩)

/-- What a visit puts on the stack accounts for all that stands below its node. -/
theorem order_eq_below (h : a.Ranked rank) {v : Visit} (hv : rank v.node + v.level ≤ a.size) :
    a.order v.node = [v.node].filter a.isNode ++ (a.below v).flatMap fun w => a.order w.node := by
  cases hn : a.node? v.node with
  | none => simp [h.order_of_none hn, below, hn, isNode_eq_false hn]
  | some n =>
    have hl : v.level < a.size := by
      have := h.pos hn
      omega
    rw [h.order_of_some hn, below, hn]
    simp [hl, isNode_of_node? hn, List.flatMap_map]

theorem below_le_size (h : a.Ranked rank) {v w : Visit} (hv : rank v.node + v.level ≤ a.size)
    (hw : w ∈ a.below v) : rank w.node + w.level ≤ a.size := by
  unfold below at hw
  split at hw
  · simp at hw
  · next n hn =>
    split at hw
    · obtain ⟨c, hc, rfl⟩ := List.mem_map.1 hw
      have := h.lt hn c hc
      change rank c + (v.level + 1) ≤ a.size
      omega
    · simp at hw

theorem walk_eq (h : a.Ranked rank) (made stack : List Visit)
    (hs : ∀ v ∈ stack, rank v.node + v.level ≤ a.size) :
    ((a.walk made stack).map (·.node)).filter a.isNode =
      (stack.flatMap fun v => a.order v.node).reverse ++
        (made.map (·.node)).filter a.isNode := by
  fun_induction a.walk made stack with
  | case1 made => simp
  | case2 made v rest ih =>
    -- the top of the stack gives way to the visits below it, which stand for the same numbers
    have hv := hs v List.mem_cons_self
    have hbelow : ∀ w ∈ a.below v ++ rest, rank w.node + w.level ≤ a.size := by
      intro w hw
      rcases List.mem_append.1 hw with hw | hw
      · exact h.below_le_size hv hw
      · exact hs w (List.mem_cons_of_mem _ hw)
    rw [ih hbelow, List.flatMap_cons, h.order_eq_below hv, List.flatMap_append, List.map_cons,
      ← List.singleton_append, List.filter_append]
    have hone : ([v.node].filter a.isNode).reverse = [v.node].filter a.isNode := by
      cases hb : a.isNode v.node <;> simp [hb]
    simp only [List.reverse_append, hone, List.append_assoc]

theorem iter_eq (h : a.Ranked rank) : a.iter = a.root.elim [] a.order := by
  have hs : ∀ v ∈ (a.root.map (Visit.mk · 0)).toList, rank v.node + v.level ≤ a.size := by
    intro v hv
    obtain ⟨r, -, rfl⟩ := Option.map_eq_some_iff.1 (Option.mem_toList.1 hv)
    exact h.le_size r
  rw [iter, List.map_reverse, List.filter_reverse, h.walk_eq _ _ hs]
  cases a.root <;> simp

theorem total_eq (h : a.Ranked rank) (value : Nat → Nat) {levels i : Nat} (hi : rank i ≤ levels) :
    a.total value levels i = ((a.order i).map value).sum := by
  induction levels generalizing i with
  | zero => rw [total, h.order_of_none (h.node?_eq_none (Nat.le_zero.1 hi)), List.map_nil,
      List.sum_nil]
  | succ levels ih =>
    rw [total]
    cases hn : a.node? i with
    | none => rw [h.order_of_none hn, List.map_nil, List.sum_nil]
    | some n =>
      have hc : ∀ c ∈ n.children, a.total value levels c = ((a.order c).map value).sum := by
        intro c hc
        have := h.lt hn c hc
        exact ih (by omega)
      have hfold : ∀ (cs : List Nat) (start : Nat), (∀ c ∈ cs, c ∈ n.children) →
          cs.foldl (fun acc c => acc + a.total value levels c) start =
            start + ((cs.flatMap a.order).map value).sum := by
        intro cs
        induction cs with
        | nil => simp
        | cons c cs ihc =>
          intro start hcs
          have hcc := hc c (hcs c List.mem_cons_self)
          have htail := ihc (start + a.total value levels c)
            fun x hx => hcs x (List.mem_cons_of_mem _ hx)
          rw [List.foldl_cons, htail, hcc, List.flatMap_cons, List.map_append, List.sum_append,
            Nat.add_assoc]
      rw [h.order_of_some hn, List.map_cons, List.sum_cons]
      exact (foldRepeats_eq_foldl ..).trans (hfold n.children (value i) fun _ hx => hx)

theorem subtreeLength_eq (h : a.Ranked rank) (i : Nat) :
    a.subtreeLength i = (a.order i).length := by
  have hi : rank i ≤ a.levelBound := Nat.le_succ_of_le (h.le_size i)
  rw [subtreeLength, h.total_eq _ hi]
  simp

theorem documentLength_eq (h : a.Ranked rank) : a.documentLength = a.iter.length := by
  rw [h.iter_eq, documentLength]
  cases a.root with
  | none => rfl
  | some r => exact h.subtreeLength_eq r

theorem sum_map_indicator (i : Nat) (l : List Nat) :
    (l.map fun j => if j = i then 1 else 0).sum = l.count i := by
  induction l with
  | nil => rfl
  | cons j l ih =>
    rw [List.map_cons, List.sum_cons, ih, List.count_cons, Nat.add_comm]
    simp

theorem occurrences_eq (h : a.Ranked rank) (i : Nat) : a.occurrences i = a.iter.count i := by
  rw [h.iter_eq, occurrences]
  cases a.root with
  | none => rfl
  | some r =>
    have hr : rank r ≤ a.levelBound := Nat.le_succ_of_le (h.le_size r)
    exact (h.total_eq _ hr).trans (sum_map_indicator i _)

theorem order_of_subtree_none (h : a.Ranked rank) {i : Nat} (ht : a.subtree i = none) :
    a.order i = [] := by
  rw [h.subtree_eq] at ht
  exact h.order_of_none (Option.map_eq_none_iff.1 ht)

theorem length_order (h : a.Ranked rank) {i : Nat} {t : Tree} (ht : a.subtree i = some t) :
    (a.order i).length = t.size := by
  induction i using h.induction generalizing t with
  | step i ih =>
    rw [h.subtree_eq] at ht
    obtain ⟨n, hn, rfl⟩ := Option.map_eq_some_iff.1 ht
    have hchildren : ∀ cs : List Nat, (∀ c ∈ cs, c ∈ n.children) →
        (cs.flatMap a.order).length = Tree.sizes (cs.filterMap a.subtree) := by
      intro cs hcs
      induction cs with
      | nil => rfl
      | cons c cs ihc =>
        have htail := ihc fun x hx => hcs x (List.mem_cons_of_mem _ hx)
        rw [List.flatMap_cons, List.length_append, htail, List.filterMap_cons]
        cases hc : a.subtree c with
        | none => rw [h.order_of_subtree_none hc, List.length_nil, Nat.zero_add]
        | some u => rw [ih n hn c (hcs c List.mem_cons_self) hc, Tree.sizes]
    rw [h.order_of_some hn, List.length_cons, hchildren _ fun _ hc => hc, Tree.size, Nat.add_comm]

theorem preorder_eq (h : a.Ranked rank) {i : Nat} {t : Tree} (ht : a.subtree i = some t) :
    t.preorder = (a.order i).filterMap fun j => (a.node? j).map (·.data) := by
  induction i using h.induction generalizing t with
  | step i ih =>
    rw [h.subtree_eq] at ht
    obtain ⟨n, hn, rfl⟩ := Option.map_eq_some_iff.1 ht
    have hchildren : ∀ cs : List Nat, (∀ c ∈ cs, c ∈ n.children) →
        (cs.filterMap a.subtree).flatMap Tree.preorder =
          cs.flatMap fun c => (a.order c).filterMap fun j => (a.node? j).map (·.data) := by
      intro cs hcs
      induction cs with
      | nil => rfl
      | cons c cs ihc =>
        have htail := ihc fun x hx => hcs x (List.mem_cons_of_mem _ hx)
        rw [List.flatMap_cons, ← htail, List.filterMap_cons]
        cases hc : a.subtree c with
        | none => rw [h.order_of_subtree_none hc, List.filterMap_nil, List.nil_append]
        | some u => rw [List.flatMap_cons, ih n hn c (hcs c List.mem_cons_self) hc]
    rw [Tree.preorder_mk, h.order_of_some hn, hchildren _ fun _ hc => hc, List.filterMap_cons, hn,
      Option.map_some, List.filterMap_flatMap]

theorem mem_preorder (h : a.Ranked rank) {i : Nat} {t : Tree} (ht : a.subtree i = some t)
    {l : Line} : l ∈ t.preorder ↔ ∃ j ∈ a.order i, ∃ n, a.node? j = some n ∧ n.data = l := by
  rw [h.preorder_eq ht]
  simp only [List.mem_filterMap, Option.map_eq_some_iff]

end Ranked

theorem Ascending.le_of_mem_order (h : a.Ascending) {i j : Nat} (hj : j ∈ a.order i) : i ≤ j := by
  induction i using h.ranked.induction with
  | step i ih =>
    cases hn : a.node? i with
    | none => simp [h.ranked.order_of_none hn] at hj
    | some n =>
      rw [h.ranked.order_of_some hn] at hj
      rcases List.mem_cons.1 hj with rfl | hj
      · exact Nat.le_refl _
      · obtain ⟨c, hc, hj⟩ := List.mem_flatMap.1 hj
        exact Nat.le_trans (Nat.le_of_lt (h i n hn c hc).1) (ih n hn c hc hj)

theorem order_congr {b : Arena} {rank' : Nat → Nat} (ha : a.Ranked rank) (hb : b.Ranked rank')
    (same : ∀ i, (b.node? i).map (·.children) = (a.node? i).map (·.children)) (i : Nat) :
    b.order i = a.order i := by
  induction i using ha.induction with
  | step i ih =>
    have hi := same i
    cases hn : a.node? i with
    | none =>
      rw [hn, Option.map_none, Option.map_eq_none_iff] at hi
      rw [ha.order_of_none hn, hb.order_of_none hi]
    | some n =>
      rw [hn, Option.map_some] at hi
      obtain ⟨m, hm, hchildren⟩ := Option.map_eq_some_iff.1 hi
      rw [ha.order_of_some hn, hb.order_of_some hm, hchildren]
      exact congrArg (i :: ·) (List.flatMap_congr fun c hc => ih n hn c hc)

end BemOutline.Arena

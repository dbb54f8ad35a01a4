import BemOutline.Proofs.Arena.Acyclic
import Mathlib.Data.List.Perm.Subperm
import Mathlib.Logic.Function.Basic

/-! Arenas to which a copy of some of their nodes is added child by child. Each new node stands for
the node that it was copied from. Once no child is missing, both show the same document. -/

namespace BemOutline.Arena

open Function Relation

variable {a b : Arena} {id copy i c k : Nat} {parent : Option Nat} {source : Nat → Nat}
  {todo : Nat → List Nat} {cs : List Nat} {n m : Node} {l : Line}

structure Linked (b : Arena) (i stop : Nat) (n : Node) : Prop where
  ascending : n.children.Pairwise (· < ·)
  child : ∀ c : Nat, c ∈ n.children →
    i < c ∧ c < stop ∧ ∃ m, b.node? c = some m ∧ m.parent = some i

theorem size_insert (a : Arena) (l : Line) (p : Nat) :
    (a.insert l (some p)).1.size = a.size + 1 := by
  unfold insert
  rw [size_modify]
  exact Array.size_push _

theorem root_insert (a : Arena) (l : Line) (p : Nat) : (a.insert l (some p)).1.root = a.root := rfl

theorem node?_insert_size (hcopy : copy < b.size) :
    (b.insert l (some copy)).1.node? b.size = some ⟨l, some copy, []⟩ := by
  rw [node?_insert]
  simp [hcopy.ne]

theorem node?_insert_self (hm : b.node? copy = some m) :
    (b.insert l (some copy)).1.node? copy =
      some { m with children := m.children ++ [b.size] } := by
  rw [node?_insert]
  simp [(node?_lt hm).ne, hm]

theorem node?_insert_of_ne (hi : i < b.size) (hcopy : i ≠ copy) :
    (b.insert l (some copy)).1.node? i = b.node? i := by
  rw [node?_insert]
  simp [hi.ne, hcopy.symm]

theorem node?_insert_cases (hcopy : copy < b.size)
    (hm : (b.insert l (some copy)).1.node? i = some m) :
    (i = b.size ∧ m = ⟨l, some copy, []⟩) ∨
      (i < b.size ∧ i ≠ copy ∧ b.node? i = some m) ∨
      i = copy ∧ ∃ m₀, b.node? copy = some m₀ ∧
        m = { m₀ with children := m₀.children ++ [b.size] } := by
  have hi := node?_lt hm
  rw [size_insert] at hi
  obtain hi | rfl := Nat.lt_succ_iff_lt_or_eq.1 hi
  · by_cases heq : i = copy
    · subst heq
      obtain ⟨m₀, hm₀⟩ := exists_node?_iff.2 hi
      rw [node?_insert_self hm₀] at hm
      exact .inr (.inr ⟨rfl, m₀, hm₀, (Option.some.inj hm).symm⟩)
    · rw [node?_insert_of_ne hi heq] at hm
      exact .inr (.inl ⟨hi, heq, hm⟩)
  · rw [node?_insert_size hcopy] at hm
    exact .inl ⟨rfl, (Option.some.inj hm).symm⟩

theorem parentOf_insert (hi : i < b.size) :
    (b.insert l (some copy)).1.parentOf i = b.parentOf i := by
  obtain ⟨m, hm⟩ := exists_node?_iff.2 hi
  unfold parentOf
  by_cases heq : i = copy
  · subst heq
    rw [node?_insert_self hm, hm]
    rfl
  · rw [node?_insert_of_ne hi heq]

theorem Child.insert (h : b.Child i c) : (b.insert l (some copy)).1.Child i c := by
  obtain ⟨m, hm, hc⟩ := h
  by_cases heq : i = copy
  · subst heq
    exact ⟨_, node?_insert_self hm, List.mem_append_left _ hc⟩
  · exact ⟨m, (node?_insert_of_ne (node?_lt hm) heq).trans hm, hc⟩

theorem exists_parent_iff {p : Nat} :
    (∃ m, b.node? i = some m ∧ m.parent = some p) ↔ b.parentOf i = some p := by
  unfold parentOf
  cases b.node? i <;> simp

theorem Linked.insert (h : b.Linked i k m) (hk : k ≤ b.size) :
    (b.insert l (some copy)).1.Linked i (b.size + 1) m where
  ascending := h.ascending
  child c hc := by
    obtain ⟨hi, hlt, hparent⟩ := h.child c hc
    refine ⟨hi, by omega, ?_⟩
    rwa [exists_parent_iff, parentOf_insert (hlt.trans_le hk), ← exists_parent_iff]

theorem Linked.insert_self (h : b.Linked copy b.size m) (hcopy : copy < b.size) :
    (b.insert l (some copy)).1.Linked copy (b.size + 1)
      { m with children := m.children ++ [b.size] } where
  ascending := by
    refine List.pairwise_append.2 ⟨h.ascending, List.pairwise_singleton .., fun d hd e he => ?_⟩
    rw [List.mem_singleton.1 he]
    exact (h.child d hd).2.1
  child d hd := by
    rcases List.mem_append.1 hd with hd | hd
    · exact (h.insert le_rfl).child d hd
    · rw [List.mem_singleton.1 hd]
      exact ⟨hcopy, Nat.lt_succ_self _, _, node?_insert_size hcopy, rfl⟩

/-- Whether a node stands for another one with its first children, each of which stands for a child
of that; the rest of the children is still missing. -/
def Mirrors (a : Arena) (source : Nat → Nat) (i : Nat) (m : Node) (rest : List Nat) : Prop :=
  ∃ n, a.node? i = some n ∧ m.data = n.data ∧
    m.children.map source ++ rest.filter a.isNode = n.children.filter a.isNode

namespace Mirrors

theorem skip (h : a.Mirrors source i m (c :: cs)) (hc : a.node? c = none) :
    a.Mirrors source i m cs := by
  obtain ⟨n, hn, hdata, hchildren⟩ := h
  refine ⟨n, hn, hdata, ?_⟩
  rwa [List.filter_cons_of_neg (by simp [isNode_eq_false hc])] at hchildren

theorem child (h : a.Mirrors source i m (c :: cs)) (hc : a.isNode c = true) : a.Child i c := by
  obtain ⟨n, hn, -, hchildren⟩ := h
  have hmem : c ∈ n.children.filter a.isNode := by
    rw [← hchildren, List.filter_cons_of_pos hc]
    simp
  exact ⟨n, hn, List.mem_of_mem_filter hmem⟩

theorem update (h : a.Mirrors source i m cs) (hk : k ∉ m.children) (c : Nat) :
    a.Mirrors (update source k c) i m cs := by
  obtain ⟨n, hn, hdata, hchildren⟩ := h
  refine ⟨n, hn, hdata, hchildren ▸ ?_⟩
  congr 1
  refine List.map_congr_left fun d hd => update_of_ne ?_ c source
  rintro rfl
  exact hk hd

theorem append (h : a.Mirrors source i m (c :: cs)) (hk : k ∉ m.children)
    (hc : a.isNode c = true) :
    a.Mirrors (Function.update source k c) i { m with children := m.children ++ [k] } cs := by
  obtain ⟨n, hn, hdata, hchildren⟩ := h.update hk c
  refine ⟨n, hn, hdata, hchildren ▸ ?_⟩
  rw [List.filter_cons_of_pos hc, List.map_append, List.map_singleton, update_self,
    List.append_assoc]
  rfl

end Mirrors

/-- What is known while a copy is under way. Every new node stands for a node of the original, its
source, but for the children in `todo`. -/
structure Copying (a : Arena) (id : Nat) (parent : Option Nat) (source : Nat → Nat)
    (todo : Nat → List Nat) (b : Arena) : Prop where
  root : b.root = a.root
  old : ∀ i < a.size, b.node? i = a.node? i
  lt : a.size < b.size
  top : source a.size = id
  parent : b.parentOf a.size = parent
  reached : ∀ i, a.size ≤ i → i < b.size → ReflTransGen a.Child id (source i)
  mirrors : ∀ {i m}, a.size ≤ i → b.node? i = some m → a.Mirrors source (source i) m (todo i)
  linked : ∀ {i m}, a.size ≤ i → b.node? i = some m → b.Linked i b.size m
  listed : ∀ i, a.size < i → i < b.size → ∃ p, a.size ≤ p ∧ b.Child p i

namespace Copying

theorem skip (h : Copying a id parent source (update todo copy (c :: cs)) b)
    (hc : a.node? c = none) : Copying a id parent source (update todo copy cs) b where
  __ := h
  mirrors {i m} hi hm := by
    have hmirrors := h.mirrors hi hm
    by_cases heq : i = copy
    · subst heq
      rw [update_self] at hmirrors ⊢
      exact hmirrors.skip hc
    · rwa [update_of_ne heq] at hmirrors ⊢

theorem not_mem_children (h : Copying a id parent source todo b) (hi : a.size ≤ i)
    (hm : b.node? i = some m) : b.size ∉ m.children :=
  fun hmem => Nat.lt_irrefl _ ((h.linked hi hm).child _ hmem).2.1

theorem reaches (h : Copying a id parent source (update todo copy (c :: cs)) b)
    (hcopy : a.size ≤ copy) (hlt : copy < b.size) (hc : a.isNode c = true) :
    ReflTransGen a.Child id c := by
  obtain ⟨m, hm⟩ := exists_node?_iff.2 hlt
  have hmirrors := h.mirrors hcopy hm
  rw [update_self] at hmirrors
  exact (h.reached copy hcopy hlt).tail (hmirrors.child hc)

theorem insert (h : Copying a id parent source (update todo copy (c :: cs)) b)
    (hcopy : a.size ≤ copy) (hlt : copy < b.size) (hn : a.node? c = some n) :
    Copying a id parent (update source b.size c)
      (update (update todo copy cs) b.size n.children) (b.insert n.data (some copy)).1 := by
  have hsize := size_insert b n.data copy
  have hc := isNode_of_node? hn
  refine
    { root := (root_insert ..).trans h.root
      old := fun i hi => ?_
      lt := h.lt.trans (hsize ▸ Nat.lt_succ_self _)
      top := (update_of_ne h.lt.ne _ _).trans h.top
      parent := (parentOf_insert h.lt).trans h.parent
      reached := fun i hi hilt => ?_
      mirrors := fun {i m} hi hm => ?_
      linked := fun {i m} hi hm => ?_
      listed := fun i hi hilt => ?_ }
  · rw [node?_insert_of_ne (hi.trans h.lt) (hi.trans_le hcopy).ne, h.old i hi]
  · rw [hsize] at hilt
    obtain hilt | rfl := Nat.lt_succ_iff_lt_or_eq.1 hilt
    · rw [update_of_ne hilt.ne]
      exact h.reached i hi hilt
    · rw [update_self]
      exact h.reaches hcopy hlt hc
  · obtain ⟨rfl, rfl⟩ | ⟨hilt, hne, hm⟩ | ⟨rfl, m₀, hm₀, rfl⟩ := node?_insert_cases hlt hm
    -- the new node has no children yet, and all those of its source are still missing
    · rw [update_self, update_self]
      exact ⟨n, hn, rfl, rfl⟩
    · have hmirrors := (h.mirrors hi hm).update (h.not_mem_children hi hm) c
      rw [update_of_ne hilt.ne, update_of_ne hilt.ne, update_of_ne hne]
      rwa [update_of_ne hne] at hmirrors
    · have hmirrors := h.mirrors hi hm₀
      rw [update_self] at hmirrors
      rw [update_of_ne hlt.ne, update_of_ne hlt.ne, update_self]
      exact hmirrors.append (h.not_mem_children hi hm₀) hc
  · rw [hsize]
    obtain ⟨rfl, rfl⟩ | ⟨-, -, hm⟩ | ⟨rfl, m₀, hm₀, rfl⟩ := node?_insert_cases hlt hm
    · exact ⟨.nil, nofun⟩
    · exact (h.linked hi hm).insert le_rfl
    · exact (h.linked hi hm₀).insert_self hlt
  · rw [hsize] at hilt
    obtain hilt | rfl := Nat.lt_succ_iff_lt_or_eq.1 hilt
    · obtain ⟨p, hp, hchild⟩ := h.listed i hi hilt
      exact ⟨p, hp, hchild.insert⟩
    · obtain ⟨m₀, hm₀⟩ := exists_node?_iff.2 hlt
      exact ⟨copy, hcopy, _, node?_insert_self hm₀, by simp⟩

theorem ascending (h : Copying a id parent source todo b) (ha : a.Ascending) : b.Ascending := by
  intro i m hm c hc
  obtain hi | hi := Nat.lt_or_ge i a.size
  · rw [h.old i hi] at hm
    obtain ⟨hic, hca⟩ := ha i m hm c hc
    exact ⟨hic, hca.trans h.lt⟩
  · obtain ⟨hic, hcb, -⟩ := (h.linked hi hm).child c hc
    exact ⟨hic, hcb⟩

section Finished
variable (h : Copying a id parent source (fun _ => []) b)
include h

theorem treeAt_eq (hi : a.size ≤ i) (hlt : i < b.size) : b.treeAt k i = a.treeAt k (source i) := by
  induction k generalizing i with
  | zero => rfl
  | succ k ih =>
    obtain ⟨m, hm⟩ := exists_node?_iff.2 hlt
    obtain ⟨n, hn, hdata, hchildren⟩ := h.mirrors hi hm
    rw [List.filter_nil, List.append_nil] at hchildren
    have hread : ∀ c ∈ m.children, b.treeAt k c = a.treeAt k (source c) := by
      intro c hc
      obtain ⟨hic, hcb, -⟩ := (h.linked hi hm).child c hc
      exact ih (hi.trans hic.le) hcb
    have hnode : ∀ c, (if a.isNode c then a.treeAt k c else none) = a.treeAt k c := by
      intro c
      split_ifs with hc
      · rfl
      · have hnone : a.node? c = none := Option.not_isSome_iff_eq_none.1 hc
        cases k <;> simp [treeAt, hnone]
    have hbelow : m.children.filterMap (b.treeAt k) = n.children.filterMap (a.treeAt k) :=
      calc m.children.filterMap (b.treeAt k)
          = m.children.filterMap (a.treeAt k ∘ source) := List.filterMap_congr hread
        _ = (n.children.filter a.isNode).filterMap (a.treeAt k) := by
          rw [← List.filterMap_map, hchildren]
        _ = n.children.filterMap (a.treeAt k) := by
          rw [List.filterMap_filter]
          exact List.filterMap_congr fun c _ => hnode c
    unfold treeAt
    rw [hm, hn, Option.map_some, Option.map_some, hdata, hbelow]

theorem exists_subtree (hid : a.AcyclicBelow id) : ∃ t, a.subtree id = some t := by
  obtain ⟨m, hm⟩ := exists_node?_iff.2 h.lt
  obtain ⟨n, hn, -⟩ := h.mirrors le_rfl hm
  rw [h.top] at hn
  exact hid.exists_subtree hn

theorem subtree_eq (hid : a.AcyclicBelow id) : b.subtree a.size = a.subtree id := by
  unfold subtree
  rw [h.treeAt_eq le_rfl h.lt, h.top, hid.treeAt_eq h.lt.le, subtree]

theorem ascending_prune : (b.prune (a.size ≤ ·)).Ascending := by
  intro i m hm c hc
  rw [node?_prune] at hm
  obtain ⟨m₀, hm₀, rfl⟩ := Option.map_eq_some_iff.1 hm
  by_cases hi : a.size ≤ i
  · rw [if_pos hi] at hc
    obtain ⟨hic, hcb, -⟩ := (h.linked hi hm₀).child c hc
    rw [size_prune]
    exact ⟨hic, hcb⟩
  · rw [if_neg hi] at hc
    cases hc

theorem mem_order_prune (hi : a.size ≤ i) (hlt : i < b.size) :
    i ∈ (b.prune (a.size ≤ ·)).order a.size := by
  have hranked := h.ascending_prune.ranked
  -- a node is listed by one with a smaller number, and so on up to the top
  induction i using Nat.strong_induction_on with
  | _ i ih =>
    obtain rfl | hgt := hi.eq_or_lt
    · exact hranked.mem_order_self (h.lt.trans_eq size_prune.symm)
    · obtain ⟨p, hp, m, hm, hchild⟩ := h.listed i hgt hlt
      have hpi := ((h.linked hp hm).child i hchild).1
      have hnode : (b.prune (a.size ≤ ·)).node? p = some m := (node?_prune_of_mem hp).trans hm
      exact hranked.order_trans (ih p hpi hp (hpi.trans hlt))
        (hranked.mem_order_of_child hnode hchild (hlt.trans_eq size_prune.symm))

theorem perm_order (hid : a.AcyclicBelow id) (hsize : b.size = a.size + a.subtreeLength id) :
    (b.order a.size).Perm (List.range' a.size (a.subtreeLength id)) := by
  have hclosed : ∀ {i m}, a.size ≤ i → b.node? i = some m → ∀ c ∈ m.children, a.size ≤ c :=
    fun hi hm c hc => hi.trans ((h.linked hi hm).child c hc).1.le
  have hsame : ∀ i, a.size ≤ i → (b.prune (a.size ≤ ·)).node? i = b.node? i :=
    fun i hi => node?_prune_of_mem hi
  have horder : (b.prune (a.size ≤ ·)).order a.size = b.order a.size := by
    unfold order
    rw [size_prune, orderAt_congr hclosed hsame le_rfl]
  have hlength : (b.order a.size).length = a.subtreeLength id := by
    obtain ⟨t, ht⟩ := h.exists_subtree hid
    have htree : (b.prune (a.size ≤ ·)).subtree a.size = some t := by
      rw [← ht, ← h.subtree_eq hid]
      unfold subtree
      rw [size_prune, treeAt_congr hclosed hsame le_rfl]
    rw [← horder, h.ascending_prune.ranked.length_order htree, hid.size_of_subtree ht]
  have hsubset : List.range' a.size (a.subtreeLength id) ⊆ b.order a.size := by
    intro i hi
    rw [List.mem_range'_1, ← hsize] at hi
    rw [← horder]
    exact h.mem_order_prune hi.1 hi.2
  have hnodup : (List.range' a.size (a.subtreeLength id)).Nodup := List.nodup_range'
  apply ((hnodup.subperm hsubset).perm_of_length_le _).symm
  rw [hlength, List.length_range']

end Finished

end Copying

end BemOutline.Arena

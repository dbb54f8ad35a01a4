import BemOutline.Proofs.Arena.DocumentOrder
import BemOutline.Proofs.Arena.Places
import BemOutline.Proofs.Expansion.Step
import Mathlib.Data.List.Nodup

/-! What holds of an arena at every step of an expansion. A number may be listed several times, but
only by its parent, and a node that still stands for several siblings is listed once. -/

namespace BemOutline.Expansion

open Arena

variable {a b : Arena} {x p k c : Nat} {t : Tree}

theorem eq_take_append_drop {α : Type} {l : List α} {y : α} (hk : l[k]? = some y) :
    l = l.take k ++ y :: l.drop (k + 1) := by
  obtain ⟨hlt, heq⟩ := List.getElem?_eq_some_iff.1 hk
  rw [← heq, ← List.drop_eq_getElem_cons hlt, List.take_append_drop]

structure Sound (a : Arena) : Prop where
  root : a.root = some 0
  size_pos : 0 < a.size
  child : ∀ {i : Nat} {n}, a.node? i = some n → ∀ c : Nat, c ∈ n.children →
    i < c ∧ ∃ m, a.node? c = some m ∧ m.parent = some i
  once : ∀ {i c : Nat} {n m}, a.node? i = some n → a.node? c = some m → 1 < m.data.count →
    n.children.count c ≤ 1
  count : ∀ {i : Nat} {n}, a.node? i = some n → 1 ≤ n.data.count

namespace Sound

theorem ascending (h : Sound a) : a.Ascending := by
  intro i n hn c hc
  obtain ⟨hlt, m, hm, -⟩ := h.child hn c hc
  exact ⟨hlt, node?_lt hm⟩

theorem ranked (h : Sound a) : a.Ranked (a.size - ·) := h.ascending.ranked

theorem eq_of_mem_children (h : Sound a) {q : Nat} {n m : Node} (hn : a.node? i = some n)
    (hm : a.node? q = some m) (hi : c ∈ n.children) (hq : c ∈ m.children) : i = q := by
  obtain ⟨-, n', hn', hpi⟩ := h.child hn c hi
  obtain ⟨-, m', hm', hpq⟩ := h.child hm c hq
  rw [hn'] at hm'
  cases hm'
  rw [hpi] at hpq
  exact Option.some.inj hpq

theorem lt_of_lists (h : Sound a) (hx : a.Lists p k x) : x < a.size := by
  obtain ⟨n, hn, hk⟩ := hx
  exact (h.ascending p n hn x (List.mem_of_getElem? hk)).2

theorem split_children (h : Sound a) {n : Node} (hn : a.node? p = some n)
    (hk : n.children[k]? = some x) (hcount : 1 < countOf a x) :
    n.children = n.children.take k ++ x :: n.children.drop (k + 1) ∧
      x ∉ n.children.take k ++ n.children.drop (k + 1) := by
  obtain ⟨-, m, hm, -⟩ := h.child hn x (List.mem_of_getElem? hk)
  have hsplit := eq_take_append_drop hk
  refine ⟨hsplit, ?_⟩
  rw [countOf_eq hm] at hcount
  have honce := h.once hn hm hcount
  rw [hsplit, List.count_append, List.count_cons_self] at honce
  rw [← List.count_eq_zero, List.count_append]
  omega

theorem firstBelow_of_firstMultiple (h : Sound a)
    (hx : firstMultiple a = some ⟨x, some (p, k)⟩) :
    a.firstBelow (1 < countOf a ·) a.levelBound 0 = some ⟨x, some (p, k)⟩ := by
  rw [firstMultiple, first, h.root] at hx
  simp only at hx
  split at hx
  · cases hx
  · exact hx

theorem resetCount (h : Sound a) (x : Nat) : Sound (resetCount a x) where
  root := h.root
  size_pos := by
    rw [Expansion.resetCount, size_modify]
    exact h.size_pos
  child {i n'} hn' c hc := by
    rw [node?_resetCount] at hn'
    obtain ⟨n, hn, rfl⟩ := Option.map_eq_some_iff.1 hn'
    obtain ⟨hlt, m, hm, hparent⟩ := h.child hn c hc
    exact ⟨hlt, _, node?_resetCount_of_some x hm, hparent⟩
  once {i c n' m'} hn' hm' hcount := by
    rw [node?_resetCount] at hn' hm'
    obtain ⟨n, hn, rfl⟩ := Option.map_eq_some_iff.1 hn'
    obtain ⟨m, hm, rfl⟩ := Option.map_eq_some_iff.1 hm'
    apply h.once hn hm
    split at hcount
    · exact absurd hcount (Nat.lt_irrefl 1)
    · exact hcount
  count {i n'} hn' := by
    rw [node?_resetCount] at hn'
    obtain ⟨n, hn, rfl⟩ := Option.map_eq_some_iff.1 hn'
    change 1 ≤ (if i = x then n.data.single else n.data).count
    split
    · exact Nat.le_refl 1
    · exact h.count hn

theorem supplied (h : Sound a) (hx : x < a.size) (mode : Mode) (p : Nat) :
    Supplied (Expansion.resetCount a x) x p mode (countOf a x) (provided mode a x p)
      (siblings mode a x p) :=
  supplied_entries (h.resetCount x).ascending (by rwa [Expansion.resetCount, size_modify]) ..

/-- What a step provides has copies of the node in it, if any, and lists nothing but these and the
node itself. -/
theorem exists_enlarged (h : Sound a) (hx : x < a.size) (mode : Mode) (p : Nat) :
    ∃ made, Enlarged (Expansion.resetCount a x) x p (provided mode a x p) made ∧
      ∀ y ∈ siblings mode a x p, y = x ∨ y ∈ made :=
  (h.supplied hx mode p).exists_enlarged

theorem enlarged {made : List Nat} (h : Sound a) (hb : Enlarged a x p b made) : Sound b := by
  have hold : ∀ {i n}, a.node? i = some n → b.node? i = some n :=
    fun hn => (hb.old _ (node?_lt hn)).trans hn
  refine ⟨hb.root.trans h.root, h.size_pos.trans_le hb.size_le, ?_, ?_, ?_⟩
  · intro i n hn c hc
    rcases hb.node?_cases hn with hna | hi
    · obtain ⟨hlt, m, hm, hparent⟩ := h.child hna c hc
      exact ⟨hlt, m, hold hm, hparent⟩
    · obtain ⟨hlt, -, hm⟩ := (hb.linked hi hn).child c hc
      exact ⟨hlt, hm⟩
  · intro i c n m hn hm hcount
    rcases hb.node?_cases hn with hna | hi
    · by_cases hc : c ∈ n.children
      · obtain ⟨-, m', hm', -⟩ := h.child hna c hc
        obtain rfl := Option.some.inj ((hold hm').symm.trans hm)
        exact h.once hna hm' hcount
      · rw [List.count_eq_zero_of_not_mem hc]
        exact Nat.zero_le _
    · exact List.nodup_iff_count_le_one.1 (hb.linked hi hn).ascending.nodup c
  · intro i n hn
    rcases hb.node?_cases hn with hna | hi
    · exact h.count hna
    · obtain ⟨j, m, -, hm, hdata, -⟩ := hb.repeats hi hn
      exact hdata ▸ h.count hm

theorem splice (h : Sound a) {ids : List Nat}
    (hids : ∀ y ∈ ids, p < y ∧ ∃ m, a.node? y = some m ∧ m.parent = some p ∧ m.data.count = 1) :
    Sound (splice a p k ids) where
  root := h.root
  size_pos := by
    rw [Expansion.splice, size_modify]
    exact h.size_pos
  child {i n'} hn' c hc := by
    have hsplice : ∀ {m}, a.node? c = some m → m.parent = some i →
        ∃ m', (Expansion.splice a p k ids).node? c = some m' ∧ m'.parent = some i :=
      fun hm hparent => ⟨_, node?_splice_of_some p k ids hm, hparent⟩
    obtain ⟨n, hn, -, hcases⟩ := splice_cases hn'
    obtain hc | ⟨rfl, hc⟩ := hcases c hc
    · obtain ⟨hlt, m, hm, hparent⟩ := h.child hn c hc
      exact ⟨hlt, hsplice hm hparent⟩
    · obtain ⟨hlt, m, hm, hparent, -⟩ := hids c hc
      exact ⟨hlt, hsplice hm hparent⟩
  once {i c n' m'} hn' hm' hcount := by
    rw [node?_splice] at hn' hm'
    obtain ⟨n, hn, rfl⟩ := Option.map_eq_some_iff.1 hn'
    obtain ⟨m, hm, rfl⟩ := Option.map_eq_some_iff.1 hm'
    have honce := h.once hn hm hcount
    split
    · -- the new entries count one, so what counts more was listed before, and not there
      have hc : c ∉ ids := by
        intro hc
        obtain ⟨-, m', hm', -, hone⟩ := hids c hc
        rw [hm] at hm'
        cases hm'
        change 1 < m.data.count at hcount
        omega
      have hrest : (n.children.eraseIdx k).count c ≤ n.children.count c :=
        (List.eraseIdx_sublist ..).count_le c
      rw [List.eraseIdx_eq_take_drop_succ, List.count_append] at hrest
      rw [List.count_append, List.count_append, List.count_eq_zero_of_not_mem hc]
      omega
    · exact honce
  count {i n'} hn' := by
    obtain ⟨n, hn, hdata, -⟩ := splice_cases hn'
    rw [hdata]
    exact h.count hn

theorem exists_resetCount (h : Sound a) (x : Nat) {n : Node} (hn : a.node? x = some n) :
    ∃ t, (Expansion.resetCount a x).subtree x = some t ∧ t.data = n.data.single := by
  have hr := node?_resetCount_of_some x hn
  rw [if_pos rfl] at hr
  exact ⟨_, (h.resetCount x).ranked.subtree_of_node? hr, rfl⟩

theorem provided (h : Sound a) (hx : x < a.size) (mode : Mode) (p : Nat) :
    Sound (provided mode a x p) := by
  obtain ⟨made, hb, -⟩ := h.exists_enlarged hx mode p
  exact (h.resetCount x).enlarged hb

theorem subtree_provided (h : Sound a) (hx : x < a.size) (mode : Mode) {y : Nat}
    (hy : y ∈ siblings mode a x p) :
    (Expansion.provided mode a x p).subtree y = (Expansion.resetCount a x).subtree x := by
  obtain ⟨made, hb, hmade⟩ := h.exists_enlarged hx mode p
  obtain rfl | hy := hmade y hy
  · exact hb.subtree_of_lt (h.resetCount y).ascending (by rwa [Expansion.resetCount, size_modify])
  · exact hb.subtree y hy

theorem node?_sibling (h : Sound a) (hx : a.Lists p k x) (mode : Mode) {n : Node}
    (hn : a.node? x = some n) {y : Nat} (hy : y ∈ siblings mode a x p) :
    p < y ∧ ∃ m, (Expansion.provided mode a x p).node? y = some m ∧ m.parent = some p ∧
      m.data = n.data.single := by
  have hxa := node?_lt hn
  obtain ⟨q, hq, hk⟩ := hx
  obtain ⟨hlt, n', hn', hparent⟩ := h.child hq x (List.mem_of_getElem? hk)
  obtain rfl := Option.some.inj (hn'.symm.trans hn)
  obtain ⟨t, ht, hdata⟩ := h.exists_resetCount x hn
  obtain ⟨made, hb, hmade⟩ := h.exists_enlarged hxa mode p
  have hsize : (Expansion.resetCount a x).size = a.size := size_modify ..
  have hy' : p < y ∧ (Expansion.provided mode a x p).parentOf y = some p := by
    obtain rfl | hy := hmade y hy
    · refine ⟨hlt, ?_⟩
      unfold parentOf
      rw [hb.old y (hsize ▸ hxa), node?_resetCount_of_some y hn]
      exact hparent
    · obtain ⟨hle, -, hparent⟩ := hb.top y hy
      exact ⟨(node?_lt hq).trans_le (hsize ▸ hle), hparent⟩
  obtain ⟨m, hm, hmp⟩ := exists_parent_iff.2 hy'.2
  have hread := h.subtree_provided hxa mode hy
  rw [(h.provided hxa mode p).ranked.subtree_of_node? hm, ht, Option.some.injEq] at hread
  refine ⟨hy'.1, m, hm, hmp, ?_⟩
  rw [← hdata, ← hread]

theorem replaceSlot (h : Sound a) (hx : a.Lists p k x) (mode : Mode) :
    Sound (replaceSlot mode a x p k) := by
  obtain ⟨q, hq, hk⟩ := id hx
  obtain ⟨-, n, hn, -⟩ := h.child hq x (List.mem_of_getElem? hk)
  apply (h.provided (node?_lt hn) mode p).splice
  intro y hy
  obtain ⟨hlt, m, hm, hparent, hdata⟩ := h.node?_sibling hx mode hn hy
  exact ⟨hlt, m, hm, hparent, hdata ▸ rfl⟩

theorem node?_replaceSlot {i : Nat} (h : Sound a) (hx : x < a.size) (mode : Mode) (p k : Nat)
    (hi : i < a.size) :
    (Expansion.replaceSlot mode a x p k).node? i = (a.node? i).map fun n => { n with
      data := if i = x then n.data.single else n.data
      children :=
        if i = p then n.children.take k ++ (siblings mode a x p ++ n.children.drop (k + 1))
        else n.children } := by
  obtain ⟨made, hb, -⟩ := h.exists_enlarged hx mode p
  rw [replaceSlot_eq, node?_splice, hb.old i (by rwa [Expansion.resetCount, size_modify]),
    node?_resetCount, Option.map_map]
  rfl

theorem length_siblings (h : Sound a) (hx : x < a.size) (hcount : 1 ≤ countOf a x) (mode : Mode)
    (p : Nat) : (siblings mode a x p).length = countOf a x :=
  (h.supplied hx mode p).length_eq hcount

theorem size_replaceSlot (h : Sound a) (hx : x < a.size) (p k : Nat) :
    (Expansion.replaceSlot .copy a x p k).size =
      a.size + (countOf a x - 1) * (Expansion.resetCount a x).subtreeLength x := by
  have hsupplied := h.supplied hx .copy p
  rw [replaceSlot_eq, Expansion.splice, size_modify]
  generalize Expansion.provided .copy a x p = b at hsupplied
  generalize siblings .copy a x p = ids at hsupplied
  cases hsupplied with
  | copy hb hlength => rw [hb.size, hlength, Expansion.resetCount, size_modify]

end Sound

theorem subtree_sibling {mode : Mode} (h : Sound a) (hx : a.Lists p k x)
    (ht : (resetCount a x).subtree x = some t) {y : Nat} (hy : y ∈ siblings mode a x p) :
    (replaceSlot mode a x p k).subtree y = some t := by
  obtain ⟨n, hn, hk⟩ := id hx
  obtain ⟨-, m, hm, -⟩ := h.child hn x (List.mem_of_getElem? hk)
  have hs := h.provided (node?_lt hm) mode p
  rw [← ht, ← h.subtree_provided (node?_lt hm) mode hy]
  -- the nodes behind the parent are those of the arena in which the siblings are provided
  apply subtree_congr hs.ranked (h.replaceSlot hx mode).ranked (S := (p < ·))
  · intro i n hpi hn c hc
    exact hpi.trans (hs.child hn c hc).1
  · intro i hpi
    rw [replaceSlot_eq, node?_splice]
    cases (provided mode a x p).node? i with
    | none => rfl
    | some n => rw [Option.map_some, if_neg (Nat.ne_of_gt hpi)]
  · exact (h.node?_sibling hx mode hm hy).1

end BemOutline.Expansion

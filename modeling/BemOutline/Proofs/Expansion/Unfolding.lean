import BemOutline.Proofs.Expansion.Refinement
import BemOutline.Proofs.Tree.Steps

/-! What a step that makes copies does to the document. While no node is listed twice, every node
stands in one place, so that the step unfolds one entry and leaves all others as they are. -/

namespace BemOutline.Expansion

open Arena

variable {a : Arena} {c d i k p q x : Nat} {t : Tree}

namespace Sound

theorem not_mem_order_of_child (h : Sound a) {n : Node} (hn : a.node? i = some n)
    (hc : c ∈ n.children) : i ∉ a.order c := by
  intro hi
  exact Nat.not_le.2 (h.child hn c hc).1 (h.ascending.le_of_mem_order hi)

theorem exists_parent_of_mem_order (h : Sound a) (hq : q ∈ a.order c) :
    q = c ∨ ∃ r n, r ∈ a.order c ∧ a.node? r = some n ∧ q ∈ n.children := by
  induction c using h.ranked.induction with
  | step c ih =>
    cases hn : a.node? c with
    | none => simp [h.ranked.order_of_none hn] at hq
    | some n =>
      rw [h.ranked.order_of_some hn] at hq
      rcases List.mem_cons.1 hq with rfl | hq
      · exact .inl rfl
      · obtain ⟨d, hd, hq⟩ := List.mem_flatMap.1 hq
        have hmem := h.ranked.mem_order_of_child hn hd (h.ascending c n hn d hd).2
        rcases ih n hn d hd hq with rfl | ⟨r, m, hr, hm, hqm⟩
        · exact .inr ⟨c, n, h.ranked.mem_order_self (node?_lt hn), hn, hd⟩
        · exact .inr ⟨r, m, h.ranked.order_trans hmem hr, hm, hqm⟩

theorem eq_of_mem_order (h : Sound a) {n : Node} (hn : a.node? i = some n) (hc : c ∈ n.children)
    (hd : d ∈ n.children) (hqc : q ∈ a.order c) (hqd : q ∈ a.order d) : c = d := by
  -- unless it is one of the two children, the node's one parent stands below both of them as well
  induction q using Nat.strong_induction_on with
  | _ q ih =>
    rcases h.exists_parent_of_mem_order hqc with rfl | ⟨r, m, hr, hm, hqm⟩
    · rcases h.exists_parent_of_mem_order hqd with rfl | ⟨r, m, hr, hm, hqm⟩
      · rfl
      · cases h.eq_of_mem_children hn hm hc hqm
        exact absurd hr (h.not_mem_order_of_child hn hd)
    · rcases h.exists_parent_of_mem_order hqd with rfl | ⟨r', m', hr', hm', hqm'⟩
      · cases h.eq_of_mem_children hn hm hd hqm
        exact absurd hr (h.not_mem_order_of_child hn hc)
      · cases h.eq_of_mem_children hm hm' hqm hqm'
        exact ih r (h.child hm q hqm).1 hr hr'

theorem subtree_resetCount_self (h : Sound a) (ht : a.subtree x = some t) :
    (Expansion.resetCount a x).subtree x = some ⟨t.data.single, t.children⟩ := by
  have hr := (h.resetCount x).ranked
  obtain ⟨n, hn⟩ := exists_node?_iff.2 (h.ranked.exists_subtree_iff.1 ⟨t, ht⟩)
  have hnr := node?_resetCount_of_some x hn
  have hchild : ∀ c ∈ n.children, (Expansion.resetCount a x).subtree c = a.subtree c := by
    intro c hc
    apply subtree_congr h.ranked hr (S := (x < ·))
    · intro i m hi hm d hd
      exact Nat.lt_trans hi (h.child hm d hd).1
    · intro i hi
      rw [node?_resetCount]
      cases a.node? i with
      | none => rfl
      | some m => rw [Option.map_some, if_neg (Nat.ne_of_gt hi)]
    · exact (h.child hn c hc).1
  rw [h.ranked.subtree_of_node? hn] at ht
  cases ht
  rw [hr.subtree_of_node? hnr, if_pos rfl, List.filterMap_congr hchild]

theorem subtree_replaceSlot_of_not_mem (h : Sound a) (hx : a.Lists p k x) (mode : Mode)
    (hi : i < a.size) (hix : i ≠ x) (hp : p ∉ a.order i) :
    (Expansion.replaceSlot mode a x p k).subtree i = a.subtree i := by
  have hb := h.replaceSlot hx mode
  have hxa := h.lt_of_lists hx
  obtain ⟨n, hn, hk⟩ := hx
  have hxn := List.mem_of_getElem? hk
  have hxi : x ∉ a.order i := by
    intro hxi
    rcases h.exists_parent_of_mem_order hxi with rfl | ⟨r, m, hr, hm, hxm⟩
    · exact hix rfl
    · cases h.eq_of_mem_children hn hm hxn hxm
      exact hp hr
  apply subtree_congr h.ranked hb.ranked (S := (· ∈ a.order i))
  · intro j m hj hm c hc
    exact h.ranked.order_trans hj (h.ranked.mem_order_of_child hm hc (h.ascending j m hm c hc).2)
  · intro j hj
    obtain ⟨m, hm⟩ := Option.isSome_iff_exists.1 (h.ranked.isNode_of_mem_order hj)
    have hjx : j ≠ x := fun heq => hxi (heq ▸ hj)
    have hjp : j ≠ p := fun heq => hp (heq ▸ hj)
    rw [h.node?_replaceSlot hxa mode p k (node?_lt hm), hm, Option.map_some, if_neg hjx,
      if_neg hjp]
  · exact h.ranked.mem_order_self hi

end Sound

theorem nodup_splice {l ids : List Nat} (hk : l[k]? = some x) (hl : l.Nodup) (hids : ids.Nodup)
    (hnew : ∀ y ∈ ids, y ∉ l) : (l.take k ++ (x :: ids ++ l.drop (k + 1))).Nodup := by
  have hperm : (l.take k ++ (x :: ids ++ l.drop (k + 1))).Perm (ids ++ l) := by
    conv_rhs => rw [eq_take_append_drop hk]
    rw [List.perm_iff_count]
    intro y
    simp only [List.count_append, List.count_cons]
    omega
  rw [hperm.nodup_iff, List.nodup_append]
  refine ⟨hids, hl, fun y hy z hz heq => hnew y hy (heq ▸ hz)⟩

theorem filterMap_split {cs : List Nat} {f : Nat → Option Tree} (hk : cs[k]? = some c)
    (hc : f c = some t) :
    cs.filterMap f = (cs.take k).filterMap f ++ t :: (cs.drop (k + 1)).filterMap f := by
  conv_lhs => rw [eq_take_append_drop hk, List.filterMap_append, List.filterMap_cons_some hc]

/-- An arena in which no node is listed twice, so that copies have no effect elsewhere. -/
structure Unshared (a : Arena) : Prop where
  sound : Sound a
  nodup : ∀ {i : Nat} {n}, a.node? i = some n → n.children.Nodup

namespace Unshared

theorem mem_children_of_mem_take_drop (h : Unshared a) {n : Node} (hn : a.node? i = some n)
    (hk : n.children[k]? = some c) (hd : d ∈ n.children.take k ++ n.children.drop (k + 1)) :
    d ∈ n.children ∧ d ≠ c := by
  have hnodup := h.nodup hn
  rw [eq_take_append_drop hk, List.nodup_middle, List.nodup_cons] at hnodup
  refine ⟨?_, fun heq => hnodup.1 (heq ▸ hd)⟩
  rcases List.mem_append.1 hd with hd | hd
  · exact List.mem_of_mem_take hd
  · exact List.mem_of_mem_drop hd

theorem resetCount (h : Unshared a) (x : Nat) : Unshared (resetCount a x) where
  sound := h.sound.resetCount x
  nodup {i n'} hn' := by
    rw [node?_resetCount] at hn'
    obtain ⟨n, hn, rfl⟩ := Option.map_eq_some_iff.1 hn'
    exact @Unshared.nodup a h i n hn

theorem replaceSlot (h : Unshared a) (hx : a.Lists p k x) :
    Unshared (replaceSlot .copy a x p k) where
  sound := h.sound.replaceSlot hx .copy
  nodup {i n'} hn' := by
    have hsupplied := h.sound.supplied (h.sound.lt_of_lists hx) .copy p
    obtain ⟨n, hn, hk⟩ := hx
    rw [replaceSlot_eq, node?_splice] at hn'
    obtain ⟨m, hm, rfl⟩ := Option.map_eq_some_iff.1 hn'
    generalize Expansion.provided .copy a x p = b at hm hsupplied
    generalize siblings .copy a x p = ids at hsupplied
    cases hsupplied with
    | @copy _ _ made hb _ =>
    split
    · next hip =>
      -- the parent is an old node, and the numbers of the copies are new
      subst hip
      have hnr := node?_resetCount_of_some x hn
      obtain rfl := Option.some.inj (hm.symm.trans ((hb.old i (node?_lt hnr)).trans hnr))
      apply nodup_splice hk (h.nodup hn) (List.nodup_reverse.2 hb.nodup)
      intro y hy hyn
      have hle := (hb.top y (List.mem_reverse.1 hy)).1
      rw [Expansion.resetCount, size_modify] at hle
      exact Nat.not_le.2 (h.sound.ascending i n hn y hyn).2 hle
    · rcases hb.node?_cases hm with hmr | hi
      · exact (h.resetCount x).nodup hmr
      · exact (hb.linked hi hm).ascending.nodup

end Unshared

theorem filterMap_siblings (h : Sound a) (hx : a.Lists p k x) (hcount : 1 ≤ countOf a x)
    (mode : Mode) (ht : (resetCount a x).subtree x = some t) :
    (siblings mode a x p).filterMap (replaceSlot mode a x p k).subtree =
      List.replicate (countOf a x) t := by
  rw [List.filterMap_congr fun y hy => subtree_sibling h hx ht hy]
  simp only [List.filterMap_eq_map', List.map_const', h.length_siblings (h.lt_of_lists hx) hcount]

theorem unfolds_parent (h : Unshared a) (hx : a.Lists p k x) (hcount : 1 < countOf a x)
    (ht : a.subtree p = some t) :
    ∃ t', (replaceSlot .copy a x p k).subtree p = some t' ∧ t.Unfolds t' := by
  have hs := h.sound
  have hb := (hs.replaceSlot hx .copy).ranked
  obtain ⟨n, hn, hk⟩ := id hx
  obtain ⟨hpx, m, hm, -⟩ := hs.child hn x (List.mem_of_getElem? hk)
  have hu := hs.ranked.subtree_of_node? hm
  have hr := hs.subtree_resetCount_self hu
  have hkeep : ∀ d ∈ n.children.take k ++ n.children.drop (k + 1),
      (replaceSlot .copy a x p k).subtree d = a.subtree d := by
    intro d hd
    obtain ⟨hdn, hdx⟩ := h.mem_children_of_mem_take_drop hn hk hd
    exact hs.subtree_replaceSlot_of_not_mem hx .copy (hs.ascending p n hn d hdn).2 hdx
      (hs.not_mem_order_of_child hn hdn)
  have hnode := hs.node?_replaceSlot (node?_lt hm) .copy p k (node?_lt hn)
  rw [hn, Option.map_some, if_pos rfl, if_neg (Nat.ne_of_lt hpx)] at hnode
  rw [hs.ranked.subtree_of_node? hn] at ht
  cases ht
  refine ⟨_, hb.subtree_of_node? hnode, ?_⟩
  rw [filterMap_split hk hu, List.filterMap_append, List.filterMap_append,
    filterMap_siblings hs hx (Nat.le_of_lt hcount) .copy hr,
    List.filterMap_congr fun d hd => hkeep d (List.mem_append_left _ hd),
    List.filterMap_congr fun d hd => hkeep d (List.mem_append_right _ hd)]
  rw [countOf_eq hm] at hcount ⊢
  exact .entry hcount

theorem unfolds_above (h : Unshared a) (hx : a.Lists p k x) {n : Node} {j : Nat} {u u' : Tree}
    (hn : a.node? i = some n) (hj : n.children[j]? = some c) (hpc : p ∈ a.order c)
    (hcount : countOf a c ≤ 1) (hu : a.subtree c = some u)
    (hu' : (replaceSlot .copy a x p k).subtree c = some u') (hunfolds : u.Unfolds u')
    (ht : a.subtree i = some t) :
    ∃ t', (replaceSlot .copy a x p k).subtree i = some t' ∧ t.Unfolds t' := by
  have hs := h.sound
  have hb := (hs.replaceSlot hx .copy).ranked
  obtain ⟨q, hq, hk⟩ := id hx
  have hxq := List.mem_of_getElem? hk
  obtain ⟨hpx, m, hm, -⟩ := hs.child hq x hxq
  have hcn := List.mem_of_getElem? hj
  obtain ⟨hic, mc, hmc, -⟩ := hs.child hn c hcn
  have hip : i < p := Nat.lt_of_lt_of_le hic (hs.ascending.le_of_mem_order hpc)
  -- of all children only this one has the slot below it
  have hkeep : ∀ d ∈ n.children.take j ++ n.children.drop (j + 1),
      (replaceSlot .copy a x p k).subtree d = a.subtree d := by
    intro d hd
    obtain ⟨hdn, hdc⟩ := h.mem_children_of_mem_take_drop hn hj hd
    apply hs.subtree_replaceSlot_of_not_mem hx .copy (hs.ascending i n hn d hdn).2
    · rintro rfl
      exact Nat.ne_of_lt hip (hs.eq_of_mem_children hn hq hdn hxq)
    · exact fun hpd => hdc (hs.eq_of_mem_order hn hdn hcn hpd hpc)
  have hnode := hs.node?_replaceSlot (node?_lt hm) .copy p k (node?_lt hn)
  rw [hn, Option.map_some, if_neg (Nat.ne_of_lt hip), if_neg (Nat.ne_of_lt (hip.trans hpx))]
    at hnode
  rw [hs.ranked.subtree_of_node? hn] at ht
  cases ht
  refine ⟨_, hb.subtree_of_node? hnode, ?_⟩
  rw [filterMap_split hj hu, filterMap_split hj hu',
    List.filterMap_congr fun d hd => hkeep d (List.mem_append_left _ hd),
    List.filterMap_congr fun d hd => hkeep d (List.mem_append_right _ hd)]
  have hone : u.data.count = 1 := by
    rw [hs.ranked.subtree_of_node? hmc] at hu
    cases hu
    rw [countOf_eq hmc] at hcount
    exact Nat.le_antisymm hcount (hs.count hmc)
  exact .inside hone hunfolds

/-- The search for a count ends at an entry that the step then unfolds. -/
theorem unfolds_of_firstBelow (h : Unshared a) {levels : Nat}
    (hfound : a.firstBelow (1 < countOf a ·) levels i = some ⟨x, some (p, k)⟩)
    (ht : a.subtree i = some t) :
    ∃ t', (replaceSlot .copy a x p k).subtree i = some t' ∧ t.Unfolds t' := by
  obtain ⟨hcount, hx⟩ := lists_of_firstBelow hfound
  rw [decide_eq_true_eq] at hcount
  induction levels generalizing i t with
  | zero => cases hfound
  | succ levels ih =>
    obtain ⟨n, j, c, hn, hj, ⟨-, heq⟩ | ⟨htest, hbelow⟩⟩ := firstBelow_eq_some hfound
    · cases heq
      exact unfolds_parent h hx hcount ht
    · rw [decide_eq_false_iff_not, Nat.not_lt] at htest
      have hpc := h.sound.ranked.mem_order_of_firstBelow hbelow
      obtain ⟨-, m, hm, -⟩ := h.sound.child hn c (List.mem_of_getElem? hj)
      have hu := h.sound.ranked.subtree_of_node? hm
      obtain ⟨u', hu', hunfolds⟩ := ih hbelow hu
      exact unfolds_above h hx hn hj hpc htest hu hu' hunfolds ht

end BemOutline.Expansion

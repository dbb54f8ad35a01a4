import BemOutline.Proofs.Expansion.Unfolding

/-! How many steps a run takes. Each of the two modes has a measure of the steps that are left, from
which every step takes off one: the nodes with a count where nodes are shared, and the steps for the
tree of the document where copies are made. -/

namespace BemOutline.Expansion

open Arena Outline

variable {a : Arena} {i k p x : Nat} {t : Tree}

/-- While something holds, a number is that of the steps left to a run without node limit. -/
structure Measures (mode : Mode) (Holds : Arena → Prop) (left : Arena → Nat) : Prop where
  done : ∀ {a}, Holds a → firstMultiple a = none → left a = 0
  reset : ∀ {a r}, Holds a → firstMultiple a = some ⟨r, none⟩ →
    Holds (resetCount a r) ∧ left a = left (resetCount a r) + 1
  replace : ∀ {a x p k}, Holds a → firstMultiple a = some ⟨x, some (p, k)⟩ →
    Holds (replaceSlot mode a x p k) ∧ left a = left (replaceSlot mode a x p k) + 1

theorem add_min_succ (s l n : Nat) : s + 1 + min l n = s + min (l + 1) (n + 1) := by
  omega

namespace Measures

variable {mode : Mode} {Holds : Arena → Prop} {left : Arena → Nat}

theorem run {e : Expander} (h : Measures e.mode Holds left) (hnodes : e.nodeLimit = none)
    (stepsLeft length : Nat) (r : Report) (ha : Holds a) :
    (run e stepsLeft length a r).2.steps = r.steps + min stepsLeft (left a) ∧
      (Expansion.run e stepsLeft length a r).2.overrun =
        if stepsLeft < left a then some (.stepLimit e.stepLimit) else r.overrun := by
  fun_induction Expansion.run e stepsLeft length a r with
  | case1 stepsLeft length a r hnone =>
    rw [h.done ha hnone, Nat.min_zero, if_neg (Nat.not_lt_zero _)]
    exact ⟨rfl, rfl⟩
  | case2 length a r q hq =>
    have hpos : 0 < left a := by
      obtain ⟨x, _ | ⟨p, k⟩⟩ := q
      · rw [(h.reset ha hq).2]
        exact Nat.succ_pos _
      · rw [(h.replace ha hq).2]
        exact Nat.succ_pos _
    rw [Nat.zero_min, if_pos hpos]
    exact ⟨rfl, rfl⟩
  | case3 length a r q hq stepsLeft hslot ih =>
    obtain ⟨x, _⟩ := q
    cases hslot
    obtain ⟨hb, hleft⟩ := h.reset ha hq
    obtain ⟨hsteps, hoverrun⟩ := ih hb
    rw [hsteps, hoverrun, hleft]
    exact ⟨add_min_succ .., by simp only [Nat.succ_eq_add_one, Nat.add_lt_add_iff_right]⟩
  | case4 length a r q hq stepsLeft p k hslot added m hlimit =>
    rw [hnodes] at hlimit
    cases hlimit
  | case5 length a r q hq stepsLeft p k hslot added hlimit ih =>
    obtain ⟨x, _⟩ := q
    cases hslot
    obtain ⟨hb, hleft⟩ := h.replace ha hq
    obtain ⟨hsteps, hoverrun⟩ := ih hb
    rw [hsteps, hoverrun, hleft]
    exact ⟨add_min_succ .., by simp only [Nat.succ_eq_add_one, Nat.add_lt_add_iff_right]⟩

theorem expand (h : Measures mode Holds left) (ha : Holds a) (l : Nat) :
    (expand ⟨mode, l, none⟩ a).2.steps = min l (left a) ∧
      (Expansion.expand ⟨mode, l, none⟩ a).2.overrun =
        if l < left a then some (.stepLimit l) else none := by
  obtain ⟨hsteps, hoverrun⟩ :=
    Measures.run (e := ⟨mode, l, none⟩) h rfl l a.documentLength .empty ha
  exact ⟨hsteps.trans (Nat.zero_add _), hoverrun⟩

end Measures

theorem eq_root_of_firstMultiple (h : Sound a) {r : Nat}
    (hr : firstMultiple a = some ⟨r, none⟩) : r = 0 ∧ 1 < countOf a 0 := by
  obtain ⟨hcount, ⟨-, hroot⟩ | ⟨p, k, hslot, -⟩⟩ := firstMultiple_eq_some hr
  · rw [h.root] at hroot
    cases hroot
    exact ⟨rfl, hcount⟩
  · cases hslot

def multiples (a : Arena) : List Nat := (List.range a.size).filter (1 < countOf a ·)

theorem countOf_resetCount (a : Arena) (x i : Nat) :
    countOf (resetCount a x) i = if i = x then 1 else countOf a i := by
  rw [countOf, countOf, node?_resetCount]
  cases a.node? i with
  | none => exact (ite_self 1).symm
  | some n => by_cases hi : i = x <;> simp [hi, Line.single]

theorem countOf_splice (a : Arena) (p k : Nat) (ids : List Nat) (i : Nat) :
    countOf (splice a p k ids) i = countOf a i := by
  rw [countOf, countOf, node?_splice]
  cases a.node? i <;> rfl

theorem replaceSlot_aliased (a : Arena) (x p k : Nat) :
    replaceSlot .aliased a x p k =
      splice (resetCount a x) p k (List.replicate (countOf a x) x) := rfl

theorem size_replaceSlot_aliased (a : Arena) (x p k : Nat) :
    (replaceSlot .aliased a x p k).size = a.size := by
  rw [replaceSlot_aliased, splice, resetCount, size_modify, size_modify]

theorem length_multiples {b : Arena} (hx : 1 < countOf a x) (hsize : b.size = a.size)
    (hcount : ∀ i, countOf b i = if i = x then 1 else countOf a i) :
    (multiples a).length = (multiples b).length + 1 := by
  have hlt : x < a.size := by
    cases hn : a.node? x with
    | none =>
      rw [countOf, hn] at hx
      exact absurd hx (Nat.lt_irrefl 1)
    | some n => exact node?_lt hn
  have hmem : x ∈ multiples a := List.mem_filter.2 ⟨List.mem_range.2 hlt, decide_eq_true hx⟩
  have herase : (multiples a).erase x = multiples b := by
    have hnodup : (multiples a).Nodup := List.nodup_range.filter _
    rw [hnodup.erase_eq_filter, multiples, multiples, List.filter_filter, hsize]
    refine List.filter_congr fun i _ => ?_
    rw [hcount]
    by_cases hi : i = x <;> simp [hi]
  rw [← herase, List.length_erase_of_mem hmem]
  have hpos := List.length_pos_of_mem hmem
  omega

structure Covered (a : Arena) : Prop where
  sound : Sound a
  listed : ∀ c < a.size, c ≠ 0 → ∃ p k, a.Lists p k c

namespace Covered

theorem mem_order (h : Covered a) (hi : i < a.size) : i ∈ a.order 0 := by
  induction i using Nat.strong_induction_on with
  | _ i ih =>
    rcases Nat.eq_zero_or_pos i with rfl | hpos
    · exact h.sound.ranked.mem_order_self hi
    · obtain ⟨p, k, n, hn, hk⟩ := h.listed i hi (Nat.ne_of_gt hpos)
      have hmem := List.mem_of_getElem? hk
      exact h.sound.ranked.order_trans (ih p (h.sound.child hn i hmem).1 (node?_lt hn))
        (h.sound.ranked.mem_order_of_child hn hmem hi)

theorem resetCount (h : Covered a) (x : Nat) : Covered (resetCount a x) where
  sound := h.sound.resetCount x
  listed c hc h0 := by
    rw [Expansion.resetCount, size_modify] at hc
    obtain ⟨p, k, n, hn, hk⟩ := h.listed c hc h0
    exact ⟨p, k, _, node?_resetCount_of_some x hn, hk⟩

theorem replaceSlot (h : Covered a) (hx : a.Lists p k x) (hcount : 1 < countOf a x) :
    Covered (replaceSlot .aliased a x p k) where
  sound := h.sound.replaceSlot hx .aliased
  listed c hc h0 := by
    obtain ⟨n, hn, hk⟩ := hx
    rw [size_replaceSlot_aliased] at hc
    obtain ⟨q, j, m, hm, hj⟩ := h.listed c hc h0
    have hm' : (Expansion.replaceSlot .aliased a x p k).node? q = _ :=
      node?_splice_of_some p k _ (node?_resetCount_of_some x hm)
    have hmem : c ∈ if q = p then
        m.children.take k ++ (List.replicate (countOf a x) x ++ m.children.drop (k + 1))
        else m.children := by
      have hcm := List.mem_of_getElem? hj
      split
      · next hqp =>
        subst hqp
        rw [hm] at hn
        cases hn
        rw [eq_take_append_drop hk, List.mem_append, List.mem_cons] at hcm
        rw [List.mem_append, List.mem_append, List.mem_replicate]
        have hne : countOf a x ≠ 0 := Nat.ne_of_gt (Nat.zero_lt_of_lt hcount)
        exact hcm.imp_right (.imp_left fun heq => ⟨hne, heq⟩)
      · exact hcm
    obtain ⟨j', hj'⟩ := List.mem_iff_getElem?.1 hmem
    exact ⟨q, j', _, hm', hj'⟩

end Covered

theorem measures_multiples : Measures .aliased Covered fun a => (multiples a).length where
  done {a} ha hnone := by
    refine List.length_eq_zero_iff.2 (List.filter_eq_nil_iff.2 fun i hi => ?_)
    have hiter : i ∈ a.iter := by
      rw [ha.sound.ranked.iter_eq, ha.sound.root]
      exact ha.mem_order (List.mem_range.1 hi)
    rw [decide_eq_true_eq, Nat.not_lt]
    exact countOf_le_one ha.sound.ranked hnone hiter
  reset {a r} ha hr := by
    obtain ⟨rfl, hcount⟩ := eq_root_of_firstMultiple ha.sound hr
    refine ⟨ha.resetCount 0, length_multiples hcount ?_ (countOf_resetCount a 0)⟩
    rw [resetCount, size_modify]
  replace {a x p k} ha hx := by
    obtain ⟨hcount, hlists⟩ := lists_of_firstMultiple hx
    refine ⟨ha.replaceSlot hlists hcount,
      length_multiples hcount (size_replaceSlot_aliased a x p k) fun i => ?_⟩
    rw [replaceSlot_aliased, countOf_splice, countOf_resetCount]

/-- The steps that it takes to make the copies of a document. -/
def copyStepsOf (a : Arena) : Nat := a.document.elim 0 Tree.rootSteps

theorem copyStepsOf_eq (ht : a.document = some t) : copyStepsOf a = t.rootSteps := by
  rw [copyStepsOf, ht, Option.elim_some]

theorem measures_copyStepsOf : Measures .copy Unshared copyStepsOf where
  done {a} ha hnone := by
    obtain ⟨t, ht⟩ := ha.sound.exists_document
    rw [copyStepsOf_eq ht]
    exact Tree.rootSteps_eq_zero (ha.sound.count_eq_one_of_firstMultiple_eq_none hnone ht)
  reset {a r} ha hr := by
    obtain ⟨rfl, hcount⟩ := eq_root_of_firstMultiple ha.sound hr
    obtain ⟨t, ht⟩ := ha.sound.exists_document
    have hb := ha.resetCount 0
    have hsubtree := ht
    rw [ha.sound.document_eq] at hsubtree
    have ht' := ha.sound.subtree_resetCount_self hsubtree
    rw [← hb.sound.document_eq] at ht'
    refine ⟨hb, ?_⟩
    have hroot : 1 < t.data.count := by
      obtain ⟨n, hn⟩ := exists_node?_iff.2 ha.sound.size_pos
      rw [ha.sound.ranked.subtree_of_node? hn] at hsubtree
      cases hsubtree
      rwa [countOf_eq hn] at hcount
    rw [copyStepsOf_eq ht, copyStepsOf_eq ht', Tree.rootSteps, Tree.rootSteps,
      Tree.ownStep_of_lt hroot, Tree.ownStep_single, Nat.zero_add, Nat.add_comm]
  replace {a x p k} ha hx := by
    have hlists := (lists_of_firstMultiple hx).2
    obtain ⟨t, ht⟩ := ha.sound.exists_document
    have hsubtree := ht
    rw [ha.sound.document_eq] at hsubtree
    obtain ⟨t', ht', hunfolds⟩ :=
      unfolds_of_firstBelow ha (ha.sound.firstBelow_of_firstMultiple hx) hsubtree
    have hb := ha.replaceSlot hlists
    rw [← hb.sound.document_eq] at ht'
    refine ⟨hb, ?_⟩
    rw [copyStepsOf_eq ht, copyStepsOf_eq ht', hunfolds.rootSteps_eq]

theorem covered_of_build {defaultTag text : String} {limit : Nat}
    (h : build defaultTag limit text = .ok a) : Covered a where
  sound := sound_of_build h
  listed c hc h0 := by
    obtain ⟨-, rfl⟩ := build_eq_ok h
    rw [size_arenaOf] at hc
    obtain ⟨k, hk⟩ := lists_arenaOf hc h0
    exact ⟨_, k, (hk _ k).2 ⟨rfl, rfl⟩⟩

theorem unshared_of_build {defaultTag text : String} {limit : Nat}
    (h : build defaultTag limit text = .ok a) : Unshared a where
  sound := sound_of_build h
  nodup {i n} hn := by
    obtain ⟨-, rfl⟩ := build_eq_ok h
    obtain ⟨hi, rfl⟩ := node?_arenaOf_eq_some hn
    exact (pairwise_children_nodeAt hi).nodup

theorem length_multiples_le_rootSteps {defaultTag text : String} {limit : Nat}
    (h : build defaultTag limit text = .ok a) (ht : a.document = some t) :
    (multiples a).length ≤ t.rootSteps := by
  have hs := sound_of_build h
  refine Nat.le_trans (Nat.le_of_eq ?_)
    (Tree.countP_preorder_le_rootSteps fun l hl => hs.count_of_mem_preorder ht hl)
  rw [hs.document_eq] at ht
  rw [hs.ranked.preorder_eq ht, order_of_build h, List.countP_filterMap, multiples,
    ← List.countP_eq_length_filter]
  refine List.countP_congr fun i hi => ?_
  obtain ⟨n, hn⟩ := exists_node?_iff.2 (List.mem_range.1 hi)
  rw [countOf_eq hn, hn]
  rfl

/-- A run without node limit stops at its step limit just when that is less than what it takes: a
step for each node with a count where nodes are shared, and where copies are made a step for each
copy of such a node. So sharing is never the slower of the two. -/
theorem steps_expand_of_build {defaultTag text : String} {limit : Nat}
    (h : build defaultTag limit text = .ok a) :
    ∃ t, a.document = some t ∧
      (∀ l, (expand ⟨.aliased, l, none⟩ a).2.steps = min l (multiples a).length ∧
        (expand ⟨.aliased, l, none⟩ a).2.overrun =
          if l < (multiples a).length then some (.stepLimit l) else none) ∧
      (∀ l, (expand ⟨.copy, l, none⟩ a).2.steps = min l t.rootSteps ∧
        (expand ⟨.copy, l, none⟩ a).2.overrun =
          if l < t.rootSteps then some (.stepLimit l) else none) ∧
      ∀ l, (expand ⟨.copy, l, none⟩ a).2.isComplete →
        (expand ⟨.aliased, l, none⟩ a).2.isComplete := by
  obtain ⟨t, ht⟩ := (sound_of_build h).exists_document
  have haliased := measures_multiples.expand (covered_of_build h)
  have hcopy := measures_copyStepsOf.expand (unshared_of_build h)
  rw [copyStepsOf_eq ht] at hcopy
  refine ⟨t, ht, haliased, hcopy, fun l hcomplete => ?_⟩
  have hle := length_multiples_le_rootSteps h ht
  rw [Report.isComplete, (hcopy l).2] at hcomplete
  rw [Report.isComplete, (haliased l).2, if_neg]
  · rfl
  · intro hlt
    rw [if_pos (Nat.lt_of_lt_of_le hlt hle)] at hcomplete
    cases hcomplete

/-- Three nodes have a count, and it takes five steps to make copies of them: with a limit of four
only sharing comes to its end. -/
theorem steps_expand_of_build_nested :
    ∃ a t, build "div" 2 "ul*2\n  li*3\n    a*2" = .ok a ∧ a.document = some t ∧
      (multiples a).length = 3 ∧ t.rootSteps = 5 ∧
      (expand ⟨.aliased, 4, none⟩ a).2.steps = 3 ∧ (expand ⟨.aliased, 4, none⟩ a).2.isComplete ∧
      (expand ⟨.copy, 4, none⟩ a).2.steps = 4 ∧
      (expand ⟨.copy, 4, none⟩ a).2.overrun = some (.stepLimit 4) := by
  let a : Arena :=
    ⟨#[⟨⟨"ul*2", 0, "div", .block "ul", [], 2, none⟩, none, [1]⟩,
      ⟨⟨"  li*3", 2, "div", .elem "li", [], 3, none⟩, some 0, [2]⟩,
      ⟨⟨"    a*2", 4, "div", .elem "a", [], 2, none⟩, some 1, []⟩], some 0⟩
  have hbuild : build "div" 2 "ul*2\n  li*3\n    a*2" = .ok a := rfl
  obtain ⟨t, ht, haliased, hcopy, -⟩ := steps_expand_of_build hbuild
  have hshared : (multiples a).length = 3 := rfl
  have hcopies : t.rootSteps = 5 := by
    rw [← copyStepsOf_eq ht]
    decide +kernel
  obtain ⟨hsteps, hoverrun⟩ := haliased 4
  obtain ⟨hsteps', hoverrun'⟩ := hcopy 4
  rw [hshared] at hsteps hoverrun
  rw [hcopies] at hsteps' hoverrun'
  refine ⟨a, t, hbuild, ht, hshared, hcopies, hsteps, ?_, hsteps', hoverrun'⟩
  rw [Report.isComplete, hoverrun]
  rfl

end BemOutline.Expansion

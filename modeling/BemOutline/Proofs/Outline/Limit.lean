import BemOutline.Proofs.Expansion.Refinement
import BemOutline.Proofs.Tree.Levels

/-! Building within a limit. The parent links above a line are as many as the levels above it, so
that a limit can only refuse documents with more levels. -/

namespace BemOutline.Outline

open Arena

variable {d : Nat → Nat} {ls : List Line} {es : List Accepted} {i j k limit links : Nat}
  {t u : Tree}

theorem parentIndex_zero (d : Nat → Nat) : parentIndex d 0 = 0 := Nat.findGreatest_zero

theorem exists_iterate_eq (hi : parentIndex d j ≤ i) (hij : i < j) :
    ∃ k, (parentIndex d)^[k] i = parentIndex d j := by
  induction i using Nat.strong_induction_on with
  | _ i ih =>
    rcases Nat.eq_or_lt_of_le hi with heq | hlt
    · exact ⟨0, heq.symm⟩
    · have hp : parentIndex d j ≤ parentIndex d i := by
        by_cases h0 : parentIndex d j = 0
        · rw [h0]
          exact Nat.zero_le _
        · have hdj : d (parentIndex d j) < d j := depth_parentIndex_lt h0
          exact le_parentIndex hlt (Nat.lt_of_lt_of_le hdj (le_of_parentIndex_lt hlt hij))
      have hup : parentIndex d i < i := parentIndex_lt (Nat.zero_lt_of_lt hlt)
      obtain ⟨k, hk⟩ := ih _ hup hp (hup.trans hij)
      exact ⟨k + 1, hk⟩

theorem height_lt_of_parent (hi : i < ls.length) (h0 : i ≠ 0)
    (ht : (arenaOf ls).subtree i = some t) :
    ∃ u, (arenaOf ls).subtree (parentIndex (depthIn ls) i) = some u ∧ t.height < u.height := by
  have hr := (ascending_arenaOf ls).ranked
  have hlt := parentIndex_lt (d := depthIn ls) (Nat.pos_of_ne_zero h0)
  have hp : parentIndex (depthIn ls) i < ls.length := hlt.trans hi
  have hmem : i ∈ (nodeAt ls ⟨_, hp⟩).children := mem_children_nodeAt.2 ⟨hi, h0, rfl⟩
  have hchild : t ∈ (nodeAt ls ⟨_, hp⟩).children.filterMap (arenaOf ls).subtree :=
    List.mem_filterMap.2 ⟨i, hmem, ht⟩
  refine ⟨_, hr.subtree_of_node? (node?_arenaOf hp), ?_⟩
  rw [Tree.height]
  exact Nat.lt_succ_of_le (Tree.heights_le_iff.1 le_rfl t hchild)

theorem add_height_le (hi : i < ls.length) (ht : (arenaOf ls).subtree i = some t)
    (h0 : ∀ m < k, (parentIndex (depthIn ls))^[m] i ≠ 0) :
    ∃ u, (arenaOf ls).subtree ((parentIndex (depthIn ls))^[k] i) = some u ∧
      t.height + k ≤ u.height := by
  induction k with
  | zero => exact ⟨t, ht, le_rfl⟩
  | succ k ih =>
    obtain ⟨u, hu, hle⟩ := ih fun m hm => h0 m (Nat.lt_succ_of_lt hm)
    have hlt := Nat.lt_of_le_of_lt (iterate_parentIndex_le (d := depthIn ls) k) hi
    obtain ⟨v, hv, huv⟩ := height_lt_of_parent hlt (h0 k (Nat.lt_succ_self k)) hu
    rw [Function.iterate_succ_apply']
    exact ⟨v, hv, by omega⟩

theorem height_le_of_subtree (hi : i < ls.length) (ht : (arenaOf ls).subtree i = some t)
    (hu : (arenaOf ls).subtree 0 = some u) : t.height ≤ u.height := by
  induction i using Nat.strong_induction_on generalizing t with
  | _ i ih =>
    rcases Nat.eq_zero_or_pos i with rfl | hpos
    · rw [ht] at hu
      cases hu
      exact le_rfl
    · obtain ⟨v, hv, htv⟩ := height_lt_of_parent hi (Nat.ne_of_gt hpos) ht
      have hlt := parentIndex_lt (d := depthIn ls) hpos
      exact htv.le.trans (ih _ hlt (hlt.trans hi) hv)

theorem within_of_height_le (h0 : 0 < j) (hj : j < ls.length)
    (hu : (arenaOf ls).subtree 0 = some u) (hlinks : u.height ≤ links + 1) :
    Within (depthIn ls) links (j - 1) (parentIndex (depthIn ls) j) := by
  have hlt := parentIndex_lt (d := depthIn ls) h0
  have hex : ∃ k, (parentIndex (depthIn ls))^[k] (j - 1) = parentIndex (depthIn ls) j :=
    exists_iterate_eq (by omega) (by omega)
  -- the shortest way does not pass the first line, which is its own parent
  have hfirst : ∀ m < Nat.find hex, (parentIndex (depthIn ls))^[m] (j - 1) ≠ 0 := by
    intro m hm hzero
    have hrest : (parentIndex (depthIn ls))^[Nat.find hex - m] 0 = parentIndex (depthIn ls) j := by
      rw [← hzero, ← Function.iterate_add_apply, Nat.sub_add_cancel hm.le, Nat.find_spec hex]
    rw [Function.iterate_fixed (parentIndex_zero _)] at hrest
    exact Nat.find_min hex hm (hzero.trans hrest)
  have hlast : j - 1 < ls.length := by omega
  obtain ⟨t, ht⟩ := (ascending_arenaOf ls).ranked.exists_subtree_iff.2
    (show j - 1 < (arenaOf ls).size by rwa [size_arenaOf])
  obtain ⟨v, hv, htv⟩ := add_height_le hlast ht hfirst
  have hvu := height_le_of_subtree (by rw [Nat.find_spec hex]; omega) hv hu
  have htop : 0 < t.height := by
    cases t
    exact Nat.succ_pos _
  exact ⟨Nat.find hex, by omega, Nat.find_spec hex⟩

theorem faultAt_eq_some {e : OutlineError} (h : faultAt limit es j = some e) :
    (∃ x, es[j]? = some x ∧ (j = 1 ∧ x.line.depth = 0) ∧ e = .multipleRoots x.number x.line.source) ∨
      0 < j ∧ j < es.length ∧ e = .nestingTooDeep limit ∧
        ¬ Within (depthIn (es.map (·.line)))
          (if depthIn (es.map (·.line)) j = 0 then limit else limit + 1) (j - 1)
          (parentIndex (depthIn (es.map (·.line))) j) := by
  rw [faultAt] at h
  cases hj : es[j]? with
  | none =>
    rw [hj] at h
    cases h
  | some x =>
    simp only [hj] at h
    by_cases hroot : j = 1 ∧ x.line.depth = 0
    · rw [if_pos hroot] at h
      cases h
      exact .inl ⟨x, rfl, hroot, rfl⟩
    · rw [if_neg hroot, Option.ite_none_right_eq_some] at h
      obtain ⟨⟨hless, hnot⟩, heq⟩ := h
      cases heq
      have h0 : 0 < j := by
        refine Nat.pos_of_ne_zero fun h0 => ?_
        rw [h0] at hless
        exact Nat.lt_irrefl _ hless
      exact .inr ⟨h0, (List.getElem?_eq_some_iff.1 hj).1, rfl, hnot⟩

/-- A line that is at fault within one limit only is too deep for it, and so is the document. -/
theorem faultAt_of_none {limit' : Nat} {e : OutlineError} (h : faultAt limit es j = some e)
    (hnone : faultAt limit' es j = none) (hu : (arenaOf (es.map (·.line))).subtree 0 = some u) :
    e = .nestingTooDeep limit ∧ limit + 1 < u.height := by
  obtain ⟨x, hx, hroot, rfl⟩ | ⟨h0, hj, rfl, hnot⟩ := faultAt_eq_some h
  · rw [faultAt, hx] at hnone
    simp only [if_pos hroot] at hnone
    cases hnone
  · have hlen : j < (es.map (·.line)).length := by rwa [List.length_map]
    refine ⟨rfl, Nat.lt_of_not_le fun hle => hnot ?_⟩
    exact within_of_height_le h0 hlen hu (by split <;> omega)

/-- Within another limit the same document comes out, or it has too many levels for that limit. -/
theorem build_of_build {defaultTag text : String} {limit' : Nat} {a : Arena}
    (h : build defaultTag limit' text = .ok a) (ht : a.document = some t) (limit : Nat) :
    build defaultTag limit text = .ok a ∨
      build defaultTag limit text = .error (.nestingTooDeep limit) ∧ limit + 1 < t.height := by
  cases hr : accept defaultTag.toList 1 false (textLines text) with
  | mk es rejected =>
    rw [build_of_accept hr] at h
    split at h
    · cases h
    · next hnone =>
      obtain ⟨hfaults, rfl⟩ := Option.or_eq_none_iff.1 hnone
      split at h
      · cases h
      · next hne =>
        cases h
        have hlines : es.map (·.line) ≠ [] := mt List.map_eq_nil_iff.1 hne
        rw [document, root_arenaOf hlines, Option.bind_some] at ht
        have hall := List.findSome?_eq_none_iff.1 hfaults
        rw [build_of_accept hr, Option.or_none]
        cases hf : (List.range es.length).findSome? (faultAt limit es) with
        | none => exact .inl (if_neg hne)
        | some e =>
          obtain ⟨j, hj, hfault⟩ := List.exists_of_findSome?_eq_some hf
          obtain ⟨rfl, hheight⟩ := faultAt_of_none hfault (hall j hj) ht
          exact .inr ⟨rfl, hheight⟩

end BemOutline.Outline

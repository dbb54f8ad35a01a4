import BemOutline.Proofs.Outline.Limit

/-! Depth alone tells which line stands below which: in document order, no two trees have the same
lines if all their nodes are deeper than their parents and no deeper than the siblings before them.
The document of a list of lines is the one that has just these. -/

namespace BemOutline

namespace Tree

mutual

/-- A tree whose nodes are deeper than their parents and no deeper than the siblings before them. -/
inductive LaidOut : Tree → Prop where
  | mk {data : Line} {children : List Tree} :
    LaidOutBelow data.depth children → LaidOut ⟨data, children⟩

inductive LaidOutBelow : Nat → List Tree → Prop where
  | nil {depth : Nat} : LaidOutBelow depth []
  | cons {depth : Nat} {t : Tree} {ts : List Tree} : depth < t.data.depth →
    (∀ u ∈ ts.head?, u.data.depth ≤ t.data.depth) → LaidOut t → LaidOutBelow depth ts →
    LaidOutBelow depth (t :: ts)

end

variable {t u : Tree} {ts us : List Tree} {rest rest' : List Line} {l : Line} {depth : Nat}

theorem LaidOutBelow.of_pairwise (h : ∀ t ∈ ts, depth < t.data.depth ∧ t.LaidOut)
    (hts : ts.Pairwise fun t u => u.data.depth ≤ t.data.depth) : LaidOutBelow depth ts := by
  induction ts with
  | nil => exact .nil
  | cons t ts ih =>
    rw [List.forall_mem_cons] at h
    rw [List.pairwise_cons] at hts
    exact .cons h.1.1 (fun u hu => hts.1 u (List.mem_of_mem_head? hu)) h.1.2 (ih h.2 hts.2)

mutual

theorem LaidOut.le_depth : ∀ {t : Tree}, t.LaidOut → ∀ l ∈ t.preorder, t.data.depth ≤ l.depth
  | ⟨data, children⟩, .mk hchildren, l, hl => by
    rw [preorder] at hl
    rcases List.mem_cons.1 hl with rfl | hl
    · exact le_rfl
    · exact (hchildren.lt_depth l hl).le

theorem LaidOutBelow.lt_depth : ∀ {ts : List Tree} {depth : Nat}, LaidOutBelow depth ts →
    ∀ l ∈ preorders ts, depth < l.depth
  | [], _, _, _, hl => nomatch hl
  | t :: ts, depth, .cons hlt _ ht hts, l, hl => by
    rw [preorders] at hl
    rcases List.mem_append.1 hl with hl | hl
    · exact hlt.trans_le (ht.le_depth l hl)
    · exact hts.lt_depth l hl

end

theorem head?_preorder_append (t : Tree) (rest : List Line) :
    (t.preorder ++ rest).head? = some t.data := by
  cases t
  rfl

theorem head?_preorders_append (ts : List Tree) (rest : List Line) :
    (preorders ts ++ rest).head? = (ts.head?.map (·.data)).or rest.head? := by
  cases ts with
  | nil => rfl
  | cons t ts => rw [preorders, List.append_assoc, head?_preorder_append]; rfl

theorem LaidOutBelow.depth_head?_le (h : LaidOutBelow depth (t :: ts))
    (hrest : ∀ l ∈ rest.head?, l.depth ≤ depth) :
    ∀ l ∈ (preorders ts ++ rest).head?, l.depth ≤ t.data.depth := by
  obtain _ | ⟨hlt, hnext, -, -⟩ := h
  intro l hl
  rw [head?_preorders_append] at hl
  cases ts with
  | nil => exact (hrest l hl).trans hlt.le
  | cons u us =>
    cases hl
    exact hnext u rfl

mutual

/-- The lines of a tree end where a line is no deeper than its top. -/
theorem eq_of_preorder_append : ∀ {t u : Tree} {rest rest' : List Line}, t.LaidOut → u.LaidOut →
    (∀ l ∈ rest.head?, l.depth ≤ t.data.depth) → (∀ l ∈ rest'.head?, l.depth ≤ u.data.depth) →
    t.preorder ++ rest = u.preorder ++ rest' → t = u ∧ rest = rest'
  | ⟨data, children⟩, ⟨data', children'⟩, rest, rest', .mk ht, .mk hu, hrest, hrest', h => by
    rw [preorder, preorder, List.cons_append, List.cons_append, List.cons.injEq] at h
    obtain ⟨rfl, h⟩ := h
    obtain ⟨rfl, hrests⟩ := eq_of_preorders_append ht hu hrest hrest' h
    exact ⟨rfl, hrests⟩

theorem eq_of_preorders_append : ∀ {ts us : List Tree} {rest rest' : List Line} {depth : Nat},
    LaidOutBelow depth ts → LaidOutBelow depth us → (∀ l ∈ rest.head?, l.depth ≤ depth) →
    (∀ l ∈ rest'.head?, l.depth ≤ depth) → preorders ts ++ rest = preorders us ++ rest' →
    ts = us ∧ rest = rest'
  | [], [], rest, rest', _, _, _, _, _, h => ⟨rfl, h⟩
  | [], u :: us, rest, rest', depth, _, hus, hrest, _, h => by
    have hhead := congrArg List.head? h
    rw [head?_preorders_append, head?_preorders_append] at hhead
    obtain _ | ⟨hlt, -, -, -⟩ := hus
    exact absurd (hrest _ hhead) (Nat.not_le.2 hlt)
  | t :: ts, [], rest, rest', depth, hts, _, _, hrest', h => by
    have hhead := congrArg List.head? h
    rw [head?_preorders_append, head?_preorders_append] at hhead
    obtain _ | ⟨hlt, -, -, -⟩ := hts
    exact absurd (hrest' _ hhead.symm) (Nat.not_le.2 hlt)
  | t :: ts, u :: us, rest, rest', depth, hts, hus, hrest, hrest', h => by
    rw [preorders, preorders, List.append_assoc, List.append_assoc] at h
    have hnext := hts.depth_head?_le hrest
    have hnext' := hus.depth_head?_le hrest'
    obtain _ | ⟨-, -, ht, hts⟩ := hts
    obtain _ | ⟨-, -, hu, hus⟩ := hus
    obtain ⟨rfl, hbehind⟩ := eq_of_preorder_append ht hu hnext hnext' h
    obtain ⟨rfl, hrests⟩ := eq_of_preorders_append hts hus hrest hrest' hbehind
    exact ⟨rfl, hrests⟩

end

theorem LaidOut.eq_of_preorder_eq (ht : t.LaidOut) (hu : u.LaidOut)
    (h : t.preorder = u.preorder) : t = u := by
  have hnone : ∀ {depth : Nat}, ∀ l ∈ ([] : List Line).head?, l.depth ≤ depth := nofun
  exact (eq_of_preorder_append ht hu hnone hnone (congrArg (· ++ []) h)).1

end Tree

namespace Outline

open Arena

variable {ls : List Line} {i : Nat} {t : Tree}

theorem depth_of_subtree (h : (arenaOf ls).subtree i = some t) :
    t.data.depth = depthIn ls i := by
  rw [(ascending_arenaOf ls).ranked.subtree_eq] at h
  obtain ⟨n, hn, rfl⟩ := Option.map_eq_some_iff.1 h
  obtain ⟨hi, rfl⟩ := node?_arenaOf_eq_some hn
  exact (depthIn_eq hi).symm

theorem laidOut_of_subtree
    (hfirst : ∀ j : Nat, 0 < j → j < ls.length → depthIn ls 0 < depthIn ls j)
    (h : (arenaOf ls).subtree i = some t) : t.LaidOut := by
  have hr := (ascending_arenaOf ls).ranked
  have hdeeper : ∀ j : Nat, 0 < j → j < ls.length →
      depthIn ls (parentIndex (depthIn ls) j) < depthIn ls j := by
    intro j h0 hj
    by_cases hp : parentIndex (depthIn ls) j = 0
    · rw [hp]
      exact hfirst j h0 hj
    · exact depth_parentIndex_lt hp
  induction i using hr.induction generalizing t with
  | step i ih =>
    rw [hr.subtree_eq] at h
    obtain ⟨n, hn, rfl⟩ := Option.map_eq_some_iff.1 h
    obtain ⟨hi, rfl⟩ := node?_arenaOf_eq_some hn
    refine .mk (.of_pairwise (fun u hu => ?_) ?_)
    · obtain ⟨c, hc, hu⟩ := List.mem_filterMap.1 hu
      obtain ⟨hlt, h0, hp⟩ := mem_children_nodeAt.1 hc
      refine ⟨?_, ih _ hn c hc hu⟩
      change ls[i].depth < _
      rw [← depthIn_eq hi, depth_of_subtree hu, ← hp]
      exact hdeeper c (Nat.pos_of_ne_zero h0) hlt
    · rw [List.pairwise_filterMap]
      refine (pairwise_children_nodeAt hi).imp_of_mem fun {c c'} hc hc' hlt u hu u' hu' => ?_
      obtain ⟨-, -, hp⟩ := mem_children_nodeAt.1 hc'
      have hic := (ascending_arenaOf ls i _ hn c hc).1
      rw [depth_of_subtree hu, depth_of_subtree hu']
      exact le_of_parentIndex_lt (by rwa [hp]) hlt

theorem preorder_arenaOf (h : (arenaOf ls).subtree 0 = some t) : t.preorder = ls := by
  rw [(ascending_arenaOf ls).ranked.preorder_eq h, order_arenaOf]
  calc (List.range ls.length).filterMap (fun j => ((arenaOf ls).node? j).map (·.data))
      = (List.finRange ls.length).filterMap (fun j => some ls[j.1]) := by
        rw [← List.map_coe_finRange_eq_range, List.filterMap_map]
        exact List.filterMap_congr fun j _ => by simp [data_arenaOf]
    _ = (List.finRange ls.length).map fun j => ls[j.1] := congrFun List.filterMap_eq_map' _
    _ = ls := List.map_getElem_finRange ls

theorem depth_lt_of_laidOut (h : t.LaidOut) {j : Nat} (h0 : 0 < j) (hj : j < t.preorder.length) :
    depthIn t.preorder 0 < depthIn t.preorder j := by
  obtain ⟨hchildren⟩ := h
  obtain ⟨j, rfl⟩ := Nat.exists_eq_succ_of_ne_zero (Nat.ne_of_gt h0)
  rw [depthIn_eq hj]
  exact hchildren.lt_depth _ (List.getElem_mem _)

theorem document_arenaOf (h : t.LaidOut) : (arenaOf t.preorder).document = some t := by
  have hpos : 0 < t.preorder.length := by
    cases t
    exact Nat.succ_pos _
  obtain ⟨u, hu⟩ := (ascending_arenaOf t.preorder).ranked.exists_subtree_iff.2
    (show 0 < (arenaOf t.preorder).size by rwa [size_arenaOf])
  have hut := (laidOut_of_subtree (fun _ => depth_lt_of_laidOut h) hu).eq_of_preorder_eq h
    (preorder_arenaOf hu)
  rw [document, root_arenaOf (List.length_pos_iff.1 hpos), Option.bind_some, hu, hut]

theorem faultAt_of_laidOut {limit : Nat} {es : List Accepted} (h : t.LaidOut)
    (hes : es.map (·.line) = t.preorder) (hlimit : t.height ≤ limit + 2) (j : Nat) :
    faultAt limit es j = none := by
  by_contra hfault
  obtain ⟨e, he⟩ := Option.ne_none_iff_exists'.1 hfault
  have hroot : (arenaOf t.preorder).subtree 0 = some t := by
    have hdocument := document_arenaOf h
    rwa [document, root_arenaOf (by cases t; exact List.cons_ne_nil _ _)] at hdocument
  have hdepth : ∀ {j : Nat}, 0 < j → j < es.length → depthIn t.preorder j ≠ 0 := by
    intro j h0 hj
    have hlt := depth_lt_of_laidOut h h0 (by rwa [← hes, List.length_map])
    exact Nat.ne_of_gt (Nat.zero_lt_of_lt hlt)
  obtain ⟨x, hx, ⟨rfl, hzero⟩, -⟩ | ⟨h0, hj, -, hnot⟩ := faultAt_eq_some he
  · obtain ⟨hlen, rfl⟩ := List.getElem?_eq_some_iff.1 hx
    refine hdepth Nat.one_pos hlen ?_
    rw [← hes, depthIn_eq (by rwa [List.length_map]), List.getElem_map, hzero]
  · rw [hes, if_neg (hdepth h0 hj)] at hnot
    exact hnot (within_of_height_le h0 (by rwa [← hes, List.length_map]) hroot hlimit)

theorem build_of_laidOut {defaultTag text : String} {limit : Nat} {es : List Accepted}
    (h : t.LaidOut) (hes : es.map (·.line) = t.preorder)
    (haccept : accept defaultTag.toList 1 false (textLines text) = (es, none))
    (hlimit : t.height ≤ limit + 2) :
    ∃ a, build defaultTag limit text = .ok a ∧ a.document = some t := by
  have hfaults : (List.range es.length).findSome? (faultAt limit es) = none :=
    List.findSome?_eq_none_iff.2 fun j _ => faultAt_of_laidOut h hes hlimit j
  have hne : es ≠ [] := by
    rintro rfl
    cases t
    cases hes
  refine ⟨arenaOf t.preorder, ?_, document_arenaOf h⟩
  rw [build_of_accept haccept, hfaults, Option.or_none]
  simp only [if_neg hne, hes]

end Outline

end BemOutline

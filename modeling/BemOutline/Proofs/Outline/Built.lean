import BemOutline.Proofs.Arena.Places
import BemOutline.Proofs.Outline.Placement
import Mathlib.Data.List.Sort

/-! The documents that come out of building: a tree that holds every line that names a node once,
in the order of the lines. -/

namespace BemOutline.Outline

open Arena

/-- An arena that holds some lines as a tree: node by node in the order of the lines, a block of
depth 0 at the root and elements below it, each in one place and deeper than its parent unless its
depth is 0 and it stands below the root. -/
structure HoldsTree (a : Arena) (ls : List Line) : Prop where
  size : a.size = ls.length
  documentLength : a.documentLength = ls.length
  iter : a.iter = List.range ls.length
  data : ∀ i, (a.node? i).map (·.data) = ls[i]?
  root : ∃ r n, a.root = some r ∧ a.node? r = some n ∧ n.data.depth = 0
  parent_eq_none : ∀ {i n}, a.node? i = some n → (n.parent = none ↔ a.root = some i)
  isBlock : ∀ {i n}, a.node? i = some n → (n.data.name.isBlock ↔ a.root = some i)
  slot : ∀ {i n}, a.node? i = some n → a.root ≠ some i →
    ∃ p k, n.parent = some p ∧ ∀ q m, a.Lists q m i ↔ q = p ∧ m = k
  depth : ∀ {i n p}, a.node? i = some n → n.parent = some p →
    a.depthOf p < n.data.depth ∨ n.data.depth = 0 ∧ a.root = some p
  count : ∀ {i n}, a.node? i = some n → 1 ≤ n.data.count

variable {ls : List Line} {i j u c x : Nat}

theorem mem_children_nodeAt {hi : i < ls.length} :
    j ∈ (nodeAt ls ⟨i, hi⟩).children ↔
      j < ls.length ∧ j ≠ 0 ∧ parentIndex (depthIn ls) j = i := by
  simp [nodeAt]

theorem pairwise_children_nodeAt (hi : i < ls.length) :
    (nodeAt ls ⟨i, hi⟩).children.Pairwise (· < ·) :=
  List.Pairwise.filter _ List.pairwise_lt_range

theorem ascending_arenaOf (ls : List Line) : (arenaOf ls).Ascending := by
  intro i n hn c hc
  obtain ⟨hi, rfl⟩ := node?_arenaOf_eq_some hn
  obtain ⟨hlt, h0, rfl⟩ := mem_children_nodeAt.1 hc
  exact ⟨parentIndex_lt (Nat.pos_of_ne_zero h0), by rwa [size_arenaOf]⟩

theorem lt_of_mem_order (hp : parentIndex (depthIn ls) c < u) (hu : u < c)
    (hx : x ∈ (arenaOf ls).order u) : x < c := by
  have hr := (ascending_arenaOf ls).ranked
  induction u using hr.induction with
  | step u ih =>
    cases hn : (arenaOf ls).node? u with
    | none => simp [hr.order_of_none hn] at hx
    | some n =>
      rw [hr.order_of_some hn] at hx
      rcases List.mem_cons.1 hx with rfl | hx
      · exact hu
      · obtain ⟨v, hv, hxv⟩ := List.mem_flatMap.1 hx
        obtain ⟨hu', rfl⟩ := node?_arenaOf_eq_some hn
        obtain ⟨-, hv0, hpv⟩ := mem_children_nodeAt.1 hv
        have huv := parentIndex_lt (d := depthIn ls) (Nat.pos_of_ne_zero hv0)
        have hduv : depthIn ls u < depthIn ls v := by
          rw [← hpv]
          exact depth_parentIndex_lt (by omega)
        have hdc := le_of_parentIndex_lt hp hu
        -- a link across `c` would pass a line that is no deeper
        have hvc : v < c := by
          by_contra hcv
          rcases Nat.lt_or_eq_of_le (Nat.le_of_not_lt hcv) with hlt | rfl
          · have := le_of_parentIndex_lt (d := depthIn ls) (j := v) (i := c) (by omega) hlt
            omega
          · omega
        exact ih _ hn v hv (by omega) hvc hxv

theorem pairwise_order (ls : List Line) (i : Nat) : ((arenaOf ls).order i).Pairwise (· < ·) := by
  have hr := (ascending_arenaOf ls).ranked
  induction i using hr.induction with
  | step i ih =>
    cases hn : (arenaOf ls).node? i with
    | none => simp [hr.order_of_none hn]
    | some n =>
      rw [hr.order_of_some hn, List.pairwise_cons, List.pairwise_flatMap]
      refine ⟨fun x hx => ?_, fun c hc => ih n hn c hc, ?_⟩
      · obtain ⟨c, hc, hx⟩ := List.mem_flatMap.1 hx
        have hic := ascending_arenaOf ls i n hn c hc
        have := (ascending_arenaOf ls).le_of_mem_order hx
        omega
      · obtain ⟨hi, rfl⟩ := node?_arenaOf_eq_some hn
        refine (pairwise_children_nodeAt hi).imp_of_mem fun {c c'} hc hc' hlt x hx y hy => ?_
        obtain ⟨-, -, hp⟩ := mem_children_nodeAt.1 hc'
        have hic := ascending_arenaOf ls i _ hn c hc
        have hxc := lt_of_mem_order (by omega) hlt hx
        have := (ascending_arenaOf ls).le_of_mem_order hy
        omega

theorem mem_order_root (hi : i < ls.length) : i ∈ (arenaOf ls).order 0 := by
  have hr := (ascending_arenaOf ls).ranked
  induction i using Nat.strong_induction_on with
  | _ i ih =>
    rcases Nat.eq_zero_or_pos i with rfl | hpos
    · exact hr.mem_order_self (by rwa [size_arenaOf])
    · have hlt := parentIndex_lt (d := depthIn ls) hpos
      have hp : parentIndex (depthIn ls) i < ls.length := by omega
      have hc : i ∈ (nodeAt ls ⟨_, hp⟩).children :=
        mem_children_nodeAt.2 ⟨hi, Nat.ne_of_gt hpos, rfl⟩
      exact hr.order_trans (ih _ hlt hp)
        (hr.mem_order_of_child (node?_arenaOf hp) hc (by rwa [size_arenaOf]))

theorem order_arenaOf (ls : List Line) : (arenaOf ls).order 0 = List.range ls.length := by
  have hr := (ascending_arenaOf ls).ranked
  -- two ascending lists with the same members are the same
  refine (pairwise_order ls 0).eq_of_mem_iff List.pairwise_lt_range fun i => ?_
  rw [List.mem_range]
  refine ⟨fun h => ?_, mem_order_root⟩
  obtain ⟨n, hn⟩ := Option.isSome_iff_exists.1 (hr.isNode_of_mem_order h)
  rw [← size_arenaOf ls]
  exact node?_lt hn

theorem iter_arenaOf (hne : ls ≠ []) : (arenaOf ls).iter = List.range ls.length := by
  rw [(ascending_arenaOf ls).ranked.iter_eq, root_arenaOf hne, Option.elim_some, order_arenaOf]

theorem getElem?_of_node?_arenaOf {n : Arena.Node} (hn : (arenaOf ls).node? i = some n) :
    ls[i]? = some n.data := by
  obtain ⟨hi, rfl⟩ := node?_arenaOf_eq_some hn
  exact List.getElem?_eq_getElem hi

theorem data_arenaOf (ls : List Line) (i : Nat) : ((arenaOf ls).node? i).map (·.data) = ls[i]? := by
  rcases Nat.lt_or_ge i ls.length with hi | hi
  · rw [node?_arenaOf hi, List.getElem?_eq_getElem hi]
    rfl
  · rw [node?_eq_none_iff.2 (by rwa [size_arenaOf]), List.getElem?_eq_none hi]
    rfl

theorem lists_arenaOf (hi : i < ls.length) (h0 : i ≠ 0) :
    ∃ k, ∀ q m, (arenaOf ls).Lists q m i ↔ q = parentIndex (depthIn ls) i ∧ m = k := by
  have hlt := parentIndex_lt (d := depthIn ls) (Nat.pos_of_ne_zero h0)
  have hp : parentIndex (depthIn ls) i < ls.length := by omega
  have hmem : i ∈ (nodeAt ls ⟨_, hp⟩).children := mem_children_nodeAt.2 ⟨hi, h0, rfl⟩
  obtain ⟨k, hk⟩ := List.mem_iff_getElem?.1 hmem
  refine ⟨k, fun q m => ⟨?_, ?_⟩⟩
  · rintro ⟨n, hn, hm⟩
    obtain ⟨hq, rfl⟩ := node?_arenaOf_eq_some hn
    obtain ⟨-, -, rfl⟩ := mem_children_nodeAt.1 (List.mem_of_getElem? hm)
    have hnodup : (nodeAt ls ⟨_, hp⟩).children.Nodup := (pairwise_children_nodeAt hp).nodup
    have hlt := (List.getElem?_eq_some_iff.1 hm).1
    exact ⟨rfl, (List.getElem?_inj hlt hnodup).1 (hm.trans hk.symm)⟩
  · rintro ⟨rfl, rfl⟩
    exact ⟨_, node?_arenaOf hp, hk⟩

/-- A line is deeper than its parent, unless it comes back to the depth of the root. -/
theorem depth_arenaOf (h0 : depthIn ls 0 = 0) {n : Arena.Node} {p : Nat}
    (hn : (arenaOf ls).node? i = some n) (hp : n.parent = some p) :
    (arenaOf ls).depthOf p < n.data.depth ∨ n.data.depth = 0 ∧ p = 0 := by
  obtain ⟨hi, rfl⟩ := node?_arenaOf_eq_some hn
  have hi0 : i ≠ 0 := by
    rintro rfl
    cases hp
  have hpi : parentIndex (depthIn ls) i = p := Option.some.inj ((if_neg hi0).symm.trans hp)
  have hlt := parentIndex_lt (d := depthIn ls) (Nat.pos_of_ne_zero hi0)
  rw [depthOf_arenaOf (by omega), ← hpi]
  change _ < ls[i].depth ∨ ls[i].depth = 0 ∧ _
  rw [← depthIn_eq hi, and_comm]
  exact depth_parentIndex h0 i

theorem holdsTree_arenaOf (hne : ls ≠ []) (h0 : depthIn ls 0 = 0)
    (hblock : ∀ {i : Nat} {l : Line}, ls[i]? = some l → (l.name.isBlock ↔ i = 0))
    (hcount : ∀ {i : Nat} {l : Line}, ls[i]? = some l → 1 ≤ l.count) :
    HoldsTree (arenaOf ls) ls where
  size := size_arenaOf ls
  documentLength := by
    rw [(ascending_arenaOf ls).ranked.documentLength_eq, iter_arenaOf hne, List.length_range]
  iter := iter_arenaOf hne
  data := data_arenaOf ls
  root := by
    have hlen : 0 < ls.length := List.length_pos_iff.2 hne
    rw [depthIn_eq hlen] at h0
    exact ⟨0, _, root_arenaOf hne, node?_arenaOf hlen, h0⟩
  parent_eq_none {i n} hn := by
    obtain ⟨hi, rfl⟩ := node?_arenaOf_eq_some hn
    rw [root_arenaOf hne]
    by_cases hi0 : i = 0 <;> simp [nodeAt, hi0, eq_comm]
  isBlock {i n} hn := by
    rw [hblock (getElem?_of_node?_arenaOf hn), root_arenaOf hne, Option.some.injEq, eq_comm]
  slot {i n} hn hroot := by
    obtain ⟨hi, rfl⟩ := node?_arenaOf_eq_some hn
    have hi0 : i ≠ 0 := by
      rintro rfl
      exact hroot (root_arenaOf hne)
    obtain ⟨k, hk⟩ := lists_arenaOf hi hi0
    exact ⟨_, k, if_neg hi0, hk⟩
  depth {i n p} hn hp := by
    rw [root_arenaOf hne, Option.some.injEq, eq_comm (a := 0)]
    exact depth_arenaOf h0 hn hp
  count hn := hcount (getElem?_of_node?_arenaOf hn)

theorem build_eq_ok {defaultTag text : String} {limit : Nat} {a : Arena}
    (h : build defaultTag limit text = .ok a) :
    acceptedLines defaultTag text ≠ [] ∧ a = arenaOf (acceptedLines defaultTag text) := by
  rw [acceptedLines]
  cases hr : accept defaultTag.toList 1 false (textLines text) with
  | mk es rejected =>
    rw [build_of_accept hr] at h
    split at h
    · cases h
    · split at h
      · cases h
      · next hne =>
        cases h
        exact ⟨by simpa using hne, rfl⟩

theorem isBlock_accepted {defaultTag text : String} {l : Line}
    (h : (acceptedLines defaultTag text)[i]? = some l) : l.name.isBlock ↔ i = 0 := by
  obtain ⟨number, line, hline⟩ := exists_parseChars_of_accepted h
  rw [Line.isBlock_name hline]
  simp

theorem depthIn_accepted (defaultTag text : String) :
    depthIn (acceptedLines defaultTag text) 0 = 0 := by
  cases h : acceptedLines defaultTag text with
  | nil => rfl
  | cons l ls =>
    obtain ⟨number, line, hline⟩ := exists_parseChars_of_accepted (i := 0) (l := l) (by rw [h]; rfl)
    exact Line.depth_of_first hline

theorem count_accepted {defaultTag text : String} {l : Line}
    (h : (acceptedLines defaultTag text)[i]? = some l) : 1 ≤ l.count := by
  obtain ⟨number, line, hline⟩ := exists_parseChars_of_accepted h
  exact Line.one_le_count hline

/-- Building succeeds only with a tree that holds every accepted line once. -/
theorem holdsTree_of_build {defaultTag text : String} {limit : Nat} {a : Arena}
    (h : build defaultTag limit text = .ok a) : HoldsTree a (acceptedLines defaultTag text) := by
  obtain ⟨hne, rfl⟩ := build_eq_ok h
  exact holdsTree_arenaOf hne (depthIn_accepted defaultTag text) isBlock_accepted count_accepted

/-- A root with blank lines and a nameless line behind it, and a line of depth 0 that goes below
the root again. -/
theorem holdsTree_of_build_outline :
    HoldsTree
      ⟨#[⟨⟨"  nav--top", 0, "div", .block "nav", ["top"], 1, none⟩, none, [1, 3]⟩,
        ⟨⟨"    ul.menu*2", 4, "ul", .elem "menu", [], 2, none⟩, some 0, [2]⟩,
        ⟨⟨"      a.link Home", 6, "a", .elem "link", [], 1, some "Home"⟩, some 1, []⟩,
        ⟨⟨"footer", 0, "div", .elem "footer", [], 1, none⟩, some 0, []⟩], some 0⟩
      (acceptedLines "div" "  nav--top\n\n    ul.menu*2\n      a.link Home\r\n  *3\nfooter") :=
  @holdsTree_of_build "div" _ 2 _ rfl

end BemOutline.Outline

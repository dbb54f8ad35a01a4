import BemOutline.Arena.Diagram
import BemOutline.Proofs.Arena.Addresses
import BemOutline.Proofs.Expansion.Growth
import BemOutline.Proofs.Expansion.Lines
import BemOutline.Proofs.Line.Labels
import BemOutline.Proofs.Text.Pieces

/-! Drawings of documents. They have one line for each place of the document, in its order, and the
marks in front of a label show which entries on the way down to it have later siblings. -/

namespace BemOutline

def branch (later : Bool) : String := if later then "├── " else "└── "

def bar (later : Bool) : String := if later then "│   " else "    "

/-- The marks in front of a label, given for every ancestor below the root, from the top down, and
for the node whether it has a later sibling. -/
def margin : List Bool → String
  | [] => ""
  | [later] => branch later
  | later :: next :: rest => bar later ++ margin (next :: rest)

theorem margin_cons {laters : List Bool} (hne : laters ≠ []) (later : Bool) :
    margin (later :: laters) = bar later ++ margin laters := by
  cases laters with
  | nil => exact absurd rfl hne
  | cons next rest => rfl

theorem not_mem_margin (laters : List Bool) : '\n' ∉ (margin laters).toList := by
  induction laters with
  | nil => exact List.not_mem_nil
  | cons later laters ih =>
    by_cases hne : laters = []
    · subst hne
      cases later <;> decide
    · rw [margin_cons hne, String.toList_append, List.mem_append, not_or]
      exact ⟨by cases later <;> decide, ih⟩

theorem length_margin (laters : List Bool) : (margin laters).length = 4 * laters.length := by
  induction laters with
  | nil => rfl
  | cons later laters ih =>
    by_cases hne : laters = []
    · subst hne
      cases later <;> rfl
    · have hbar : (bar later).length = 4 := by cases later <;> rfl
      rw [margin_cons hne, String.length_append, hbar, ih, List.length_cons]
      omega

theorem Tree.branchLines_cons (lead : String) (t : Tree) (ts : List Tree) :
    branchLines lead (t :: ts) =
      (lead ++ branch (!ts.isEmpty) ++ t.data.label) ::
        (branchLines (lead ++ bar (!ts.isEmpty)) t.children ++ branchLines lead ts) := by
  cases t
  rw [branchLines]
  cases ts <;> rfl

theorem splitOn_endLines {ls : List String} (h : ∀ l ∈ ls, '\n' ∉ l.toList) :
    (endLines ls).toList.splitOn '\n' = ls.map String.toList ++ [[]] := by
  induction ls with
  | nil => rfl
  | cons l ls ih =>
    obtain ⟨hl, hls⟩ := List.forall_mem_cons.1 h
    have hlines : (endLines (l :: ls)).toList = l.toList ++ '\n' :: (endLines ls).toList := by
      simp [endLines, String.toList_join]
    rw [hlines, List.splitOn_append_cons_self_of_not_mem hl, ih hls, List.map_cons,
      List.cons_append]

namespace Arena

open BemOutline.Tree

variable {a : Arena} {i : Nat}

def labelAt (a : Arena) (i : Nat) (path : List Nat) : String :=
  ((a.follow i path).bind a.node?).elim "" (·.data.label)

def lineAt (a : Arena) (i : Nat) (path : List Nat) : String :=
  margin (a.goesOn i path) ++ a.labelAt i path

theorem labelAt_nil {n : Node} (hn : a.node? i = some n) : a.labelAt i [] = n.data.label := by
  rw [labelAt, follow, if_pos (isNode_of_node? hn), Option.bind_some, hn, Option.elim_some]

theorem lineAt_of_follow {path : List Nat} {j : Nat} {n : Node} (hj : a.follow i path = some j)
    (hn : a.node? j = some n) : a.lineAt i path = margin (a.goesOn i path) ++ n.data.label := by
  rw [lineAt, labelAt, hj, Option.bind_some, hn, Option.elim_some]

theorem labelAt_cons {k c : Nat} (hc : (a.childrenOf i)[k]? = some c) (path : List Nat) :
    a.labelAt i (k :: path) = a.labelAt c path := by
  rw [labelAt, follow, hc, Option.bind_some, labelAt]

theorem goesOn_cons {k c : Nat} (hc : (a.childrenOf i)[k]? = some c) (path : List Nat) :
    a.goesOn i (k :: path) = decide (k + 1 < (a.childrenOf i).length) :: a.goesOn c path := by
  rw [goesOn, hc, Option.elim_some]

theorem goesOn_ne_nil {path : List Nat} (hne : path ≠ []) : a.goesOn i path ≠ [] := by
  cases path with
  | nil => exact absurd rfl hne
  | cons k path => exact List.cons_ne_nil _ _

theorem lineAt_cons {k c : Nat} (hc : (a.childrenOf i)[k]? = some c) {path : List Nat}
    (hne : path ≠ []) :
    a.lineAt i (k :: path) =
      bar (decide (k + 1 < (a.childrenOf i).length)) ++ a.lineAt c path := by
  rw [lineAt, labelAt_cons hc, goesOn_cons hc, margin_cons (goesOn_ne_nil hne), String.append_assoc,
    lineAt]

theorem lineAt_singleton {k c : Nat} (hc : (a.childrenOf i)[k]? = some c) {n : Node}
    (hn : a.node? c = some n) :
    a.lineAt i [k] = branch (decide (k + 1 < (a.childrenOf i).length)) ++ n.data.label := by
  rw [lineAt, labelAt_cons hc, labelAt_nil hn, goesOn_cons hc]
  rfl

theorem Ranked.getElem?_addresses {rank : Nat → Nat} (h : a.Ranked rank) {k : Nat}
    {path : List Nat} (hp : (a.addresses i)[k]? = some path) :
    ∃ j n, (a.order i)[k]? = some j ∧ a.follow i path = some j ∧ a.node? j = some n := by
  have hmap := congrArg (·[k]?) (h.map_follow_addresses i)
  simp only [List.getElem?_map, hp, Option.map_some] at hmap
  obtain ⟨j, hj, heq⟩ := Option.map_eq_some_iff.1 hmap.symm
  have hnode := h.isNode_of_mem_order (List.mem_of_getElem? hj)
  obtain ⟨n, hn⟩ := exists_node?_iff.2 (isNode_iff.1 hnode)
  exact ⟨j, n, hj, heq.symm, hn⟩

theorem Ranked.ne_nil_of_mem_tail {rank : Nat → Nat} (h : a.Ranked rank) {path : List Nat}
    (hp : path ∈ (a.addresses i).tail) : path ≠ [] := by
  cases hn : a.node? i with
  | none => simp [h.addresses_of_none hn] at hp
  | some n =>
    rw [h.addresses_of_some hn, List.tail_cons] at hp
    obtain ⟨e, -, hp⟩ := List.mem_flatMap.1 hp
    obtain ⟨rest, -, rfl⟩ := List.mem_map.1 hp
    exact List.cons_ne_nil _ _

namespace Ascending

theorem exists_node? (h : a.Ascending) {n : Node} (hn : a.node? i = some n) {c : Nat}
    (hc : c ∈ n.children) : ∃ m, a.node? c = some m := exists_node?_iff.2 (h i n hn c hc).2

theorem isEmpty_filterMap_subtree (h : a.Ascending) {cs : List Nat}
    (hcs : ∀ c ∈ cs, ∃ m, a.node? c = some m) : (cs.filterMap a.subtree).isEmpty = cs.isEmpty := by
  cases cs with
  | nil => rfl
  | cons c cs =>
    obtain ⟨m, hm⟩ := hcs c List.mem_cons_self
    rw [List.filterMap_cons_some (h.ranked.subtree_of_node? hm)]
    rfl

theorem branchLines_siblings (h : a.Ascending) {n : Node} (hn : a.node? i = some n)
    (below : ∀ c ∈ n.children, ∀ m, a.node? c = some m → ∀ lead,
      branchLines lead (m.children.filterMap a.subtree) =
        (a.addresses c).tail.map fun path => lead ++ a.lineAt c path)
    (lead : String) {k : Nat} {cs : List Nat} (hcs : n.children.drop k = cs) :
    branchLines lead (cs.filterMap a.subtree) =
      (cs.zipIdx k).flatMap fun e => (a.addresses e.1).map fun path =>
        lead ++ a.lineAt i (e.2 :: path) := by
  induction cs generalizing k with
  | nil => simp [branchLines]
  | cons c cs ih =>
    have hk : n.children[k]? = some c := by
      rw [← List.head?_drop, hcs, List.head?_cons]
    have hchild : (a.childrenOf i)[k]? = some c := by rwa [childrenOf_eq hn]
    have hmem := List.mem_of_getElem? hk
    obtain ⟨m, hm⟩ := h.exists_node? hn hmem
    have hrest : n.children.drop (k + 1) = cs := by
      rw [← List.tail_drop, hcs, List.tail_cons]
    -- the rest of the siblings has lines just when the list goes on
    have hlater : (!(cs.filterMap a.subtree).isEmpty) =
        decide (k + 1 < (a.childrenOf i).length) := by
      have hstored : ∀ c ∈ cs, ∃ m, a.node? c = some m := by
        intro c hc
        rw [← hrest] at hc
        exact h.exists_node? hn (List.mem_of_mem_drop hc)
      have hlength : cs.length = n.children.length - (k + 1) := by rw [← hrest, List.length_drop]
      rw [h.isEmpty_filterMap_subtree hstored, childrenOf_eq hn, Bool.eq_iff_iff, Bool.not_eq_true',
        List.isEmpty_eq_false_iff, ← List.length_pos_iff, hlength, decide_eq_true_iff]
      omega
    have htail : ∀ path ∈ (a.addresses c).tail,
        lead ++ bar (!(cs.filterMap a.subtree).isEmpty) ++ a.lineAt c path =
          lead ++ a.lineAt i (k :: path) := by
      intro path hp
      rw [lineAt_cons hchild (h.ranked.ne_nil_of_mem_tail hp), hlater, String.append_assoc]
    rw [List.filterMap_cons_some (h.ranked.subtree_of_node? hm), branchLines_cons,
      below c hmem m hm, List.map_congr_left htail, ih hrest, List.zipIdx_cons, List.flatMap_cons,
      h.ranked.addresses_of_some hm, List.map_cons, List.tail_cons, lineAt_singleton hchild hm,
      hlater, String.append_assoc, List.cons_append]

theorem branchLines_below (h : a.Ascending) {n : Node} (hn : a.node? i = some n) (lead : String) :
    branchLines lead (n.children.filterMap a.subtree) =
      (a.addresses i).tail.map fun path => lead ++ a.lineAt i path := by
  induction i using h.ranked.induction generalizing n lead with
  | step i ih =>
    have hlines := h.branchLines_siblings hn (fun c hc m hm lead => ih n hn c hc hm lead) lead
      List.drop_zero
    rw [hlines, h.ranked.addresses_of_some hn, List.tail_cons, List.map_flatMap]
    simp only [List.map_map, Function.comp_def]

theorem diagram_eq (h : a.Ascending) {r : Nat} {n : Node} (hr : a.root = some r)
    (hn : a.node? r = some n) : a.diagram = endLines ((a.addresses r).map (a.lineAt r)) := by
  have hbelow := h.branchLines_below hn ""
  have hself : a.lineAt r [] = n.data.label := by
    rw [lineAt, labelAt_nil hn]
    exact String.empty_append
  have hdoc : a.document = some ⟨n.data, n.children.filterMap a.subtree⟩ := by
    rw [document, hr, Option.bind_some, h.ranked.subtree_of_node? hn]
  have hlines : diagramLines ⟨n.data, n.children.filterMap a.subtree⟩ =
      (a.addresses r).map (a.lineAt r) := by
    rw [diagramLines, hbelow, h.ranked.addresses_of_some hn, List.map_cons, List.tail_cons, hself]
    simp only [String.empty_append]
  rw [diagram, hdoc]
  exact congrArg endLines hlines

end Ascending

/-- The lines of a drawing with the addresses they are for: all addresses of the document below the
root in their order, as many as the document is long. The line of a node has its label behind four
characters for each level. -/
structure Drawn (a : Arena) (r : Nat) (paths : List (List Nat)) (lines : List String) : Prop where
  ascending : paths.Pairwise (· < ·)
  mem_iff : ∀ path, path ∈ paths ↔ ∃ j, a.follow r path = some j
  split : a.diagram.toList.splitOn '\n' = lines.map String.toList ++ [[]]
  length_paths : paths.length = a.documentLength
  length_lines : lines.length = a.documentLength
  line : ∀ (k : Nat) (path : List Nat), paths[k]? = some path → ∃ (j : Nat) (n : Node),
    a.iter[k]? = some j ∧ a.follow r path = some j ∧ a.node? j = some n ∧
    (margin (a.goesOn r path)).length = 4 * path.length ∧
    lines[k]? = some (margin (a.goesOn r path) ++ n.data.label)

end Arena

namespace Expansion

open Arena Outline

variable {a : Arena} {defaultTag text : String} {limit : Nat}

theorem Sound.drawn (h : Sound a) (unbroken : ∀ i n, a.node? i = some n → n.data.Unbroken) :
    Drawn a 0 (a.addresses 0) ((a.addresses 0).map (a.lineAt 0)) := by
  have hlength : (a.addresses 0).length = a.documentLength := by
    rw [h.ranked.length_addresses, h.documentLength_eq]
  refine ⟨h.ranked.pairwise_addresses 0, fun path => h.ranked.mem_addresses_iff, ?split, hlength,
    (List.length_map _).trans hlength, fun k path hp => ?line⟩
  case split =>
    obtain ⟨n, hn⟩ := exists_node?_iff.2 h.size_pos
    rw [h.ascending.diagram_eq h.root hn]
    refine splitOn_endLines fun l hl => ?_
    obtain ⟨path, hp, rfl⟩ := List.mem_map.1 hl
    obtain ⟨k, hk⟩ := List.mem_iff_getElem?.1 hp
    obtain ⟨j, m, -, hj, hm⟩ := h.ranked.getElem?_addresses hk
    rw [lineAt_of_follow hj hm, String.toList_append, List.mem_append, not_or]
    exact ⟨not_mem_margin _, (unbroken j m hm).not_mem_label⟩
  case line =>
    obtain ⟨j, n, hiter, hj, hn⟩ := h.ranked.getElem?_addresses hp
    refine ⟨j, n, ?_, hj, hn, ?_, ?_⟩
    · rwa [h.ranked.iter_eq, h.root, Option.elim_some]
    · rw [length_margin, length_goesOn hj]
    · rw [List.getElem?_map, hp, Option.map_some, lineAt_of_follow hj hn]

/-- However a built document has been expanded, it is drawn with one line for each of its places, in
document order, as long as the default tag has no line break. -/
theorem diagram_of_build (h : build defaultTag limit text = .ok a)
    (htag : '\n' ∉ defaultTag.toList) (es : List Expander) :
    ∃ r paths lines, (expandAll es a).root = some r ∧ Drawn (expandAll es a) r paths lines := by
  have hs := (sound_of_build h).expandAll es
  have hsingle : ∀ l : Line, l.Unbroken → l.single.Unbroken :=
    fun _ hl => ⟨hl.tag, hl.name, hl.modifiers⟩
  have hlines := forall_data_of_build hsingle h
    (fun hline => Line.unbroken_of_parseChars hline htag) es
  exact ⟨0, _, _, hs.root, hs.drawn hlines⟩

/-- An entry that is listed a second time, with a sibling behind it: the line below its second place
shows a bar for it. -/
theorem diagram_of_build_listed_again :
    '\n' ∉ "div".toList ∧ ∃ a, build "div" 4 "ul\n  li*2\n    a\n  b" = .ok a ∧
      ∃ (lines : List String) (i : Nat),
        (expandAll [⟨.aliased, 20, none⟩] a).diagram.toList.splitOn '\n' =
          lines.map String.toList ++ [[]] ∧
        lines.length = 6 ∧ lines[i]? = some "│   └── div.__a" := by
  let a : Arena :=
    ⟨#[⟨⟨"ul", 0, "div", .block "ul", [], 1, none⟩, none, [1, 3]⟩,
      ⟨⟨"  li*2", 2, "div", .elem "li", [], 2, none⟩, some 0, [2]⟩,
      ⟨⟨"    a", 4, "div", .elem "a", [], 1, none⟩, some 1, []⟩,
      ⟨⟨"  b", 2, "div", .elem "b", [], 1, none⟩, some 0, []⟩], some 0⟩
  have htag : '\n' ∉ "div".toList := by decide
  have hbuild : build "div" 4 "ul\n  li*2\n    a\n  b" = .ok a := rfl
  obtain ⟨r, paths, lines, hr, hdrawn⟩ := diagram_of_build hbuild htag [⟨.aliased, 20, none⟩]
  have hdoc : (expandAll [⟨.aliased, 20, none⟩] a).documentLength = 6 := by decide +kernel
  have hroot : (expandAll [⟨.aliased, 20, none⟩] a).root = some 0 := by decide +kernel
  obtain rfl : r = 0 := Option.some.inj (hr.symm.trans hroot)
  have hfollow : (expandAll [⟨.aliased, 20, none⟩] a).follow 0 [1, 0] = some 2 := by decide +kernel
  obtain ⟨i, hi⟩ := List.mem_iff_getElem?.1 ((hdrawn.mem_iff [1, 0]).2 ⟨2, hfollow⟩)
  obtain ⟨j, n, -, hj, hn, -, hline⟩ := hdrawn.line i [1, 0] hi
  obtain rfl : j = 2 := Option.some.inj (hj.symm.trans hfollow)
  have hnode : (expandAll [⟨.aliased, 20, none⟩] a).node? 2 =
      some ⟨⟨"    a", 4, "div", .elem "a", [], 1, none⟩, some 1, []⟩ := by decide +kernel
  obtain rfl := Option.some.inj (hn.symm.trans hnode)
  have hgoes : (expandAll [⟨.aliased, 20, none⟩] a).goesOn 0 [1, 0] = [true, false] := by
    decide +kernel
  refine ⟨htag, a, hbuild, lines, i, hdrawn.split, hdrawn.length_lines.trans hdoc, hline.trans ?_⟩
  rw [hgoes]
  rfl

end Expansion

end BemOutline

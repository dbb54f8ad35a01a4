import BemOutline.Proofs.Expansion.Nested
import BemOutline.Proofs.Expansion.StepLimit
import BemOutline.Proofs.Expansion.Treelike

/-! What runs leave of an arena, wherever they stop. The children lead downwards and name their
parents, and of the nodes that were there only the counts and the children change. -/

namespace BemOutline.Expansion

open Arena Outline

variable {a b : Arena} {mode : Mode} {k p x : Nat}

/-- An arena that has come from another one: it has the same root, and every node of the other one
up to its count and its children. -/
structure Extends (a b : Arena) : Prop where
  root : b.root = a.root
  node : ∀ {i n}, a.node? i = some n → ∃ count children,
    b.node? i = some { n with data := { n.data with count := count }, children := children }

namespace Extends

theorem refl (a : Arena) : Extends a a := ⟨rfl, fun hn => ⟨_, _, hn⟩⟩

theorem trans {c : Arena} (h : Extends a b) (h' : Extends b c) : Extends a c where
  root := h'.root.trans h.root
  node hn := by
    obtain ⟨count, children, hm⟩ := h.node hn
    obtain ⟨count', children', hm'⟩ := h'.node hm
    exact ⟨count', children', hm'⟩

theorem resetCount (a : Arena) (x : Nat) : Extends a (resetCount a x) where
  root := rfl
  node {i n} hn := by
    refine ⟨if i = x then 1 else n.data.count, n.children, ?_⟩
    rw [node?_resetCount_of_some x hn]
    split <;> rfl

theorem replaceSlot (h : Sound a) (hx : a.Lists p k x) (mode : Mode) :
    Extends a (replaceSlot mode a x p k) := by
  obtain ⟨n, hn, hk⟩ := id hx
  obtain ⟨-, m, hm, -⟩ := h.child hn x (List.mem_of_getElem? hk)
  refine ⟨(h.replaceSlot hx mode).root.trans h.root.symm, fun {i n} hn => ?_⟩
  refine ⟨if i = x then 1 else n.data.count, ?_⟩
  rw [h.node?_replaceSlot (node?_lt hm) mode p k (node?_lt hn), hn, Option.map_some]
  exact ⟨_, by split <;> rfl⟩

theorem expandAll (h : Sound a) (es : List Expander) : Extends a (expandAll es a) := by
  have hboth := expandAll_induction (P := fun b => Sound b ∧ Extends a b)
    (fun ⟨hb, hab⟩ _ => ⟨hb.resetCount _, hab.trans (resetCount ..)⟩)
    (fun mode ⟨hb, hab⟩ hx _ => ⟨hb.replaceSlot hx mode, hab.trans (replaceSlot hb hx mode)⟩) es
    ⟨h, refl a⟩
  exact hboth.2

end Extends

theorem size_expandAll_aliased (a : Arena) {es : List Expander}
    (hes : ∀ e ∈ es, e.mode = .aliased) : (expandAll es a).size = a.size :=
  expandAll_induction_of_mem (P := fun b => b.size = a.size)
    (fun hb _ => (size_modify ..).trans hb)
    (fun e he hb _ _ => by rw [hes e he, size_replaceSlot_aliased, hb]) rfl

theorem nested_of_build {defaultTag text : String} {limit : Nat}
    (h : build defaultTag limit text = .ok a) : Nested a := by
  have hs := sound_of_build h
  intro i n hn c m hc hm
  obtain ⟨-, m', hm', hparent⟩ := hs.child hn c hc
  rw [hm] at hm'
  obtain rfl := Option.some.inj hm'
  rw [← depthOf_eq hn]
  obtain ⟨-, rfl⟩ := build_eq_ok h
  exact depth_arenaOf (depthIn_accepted defaultTag text) hm hparent

theorem treelike_of_build {defaultTag text : String} {limit : Nat}
    (h : build defaultTag limit text = .ok a) : Treelike a where
  unshared := unshared_of_build h
  size := by
    rw [(sound_of_build h).documentLength_eq, order_of_build h, List.length_range]

/-- An arena that has come from another one and still has the form of a document: no node stands
below itself, every child is there, names the node that lists it as its parent, and is deeper than
that unless it has depth 0 below the root. -/
structure Intact (a b : Arena) : Prop where
  kept : Extends a b
  acyclic : ∀ i, ¬ Relation.TransGen b.Child i i
  parent : ∀ {i c}, b.Child i c → ∃ m, b.node? c = some m ∧ m.parent = some i
  depth : ∀ {i c}, b.Child i c → b.depthOf i < b.depthOf c ∨ b.depthOf c = 0 ∧ b.root = some i

theorem Sound.intact (h : Sound a) (hn : Nested a) (es : List Expander) :
    Intact a (Expansion.expandAll es a) where
  kept := .expandAll h es
  acyclic := (h.expandAll es).ascending.acyclic
  parent := by
    rintro i c ⟨n, hi, hc⟩
    exact ((h.expandAll es).child hi c hc).2
  depth := by
    rintro i c ⟨n, hi, hc⟩
    obtain ⟨-, m, hm, -⟩ := (h.expandAll es).child hi c hc
    rw [depthOf_eq hi, depthOf_eq hm, (h.expandAll es).root, Option.some.injEq, eq_comm (a := 0)]
    exact hn.expandAll h es i n hi c m hc hm

theorem Treelike.existsUnique_slot_expandAll (h : Treelike a) {es : List Expander}
    (hes : ∀ e ∈ es, e.mode = .copy) {i : Nat} (hi : (Expansion.expandAll es a).isNode i)
    (hroot : (Expansion.expandAll es a).root ≠ some i) :
    ∃! slot : Nat × Nat, (Expansion.expandAll es a).Lists slot.1 slot.2 i := by
  have hb := h.expandAll hes
  refine hb.existsUnique_slot (isNode_iff.1 hi) ?_
  rintro rfl
  exact hroot hb.unshared.sound.root

/-- However a built document has been expanded so far, further runs of any modes and limits leave it
intact. If only copies have been made, every node but the root stands in one slot, and there are as
many nodes as the document is long; if nodes have only been listed again, no node is new. -/
theorem intact_expandAll_of_build {defaultTag text : String} {limit : Nat}
    (h : build defaultTag limit text = .ok a) :
    (∀ es fs, Intact (expandAll es a) (expandAll fs (expandAll es a))) ∧
      (∀ es, (∀ e ∈ es, e.mode = .copy) →
        (∀ i, (expandAll es a).isNode i → (expandAll es a).root ≠ some i →
          ∃! slot : Nat × Nat, (expandAll es a).Lists slot.1 slot.2 i) ∧
        (expandAll es a).size = (expandAll es a).documentLength) ∧
      ∀ es, (∀ e ∈ es, e.mode = .aliased) →
        (expandAll es a).size = a.size ∧ ∀ i, (expandAll es a).isNode i = a.isNode i := by
  have hs := sound_of_build h
  refine ⟨fun es fs => ?_, fun es hes => ?_, fun es hes => ?_⟩
  · exact (hs.expandAll es).intact ((nested_of_build h).expandAll hs es) fs
  · have ht := treelike_of_build h
    exact ⟨fun i => ht.existsUnique_slot_expandAll hes, (ht.expandAll hes).size⟩
  · have hsize := size_expandAll_aliased a hes
    refine ⟨hsize, fun i => ?_⟩
    rw [Bool.eq_iff_iff, isNode_iff, isNode_iff, hsize]

/-- A count inside of another one: first two copies, the run being stopped there, and then entries
that are listed again. -/
theorem intact_expandAll_of_build_nested :
    ∃ a, build "div" 2 "ul*2\n  li*3\n    a*2" = .ok a ∧
      Intact (expandAll [⟨.copy, 2, none⟩] a)
        (expandAll [⟨.aliased, 1, some 9⟩] (expandAll [⟨.copy, 2, none⟩] a)) ∧
      (expandAll [⟨.copy, 2, none⟩] a).size = 7 ∧
      (∃! slot : Nat × Nat, (expandAll [⟨.copy, 2, none⟩] a).Lists slot.1 slot.2 4) ∧
      (expandAll [⟨.aliased, 9, none⟩] a).size = 3 := by
  let a : Arena :=
    ⟨#[⟨⟨"ul*2", 0, "div", .block "ul", [], 2, none⟩, none, [1]⟩,
      ⟨⟨"  li*3", 2, "div", .elem "li", [], 3, none⟩, some 0, [2]⟩,
      ⟨⟨"    a*2", 4, "div", .elem "a", [], 2, none⟩, some 1, []⟩], some 0⟩
  have hbuild : build "div" 2 "ul*2\n  li*3\n    a*2" = .ok a := rfl
  obtain ⟨hintact, hcopies, hshared⟩ := intact_expandAll_of_build hbuild
  obtain ⟨hslots, hsize⟩ := hcopies [⟨.copy, 2, none⟩] (by decide)
  have hlength : (expandAll [⟨.copy, 2, none⟩] a).documentLength = 7 := by decide +kernel
  have hnode : (expandAll [⟨.copy, 2, none⟩] a).isNode 4 := by decide +kernel
  have hroot : (expandAll [⟨.copy, 2, none⟩] a).root ≠ some 4 := by decide +kernel
  exact ⟨a, hbuild, hintact _ _, hsize.trans hlength, hslots 4 hnode hroot,
    (hshared [⟨.aliased, 9, none⟩] (by decide)).1⟩

end BemOutline.Expansion

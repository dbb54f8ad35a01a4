import BemOutline.Proofs.Arena.RawValue
import BemOutline.Proofs.Expansion.Meaning
import BemOutline.Proofs.Outline.Built

/-! Expansions of built documents. Copying and listing again, in any order and stopped anywhere,
refine the same tree. -/

namespace BemOutline.Expansion

open Arena Outline

variable {a : Arena} {t : Tree}

namespace Sound

theorem document_eq (h : Sound a) : a.document = a.subtree 0 := by
  rw [document, h.root]
  rfl

theorem exists_document (h : Sound a) : ∃ t, a.document = some t := by
  rw [h.document_eq]
  exact h.ranked.exists_subtree_iff.2 h.size_pos

theorem count_of_mem_preorder (h : Sound a) (ht : a.document = some t) {l : Line}
    (hl : l ∈ t.preorder) : 1 ≤ l.count := by
  rw [h.document_eq] at ht
  obtain ⟨j, -, n, hn, rfl⟩ := (h.ranked.mem_preorder ht).1 hl
  exact h.count hn

theorem count_eq_one_of_firstMultiple_eq_none (h : Sound a) (hnone : firstMultiple a = none)
    (ht : a.document = some t) : ∀ l ∈ t.preorder, l.count = 1 := by
  rw [h.document_eq] at ht
  intro l hl
  obtain ⟨j, hj, n, hn, rfl⟩ := (h.ranked.mem_preorder ht).1 hl
  have hiter : j ∈ a.iter := by
    rwa [h.ranked.iter_eq, h.root]
  have hle := countOf_le_one h.ranked hnone hiter
  rw [countOf_eq hn] at hle
  exact Nat.le_antisymm hle (h.count hn)

theorem full_of_firstMultiple_eq_none (h : Sound a) (hnone : firstMultiple a = none)
    (ht : a.document = some t) : t.full = t :=
  Tree.full_eq_self (h.count_eq_one_of_firstMultiple_eq_none hnone ht)

theorem expandAll (h : Sound a) (es : List Expander) : Sound (expandAll es a) :=
  expandAll_induction (fun h _ => h.resetCount _) (fun mode h hx _ => h.replaceSlot hx mode) es h

theorem fullAt_expandAll (h : Sound a) (es : List Expander) :
    fullAt (Expansion.expandAll es a) 0 = fullAt a 0 := by
  -- the meaning is kept only while the arena is sound, so both go through the steps together
  have hboth := expandAll_induction (P := fun b => Sound b ∧ fullAt b 0 = fullAt a 0)
    (fun ⟨hb, hfull⟩ hr => ⟨hb.resetCount _, (fullAt_resetCount hb hr hb.size_pos).trans hfull⟩)
    (fun mode ⟨hb, hfull⟩ hx hcount =>
      ⟨hb.replaceSlot hx mode, (fullAt_replaceSlot hb hx hcount mode hb.size_pos).trans hfull⟩)
    es ⟨h, rfl⟩
  exact hboth.2

theorem document_expandAll (h : Sound a) (ht : a.document = some t) (es : List Expander) :
    ∃ u, (Expansion.expandAll es a).document = some u ∧ u.full = t.full := by
  have hb := h.expandAll es
  obtain ⟨u, hu⟩ := hb.exists_document
  have hfull := h.fullAt_expandAll es
  refine ⟨u, hu, ?_⟩
  rw [hb.document_eq] at hu
  rw [h.document_eq] at ht
  rw [fullAt_of_subtree hu, fullAt_of_subtree ht] at hfull
  exact Option.some.inj hfull

theorem single_mem_expandAll_iff (h : Sound a) (ht : a.document = some t) {es : List Expander}
    {u : Tree} (hu : (Expansion.expandAll es a).document = some u) (l : Line) :
    (∃ m ∈ u.preorder, m.single = l) ↔ ∃ m ∈ t.preorder, m.single = l := by
  obtain ⟨u', hu', hfull⟩ := h.document_expandAll ht es
  rw [hu] at hu'
  cases hu'
  rw [← Tree.mem_preorder_full fun _ hm => h.count_of_mem_preorder ht hm, ← hfull,
    Tree.mem_preorder_full fun _ hm => (h.expandAll es).count_of_mem_preorder hu hm]

theorem document_of_complete (h : Sound a) (ht : a.document = some t) (es : List Expander)
    (e : Expander) (hcomplete : (expand e (Expansion.expandAll es a)).2.isComplete) :
    (expand e (Expansion.expandAll es a)).1.document = some t.full := by
  have happend := expandAll_append es [e] a
  obtain ⟨u, hu, hfull⟩ := h.document_expandAll ht (es ++ [e])
  have hb := h.expandAll (es ++ [e])
  rw [happend] at hu hb
  have hnone := (isComplete_expand_iff e _).1 hcomplete
  have hself := hb.full_of_firstMultiple_eq_none hnone hu
  change (Expansion.expandAll [e] (Expansion.expandAll es a)).document = _
  rw [hu, ← hself, hfull]

end Sound

theorem sound_arenaOf {ls : List Line} (hne : ls ≠ [])
    (hcount : ∀ {i : Nat} {l : Line}, ls[i]? = some l → 1 ≤ l.count) : Sound (arenaOf ls) where
  root := root_arenaOf hne
  size_pos := by
    rw [size_arenaOf]
    exact List.length_pos_iff.2 hne
  child {i n} hn c hc := by
    obtain ⟨hi, rfl⟩ := node?_arenaOf_eq_some hn
    obtain ⟨hlt, h0, rfl⟩ := mem_children_nodeAt.1 hc
    exact ⟨parentIndex_lt (Nat.pos_of_ne_zero h0), _, node?_arenaOf hlt, if_neg h0⟩
  once {i c n m} hn _ _ := by
    obtain ⟨hi, rfl⟩ := node?_arenaOf_eq_some hn
    exact List.nodup_iff_count_le_one.1 (pairwise_children_nodeAt hi).nodup c
  count hn := hcount (getElem?_of_node?_arenaOf hn)

theorem sound_of_build {defaultTag text : String} {limit : Nat}
    (h : build defaultTag limit text = .ok a) : Sound a := by
  obtain ⟨hne, rfl⟩ := build_eq_ok h
  exact sound_arenaOf hne count_accepted

theorem order_of_build {defaultTag text : String} {limit : Nat}
    (h : build defaultTag limit text = .ok a) : a.order 0 = List.range a.size := by
  obtain ⟨-, rfl⟩ := build_eq_ok h
  rw [order_arenaOf, size_arenaOf]

theorem mem_preorder_of_build {defaultTag text : String} {limit : Nat}
    (h : build defaultTag limit text = .ok a) (ht : a.document = some t) {l : Line} :
    l ∈ t.preorder ↔ l ∈ acceptedLines defaultTag text := by
  have hs := sound_of_build h
  rw [hs.document_eq] at ht
  rw [hs.ranked.mem_preorder ht]
  obtain ⟨-, rfl⟩ := build_eq_ok h
  generalize acceptedLines defaultTag text = ls
  constructor
  · rintro ⟨j, -, n, hn, rfl⟩
    obtain ⟨hj, rfl⟩ := node?_arenaOf_eq_some hn
    exact List.getElem_mem hj
  · intro hl
    obtain ⟨j, hj, rfl⟩ := List.mem_iff_getElem.1 hl
    exact ⟨j, mem_order_root hj, _, node?_arenaOf hj, rfl⟩

theorem forall_mem_expandAll_iff {defaultTag text : String} {limit : Nat}
    (h : build defaultTag limit text = .ok a) {es : List Expander} {u : Tree}
    (hu : (expandAll es a).document = some u) {P : Line → Prop} (hP : ∀ l, P l.single ↔ P l) :
    (∀ l ∈ u.preorder, P l) ↔ ∀ l ∈ acceptedLines defaultTag text, P l := by
  have hs := sound_of_build h
  obtain ⟨t, ht⟩ := hs.exists_document
  have hsingle := hs.single_mem_expandAll_iff ht hu
  constructor
  · intro hall l hl
    obtain ⟨m, hm, heq⟩ := (hsingle l.single).2 ⟨l, (mem_preorder_of_build h ht).2 hl, rfl⟩
    rw [← hP, ← heq, hP]
    exact hall m hm
  · intro hall l hl
    obtain ⟨m, hm, heq⟩ := (hsingle l.single).1 ⟨l, hl, rfl⟩
    rw [← hP, ← heq, hP]
    exact hall m ((mem_preorder_of_build h ht).1 hm)

/-- Runs of any modes and limits keep what the built document stands for, a run that reports no
overrun ends with just that, and so the mode makes no difference to the raw value. -/
theorem expandAll_refines_full {defaultTag text : String} {limit : Nat}
    (h : build defaultTag limit text = .ok a) :
    ∃ t, a.document = some t ∧
      (∀ es, ∃ u, (expandAll es a).document = some u ∧ u.full = t.full) ∧
      (∀ es e, (expand e (expandAll es a)).2.isComplete →
        (expand e (expandAll es a)).1.document = some t.full) ∧
      ∀ e e', (expand e a).2.isComplete → (expand e' a).2.isComplete →
        (expand e a).1.document = (expand e' a).1.document ∧
          ∀ levels, (expand e a).1.toRaw levels = (expand e' a).1.toRaw levels := by
  have hs := sound_of_build h
  obtain ⟨t, ht⟩ := hs.exists_document
  refine ⟨t, ht, hs.document_expandAll ht, hs.document_of_complete ht, ?_⟩
  intro e e' he he'
  have hd := hs.document_of_complete ht [] e he
  have hd' := hs.document_of_complete ht [] e' he'
  refine ⟨hd.trans hd'.symm, fun levels => ?_⟩
  exact ((hs.expandAll [e]).ascending.toRaw_eq levels hd).trans
    ((hs.expandAll [e']).ascending.toRaw_eq levels hd').symm

/-- Counts inside of each other, expanded in either mode and by a run that stops at its second
step. -/
theorem expandAll_refines_full_outline :
    ∃ a t u, build "div" 2 "ul*2\n  li*3\n    a*2" = .ok a ∧ a.document = some t ∧
      (expand ⟨.copy, 20, none⟩ a).1.document = some t.full ∧
      (expand ⟨.aliased, 20, none⟩ a).1.document = some t.full ∧
      (expand ⟨.copy, 2, none⟩ a).1.document = some u ∧ u.full = t.full := by
  let a : Arena :=
    ⟨#[⟨⟨"ul*2", 0, "div", .block "ul", [], 2, none⟩, none, [1]⟩,
      ⟨⟨"  li*3", 2, "div", .elem "li", [], 3, none⟩, some 0, [2]⟩,
      ⟨⟨"    a*2", 4, "div", .elem "a", [], 2, none⟩, some 1, []⟩], some 0⟩
  have hbuild : build "div" 2 "ul*2\n  li*3\n    a*2" = .ok a := rfl
  obtain ⟨t, ht, hmeaning, hfull, -⟩ := expandAll_refines_full hbuild
  obtain ⟨u, hu, hut⟩ := hmeaning [⟨.copy, 2, none⟩]
  exact ⟨a, t, u, hbuild, ht, hfull [] ⟨.copy, 20, none⟩ (by decide +kernel),
    hfull [] ⟨.aliased, 20, none⟩ (by decide +kernel), hu, hut⟩

end BemOutline.Expansion

import BemOutline.Proofs.Expansion.Runs
import BemOutline.Proofs.Expansion.Sound

/-! The depths of the nodes while counts are expanded. A copy is as deep as what it copies, and so
every node stays deeper than its parent where it was so before. -/

namespace BemOutline.Expansion

open Arena

variable {a : Arena} {i k p x : Nat}

def Relates (a : Arena) (R : Line → Line → Prop) (n : Node) : Prop :=
  ∀ (c : Nat) (m : Node), c ∈ n.children → a.node? c = some m → R n.data m.data

/-- Every child is deeper than its parent, or has depth 0 below node 0. -/
def Nested (a : Arena) : Prop :=
  ∀ (i : Nat) (n : Node), a.node? i = some n →
    Relates a (fun l m => l.depth < m.depth ∨ m.depth = 0 ∧ i = 0) n

theorem depth_ite_single (i x : Nat) (l : Line) :
    (if i = x then l.single else l).depth = l.depth := by
  split <;> rfl

namespace Nested

theorem resetCount (h : Nested a) (x : Nat) : Nested (resetCount a x) := by
  intro i n' hn' c m' hc hm'
  rw [node?_resetCount] at hn' hm'
  obtain ⟨n, hn, rfl⟩ := Option.map_eq_some_iff.1 hn'
  obtain ⟨m, hm, rfl⟩ := Option.map_eq_some_iff.1 hm'
  rw [depth_ite_single, depth_ite_single]
  exact h i n hn c m hc hm

theorem enlarged {b : Arena} {made : List Nat} (h : Nested a) (hs : Sound a) (hx : 0 < x)
    (hb : Enlarged a x p b made) : Nested b := by
  intro i n hn c m hc hm
  rcases hb.node?_cases hn with hna | hi
  · rw [hb.old c (hs.ascending i n hna c hc).2] at hm
    exact h i n hna c m hc hm
  · obtain ⟨j, n', hj, hn', hdata, hchildren⟩ := hb.repeats hi hn
    obtain ⟨d, hd, heq⟩ := hchildren c hc
    rw [hm, Option.map_some, eq_comm] at heq
    obtain ⟨m', hm', hdata'⟩ := Option.map_eq_some_iff.1 heq
    rw [hdata, ← hdata']
    exact .inl ((h j n' hn' d m' hd hm').resolve_right fun hroot =>
      Nat.ne_of_gt (hx.trans_le hj) hroot.2)

theorem splice (h : Nested a) {ids : List Nat}
    (hids : ∀ n y m, a.node? p = some n → y ∈ ids → a.node? y = some m →
      n.data.depth < m.data.depth ∨ m.data.depth = 0 ∧ p = 0) : Nested (splice a p k ids) := by
  intro i n' hn' c m' hc hm'
  obtain ⟨n, hn, hdata, hcases⟩ := splice_cases hn'
  obtain ⟨m, hm, hdata', -⟩ := splice_cases hm'
  rw [hdata, hdata']
  obtain hc | ⟨rfl, hc⟩ := hcases c hc
  · exact h i n hn c m hc hm
  · exact hids n c m hn hc hm

theorem replaceSlot (h : Nested a) (hs : Sound a) (hx : a.Lists p k x) (mode : Mode) :
    Nested (replaceSlot mode a x p k) := by
  obtain ⟨n, hn, hk⟩ := id hx
  have hxn := List.mem_of_getElem? hk
  obtain ⟨hlt, m, hm, -⟩ := hs.child hn x hxn
  obtain ⟨made, hb, -⟩ := hs.exists_enlarged (node?_lt hm) mode p
  have hpr := node?_resetCount_of_some x hn
  have hnested := (h.resetCount x).enlarged (hs.resetCount x) (Nat.zero_lt_of_lt hlt) hb
  rw [replaceSlot_eq]
  refine hnested.splice fun n' y m' hn' hy hm' => ?_
  rw [hb.old p (node?_lt hpr), hpr] at hn'
  obtain rfl := Option.some.inj hn'
  -- every sibling has the line of the replaced entry, up to the count
  obtain ⟨-, m'', hm'', -, hdata⟩ := hs.node?_sibling hx mode hm hy
  obtain rfl := Option.some.inj (hm''.symm.trans hm')
  rw [hdata, depth_ite_single]
  exact h p n hn x m hxn hm

theorem expandAll (h : Nested a) (hs : Sound a) (es : List Expander) : Nested (expandAll es a) := by
  have hboth := expandAll_induction (P := fun b => Sound b ∧ Nested b)
    (fun ⟨hb, hn⟩ _ => ⟨hb.resetCount _, hn.resetCount _⟩)
    (fun mode ⟨hb, hn⟩ hx _ => ⟨hb.replaceSlot hx mode, hn.replaceSlot hb hx mode⟩) es ⟨hs, h⟩
  exact hboth.2

end Nested

end BemOutline.Expansion

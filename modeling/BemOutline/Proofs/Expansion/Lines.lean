import BemOutline.Proofs.Expansion.Refinement

/-! The lines of the nodes in expanded arenas. Nodes are stored with the lines of other nodes, and
of the line of a node only the count changes. What holds of every line that a token can stand for,
and does not need the count, holds of all nodes. -/

namespace BemOutline.Expansion

open Arena Outline

variable {a : Arena} {x p k : Nat} {P : Line → Prop} (single : ∀ l, P l → P l.single)
include single

theorem forall_data_resetCount (hP : ∀ i n, a.node? i = some n → P n.data) (x : Nat) :
    ∀ i n, (resetCount a x).node? i = some n → P n.data := by
  intro i n' hn'
  rw [node?_resetCount] at hn'
  obtain ⟨n, hn, rfl⟩ := Option.map_eq_some_iff.1 hn'
  change P (if i = x then n.data.single else n.data)
  split
  · exact single _ (hP i n hn)
  · exact hP i n hn

theorem Sound.forall_data_replaceSlot (h : Sound a) (hx : a.Lists p k x)
    (hP : ∀ i n, a.node? i = some n → P n.data) (mode : Mode) :
    ∀ i n, (Expansion.replaceSlot mode a x p k).node? i = some n → P n.data := by
  intro i n' hn'
  obtain ⟨made, hb, -⟩ := h.exists_enlarged (h.lt_of_lists hx) mode p
  have hreset := forall_data_resetCount single hP x
  rw [replaceSlot_eq] at hn'
  obtain ⟨n, hn, hdata', -⟩ := splice_cases hn'
  rw [hdata']
  rcases hb.node?_cases hn with hnr | hi
  · exact hreset i n hnr
  · -- a new node has the line of one that was there when the count had been reset
    obtain ⟨j, m, -, hm, hdata, -⟩ := hb.repeats hi hn
    exact hdata ▸ hreset j m hm

theorem Sound.forall_data_expandAll (h : Sound a) (hP : ∀ i n, a.node? i = some n → P n.data)
    (es : List Expander) : ∀ i n, (Expansion.expandAll es a).node? i = some n → P n.data := by
  have hboth := expandAll_induction
    (P := fun b => Sound b ∧ ∀ i n, b.node? i = some n → P n.data)
    (fun ⟨hs, hb⟩ _ => ⟨hs.resetCount _, forall_data_resetCount single hb _⟩)
    (fun mode ⟨hs, hb⟩ hx _ =>
      ⟨hs.replaceSlot hx mode, hs.forall_data_replaceSlot single hx hb mode⟩) es ⟨h, hP⟩
  exact hboth.2

theorem forall_data_of_build {defaultTag text : String} {limit : Nat}
    (h : build defaultTag limit text = .ok a)
    (parsed : ∀ {number seen cs l},
      Line.parseChars defaultTag.toList number seen cs = .ok (some l) → P l)
    (es : List Expander) : ∀ i n, (expandAll es a).node? i = some n → P n.data := by
  have hbuilt : ∀ i n, a.node? i = some n → P n.data := by
    obtain ⟨-, rfl⟩ := build_eq_ok h
    intro i n hn
    obtain ⟨number, line, hline⟩ := exists_parseChars_of_accepted (getElem?_of_node?_arenaOf hn)
    exact parsed hline
  exact (sound_of_build h).forall_data_expandAll single hbuilt es

end BemOutline.Expansion

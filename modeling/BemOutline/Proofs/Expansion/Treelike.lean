import BemOutline.Proofs.Expansion.Growth
import BemOutline.Proofs.Expansion.Unfolding
import Mathlib.Data.List.Perm.Subperm

/-! Documents of which only copies are made. Each of their nodes stands in one place, and no node is
stored that stands nowhere. -/

namespace BemOutline.Expansion

open Arena

variable {a : Arena} {i k p x : Nat} {t : Tree}

theorem Unshared.nodup_order (h : Unshared a) (i : Nat) : (a.order i).Nodup := by
  induction i using h.sound.ranked.induction with
  | step i ih =>
    cases hn : a.node? i with
    | none =>
      rw [h.sound.ranked.order_of_none hn]
      exact List.nodup_nil
    | some n =>
      rw [h.sound.ranked.order_of_some hn, List.nodup_cons, List.nodup_flatMap]
      refine ⟨fun hi => ?_, ih n hn, (h.nodup hn).imp_of_mem fun {c d} hc hd hne q hqc hqd => ?_⟩
      · obtain ⟨c, hc, hi⟩ := List.mem_flatMap.1 hi
        exact h.sound.not_mem_order_of_child hn hc hi
      · exact hne (h.sound.eq_of_mem_order hn hc hd hqc hqd)

/-- An arena in which no node is listed twice, with as many nodes as its document. -/
structure Treelike (a : Arena) : Prop where
  unshared : Unshared a
  size : a.size = a.documentLength

namespace Treelike

theorem perm_order (h : Treelike a) : (a.order 0).Perm (List.range a.size) := by
  have hs := h.unshared.sound
  have hsubset : a.order 0 ⊆ List.range a.size := by
    intro i hi
    exact List.mem_range.2 (isNode_iff.1 (hs.ranked.isNode_of_mem_order hi))
  apply ((h.unshared.nodup_order 0).subperm hsubset).perm_of_length_le
  rw [List.length_range, h.size, hs.documentLength_eq]

theorem mem_order (h : Treelike a) (hi : i < a.size) : i ∈ a.order 0 :=
  h.perm_order.mem_iff.2 (List.mem_range.2 hi)

theorem existsUnique_slot (h : Treelike a) (hi : i < a.size) (h0 : i ≠ 0) :
    ∃! slot : Nat × Nat, a.Lists slot.1 slot.2 i := by
  have hs := h.unshared.sound
  obtain heq | ⟨r, n, -, hn, hin⟩ := hs.exists_parent_of_mem_order (h.mem_order hi)
  · exact absurd heq h0
  · obtain ⟨k, hk⟩ := List.mem_iff_getElem?.1 hin
    refine ⟨(r, k), ⟨n, hn, hk⟩, ?_⟩
    rintro ⟨q, l⟩ ⟨m, hm, hl⟩
    obtain rfl := hs.eq_of_mem_children hn hm hin (List.mem_of_getElem? hl)
    obtain rfl := Option.some.inj (hn.symm.trans hm)
    have hlt := (List.getElem?_eq_some_iff.1 hl).1
    exact Prod.ext rfl ((List.getElem?_inj hlt (h.unshared.nodup hn)).1 (hl.trans hk.symm))

theorem resetCount (h : Treelike a) (x : Nat) : Treelike (resetCount a x) where
  unshared := h.unshared.resetCount x
  size := by
    rw [h.unshared.sound.documentLength_resetCount, Expansion.resetCount, size_modify, h.size]

/-- A copy takes as many new nodes as it adds to the document, since its place is there once. -/
theorem replaceSlot (h : Treelike a) (hx : a.Lists p k x) (hcount : 1 < countOf a x) :
    Treelike (replaceSlot .copy a x p k) where
  unshared := h.unshared.replaceSlot hx
  size := by
    have hs := h.unshared.sound
    rw [hs.documentLength_replaceSlot hx hcount]
    obtain ⟨n, hn, hk⟩ := hx
    obtain ⟨-, m, hm, -⟩ := hs.child hn x (List.mem_of_getElem? hk)
    have hlength : (Expansion.resetCount a x).subtreeLength x = (a.order x).length := by
      rw [(hs.resetCount x).ranked.subtreeLength_eq, hs.order_resetCount]
    have honce : (a.order 0).count p = 1 :=
      List.count_eq_one_of_mem (h.unshared.nodup_order 0) (h.mem_order (node?_lt hn))
    rw [hs.size_replaceSlot (node?_lt hm), hs.growth_eq, hlength, honce, Nat.mul_one, h.size]

theorem expandAll (h : Treelike a) {es : List Expander} (hes : ∀ e ∈ es, e.mode = .copy) :
    Treelike (expandAll es a) :=
  expandAll_induction_of_mem (fun h _ => h.resetCount _)
    (fun e he h hx hcount => hes e he ▸ h.replaceSlot hx hcount) h

end Treelike

end BemOutline.Expansion

import BemOutline.Proofs.Expansion.Growth

/-! When a run stops at its node limit. Every step brings the length of the document closer to that
of the tree it stands for, whatever the mode, so that the final length alone decides. -/

namespace BemOutline.Expansion

open Arena Outline

variable {a : Arena} {mode : Mode} {k l m p x : Nat} {t : Tree}

namespace Sound

theorem documentLength_eq_size (h : Sound a) (ht : a.document = some t) :
    a.documentLength = t.size := by
  rw [h.document_eq] at ht
  rw [h.documentLength_eq, h.ranked.length_order ht]

theorem document_full (h : Sound a) (hfull : fullAt a 0 = some t) :
    ∃ u, a.document = some u ∧ u.full = t := by
  obtain ⟨u, hu⟩ := h.exists_document
  refine ⟨u, hu, ?_⟩
  rw [h.document_eq] at hu
  rw [fullAt_of_subtree hu] at hfull
  exact Option.some.inj hfull

theorem documentLength_le (h : Sound a) (hfull : fullAt a 0 = some t) :
    a.documentLength ≤ t.size := by
  obtain ⟨u, hu, rfl⟩ := h.document_full hfull
  rw [h.documentLength_eq_size hu]
  exact Tree.size_le_size_full fun l hl => h.count_of_mem_preorder hu hl

theorem documentLength_of_firstMultiple_eq_none (h : Sound a) (hfull : fullAt a 0 = some t)
    (hnone : firstMultiple a = none) : a.documentLength = t.size := by
  obtain ⟨u, hu, rfl⟩ := h.document_full hfull
  rw [h.documentLength_eq_size hu, h.full_of_firstMultiple_eq_none hnone hu]

theorem growth_pos (h : Sound a) (hx : firstMultiple a = some ⟨x, some (p, k)⟩) :
    0 < growth a x p := by
  obtain ⟨hcount, n, hn, hk⟩ := lists_of_firstMultiple hx
  have hp := h.ranked.mem_order_of_firstBelow (h.firstBelow_of_firstMultiple hx)
  have hxx := h.ranked.mem_order_self (h.ascending p n hn x (List.mem_of_getElem? hk)).2
  rw [h.growth_eq]
  exact Nat.mul_pos (Nat.mul_pos (Nat.sub_pos_of_lt hcount) (List.length_pos_of_mem hxx))
    (List.count_pos_iff.2 hp)

theorem overrun_expand (h : Sound a) (ht : a.document = some t)
    (hsteps : (expand ⟨mode, l, some m⟩ a).2.overrun ≠ some (.stepLimit l)) :
    (expand ⟨mode, l, some m⟩ a).2.overrun = some (.nodeLimit m) ∧
        m < t.full.size ∧ a.documentLength < t.full.size ∨
      (expand ⟨mode, l, some m⟩ a).2.overrun = none ∧
        (expand ⟨mode, l, some m⟩ a).1.documentLength = t.full.size ∧
        ¬ (m < t.full.size ∧ a.documentLength < t.full.size) := by
  have hmeans := h.fullAt_expandAll [⟨mode, l, some m⟩]
  rw [h.document_eq] at ht
  rw [fullAt_of_subtree ht] at hmeans
  change fullAt (expand ⟨mode, l, some m⟩ a).1 0 = _ at hmeans
  obtain ⟨length, hend, hstops⟩ := h.expand_stops ⟨mode, l, some m⟩
  generalize (expand ⟨mode, l, some m⟩ a).2.overrun = overrun at hsteps hstops ⊢
  generalize (expand ⟨mode, l, some m⟩ a).1 = b at hmeans hend hstops ⊢
  cases hstops with
  | complete hnone =>
    have hlength := hend.sound.documentLength_of_firstMultiple_eq_none hmeans hnone
    refine .inr ⟨rfl, hlength, fun ⟨hm, hstart⟩ => ?_⟩
    rw [← hlength, ← hend.length_eq] at hm hstart
    have hle := hend.limited m rfl
    omega
  | steps => exact absurd rfl hsteps
  | @nodes m' x p k hm hx hlt =>
    cases hm
    -- the step that was not taken would not have passed the final length
    obtain ⟨hcount, hlists⟩ := lists_of_firstMultiple hx
    have hb := hend.sound.replaceSlot hlists mode
    have hle := hb.documentLength_le
      ((fullAt_replaceSlot hend.sound hlists hcount mode hend.sound.size_pos).trans hmeans)
    rw [hend.sound.documentLength_replaceSlot hlists hcount, ← hend.length_eq] at hle
    have hpos := hend.sound.growth_pos hx
    have hgrown := hend.grown
    exact .inl ⟨rfl, by omega, by omega⟩

end Sound

/-- A run that does not reach its step limit is stopped by its node limit just when the full
expansion is longer than that and than the built document, and comes otherwise to its end with a
document of that length. Whether it copies or shares makes no difference. -/
theorem overrun_expand_of_build {defaultTag text : String} {limit : Nat}
    (h : build defaultTag limit text = .ok a) :
    ∃ t, a.document = some t ∧
      ∀ mode l m, (expand ⟨mode, l, some m⟩ a).2.overrun ≠ some (.stepLimit l) →
        (expand ⟨mode, l, some m⟩ a).2.overrun =
            (if m < t.full.size ∧ a.size < t.full.size then some (.nodeLimit m) else none) ∧
          (¬ (m < t.full.size ∧ a.size < t.full.size) →
            (expand ⟨mode, l, some m⟩ a).1.documentLength = t.full.size) := by
  have hs := sound_of_build h
  obtain ⟨t, ht⟩ := hs.exists_document
  have hsize : a.documentLength = a.size := by
    rw [hs.documentLength_eq, order_of_build h, List.length_range]
  refine ⟨t, ht, fun mode l m hsteps => ?_⟩
  have hends := hs.overrun_expand ht hsteps
  rw [hsize] at hends
  rcases hends with ⟨hoverrun, hlonger⟩ | ⟨hoverrun, hlength, hshort⟩
  · rw [if_pos hlonger]
    exact ⟨hoverrun, fun hshort => absurd hlonger hshort⟩
  · rw [if_neg hshort]
    exact ⟨hoverrun, fun _ => hlength⟩

/-- Seven nodes are too many for a limit of six in either mode, and fit into one of seven. -/
theorem overrun_expand_of_build_nested :
    ∃ a t, build "div" 2 "ul*2\n  li*3\n    a" = .ok a ∧ a.document = some t ∧
      t.full.size = 7 ∧
      (∀ mode, (expand ⟨mode, 20, some 6⟩ a).2.overrun = some (.nodeLimit 6)) ∧
      (∀ mode, (expand ⟨mode, 20, some 7⟩ a).2.overrun = none ∧
        (expand ⟨mode, 20, some 7⟩ a).1.documentLength = 7) := by
  let a : Arena :=
    ⟨#[⟨⟨"ul*2", 0, "div", .block "ul", [], 2, none⟩, none, [1]⟩,
      ⟨⟨"  li*3", 2, "div", .elem "li", [], 3, none⟩, some 0, [2]⟩,
      ⟨⟨"    a", 4, "div", .elem "a", [], 1, none⟩, some 1, []⟩], some 0⟩
  have hbuild : build "div" 2 "ul*2\n  li*3\n    a" = .ok a := rfl
  obtain ⟨t, ht, hends⟩ := overrun_expand_of_build hbuild
  have hfull : t.full.size = 7 := by
    have hsize : (a.document.map fun t => t.full.size) = some 7 := by decide +kernel
    rw [ht] at hsize
    exact Option.some.inj hsize
  rw [hfull] at hends
  have hstopped : ∀ mode, (expand ⟨mode, 20, some 6⟩ a).2.overrun ≠ some (.stepLimit 20) := by
    intro mode
    cases mode <;> decide +kernel
  have hended : ∀ mode, (expand ⟨mode, 20, some 7⟩ a).2.overrun ≠ some (.stepLimit 20) := by
    intro mode
    cases mode <;> decide +kernel
  refine ⟨a, t, hbuild, ht, hfull, fun mode => (hends mode 20 6 (hstopped mode)).1, fun mode => ?_⟩
  obtain ⟨hoverrun, hlength⟩ := hends mode 20 7 (hended mode)
  exact ⟨hoverrun, hlength (by decide)⟩

end BemOutline.Expansion

import BemOutline.Proofs.Expansion.Growth
import BemOutline.Proofs.Expansion.Lines
import BemOutline.Proofs.Line.Canonical

/-! The growth of a document as a product of machine words. The node limit bounds the length of the
document, and the shorthand bounds the counts, each by itself. The product of the two fits a word as
long as the node limit is not much greater than the counts. -/

namespace BemOutline.Expansion

open Arena Outline

variable {a : Arena} {mode : Mode} {x p k i : Nat}

namespace Sound

theorem length_order_mul_count_le (h : Sound a) (p i : Nat) :
    (a.order p).length * (a.order i).count p ≤ (a.order i).length := by
  induction i using h.ranked.induction with
  | step i ih =>
    cases hn : a.node? i with
    | none => simp [h.ranked.order_of_none hn]
    | some n =>
      by_cases hp : i = p
      · subst hp
        have hbelow : (n.children.flatMap a.order).count i = 0 :=
          h.count_flatMap_order fun c hc => (h.ascending i n hn c hc).1
        have hone : (a.order i).count i = 1 := by
          rw [h.ranked.order_of_some hn, List.count_cons_self, hbelow]
        rw [hone, Nat.mul_one]
      · have hchildren : ∀ cs ⊆ n.children,
            (a.order p).length * (cs.flatMap a.order).count p ≤ (cs.flatMap a.order).length := by
          intro cs hcs
          induction cs with
          | nil => exact Nat.le_refl _
          | cons c cs ihc =>
            rw [List.flatMap_cons, List.count_append, List.length_append, Nat.mul_add]
            exact Nat.add_le_add (ih n hn c (hcs List.mem_cons_self))
              (ihc (List.subset_of_cons_subset hcs))
        rw [h.ranked.order_of_some hn, List.count_cons_of_ne hp, List.length_cons]
        exact Nat.le_succ_of_le (hchildren _ (List.Subset.refl _))

theorem growth_le (h : Sound a) (hx : a.Lists p k x) :
    growth a x p ≤ (countOf a x - 1) * (a.documentLength - 1) := by
  obtain ⟨n, hn, hk⟩ := hx
  have hbelow : (a.order x).length + 1 ≤ (a.order p).length := by
    have hsub : (a.order x).Sublist (n.children.flatMap a.order) := by
      rw [List.flatMap_def]
      exact List.sublist_flatten_of_mem (List.mem_map_of_mem (List.mem_of_getElem? hk))
    rw [h.ranked.order_of_some hn, List.length_cons]
    exact Nat.succ_le_succ hsub.length_le
  -- every place of the parent takes one node more than the subtree in its slot
  have hplaces : ((a.order x).length + 1) * (a.order 0).count p ≤ (a.order 0).length :=
    (Nat.mul_le_mul_right _ hbelow).trans (h.length_order_mul_count_le p 0)
  rw [h.growth_eq, h.documentLength_eq, Nat.mul_assoc]
  refine Nat.mul_le_mul_left _ ?_
  rcases Nat.eq_zero_or_pos ((a.order 0).count p) with hzero | hpos
  · rw [hzero, Nat.mul_zero]
    exact Nat.zero_le _
  · rw [Nat.succ_mul] at hplaces
    omega

end Sound

theorem countOf_lt_of_build {defaultTag text : String} {limit : Nat}
    (h : build defaultTag limit text = .ok a) (es : List Expander) (i : Nat) :
    countOf (expandAll es a) i < 2 ^ 32 := by
  have hsingle : ∀ l : Line, l.count < 2 ^ 32 → l.single.count < 2 ^ 32 :=
    fun _ _ => show 1 < 2 ^ 32 by decide
  rw [countOf]
  split
  · next n hn =>
    exact forall_data_of_build (P := (·.count < 2 ^ 32)) hsingle h Line.count_lt es i n hn
  · decide

/-- The growth as it is computed with words. -/
def wordGrowth (a : Arena) (x p : Nat) : UInt64 :=
  (UInt64.ofNat (countOf a x) - 1) * UInt64.ofNat (a.subtreeLength x) *
    UInt64.ofNat (a.occurrences p)

theorem toNat_wordGrowth (hcount : 1 < countOf a x) (p : Nat) :
    (wordGrowth a x p).toNat = growth a x p % 2 ^ 64 := by
  have hone : UInt64.ofNat (countOf a x - 1) = UInt64.ofNat (countOf a x) - 1 :=
    UInt64.ofNat_sub hcount.le
  rw [wordGrowth, ← hone, ← UInt64.ofNat_mul, ← UInt64.ofNat_mul, UInt64.toNat_ofNat', growth]

/-- At every step of a run that starts within its node limit, the growth is a count short of
`2 ^ 32` times a length within the limit, and what is compared with the limit is that growth up to
multiples of `2 ^ 64`. With a limit of up to `2 ^ 32 + 3` it is the growth itself. -/
theorem growth_of_build {defaultTag text : String} {limit : Nat}
    (h : build defaultTag limit text = .ok a) (es : List Expander) (mode : Mode) {steps m : Nat}
    (hstart : (expandAll es a).documentLength ≤ m) {b : Arena}
    (hb : (expand ⟨mode, steps, some m⟩ (expandAll es a)).1 = b)
    (hx : firstMultiple b = some ⟨x, some (p, k)⟩) :
    growth b x p ≤ (2 ^ 32 - 2) * (m - 1) ∧
      (wordGrowth b x p).toNat = growth b x p % 2 ^ 64 ∧
      (m ≤ 2 ^ 32 + 3 →
        growth b x p < 2 ^ 64 ∧ (wordGrowth b x p).toNat = growth b x p) := by
  have happend : expandAll (es ++ [⟨mode, steps, some m⟩]) a = b := by
    rw [expandAll_append, ← hb]
    rfl
  have hs : Sound b := happend ▸ (sound_of_build h).expandAll _
  have hlt : countOf b x < 2 ^ 32 := happend ▸ countOf_lt_of_build h _ x
  have hlength : b.documentLength ≤ m := by
    have hlimit := (((sound_of_build h).expandAll es).documentLength_expand
      ⟨mode, steps, some m⟩).2 m rfl
    rwa [hb, Nat.max_eq_left hstart] at hlimit
  obtain ⟨hcount, hlists⟩ := lists_of_firstMultiple hx
  have hword := toNat_wordGrowth hcount p
  have hle : growth b x p ≤ (2 ^ 32 - 2) * (m - 1) :=
    (hs.growth_le hlists).trans (Nat.mul_le_mul (by omega) (Nat.sub_le_sub_right hlength 1))
  refine ⟨hle, hword, fun hm => ?_⟩
  have hfits : growth b x p < 2 ^ 64 := by omega
  exact ⟨hfits, hword.trans (Nat.mod_eq_of_lt hfits)⟩

/-- The greatest count, at the two places of its parent. -/
theorem growth_of_build_shared :
    ∃ a, build "div" 4 "a\n  b*2\n    f*4294967295" = .ok a ∧ a.documentLength ≤ 1000 ∧
      firstMultiple (expand ⟨.aliased, 1, some 1000⟩ a).1 = some ⟨2, some (1, 0)⟩ ∧
      growth (expand ⟨.aliased, 1, some 1000⟩ a).1 2 1 = 2 * (2 ^ 32 - 2) ∧
      (wordGrowth (expand ⟨.aliased, 1, some 1000⟩ a).1 2 1).toNat = 2 * (2 ^ 32 - 2) := by
  let a : Arena :=
    ⟨#[⟨⟨"a", 0, "div", .block "a", [], 1, none⟩, none, [1]⟩,
      ⟨⟨"  b*2", 2, "div", .elem "b", [], 2, none⟩, some 0, [2]⟩,
      ⟨⟨"    f*4294967295", 4, "div", .elem "f", [], 4294967295, none⟩, some 1, []⟩], some 0⟩
  have hbuild : build "div" 4 "a\n  b*2\n    f*4294967295" = .ok a := rfl
  have hstart : a.documentLength ≤ 1000 := by decide +kernel
  have hx : firstMultiple (expand ⟨.aliased, 1, some 1000⟩ a).1 = some ⟨2, some (1, 0)⟩ := by
    decide +kernel
  have hgrowth : growth (expand ⟨.aliased, 1, some 1000⟩ a).1 2 1 = 2 * (2 ^ 32 - 2) := by
    decide +kernel
  obtain ⟨-, -, hfits⟩ := growth_of_build hbuild [] .aliased hstart rfl hx
  exact ⟨a, hbuild, hstart, hx, hgrowth, (hfits (by decide)).2.trans hgrowth⟩

/-- Four levels of shared lists show the parent `2 ^ 32 + 2 ^ 24` times. The growth by the greatest
count does not fit a word, and what is left of it passes the comparison with the limit. -/
theorem growth_of_build_wrapped :
    ∃ a, build "div" 256 "a\n b*256\n  c*256\n   d*256\n    e*257\n     f*4294967295" = .ok a ∧
      a.documentLength ≤ 2 ^ 63 - 1 ∧
      firstMultiple (expand ⟨.aliased, 4, some (2 ^ 63 - 1)⟩ a).1 = some ⟨5, some (4, 0)⟩ ∧
      2 ^ 64 ≤ growth (expand ⟨.aliased, 4, some (2 ^ 63 - 1)⟩ a).1 5 4 ∧
      (expand ⟨.aliased, 4, some (2 ^ 63 - 1)⟩ a).1.documentLength +
        (wordGrowth (expand ⟨.aliased, 4, some (2 ^ 63 - 1)⟩ a).1 5 4).toNat ≤ 2 ^ 63 - 1 :=
  ⟨_, rfl, by decide +kernel, by decide +kernel, by decide +kernel, by decide +kernel⟩

end BemOutline.Expansion

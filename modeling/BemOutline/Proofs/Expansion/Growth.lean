import BemOutline.Proofs.Expansion.Refinement

/-! How much a document grows while its counts are expanded. A step adds the further siblings at
every place of their parent, and so the length that a run keeps track of is that of the document. -/

namespace BemOutline.Expansion

open Arena Outline

variable {a : Arena} {mode : Mode} {x p k i : Nat} {t : Tree}

theorem length_flatMap_add {f g : Nat → List Nat} {m : Nat} {cs : List Nat}
    (h : ∀ c ∈ cs, (f c).length = (g c).length + m * (g c).count i) :
    (cs.flatMap f).length = (cs.flatMap g).length + m * (cs.flatMap g).count i := by
  induction cs with
  | nil => rfl
  | cons c cs ih =>
    have hc := h c List.mem_cons_self
    have htail := ih fun x hx => h x (List.mem_cons_of_mem _ hx)
    rw [List.flatMap_cons, List.flatMap_cons, List.length_append, List.length_append,
      List.count_append, Nat.mul_add, hc, htail]
    omega

namespace Sound

theorem documentLength_eq (h : Sound a) : a.documentLength = (a.order 0).length := by
  rw [h.ranked.documentLength_eq, h.ranked.iter_eq, h.root, Option.elim_some]

theorem growth_eq (h : Sound a) (x p : Nat) :
    growth a x p = (countOf a x - 1) * (a.order x).length * (a.order 0).count p := by
  rw [growth, h.ranked.subtreeLength_eq, h.ranked.occurrences_eq, h.ranked.iter_eq, h.root,
    Option.elim_some]

theorem order_resetCount (h : Sound a) (x i : Nat) :
    (Expansion.resetCount a x).order i = a.order i := by
  refine order_congr h.ranked (h.resetCount x).ranked (fun i => ?_) i
  rw [node?_resetCount, Option.map_map]
  rfl

theorem documentLength_resetCount (h : Sound a) (x : Nat) :
    (Expansion.resetCount a x).documentLength = a.documentLength := by
  rw [(h.resetCount x).documentLength_eq, h.documentLength_eq, h.order_resetCount]

theorem count_flatMap_order (h : Sound a) {cs : List Nat} (hcs : ∀ c ∈ cs, p < c) :
    (cs.flatMap a.order).count p = 0 := by
  refine List.count_eq_zero.2 fun hp => ?_
  obtain ⟨c, hc, hp⟩ := List.mem_flatMap.1 hp
  exact Nat.not_le.2 (hcs c hc) (h.ascending.le_of_mem_order hp)

theorem length_order_sibling (h : Sound a) (hx : a.Lists p k x)
    (ht : (Expansion.resetCount a x).subtree x = some t) {y : Nat}
    (hy : y ∈ siblings mode a x p) :
    ((Expansion.replaceSlot mode a x p k).order y).length = (a.order x).length := by
  rw [(h.replaceSlot hx mode).ranked.length_order (subtree_sibling h hx ht hy),
    ← h.order_resetCount x x, (h.resetCount x).ranked.length_order ht]

theorem length_flatMap_siblings (h : Sound a) (hx : a.Lists p k x) (hcount : 1 < countOf a x)
    (mode : Mode) (ht : (Expansion.resetCount a x).subtree x = some t) :
    ((siblings mode a x p).flatMap (Expansion.replaceSlot mode a x p k).order).length =
      countOf a x * (a.order x).length := by
  rw [List.length_flatMap, List.map_congr_left fun y hy => h.length_order_sibling hx ht hy,
    List.map_const', h.length_siblings (h.lt_of_lists hx) hcount.le, List.sum_replicate_nat]

theorem length_order_replaceSlot (h : Sound a) (hx : a.Lists p k x) (hcount : 1 < countOf a x)
    (mode : Mode) (hi : i < a.size) :
    ((Expansion.replaceSlot mode a x p k).order i).length =
      (a.order i).length + (countOf a x - 1) * (a.order x).length * (a.order i).count p := by
  have hb := h.replaceSlot hx mode
  obtain ⟨q, hq, hk⟩ := id hx
  obtain ⟨-, m, hm, -⟩ := h.child hq x (List.mem_of_getElem? hk)
  obtain ⟨t, ht, -⟩ := h.exists_resetCount x hm
  induction i using h.ranked.induction with
  | step i ih =>
    obtain ⟨n, hn⟩ := exists_node?_iff.2 hi
    have hchild : ∀ c ∈ n.children, i < c ∧ c < a.size := h.ascending i n hn
    have hchildren := fun c hc => ih n hn c hc (hchild c hc).2
    have hnb := h.node?_replaceSlot (node?_lt hm) mode p k hi
    rw [hn, Option.map_some] at hnb
    rw [hb.ranked.order_of_some hnb, h.ranked.order_of_some hn]
    by_cases hp : i = p
    · subst hp
      obtain rfl := Option.some.inj (hn.symm.trans hq)
      obtain ⟨hsplit, -⟩ := h.split_children hn hk hcount
      -- the parent does not stand below itself, so the other children stay as long as they are
      have hkeep : ∀ cs ⊆ n.children,
          (cs.flatMap (Expansion.replaceSlot mode a x i k).order).length =
            (cs.flatMap a.order).length := by
        intro cs hcs
        rw [length_flatMap_add fun c hc => hchildren c (hcs hc),
          h.count_flatMap_order fun c hc => (hchild c (hcs hc)).1, Nat.mul_zero, Nat.add_zero]
      have hold : (n.children.flatMap a.order).length =
          ((n.children.take k).flatMap a.order).length +
            ((a.order x).length + ((n.children.drop (k + 1)).flatMap a.order).length) := by
        conv_lhs => rw [hsplit]
        rw [List.flatMap_append, List.flatMap_cons, List.length_append, List.length_append]
      have hnew := h.length_flatMap_siblings hx hcount mode ht
      obtain ⟨c, hc⟩ : ∃ c, countOf a x = c + 1 := ⟨countOf a x - 1, by omega⟩
      rw [hc, Nat.succ_mul] at hnew
      rw [if_pos rfl, List.count_cons_self, h.count_flatMap_order fun c hc => (hchild c hc).1,
        List.flatMap_append, List.flatMap_append, List.length_cons, List.length_cons,
        List.length_append, List.length_append, hkeep _ (List.take_subset ..),
        hkeep _ (List.drop_subset ..), hc, hnew, hold, Nat.add_sub_cancel, Nat.zero_add,
        Nat.mul_one]
      omega
    · rw [if_neg hp, List.count_cons_of_ne hp, List.length_cons, List.length_cons,
        length_flatMap_add hchildren, Nat.add_right_comm]

theorem documentLength_replaceSlot (h : Sound a) (hx : a.Lists p k x) (hcount : 1 < countOf a x)
    (mode : Mode) :
    (Expansion.replaceSlot mode a x p k).documentLength = a.documentLength + growth a x p := by
  rw [(h.replaceSlot hx mode).documentLength_eq, h.documentLength_eq, h.growth_eq]
  exact h.length_order_replaceSlot hx hcount mode h.size_pos

end Sound

/-- Where a run stands: the length that it keeps track of is that of the document, which has grown
by the nodes added since the start and not beyond the node limit. -/
structure Accounted (e : Expander) (start length added : Nat) (a : Arena) : Prop where
  sound : Sound a
  length_eq : length = a.documentLength
  grown : length = start + added
  limited : ∀ m, e.nodeLimit = some m → length ≤ max m start

namespace Accounted

variable {e : Expander} {start length added : Nat}

theorem resetCount (h : Accounted e start length added a) (x : Nat) :
    Accounted e start length added (resetCount a x) where
  sound := h.sound.resetCount x
  length_eq := h.length_eq.trans (h.sound.documentLength_resetCount x).symm
  grown := h.grown
  limited := h.limited

theorem replaceSlot (h : Accounted e start length added a) (hx : a.Lists p k x)
    (hcount : 1 < countOf a x) (mode : Mode)
    (hlimit : ∀ m, e.nodeLimit = some m → length + growth a x p ≤ m) :
    Accounted e start (length + growth a x p) (added + growth a x p)
      (replaceSlot mode a x p k) where
  sound := h.sound.replaceSlot hx mode
  length_eq := by rw [h.sound.documentLength_replaceSlot hx hcount, h.length_eq]
  grown := by rw [h.grown, Nat.add_assoc]
  limited m hm := (hlimit m hm).trans (Nat.le_max_left ..)

end Accounted

theorem Sound.expand_stops (h : Sound a) (e : Expander) :
    ∃ length, Accounted e a.documentLength length (expand e a).2.nodesAdded (expand e a).1 ∧
      Stops e length (expand e a).1 none (expand e a).2.overrun := by
  have hstart : Accounted e a.documentLength a.documentLength 0 a :=
    ⟨h, rfl, rfl, fun m _ => Nat.le_max_right ..⟩
  exact run_stops e (fun hb _ => hb.resetCount _)
    (fun hb hx hcount hlimit => hb.replaceSlot hx hcount _ hlimit) e.stepLimit a.documentLength
    .empty hstart

theorem Sound.documentLength_expand (h : Sound a) (e : Expander) :
    (expand e a).1.documentLength = a.documentLength + (expand e a).2.nodesAdded ∧
      ∀ m, e.nodeLimit = some m → (expand e a).1.documentLength ≤ max m a.documentLength := by
  obtain ⟨length, hend, -⟩ := h.expand_stops e
  rw [← hend.length_eq]
  exact ⟨hend.grown, hend.limited⟩

/-- However a built document has been expanded so far, a further run reports by how many nodes it
grows, and does not let it grow beyond the node limit. -/
theorem documentLength_expand_of_build {defaultTag text : String} {limit : Nat}
    (h : build defaultTag limit text = .ok a) (es : List Expander) (e : Expander) :
    (expand e (expandAll es a)).1.documentLength =
        (expandAll es a).documentLength + (expand e (expandAll es a)).2.nodesAdded ∧
      ∀ m, e.nodeLimit = some m →
        (expand e (expandAll es a)).1.documentLength ≤ max m (expandAll es a).documentLength :=
  ((sound_of_build h).expandAll es).documentLength_expand e

/-- A list that is shared by two places grows at both of them, until the node limit stops the
run. -/
theorem documentLength_expand_of_build_shared :
    ∃ a, build "div" 2 "ul\n  li*2\n    a*3\n    b*9" = .ok a ∧
      (expandAll [⟨.aliased, 1, none⟩] a).documentLength = 7 ∧
      (expand ⟨.copy, 20, some 15⟩ (expandAll [⟨.aliased, 1, none⟩] a)).2 =
        ⟨1, 4, some (.nodeLimit 15)⟩ ∧
      (expand ⟨.copy, 20, some 15⟩ (expandAll [⟨.aliased, 1, none⟩] a)).1.documentLength = 11 := by
  let a : Arena :=
    ⟨#[⟨⟨"ul", 0, "div", .block "ul", [], 1, none⟩, none, [1]⟩,
      ⟨⟨"  li*2", 2, "div", .elem "li", [], 2, none⟩, some 0, [2, 3]⟩,
      ⟨⟨"    a*3", 4, "div", .elem "a", [], 3, none⟩, some 1, []⟩,
      ⟨⟨"    b*9", 4, "div", .elem "b", [], 9, none⟩, some 1, []⟩], some 0⟩
  have hbuild : build "div" 2 "ul\n  li*2\n    a*3\n    b*9" = .ok a := rfl
  have hlength : (expandAll [⟨.aliased, 1, none⟩] a).documentLength = 7 := by decide +kernel
  have hreport : (expand ⟨.copy, 20, some 15⟩ (expandAll [⟨.aliased, 1, none⟩] a)).2 =
      ⟨1, 4, some (.nodeLimit 15)⟩ := by decide +kernel
  have hgrown := (documentLength_expand_of_build hbuild [⟨.aliased, 1, none⟩]
    ⟨.copy, 20, some 15⟩).1
  rw [hlength, hreport] at hgrown
  exact ⟨a, hbuild, hlength, hreport, hgrown⟩

end BemOutline.Expansion

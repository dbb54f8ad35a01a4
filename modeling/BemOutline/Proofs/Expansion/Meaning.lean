import BemOutline.Proofs.Expansion.Runs
import BemOutline.Proofs.Expansion.Sound

/-! The tree that a document stands for does not change while its counts are expanded, so that all
complete runs end with the same document. -/

namespace BemOutline.Expansion

open Arena

variable {a b : Arena} {rank : Nat → Nat} {x p k c i : Nat}

/-- What a node stands for, by itself. -/
def fullAt (a : Arena) (i : Nat) : Option Tree := (a.subtree i).map Tree.full

/-- What an entry stands for among its siblings. -/
def spreadAt (a : Arena) (i : Nat) : List Tree := (a.subtree i).elim [] Tree.spread

theorem spreadAt_of_subtree {t : Tree} (ht : a.subtree i = some t) : spreadAt a i = t.spread := by
  rw [spreadAt, ht, Option.elim_some]

theorem fullAt_of_subtree {t : Tree} (ht : a.subtree i = some t) : fullAt a i = some t.full := by
  rw [fullAt, ht, Option.map_some]

theorem flatMap_spread (a : Arena) (cs : List Nat) :
    (cs.filterMap a.subtree).flatMap Tree.spread = cs.flatMap (spreadAt a) := by
  induction cs with
  | nil => rfl
  | cons c cs ih =>
    rw [List.filterMap_cons, List.flatMap_cons, ← ih]
    cases hc : a.subtree c with
    | none => simp [spreadAt, hc]
    | some t => rw [List.flatMap_cons, spreadAt_of_subtree hc]

theorem fullAt_eq (ha : a.Ranked rank) {n : Node} (hn : a.node? i = some n) :
    fullAt a i = some ⟨n.data.single, n.children.flatMap (spreadAt a)⟩ := by
  rw [fullAt_of_subtree (ha.subtree_of_node? hn), Tree.full_mk, flatMap_spread]

theorem spreadAt_eq (ha : a.Ranked rank) (i : Nat) :
    spreadAt a i = (fullAt a i).elim [] (List.replicate (countOf a i)) := by
  cases hn : a.node? i with
  | none =>
    have hnone : a.subtree i = none := by
      rw [ha.subtree_eq, hn, Option.map_none]
    rw [spreadAt, fullAt, hnone, Option.elim_none, Option.map_none, Option.elim_none]
  | some n =>
    have ht := ha.subtree_of_node? hn
    rw [spreadAt_of_subtree ht, fullAt_of_subtree ht, countOf_eq hn, Option.elim_some, Tree.spread]

theorem spreadAt_congr {rank' : Nat → Nat} (ha : a.Ranked rank) (hb : b.Ranked rank')
    (hfull : fullAt b c = fullAt a c) (hcount : countOf b c = countOf a c) :
    spreadAt b c = spreadAt a c := by
  rw [spreadAt_eq ha, spreadAt_eq hb, hfull, hcount]

/-- What the nodes stand for is kept when every node keeps its line up to the count, and the
entries that it lists together stand for the same as before. -/
theorem fullAt_congr {rank' : Nat → Nat} (ha : a.Ranked rank) (hb : b.Ranked rank')
    (node : ∀ {i n}, a.node? i = some n → ∃ m, b.node? i = some m ∧
      m.data.single = n.data.single ∧
      ((∀ c ∈ n.children, c < a.size → fullAt b c = fullAt a c) →
        m.children.flatMap (spreadAt b) = n.children.flatMap (spreadAt a)))
    (hi : i < a.size) : fullAt b i = fullAt a i := by
  induction i using ha.induction with
  | step i ih =>
    obtain ⟨n, hn⟩ := exists_node?_iff.2 hi
    obtain ⟨m, hm, hdata, hchildren⟩ := node hn
    rw [fullAt_eq ha hn, fullAt_eq hb hm, hdata, hchildren fun c hc => ih n hn c hc]

theorem fullAt_resetCount (h : Sound a) {r : Nat} (hr : a.root = some r) (hi : i < a.size) :
    fullAt (resetCount a r) i = fullAt a i := by
  have hb := h.resetCount r
  apply fullAt_congr h.ranked hb.ranked _ hi
  intro i n hn
  refine ⟨_, node?_resetCount_of_some r hn, ?_, fun hfull => List.flatMap_congr fun c hc => ?_⟩
  · change (if i = r then n.data.single else n.data).single = _
    split <;> rfl
  · obtain ⟨hlt, m, hm, -⟩ := h.child hn c hc
    have hcr : c ≠ r := by
      have h0 := h.root
      rw [hr] at h0
      cases h0
      exact Nat.ne_of_gt (Nat.zero_lt_of_lt hlt)
    apply spreadAt_congr h.ranked hb.ranked (hfull c hc (node?_lt hm))
    rw [countOf_eq (node?_resetCount_of_some r hm), countOf_eq hm, if_neg hcr]

theorem flatMap_siblings (h : Sound a) (hx : a.Lists p k x) (mode : Mode) {t : Tree}
    (ht : (resetCount a x).subtree x = some t)
    (hfull : fullAt (replaceSlot mode a x p k) x = fullAt a x) :
    (siblings mode a x p).flatMap (spreadAt (replaceSlot mode a x p k)) = spreadAt a x := by
  obtain ⟨n, hn, hk⟩ := id hx
  obtain ⟨-, m, hm, -⟩ := h.child hn x (List.mem_of_getElem? hk)
  obtain ⟨u, hu, hdata⟩ := h.exists_resetCount x hm
  rw [ht] at hu
  cases hu
  have hcount : 1 ≤ countOf a x := by
    rw [countOf_eq hm]
    exact h.count hm
  have hone : t.data.count = 1 := by
    rw [hdata]
    rfl
  have hspread : ∀ y ∈ siblings mode a x p,
      spreadAt (replaceSlot mode a x p k) y = [t.full] := by
    intro y hy
    rw [spreadAt_of_subtree (subtree_sibling h hx ht hy), Tree.spread, hone]
    rfl
  -- the replaced number is a sibling itself, which ties the copied tree to what stood there
  have hself : x ∈ siblings mode a x p := (h.supplied (node?_lt hm) mode p).mem_self hcount
  rw [fullAt_of_subtree (subtree_sibling h hx ht hself)] at hfull
  rw [List.flatMap_congr hspread, ← List.map_eq_flatMap, List.map_const',
    h.length_siblings (node?_lt hm) hcount, spreadAt_eq h.ranked, ← hfull, Option.elim_some]

theorem fullAt_replaceSlot (h : Sound a) (hx : a.Lists p k x) (hcount : 1 < countOf a x)
    (mode : Mode) (hi : i < a.size) : fullAt (replaceSlot mode a x p k) i = fullAt a i := by
  have hb := h.replaceSlot hx mode
  obtain ⟨q, hq, hk⟩ := id hx
  have hxq := List.mem_of_getElem? hk
  obtain ⟨-, m, hm, -⟩ := h.child hq x hxq
  obtain ⟨t, ht, hdata⟩ := h.exists_resetCount x hm
  apply fullAt_congr h.ranked hb.ranked _ hi
  intro i n hn
  have hnode := fun {j} => h.node?_replaceSlot (i := j) (node?_lt hm) mode p k
  refine ⟨_, by rw [hnode (node?_lt hn), hn, Option.map_some], ?_, fun hfull => ?_⟩
  · change (if i = x then n.data.single else n.data).single = _
    split <;> rfl
  · have hkeep : ∀ c ∈ n.children, c ≠ x →
        spreadAt (replaceSlot mode a x p k) c = spreadAt a c := by
      intro c hc hcx
      obtain ⟨-, m', hm', -⟩ := h.child hn c hc
      apply spreadAt_congr h.ranked hb.ranked (hfull c hc (node?_lt hm'))
      rw [countOf, hnode (node?_lt hm'), hm', Option.map_some, countOf_eq hm']
      exact congrArg Line.count (if_neg hcx)
    by_cases hp : i = p
    · subst hp
      obtain rfl := Option.some.inj (hn.symm.trans hq)
      obtain ⟨hsplit, hrest⟩ := h.split_children hn hk hcount
      have hother : ∀ c ∈ n.children.take k ++ n.children.drop (k + 1),
          spreadAt (replaceSlot mode a x i k) c = spreadAt a c := by
        intro c hc
        have hmem : c ∈ n.children := by
          rcases List.mem_append.1 hc with hc | hc
          · exact List.mem_of_mem_take hc
          · exact List.mem_of_mem_drop hc
        apply hkeep c hmem
        rintro rfl
        exact hrest hc
      conv_rhs => rw [hsplit, List.flatMap_append, List.flatMap_cons]
      rw [if_pos rfl, List.flatMap_append, List.flatMap_append,
        flatMap_siblings h hx mode ht (hfull x hxq (node?_lt hm)),
        List.flatMap_congr fun c hc => hother c (List.mem_append_left _ hc),
        List.flatMap_congr fun c hc => hother c (List.mem_append_right _ hc)]
    · rw [if_neg hp]
      refine List.flatMap_congr fun c hc => hkeep c hc ?_
      rintro rfl
      exact hp (h.eq_of_mem_children hn hq hc hxq)

end BemOutline.Expansion

import BemOutline.Arena.Search
import BemOutline.Proofs.Arena.DocumentOrder

/-! The places of a document in order. Looking for a node goes through them one by one. -/

namespace BemOutline.Arena

variable {a : Arena} {rank : Nat → Nat}

def Lists (a : Arena) (p k c : Nat) : Prop :=
  ∃ n, a.node? p = some n ∧ n.children[k]? = some c

def placesAt (a : Arena) : Nat → Nat → List Place
  | 0, _ => []
  | levels + 1, i =>
    match a.node? i with
    | none => []
    | some n =>
      n.children.zipIdx.flatMap fun e => ⟨e.1, some (i, e.2)⟩ :: a.placesAt levels e.1

def places (a : Arena) : List Place :=
  match a.root with
  | none => []
  | some r => ⟨r, none⟩ :: a.placesAt a.levelBound r

section Search
variable {α : Type} {find : Nat → NodeId → Option α}

theorem searchAfter_eq (hfind : ∀ i j c, find i c = none → find j c = none) {last : Nat}
    (hlast : ∀ i, find i last = none) (i : Nat) (cs : List Nat) :
    searchAfter find last i cs = (cs.zipIdx i).findSome? fun e => find e.2 e.1 := by
  induction cs generalizing last i with
  | nil => rfl
  | cons c cs ih =>
    rw [searchAfter, List.zipIdx_cons, List.findSome?_cons]
    split
    · next heq =>
      simp only [heq, hlast]
      exact ih hlast (i + 1)
    · cases hc : find i c with
      | some r => rfl
      | none => exact ih (fun j => hfind i j c hc) (i + 1)

/-- Passing over repeated entries misses nothing where the position does not decide whether
something is found. -/
theorem searchRepeats_eq (hfind : ∀ i j c, find i c = none → find j c = none) (cs : List Nat) :
    searchRepeats find cs = cs.zipIdx.findSome? fun e => find e.2 e.1 := by
  cases cs with
  | nil => rfl
  | cons c cs =>
    rw [searchRepeats, List.zipIdx_cons, List.findSome?_cons]
    cases hc : find 0 c with
    | some r => rfl
    | none => exact searchAfter_eq hfind (fun j => hfind 0 j c hc) 1 cs

end Search

theorem firstBelow_eq (a : Arena) (test : NodeId → Bool) (levels i : Nat) :
    a.firstBelow test levels i = (a.placesAt levels i).find? fun p => test p.node := by
  induction levels generalizing i with
  | zero => rfl
  | succ levels ih =>
    rw [firstBelow, placesAt]
    cases a.node? i with
    | none => rfl
    | some n =>
      simp only [List.find?_flatMap]
      rw [searchRepeats_eq]
      · congr 1
        funext e
        rw [List.find?_cons, ih]
        cases test e.1 <;> rfl
      · intro k l c
        cases test c <;> simp

/-- What is found below a node is one of its children or is found below one of them that does not
pass the test itself. -/
theorem firstBelow_eq_some {test : NodeId → Bool} {levels i : Nat} {q : Place}
    (h : a.firstBelow test (levels + 1) i = some q) :
    ∃ n k c, a.node? i = some n ∧ n.children[k]? = some c ∧
      (test c = true ∧ q = ⟨c, some (i, k)⟩ ∨
        test c = false ∧ a.firstBelow test levels c = some q) := by
  rw [firstBelow] at h
  cases hn : a.node? i with
  | none => simp [hn] at h
  | some n =>
    rw [hn] at h
    simp only at h
    rw [searchRepeats_eq fun k l c => by cases test c <;> simp] at h
    obtain ⟨⟨c, k⟩, hc, hq⟩ := List.exists_of_findSome?_eq_some h
    refine ⟨n, k, c, rfl, List.mk_mem_zipIdx_iff_getElem?.1 hc, ?_⟩
    cases htest : test c with
    | true =>
      rw [htest, if_pos rfl, Option.some.injEq] at hq
      exact .inl ⟨rfl, hq.symm⟩
    | false =>
      rw [htest, if_neg Bool.false_ne_true] at hq
      exact .inr ⟨rfl, hq⟩

theorem first_eq (a : Arena) (test : NodeId → Bool) :
    a.first test = a.places.find? fun p => test p.node := by
  rw [first, places]
  cases a.root with
  | none => rfl
  | some r =>
    simp only [firstBelow_eq, List.find?_cons]
    cases test r <;> rfl

theorem lists_of_mem_placesAt {levels i : Nat} {p : Place} (hp : p ∈ a.placesAt levels i) :
    ∃ q k, p.slot = some (q, k) ∧ a.Lists q k p.node := by
  induction levels generalizing i with
  | zero => simp [placesAt] at hp
  | succ levels ih =>
    rw [placesAt] at hp
    cases hn : a.node? i with
    | none => simp [hn] at hp
    | some n =>
      rw [hn] at hp
      obtain ⟨⟨c, k⟩, hc, hp⟩ := List.mem_flatMap.1 hp
      rcases List.mem_cons.1 hp with rfl | hp
      · exact ⟨i, k, rfl, n, hn, List.mk_mem_zipIdx_iff_getElem?.1 hc⟩
      · exact ih hp

theorem lists_of_firstBelow {test : NodeId → Bool} {levels i x p k : Nat}
    (h : a.firstBelow test levels i = some ⟨x, some (p, k)⟩) : test x = true ∧ a.Lists p k x := by
  rw [firstBelow_eq] at h
  have htest := List.find?_some h
  obtain ⟨q, j, hslot, hlists⟩ := lists_of_mem_placesAt (List.mem_of_find?_eq_some h)
  cases hslot
  exact ⟨htest, hlists⟩

namespace Ranked

theorem mem_order_of_firstBelow (h : a.Ranked rank) {test : NodeId → Bool} {levels i x p k : Nat}
    (hfound : a.firstBelow test levels i = some ⟨x, some (p, k)⟩) : p ∈ a.order i := by
  induction levels generalizing i with
  | zero => cases hfound
  | succ levels ih =>
    obtain ⟨n, j, c, hn, hc, ⟨-, heq⟩ | ⟨-, hbelow⟩⟩ := firstBelow_eq_some hfound
    · cases heq
      exact h.mem_order_self (node?_lt hn)
    · rw [h.order_of_some hn]
      exact List.mem_cons_of_mem _
        (List.mem_flatMap.2 ⟨c, List.mem_of_getElem? hc, ih hbelow⟩)

theorem placesAt_eq (h : a.Ranked rank) {k l i : Nat} (hk : rank i ≤ k) (hl : rank i ≤ l) :
    a.placesAt k i = a.placesAt l i := by
  apply h.levels_eq _ _ hk hl
  · intro k l i hn
    cases k <;> cases l <;> simp [placesAt, hn]
  · intro k l i n hn hc
    simp only [placesAt, hn]
    refine List.flatMap_congr fun e he => ?_
    rw [hc e.1 (List.fst_mem_of_mem_zipIdx he)]

theorem order_eq_placesAt (h : a.Ranked rank) {levels i : Nat} (hi : rank i ≤ levels) :
    a.order i = (i :: (a.placesAt levels i).map (·.node)).filter a.isNode := by
  induction levels generalizing i with
  | zero =>
    have hn := h.node?_eq_none (Nat.le_zero.1 hi)
    simp [h.order_of_none hn, placesAt, isNode_eq_false hn]
  | succ levels ih =>
    cases hn : a.node? i with
    | none => simp [h.order_of_none hn, placesAt, hn, isNode_eq_false hn]
    | some n =>
      have hc : ∀ c ∈ n.children,
          a.order c = (c :: (a.placesAt levels c).map (·.node)).filter a.isNode := by
        intro c hc
        have := h.lt hn c hc
        exact ih (by omega)
      rw [h.order_of_some hn, List.flatMap_congr hc, placesAt, hn,
        List.filter_cons_of_pos (isNode_of_node? hn), List.map_flatMap, List.filter_flatMap]
      conv_lhs => rw [← List.zipIdx_map_fst 0 n.children, List.flatMap_map]
      rfl

theorem iter_eq_places (h : a.Ranked rank) :
    a.iter = (a.places.map (·.node)).filter a.isNode := by
  rw [h.iter_eq, places]
  cases a.root with
  | none => rfl
  | some r => exact h.order_eq_placesAt (Nat.le_succ_of_le (h.le_size r))

end Ranked

end BemOutline.Arena

import BemOutline.Proofs.Arena.Acyclic
import BemOutline.Proofs.Arena.Places
import BemOutline.Proofs.Expansion.Copies

/-! The search for a count by a stack of places. In an arena without cycles it comes to an end, with
the first place in document order whose node stands for several siblings: `search_iff_firstMultiple`
is the result of this module, and ties `firstMultiple` to the loop. -/

namespace BemOutline.Expansion

open Arena Relation

variable {a : Arena} {rank : Nat → Nat} {stack ps : List Place} {p : Place} {q : Option Place}

def slots (a : Arena) (i : Nat) : List Place :=
  (a.childrenOf i).zipIdx.map fun e => ⟨e.1, some (i, e.2)⟩

/-- The loop of the search. A place is taken off the stack; a number of no node is passed over, a
count ends the search, and else the slots of the node come on top, the first one uppermost. -/
inductive Search (a : Arena) : List Place → Option Place → Prop
  | empty : Search a [] none
  | nowhere {p : Place} {stack : List Place} {q : Option Place} :
    a.node? p.node = none → Search a stack q → Search a (p :: stack) q
  | found {p : Place} {stack : List Place} {n : Node} :
    a.node? p.node = some n → 1 < n.data.count → Search a (p :: stack) (some p)
  | further {p : Place} {stack : List Place} {n : Node} {q : Option Place} :
    a.node? p.node = some n → ¬ 1 < n.data.count → Search a (slots a p.node ++ stack) q →
      Search a (p :: stack) q

def pending (a : Arena) (p : Place) : List Place := p :: a.placesAt a.levelBound p.node

theorem Search.append (hstack : ∃ q, Search a stack q)
    (hps : ∀ p ∈ ps, ∀ stack, (∃ q, Search a stack q) → ∃ q, Search a (p :: stack) q) :
    ∃ q, Search a (ps ++ stack) q := by
  induction ps with
  | nil => exact hstack
  | cons p ps ih =>
    obtain ⟨hp, hps⟩ := List.forall_mem_cons.1 hps
    exact hp _ (ih hps)

theorem child_of_mem_slots {i : Nat} (hp : p ∈ slots a i) : a.Child i p.node := by
  obtain ⟨⟨c, k⟩, hc, rfl⟩ := List.mem_map.1 hp
  exact mem_childrenOf.1 (List.mem_of_getElem? (List.mk_mem_zipIdx_iff_getElem?.1 hc))

theorem exists_search_cons (h : a.Ranked rank) (p : Place)
    (hstack : ∃ q, Search a stack q) : ∃ q, Search a (p :: stack) q := by
  obtain ⟨i, slot⟩ := p
  induction i using h.induction generalizing slot stack with
  | step i ih =>
    cases hn : a.node? i with
    | none =>
      obtain ⟨q, hq⟩ := hstack
      exact ⟨q, .nowhere hn hq⟩
    | some n =>
      by_cases hcount : 1 < n.data.count
      · exact ⟨_, .found hn hcount⟩
      · have hbelow : ∃ q, Search a (slots a i ++ stack) q := by
          refine Search.append hstack fun p hp stack hstack => ?_
          obtain ⟨n, hn, hc⟩ := child_of_mem_slots hp
          exact ih n hn p.node hc hstack p.slot
        obtain ⟨q, hq⟩ := hbelow
        exact ⟨q, .further hn hcount hq⟩

theorem pending_eq (h : a.Ranked rank) (p : Place) :
    pending a p = p :: (slots a p.node).flatMap (pending a) := by
  have hrank : rank p.node ≤ a.levelBound := (h.le_size _).trans (Nat.le_succ _)
  have hplaces : a.placesAt a.levelBound p.node = a.placesAt (a.levelBound + 1) p.node :=
    h.placesAt_eq hrank (hrank.trans (Nat.le_succ _))
  have hslots : a.placesAt (a.levelBound + 1) p.node = (slots a p.node).flatMap (pending a) := by
    rw [placesAt, slots, childrenOf, List.flatMap_map]
    cases a.node? p.node <;> rfl
  rw [← hslots, ← hplaces, pending]

theorem search_iff (h : a.Ranked rank) :
    Search a stack q ↔
      q = (stack.flatMap (pending a)).find? fun p => 1 < countOf a p.node := by
  have hends : ∀ {stack q}, Search a stack q →
      q = (stack.flatMap (pending a)).find? fun p => 1 < countOf a p.node := by
    intro stack q hq
    induction hq with
    | empty => rfl
    | @nowhere p stack q hn _ ih =>
      have hslots : slots a p.node = [] := by rw [slots, childrenOf_of_none hn]; rfl
      rw [List.flatMap_cons, pending_eq h, hslots, List.flatMap_nil, List.cons_append,
        List.nil_append, List.find?_cons_of_neg (by simp [countOf, hn]), ih]
    | @found p stack n hn hcount =>
      rw [List.flatMap_cons, pending, List.cons_append,
        List.find?_cons_of_pos (by simpa [countOf, hn] using hcount)]
    | @further p stack n q hn hcount _ ih =>
      rw [List.flatMap_cons, pending_eq h, List.cons_append, ← List.flatMap_append,
        List.find?_cons_of_neg (by simpa [countOf, hn] using hcount), ih]
  refine ⟨hends, ?_⟩
  rintro rfl
  obtain ⟨q, hq⟩ : ∃ q, Search a (stack ++ []) q :=
    Search.append ⟨none, .empty⟩ fun p _ _ hstack => exists_search_cons h p hstack
  rw [List.append_nil] at hq
  exact hends hq ▸ hq

/-- From the root the search ends with the count that is expanded next. -/
theorem search_iff_firstMultiple (h : ∀ i, ¬ TransGen a.Child i i) :
    Search a (a.root.map (⟨·, none⟩)).toList q ↔ firstMultiple a = q := by
  rw [search_iff (ranked_of_acyclic h), firstMultiple, first_eq, places, eq_comm]
  cases a.root with
  | none => rfl
  | some r => rw [Option.map_some, Option.toList_some, List.flatMap_singleton, pending]

end BemOutline.Expansion

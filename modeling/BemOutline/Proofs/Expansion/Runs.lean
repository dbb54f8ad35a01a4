import BemOutline.Expansion
import BemOutline.Proofs.Arena.Places

/-! Runs of an expander. What every step preserves holds after any sequence of runs, and a run that
stops by itself leaves no count above one in the document. -/

namespace BemOutline.Expansion

open Arena

variable {a : Arena} {x p k : Nat}

theorem firstMultiple_eq_some {q : Place} (h : firstMultiple a = some q) :
    1 < countOf a q.node ∧
      (q.slot = none ∧ a.root = some q.node ∨
        ∃ p k, q.slot = some (p, k) ∧ a.Lists p k q.node) := by
  rw [firstMultiple, first_eq] at h
  have hcount := List.find?_some h
  have hmem := List.mem_of_find?_eq_some h
  refine ⟨of_decide_eq_true hcount, ?_⟩
  rw [places] at hmem
  cases hr : a.root with
  | none => simp [hr] at hmem
  | some r =>
    rw [hr] at hmem
    rcases List.mem_cons.1 hmem with rfl | hmem
    · exact .inl ⟨rfl, rfl⟩
    · exact .inr (lists_of_mem_placesAt hmem)

theorem lists_of_firstMultiple (hx : firstMultiple a = some ⟨x, some (p, k)⟩) :
    1 < countOf a x ∧ a.Lists p k x := by
  obtain ⟨hcount, ⟨hslot, -⟩ | ⟨p', k', hslot, hlists⟩⟩ := firstMultiple_eq_some hx
  · cases hslot
  · cases hslot
    exact ⟨hcount, hlists⟩

theorem countOf_le_one {rank : Nat → Nat} (ha : a.Ranked rank) (h : firstMultiple a = none)
    {i : Nat} (hi : i ∈ a.iter) : countOf a i ≤ 1 := by
  rw [firstMultiple, first_eq, List.find?_eq_none] at h
  rw [ha.iter_eq_places] at hi
  obtain ⟨q, hq, rfl⟩ := List.mem_map.1 (List.mem_of_mem_filter hi)
  have := h q hq
  simpa using this

/-- Why a run stops at an arena, and what it then says about an overrun, given what it would have
said before. -/
inductive Stops (e : Expander) (length : Nat) (a : Arena) (before : Option Overrun) :
    Option Overrun → Prop where
  | complete : firstMultiple a = none → Stops e length a before before
  | steps : firstMultiple a ≠ none → Stops e length a before (some (.stepLimit e.stepLimit))
  | nodes {m x p k : Nat} : e.nodeLimit = some m → firstMultiple a = some ⟨x, some (p, k)⟩ →
    m < length + growth a x p → Stops e length a before (some (.nodeLimit m))

/-- What the steps of an expander keep true of the length of the document, the number of added nodes
and the arena, is true of these where a run ends. Only steps within the node limit are taken. -/
theorem run_stops {P : Nat → Nat → Arena → Prop} (e : Expander)
    (reset : ∀ {length added a r}, P length added a → a.root = some r →
      P length added (resetCount a r))
    (replace : ∀ {length added a p k x}, P length added a → a.Lists p k x → 1 < countOf a x →
      (∀ m, e.nodeLimit = some m → length + growth a x p ≤ m) →
      P (length + growth a x p) (added + growth a x p) (replaceSlot e.mode a x p k))
    (stepsLeft length : Nat) (r : Report) (h : P length r.nodesAdded a) :
    ∃ length', P length' (run e stepsLeft length a r).2.nodesAdded
        (run e stepsLeft length a r).1 ∧
      Stops e length' (run e stepsLeft length a r).1 r.overrun
        (run e stepsLeft length a r).2.overrun := by
  fun_induction run e stepsLeft length a r with
  | case1 stepsLeft length a r hnone => exact ⟨_, h, .complete hnone⟩
  | case2 length a r q hq => exact ⟨_, h, .steps (by rw [hq]; exact Option.some_ne_none q)⟩
  | case3 length a r q hq stepsLeft hslot ih =>
    obtain ⟨-, ⟨-, hroot⟩ | ⟨p, k, hsome, -⟩⟩ := firstMultiple_eq_some hq
    · exact ih (reset h hroot)
    · rw [hslot] at hsome
      cases hsome
  | case4 length a r q hq stepsLeft p k hslot added m hlimit =>
    obtain ⟨hm, hlt⟩ := Option.filter_eq_some_iff.1 hlimit
    obtain ⟨x, _⟩ := q
    cases hslot
    exact ⟨_, h, .nodes hm hq (of_decide_eq_true hlt)⟩
  | case5 length a r q hq stepsLeft p k hslot added hlimit ih =>
    obtain ⟨hcount, ⟨hnone, -⟩ | ⟨p', k', hsome, hlists⟩⟩ := firstMultiple_eq_some hq
    · rw [hslot] at hnone
      cases hnone
    · rw [hslot] at hsome
      cases hsome
      refine ih (replace h hlists hcount fun m hm => ?_)
      have hle := Option.filter_eq_none_iff.1 hlimit m hm
      rwa [decide_eq_true_eq, Nat.not_lt] at hle

theorem run_induction {P : Arena → Prop} (e : Expander)
    (reset : ∀ {a r}, P a → a.root = some r → P (resetCount a r))
    (replace : ∀ {a p k x}, P a → a.Lists p k x → 1 < countOf a x →
      P (replaceSlot e.mode a x p k))
    (stepsLeft length : Nat) (r : Report) (h : P a) : P (run e stepsLeft length a r).1 := by
  obtain ⟨-, hrun, -⟩ := run_stops (P := fun _ _ a => P a) e reset
    (fun ha hx hcount _ => replace ha hx hcount) stepsLeft length r h
  exact hrun

theorem isComplete_expand_iff (e : Expander) (a : Arena) :
    (expand e a).2.isComplete ↔ firstMultiple (expand e a).1 = none := by
  obtain ⟨length, -, hstops⟩ := run_stops (P := fun _ _ _ => True) e (fun _ _ => trivial)
    (fun _ _ _ _ => trivial) e.stepLimit a.documentLength .empty (a := a) trivial
  change Stops e length (expand e a).1 none (expand e a).2.overrun at hstops
  rw [Report.isComplete]
  generalize (expand e a).2.overrun = overrun at hstops
  cases hstops with
  | complete hnone => exact iff_of_true rfl hnone
  | steps hsome => exact iff_of_false Bool.false_ne_true hsome
  | nodes _ hx _ => exact iff_of_false Bool.false_ne_true (by rw [hx]; exact Option.some_ne_none _)

def expandAll (es : List Expander) (a : Arena) : Arena := es.foldl (fun a e => (expand e a).1) a

theorem expandAll_induction_of_mem {P : Arena → Prop}
    (reset : ∀ {a r}, P a → a.root = some r → P (resetCount a r)) {es : List Expander}
    (replace : ∀ {a p k x}, ∀ e ∈ es, P a → a.Lists p k x → 1 < countOf a x →
      P (replaceSlot e.mode a x p k))
    (h : P a) : P (expandAll es a) := by
  induction es generalizing a with
  | nil => exact h
  | cons e es ih =>
    exact ih (fun f hf => replace f (List.mem_cons_of_mem _ hf))
      (run_induction e reset (replace e List.mem_cons_self) _ _ _ h)

theorem expandAll_induction {P : Arena → Prop}
    (reset : ∀ {a r}, P a → a.root = some r → P (resetCount a r))
    (replace : ∀ {a p k x} mode, P a → a.Lists p k x → 1 < countOf a x →
      P (replaceSlot mode a x p k))
    (es : List Expander) (h : P a) : P (expandAll es a) :=
  expandAll_induction_of_mem reset (fun e _ => replace e.mode) h

theorem expandAll_append (es fs : List Expander) (a : Arena) :
    expandAll (es ++ fs) a = expandAll fs (expandAll es a) := List.foldl_append

end BemOutline.Expansion

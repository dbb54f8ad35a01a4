import BemOutline.Proofs.Expansion.Growth

/-! Expansions that are interrupted and taken up again. Which step comes next hangs on the arena, on
the length of its document and on the node limit, not on the steps taken so far: a step limit
decides only how far a run gets on its way. -/

namespace BemOutline.Expansion

open Arena Outline

variable {a b : Arena} {mode : Mode} {nodes : Option Nat} {length : Nat}

/-- The next step, if there is one and the node limit admits it: by how much the document grows, and
the arena behind the step. -/
def next? (mode : Mode) (nodes : Option Nat) (length : Nat) (a : Arena) : Option (Nat × Arena) :=
  match firstMultiple a with
  | none => none
  | some ⟨x, none⟩ => some (0, resetCount a x)
  | some ⟨x, some (p, k)⟩ =>
    match nodes.filter (· < length + growth a x p) with
    | some _ => none
    | none => some (growth a x p, replaceSlot mode a x p k)

structure Reached where
  arena : Arena
  steps : Nat
  nodesAdded : Nat

namespace Reached

def since (r : Reached) (steps added : Nat) : Reached :=
  ⟨r.arena, steps + r.steps, added + r.nodesAdded⟩

theorem since_zero (r : Reached) : r.since 0 0 = r := by
  rw [since, Nat.zero_add, Nat.zero_add]

theorem since_since (r : Reached) (s k s' k' : Nat) :
    (r.since s k).since s' k' = r.since (s' + s) (k' + k) := by
  simp only [since, Nat.add_assoc]

end Reached

def advance (mode : Mode) (nodes : Option Nat) : Nat → Nat → Arena → Reached
  | 0, _, a => ⟨a, 0, 0⟩
  | n + 1, length, a =>
    match next? mode nodes length a with
    | none => ⟨a, 0, 0⟩
    | some (added, b) => (advance mode nodes n (length + added) b).since 1 added

theorem advance_of_none (h : next? mode nodes length a = none) (n : Nat) :
    advance mode nodes n length a = ⟨a, 0, 0⟩ := by
  cases n with
  | zero => rfl
  | succ n => rw [advance, h]

theorem advance_of_some {added : Nat} (h : next? mode nodes length a = some (added, b)) (n : Nat) :
    advance mode nodes (n + 1) length a =
      (advance mode nodes n (length + added) b).since 1 added := by
  rw [advance, h]

theorem advance_add (mode : Mode) (nodes : Option Nat) (m n length : Nat) (a : Arena) :
    advance mode nodes (m + n) length a =
      let r := advance mode nodes m length a
      (advance mode nodes n (length + r.nodesAdded) r.arena).since r.steps r.nodesAdded := by
  induction m generalizing length a with
  | zero => rw [Nat.zero_add, advance, Reached.since_zero, Nat.add_zero]
  | succ m ih =>
    cases h : next? mode nodes length a with
    | none =>
      rw [advance_of_none h, advance_of_none h]
      exact (congrArg (Reached.since · 0 0) (advance_of_none h n)).symm
    | some step =>
      obtain ⟨added, b⟩ := step
      rw [Nat.succ_add, advance_of_some h, advance_of_some h, ih, Reached.since_since,
        Reached.since, Nat.add_assoc]
      rfl

theorem run_eq_advance (e : Expander) (n length : Nat) (a : Arena) (r : Report) :
    (run e n length a r).1 = (advance e.mode e.nodeLimit n length a).arena ∧
      (run e n length a r).2.steps =
        r.steps + (advance e.mode e.nodeLimit n length a).steps ∧
      (run e n length a r).2.nodesAdded =
        r.nodesAdded + (advance e.mode e.nodeLimit n length a).nodesAdded := by
  fun_induction run e n length a r with
  | case1 n length a r hnone =>
    have hnext : next? e.mode e.nodeLimit length a = none := by
      rw [next?, hnone]
    rw [advance_of_none hnext]
    exact ⟨rfl, rfl, rfl⟩
  | case2 => exact ⟨rfl, rfl, rfl⟩
  | case3 length a r q hq n hslot ih =>
    obtain ⟨x, _⟩ := q
    cases hslot
    have hnext : next? e.mode e.nodeLimit length a = some (0, resetCount a x) := by
      rw [next?, hq]
    rw [advance_of_some hnext, Reached.since, ← Nat.add_assoc, Nat.zero_add]
    exact ih
  | case4 length a r q hq n p k hslot added limit hlimit =>
    obtain ⟨x, _⟩ := q
    cases hslot
    have hnext : next? e.mode e.nodeLimit length a = none := by
      rw [next?, hq]
      simp only [hlimit, added]
    rw [advance_of_none hnext]
    exact ⟨rfl, rfl, rfl⟩
  | case5 length a r q hq n p k hslot added hlimit ih =>
    obtain ⟨x, _⟩ := q
    cases hslot
    have hnext : next? e.mode e.nodeLimit length a =
        some (growth a x p, replaceSlot e.mode a x p k) := by
      rw [next?, hq]
      simp only [hlimit, added]
    rw [advance_of_some hnext, Reached.since, ← Nat.add_assoc, ← Nat.add_assoc]
    exact ih

theorem expand_eq_advance (e : Expander) (a : Arena) :
    (expand e a).1 = (advance e.mode e.nodeLimit e.stepLimit a.documentLength a).arena ∧
      (expand e a).2.steps =
        (advance e.mode e.nodeLimit e.stepLimit a.documentLength a).steps ∧
      (expand e a).2.nodesAdded =
        (advance e.mode e.nodeLimit e.stepLimit a.documentLength a).nodesAdded := by
  have hrun := run_eq_advance e e.stepLimit a.documentLength a .empty
  rwa [Report.empty, Nat.zero_add, Nat.zero_add] at hrun

theorem expand_of_firstMultiple_eq_none (h : firstMultiple a = none) (e : Expander) :
    expand e a = (a, .empty) := by
  rw [expand]
  unfold run
  rw [h]

theorem expandAll_of_firstMultiple_eq_none (h : firstMultiple a = none) (es : List Expander) :
    expandAll es a = a := by
  induction es with
  | nil => rfl
  | cons e es ih =>
    rw [expandAll, List.foldl_cons, expand_of_firstMultiple_eq_none h e]
    exact ih

/-- The second of two runs counts the length of the document anew, and finds what one run would have
kept track of. -/
theorem Sound.expand_add (h : Sound a) (mode : Mode) (nodes : Option Nat) (m n : Nat) :
    let first := expand ⟨mode, m, nodes⟩ a
    let second := expand ⟨mode, n, nodes⟩ first.1
    let whole := expand ⟨mode, m + n, nodes⟩ a
    second.1 = whole.1 ∧ first.2.steps + second.2.steps = whole.2.steps ∧
      first.2.nodesAdded + second.2.nodesAdded = whole.2.nodesAdded := by
  intro first second whole
  have hlength : first.1.documentLength = a.documentLength + first.2.nodesAdded :=
    (h.documentLength_expand ⟨mode, m, nodes⟩).1
  obtain ⟨harena, hsteps, hadded⟩ := expand_eq_advance ⟨mode, m, nodes⟩ a
  have hsecond := expand_eq_advance ⟨mode, n, nodes⟩ first.1
  have hwhole := expand_eq_advance ⟨mode, m + n, nodes⟩ a
  rw [hlength] at hsecond
  simp only [advance_add mode nodes m n, Reached.since, ← harena, ← hsteps, ← hadded] at hwhole
  obtain ⟨harena', hsteps', hadded'⟩ := hsecond
  rw [← harena', ← hsteps', ← hadded'] at hwhole
  exact ⟨hwhole.1.symm, hwhole.2.1.symm, hwhole.2.2.symm⟩

/-- However a built document has been expanded so far, a run can be interrupted after any number of
steps and taken up again: the two runs come to the arena of one run with both step limits together,
their reports add up to its report, and it is complete just when the second one is. After a complete
run no run does anything. -/
theorem expand_add_of_build {defaultTag text : String} {limit : Nat}
    (h : build defaultTag limit text = .ok a) (es : List Expander) :
    (∀ mode nodes m n,
      let first := expand ⟨mode, m, nodes⟩ (expandAll es a)
      let second := expand ⟨mode, n, nodes⟩ first.1
      let whole := expand ⟨mode, m + n, nodes⟩ (expandAll es a)
      second.1 = whole.1 ∧ first.2.steps + second.2.steps = whole.2.steps ∧
        first.2.nodesAdded + second.2.nodesAdded = whole.2.nodesAdded ∧
        (whole.2.isComplete ↔ second.2.isComplete)) ∧
      ∀ e, (expand e (expandAll es a)).2.isComplete → ∀ fs e',
        expand e' (expandAll fs (expand e (expandAll es a)).1) =
          ((expand e (expandAll es a)).1, ⟨0, 0, none⟩) := by
  constructor
  · intro mode nodes m n first second whole
    obtain ⟨harena, hsteps, hadded⟩ :=
      ((sound_of_build h).expandAll es).expand_add mode nodes m n
    refine ⟨harena, hsteps, hadded, ?_⟩
    rw [isComplete_expand_iff, isComplete_expand_iff, harena]
  · intro e hcomplete fs e'
    have hnone := (isComplete_expand_iff e _).1 hcomplete
    rw [expandAll_of_firstMultiple_eq_none hnone]
    exact expand_of_firstMultiple_eq_none hnone e'

/-- A list that is shared by two places, in which copies are then made: interrupted after one step,
once under a node limit that stops the second run at once, once without one. -/
theorem expand_add_of_build_shared :
    ∃ a, build "div" 2 "ul\n  li*2\n    a*3\n    b*9" = .ok a ∧
      let b := expandAll [⟨.aliased, 1, none⟩] a
      (expand ⟨.copy, 1, some 15⟩ b).2 = ⟨1, 4, some (.stepLimit 1)⟩ ∧
      (expand ⟨.copy, 4, some 15⟩ (expand ⟨.copy, 1, some 15⟩ b).1).2 =
        ⟨0, 0, some (.nodeLimit 15)⟩ ∧
      (expand ⟨.copy, 5, some 15⟩ b).1 =
        (expand ⟨.copy, 4, some 15⟩ (expand ⟨.copy, 1, some 15⟩ b).1).1 ∧
      (expand ⟨.copy, 5, some 15⟩ b).2.nodesAdded = 4 ∧
      (expand ⟨.copy, 5, none⟩ b).2.steps = 2 ∧ (expand ⟨.copy, 5, none⟩ b).2.nodesAdded = 20 ∧
      expand ⟨.aliased, 0, some 1⟩ (expand ⟨.copy, 5, none⟩ b).1 =
        ((expand ⟨.copy, 5, none⟩ b).1, ⟨0, 0, none⟩) := by
  let a : Arena :=
    ⟨#[⟨⟨"ul", 0, "div", .block "ul", [], 1, none⟩, none, [1]⟩,
      ⟨⟨"  li*2", 2, "div", .elem "li", [], 2, none⟩, some 0, [2, 3]⟩,
      ⟨⟨"    a*3", 4, "div", .elem "a", [], 3, none⟩, some 1, []⟩,
      ⟨⟨"    b*9", 4, "div", .elem "b", [], 9, none⟩, some 1, []⟩], some 0⟩
  have hbuild : build "div" 2 "ul\n  li*2\n    a*3\n    b*9" = .ok a := rfl
  obtain ⟨hadd, hdone⟩ := expand_add_of_build hbuild [⟨.aliased, 1, none⟩]
  have hshort : (expand ⟨.copy, 1, some 15⟩ (expandAll [⟨.aliased, 1, none⟩] a)).2 =
      ⟨1, 4, some (.stepLimit 1)⟩ := by decide +kernel
  have hstopped : (expand ⟨.copy, 4, some 15⟩
      (expand ⟨.copy, 1, some 15⟩ (expandAll [⟨.aliased, 1, none⟩] a)).1).2 =
      ⟨0, 0, some (.nodeLimit 15)⟩ := by decide +kernel
  have hfree : (expand ⟨.copy, 1, none⟩ (expandAll [⟨.aliased, 1, none⟩] a)).2 =
      ⟨1, 4, some (.stepLimit 1)⟩ := by decide +kernel
  have hended : (expand ⟨.copy, 4, none⟩
      (expand ⟨.copy, 1, none⟩ (expandAll [⟨.aliased, 1, none⟩] a)).1).2 = ⟨1, 16, none⟩ := by
    decide +kernel
  refine ⟨a, hbuild, ?_⟩
  generalize expandAll [⟨.aliased, 1, none⟩] a = b at *
  obtain ⟨harena, -, hadded, -⟩ := hadd .copy (some 15) 1 4
  obtain ⟨-, hsteps, hadded', hcomplete⟩ := hadd .copy none 1 4
  rw [hshort, hstopped] at hadded
  rw [hfree, hended] at hsteps hadded'
  rw [hended] at hcomplete
  exact ⟨hshort, hstopped, harena.symm, hadded.symm, hsteps.symm, hadded'.symm,
    hdone ⟨.copy, 5, none⟩ (hcomplete.2 rfl) [] ⟨.aliased, 0, some 1⟩⟩

end BemOutline.Expansion

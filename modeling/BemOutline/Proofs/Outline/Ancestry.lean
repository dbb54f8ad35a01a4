import BemOutline.Outline
import Mathlib.Order.Nat

/-! The search for an ancestor in arenas whose parent links may lead anywhere, to numbers of no node
or around in a circle. The first ancestor at which the way up ends settles the answer, and the limit
decides only whether that one is reached. -/

namespace BemOutline.Outline

open Arena

variable {a : Arena} {depth limit steps i j : Nat} {id p r r' : NodeId}

def ancestor (a : Arena) (id : NodeId) : Nat → Option NodeId
  | 0 => some id
  | i + 1 => (ancestor a id i).bind a.parentOf

/-- Where the way up ends at an ancestor: with that one if it has no parent, with its parent if that
is less deep. -/
inductive EndsAt (a : Arena) (depth : Nat) (id : NodeId) (i : Nat) : NodeId → Prop where
  | top {c : NodeId} : ancestor a id i = some c → a.parentOf c = none → EndsAt a depth id i c
  | shallower {c p : NodeId} : ancestor a id i = some c → a.parentOf c = some p →
    a.depthOf p < depth → EndsAt a depth id i p

def EndsFirst (a : Arena) (depth : Nat) (id : NodeId) (i : Nat) (r : NodeId) : Prop :=
  EndsAt a depth id i r ∧ ∀ j < i, ∀ r', ¬ EndsAt a depth id j r'

theorem ancestor_succ (a : Arena) (id : NodeId) (i : Nat) :
    ancestor a id (i + 1) = (a.parentOf id).bind fun p => ancestor a p i := by
  induction i with
  | zero =>
    change a.parentOf id = _
    cases a.parentOf id <;> rfl
  | succ i ih =>
    rw [ancestor, ih, Option.bind_assoc]
    rfl

theorem ancestor_succ_of_parentOf (hp : a.parentOf id = some p) (i : Nat) :
    ancestor a id (i + 1) = ancestor a p i := by
  rw [ancestor_succ, hp, Option.bind_some]

theorem endsAt_succ_iff (hp : a.parentOf id = some p) :
    EndsAt a depth id (i + 1) r ↔ EndsAt a depth p i r := by
  constructor
  · rintro (⟨hc, hnone⟩ | ⟨hc, hq, hd⟩) <;> rw [ancestor_succ_of_parentOf hp] at hc
    · exact .top hc hnone
    · exact .shallower hc hq hd
  · rintro (⟨hc, hnone⟩ | ⟨hc, hq, hd⟩) <;> rw [← ancestor_succ_of_parentOf hp] at hc
    · exact .top hc hnone
    · exact .shallower hc hq hd

theorem not_endsAt_succ (hnone : a.parentOf id = none) : ¬ EndsAt a depth id (i + 1) r := by
  have hancestor : ancestor a id (i + 1) = none := by
    rw [ancestor_succ, hnone, Option.bind_none]
  rintro (⟨hc, -⟩ | ⟨hc, -⟩) <;> rw [hancestor] at hc <;> cases hc

theorem not_endsAt_zero (hp : a.parentOf id = some p) (hd : ¬ a.depthOf p < depth) :
    ¬ EndsAt a depth id 0 r := by
  rintro (⟨hc, hnone⟩ | ⟨hc, hq, hlt⟩) <;> cases hc
  · rw [hp] at hnone
    cases hnone
  · rw [hp] at hq
    cases hq
    exact hd hlt

theorem EndsFirst.of_succ (h : EndsFirst a depth id (i + 1) r) (hp : a.parentOf id = some p) :
    EndsFirst a depth p i r :=
  ⟨(endsAt_succ_iff hp).1 h.1, fun j hj s hs =>
    h.2 (j + 1) (Nat.succ_lt_succ hj) s ((endsAt_succ_iff hp).2 hs)⟩

theorem EndsAt.eq (h : EndsAt a depth id i r) (h' : EndsAt a depth id i r') : r = r' := by
  cases h <;> cases h' <;> simp_all

theorem exists_endsFirst (h : EndsAt a depth id i r) : ∃ j ≤ i, ∃ s, EndsFirst a depth id j s := by
  classical
  have hex : ∃ j s, EndsAt a depth id j s := ⟨i, r, h⟩
  obtain ⟨s, hs⟩ := Nat.find_spec hex
  exact ⟨Nat.find hex, Nat.find_min' hex ⟨r, h⟩, s, hs, fun j hj s' hs' =>
    Nat.find_min hex hj ⟨s', hs'⟩⟩

theorem climb_of_endsFirst (h : EndsFirst a depth id i r) (hi : i < steps) :
    climb a depth limit steps id = .ok r := by
  induction steps generalizing i id with
  | zero => omega
  | succ steps ih =>
    obtain ⟨hend, hfirst⟩ := h
    rw [climb]
    cases hp : a.parentOf id with
    | none =>
      cases i with
      | zero => exact congrArg _ (EndsAt.eq (.top rfl hp) hend)
      | succ i => exact absurd hend (not_endsAt_succ hp)
    | some p =>
      by_cases hd : a.depthOf p < depth
      · have hhere : EndsAt a depth id 0 p := .shallower rfl hp hd
        have hzero : i = 0 := Nat.eq_zero_of_not_pos fun hpos => hfirst 0 hpos p hhere
        subst hzero
        exact (if_pos hd).trans (congrArg _ (hhere.eq hend))
      · cases i with
        | zero => exact absurd hend (not_endsAt_zero hp hd)
        | succ i =>
          have hnext : EndsFirst a depth p i r := EndsFirst.of_succ ⟨hend, hfirst⟩ hp
          exact (if_neg hd).trans (ih hnext (Nat.lt_of_succ_lt_succ hi))

theorem climb_of_no_end (h : ∀ i < steps, ∀ r, ¬ EndsAt a depth id i r) :
    climb a depth limit steps id = .error (.nestingTooDeep limit) := by
  induction steps generalizing id with
  | zero => rfl
  | succ steps ih =>
    have hhere := h 0 (Nat.succ_pos steps)
    rw [climb]
    cases hp : a.parentOf id with
    | none => exact absurd (.top rfl hp) (hhere id)
    | some p =>
      have hd : ¬ a.depthOf p < depth := fun hd => hhere p (.shallower rfl hp hd)
      simp only [if_neg hd]
      exact ih fun i hi r hr => h (i + 1) (Nat.succ_lt_succ hi) r ((endsAt_succ_iff hp).2 hr)

theorem closestParent_of_endsFirst (h : EndsFirst a depth id i r) (hi : i ≤ limit) :
    closestParent a id depth limit = .ok r := climb_of_endsFirst h (Nat.lt_succ_of_le hi)

theorem closestParent_of_no_end (h : ∀ i ≤ limit, ∀ r, ¬ EndsAt a depth id i r) :
    closestParent a id depth limit = .error (.nestingTooDeep limit) :=
  climb_of_no_end fun i hi => h i (Nat.le_of_lt_succ hi)

theorem closestParent_eq_ok_iff :
    closestParent a id depth limit = .ok r ↔ ∃ i ≤ limit, EndsFirst a depth id i r := by
  constructor
  · intro h
    by_cases hend : ∃ i ≤ limit, ∃ s, EndsAt a depth id i s
    · obtain ⟨i, hi, s, hs⟩ := hend
      obtain ⟨j, hj, s', hs'⟩ := exists_endsFirst hs
      rw [closestParent_of_endsFirst hs' (hj.trans hi), Except.ok.injEq] at h
      exact ⟨j, hj.trans hi, h ▸ hs'⟩
    · rw [closestParent_of_no_end fun i hi s hs => hend ⟨i, hi, s, hs⟩] at h
      cases h
  · rintro ⟨i, hi, h⟩
    exact closestParent_of_endsFirst h hi

theorem closestParent_eq_error_iff {e : OutlineError} :
    closestParent a id depth limit = .error e ↔
      e = .nestingTooDeep limit ∧ ∀ i ≤ limit, ∀ r, ¬ EndsAt a depth id i r := by
  constructor
  · intro h
    have hend : ∀ i ≤ limit, ∀ r, ¬ EndsAt a depth id i r := by
      intro i hi s hs
      obtain ⟨j, hj, s', hs'⟩ := exists_endsFirst hs
      rw [closestParent_of_endsFirst hs' (hj.trans hi)] at h
      cases h
    rw [closestParent_of_no_end hend, Except.error.injEq] at h
    exact ⟨h.symm, hend⟩
  · rintro ⟨rfl, hend⟩
    exact closestParent_of_no_end hend

/-- Wherever the parent links lead, the search answers with the first end of the way up that lies
within the limit, and fails if there is none. A greater limit leaves every answer as it is. -/
theorem closestParent_first_end (a : Arena) (id : NodeId) (depth limit : Nat) :
    (∀ r, closestParent a id depth limit = .ok r ↔ ∃ i ≤ limit, EndsFirst a depth id i r) ∧
      (∀ e, closestParent a id depth limit = .error e ↔
        e = .nestingTooDeep limit ∧ ∀ i ≤ limit, ∀ r, ¬ EndsAt a depth id i r) ∧
      ∀ greater r, limit ≤ greater → closestParent a id depth limit = .ok r →
        closestParent a id depth greater = .ok r := by
  refine ⟨fun r => closestParent_eq_ok_iff, fun e => closestParent_eq_error_iff, ?_⟩
  intro greater r hle h
  obtain ⟨i, hi, hend⟩ := closestParent_eq_ok_iff.1 h
  exact closestParent_of_endsFirst hend (hi.trans hle)

/-- Two nodes that are each other's parent, and one below a number of no node. -/
example :
    let line (depth : Nat) : Line := ⟨"", depth, "", .elem "", [], 1, none⟩
    let a : Arena := ⟨#[⟨line 3, some 1, []⟩, ⟨line 2, some 0, []⟩, ⟨line 5, some 9, []⟩], none⟩
    closestParent a 0 2 300 = .error (.nestingTooDeep 300) ∧ closestParent a 0 3 0 = .ok 1 ∧
      closestParent a 1 3 0 = .error (.nestingTooDeep 0) ∧ closestParent a 1 3 1 = .ok 1 ∧
      closestParent a 2 1 0 = .ok 9 ∧ closestParent a 2 0 1 = .ok 9 := by
  decide +kernel

end BemOutline.Outline

import Mathlib.Data.Nat.Find
import Mathlib.Logic.Function.Iterate

/-! Nesting by depth alone: the parent of a line is the nearest earlier line that is less deep, and
line 0 where there is none. -/

namespace BemOutline.Outline

def parentIndex (d : Nat → Nat) (j : Nat) : Nat := Nat.findGreatest (fun i => d i < d j) (j - 1)

def Within (d : Nat → Nat) (links i p : Nat) : Prop := ∃ k ≤ links, (parentIndex d)^[k] i = p

instance (d : Nat → Nat) (links i p : Nat) : Decidable (Within d links i p) :=
  inferInstanceAs (Decidable (∃ k ≤ links, (parentIndex d)^[k] i = p))

variable {d d' : Nat → Nat} {i j p links : Nat}

theorem parentIndex_lt (hj : 0 < j) : parentIndex d j < j := by
  have := Nat.findGreatest_le (P := fun i => d i < d j) (j - 1)
  unfold parentIndex
  omega

theorem le_of_parentIndex_lt (hi : parentIndex d j < i) (hij : i < j) : d j ≤ d i :=
  Nat.le_of_not_lt (Nat.findGreatest_is_greatest (P := fun i => d i < d j) hi (by omega))

theorem le_parentIndex (hp : p < j) (hd : d p < d j) : p ≤ parentIndex d j :=
  Nat.le_findGreatest (P := fun i => d i < d j) (by omega) hd

theorem depth_parentIndex_lt (h : parentIndex d j ≠ 0) : d (parentIndex d j) < d j :=
  Nat.findGreatest_of_ne_zero (P := fun i => d i < d j) rfl h

theorem depth_parentIndex (h0 : d 0 = 0) (j : Nat) :
    d (parentIndex d j) < d j ∨ parentIndex d j = 0 ∧ d j = 0 := by
  by_cases h : parentIndex d j = 0
  · rw [h, h0]
    omega
  · exact .inl (depth_parentIndex_lt h)

theorem parentIndex_eq (hp : p < j) (hd : d p < d j) (hle : ∀ i, p < i → i < j → d j ≤ d i) :
    parentIndex d j = p := by
  rw [parentIndex, Nat.findGreatest_eq_iff]
  refine ⟨by omega, fun _ => hd, fun i hi hij => ?_⟩
  exact Nat.not_lt.2 (hle i hi (by omega))

theorem parentIndex_eq_zero (hle : ∀ i, 0 < i → i < j → d j ≤ d i) : parentIndex d j = 0 := by
  rw [parentIndex, Nat.findGreatest_eq_zero_iff]
  intro i hi hij
  exact Nat.not_lt.2 (hle i hi (by omega))

theorem parentIndex_succ_of_eq (h : d (j + 1) = d j) (hj : 0 < j) :
    parentIndex d (j + 1) = parentIndex d j := by
  obtain ⟨k, rfl⟩ : ∃ k, j = k + 1 := ⟨j - 1, by omega⟩
  rw [parentIndex, parentIndex, Nat.add_sub_cancel, Nat.add_sub_cancel,
    Nat.findGreatest_of_not (by rw [h]; exact Nat.lt_irrefl _), h]

theorem parentIndex_congr (h : ∀ i ≤ j, d i = d' i) : parentIndex d j = parentIndex d' j := by
  have hle : parentIndex d' j ≤ j - 1 := Nat.findGreatest_le _
  rw [parentIndex, Nat.findGreatest_eq_iff]
  refine ⟨hle, fun hne => ?_, fun i hi hij => ?_⟩
  · rw [h _ (by omega), h j le_rfl]
    exact depth_parentIndex_lt hne
  · rw [h i (by omega), h j le_rfl]
    exact Nat.findGreatest_is_greatest (P := fun i => d' i < d' j) hi hij

theorem iterate_parentIndex_le (k : Nat) : (parentIndex d)^[k] i ≤ i := by
  induction k generalizing i with
  | zero => exact le_rfl
  | succ k ih =>
    rw [Function.iterate_succ_apply]
    refine Nat.le_trans ih ?_
    rcases Nat.eq_zero_or_pos i with rfl | hi
    · exact le_rfl
    · exact Nat.le_of_lt (parentIndex_lt hi)

theorem iterate_parentIndex_congr (h : ∀ i ≤ j, d i = d' i) (hi : i ≤ j) (k : Nat) :
    (parentIndex d)^[k] i = (parentIndex d')^[k] i := by
  induction k with
  | zero => rfl
  | succ k ih =>
    rw [Function.iterate_succ_apply', Function.iterate_succ_apply', ← ih]
    have hle := iterate_parentIndex_le (d := d) (i := i) k
    exact parentIndex_congr fun x hx => h x (by omega)

theorem within_congr (h : ∀ i ≤ j, d i = d' i) (hi : i ≤ j) :
    Within d links i p ↔ Within d' links i p := by
  simp only [Within, iterate_parentIndex_congr h hi]

/-- Looked for one link further up, a line is found one link later. -/
theorem exists_lt_iterate_iff (hne : i ≠ p) :
    (∃ k < links + 1, (parentIndex d)^[k] i = p) ↔
      ∃ k < links, (parentIndex d)^[k] (parentIndex d i) = p := by
  constructor
  · rintro ⟨k, hk, hp⟩
    cases k with
    | zero => exact absurd hp hne
    | succ k => exact ⟨k, by omega, hp⟩
  · rintro ⟨k, hk, hp⟩
    exact ⟨k + 1, by omega, hp⟩

theorem within_iff_lt : Within d links i p ↔ ∃ k < links + 1, (parentIndex d)^[k] i = p := by
  simp only [Within, Nat.lt_succ_iff]

end BemOutline.Outline

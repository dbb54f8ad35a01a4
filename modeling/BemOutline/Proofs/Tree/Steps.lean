import BemOutline.Proofs.Tree.Full
import Mathlib.Algebra.GroupWithZero.Nat
import Mathlib.Algebra.Order.BigOperators.Group.List
import Mathlib.Algebra.Order.Group.Nat

/-! How many steps it takes to resolve the counts of a tree by making copies, each step replacing
one entry among its siblings. What a step leaves to do is one step less, though there may be more
counts in the tree than before. -/

namespace BemOutline.Tree

variable {data : Line} {t t' : Tree} {children l r : List Tree}

def ownStep (data : Line) : Nat := if 1 < data.count then 1 else 0

mutual

/-- The steps for a tree as an entry among siblings: one for its own count, and then those for
each of its copies. -/
def copySteps : Tree → Nat
  | ⟨data, children⟩ => ownStep data + data.count * copyStepsAll children

def copyStepsAll : List Tree → Nat
  | [] => 0
  | t :: ts => t.copySteps + copyStepsAll ts

end

def rootSteps (t : Tree) : Nat := ownStep t.data + copyStepsAll t.children

theorem copyStepsAll_eq (ts : List Tree) : copyStepsAll ts = (ts.map copySteps).sum := by
  induction ts with
  | nil => rfl
  | cons t ts ih => rw [copyStepsAll, ih, List.map_cons, List.sum_cons]

theorem copySteps_mk (data : Line) (children : List Tree) :
    copySteps ⟨data, children⟩ = ownStep data + data.count * (children.map copySteps).sum := by
  rw [copySteps, copyStepsAll_eq]

theorem rootSteps_mk (data : Line) (children : List Tree) :
    rootSteps ⟨data, children⟩ = ownStep data + (children.map copySteps).sum := by
  rw [rootSteps, copyStepsAll_eq]

theorem ownStep_single (data : Line) : ownStep data.single = 0 := rfl

theorem ownStep_of_count (h : data.count ≤ 1) : ownStep data = 0 := if_neg (Nat.not_lt.2 h)

theorem ownStep_of_lt (h : 1 < data.count) : ownStep data = 1 := if_pos h

theorem copySteps_eq_zero (h : ∀ l ∈ t.preorder, l.count = 1) : t.copySteps = 0 := by
  induction t using Tree.induction with
  | step data children ih =>
    have hzero : ∀ n ∈ children.map copySteps, n = 0 := by
      intro n hn
      obtain ⟨t, ht, rfl⟩ := List.mem_map.1 hn
      exact ih t ht fun l hl => h l (mem_preorder_mk.2 (.inr ⟨t, ht, hl⟩))
    rw [copySteps_mk, ownStep_of_count (Nat.le_of_eq (h data (mem_preorder_mk.2 (.inl rfl)))),
      List.sum_eq_zero hzero]
    rfl

theorem rootSteps_eq_zero (h : ∀ l ∈ t.preorder, l.count = 1) : t.rootSteps = 0 := by
  have hsteps := copySteps_eq_zero h
  have hroot := h _ t.data_mem_preorder
  cases t with
  | mk data children =>
    rw [copySteps_mk, hroot, Nat.one_mul] at hsteps
    rw [rootSteps_mk, hsteps]

theorem rootSteps_le_copySteps (h : 1 ≤ t.data.count) : t.rootSteps ≤ t.copySteps := by
  cases t with
  | mk data children =>
    rw [rootSteps_mk, copySteps_mk]
    exact Nat.add_le_add_left (Nat.le_mul_of_pos_left _ h) _

theorem countP_preorder_le_rootSteps (h : ∀ l ∈ t.preorder, 1 ≤ l.count) :
    t.preorder.countP (1 < ·.count) ≤ t.rootSteps := by
  induction t using Tree.induction with
  | step data children ih =>
    have hchildren : ∀ t ∈ children, t.preorder.countP (1 < ·.count) ≤ t.copySteps := by
      intro t ht
      have hlines : ∀ l ∈ t.preorder, 1 ≤ l.count :=
        fun l hl => h l (mem_preorder_mk.2 (.inr ⟨t, ht, hl⟩))
      exact (ih t ht hlines).trans (rootSteps_le_copySteps (hlines _ t.data_mem_preorder))
    rw [preorder_mk, rootSteps_mk, List.countP_cons, List.countP_flatMap, Nat.add_comm]
    refine Nat.add_le_add (Nat.le_of_eq ?_) (List.sum_le_sum hchildren)
    simp [ownStep]

/-- An entry with a count becomes that many entries without one, either right below the top, or
further down, where all that stands above it has the count one. -/
inductive Unfolds : Tree → Tree → Prop where
  | entry {data : Line} {l r : List Tree} {t : Tree} : 1 < t.data.count →
    Unfolds ⟨data, l ++ t :: r⟩
      ⟨data, l ++ (List.replicate t.data.count ⟨t.data.single, t.children⟩ ++ r)⟩
  | inside {data : Line} {l r : List Tree} {t t' : Tree} : t.data.count = 1 → Unfolds t t' →
    Unfolds ⟨data, l ++ t :: r⟩ ⟨data, l ++ t' :: r⟩

theorem Unfolds.data_eq (h : Unfolds t t') : t'.data = t.data := by
  cases h <;> rfl

theorem Unfolds.rootSteps_eq (h : Unfolds t t') : t.rootSteps = t'.rootSteps + 1 := by
  induction h with
  | @entry data l r t hcount =>
    have hentry : t.copySteps = t.data.count * copySteps ⟨t.data.single, t.children⟩ + 1 := by
      cases t with
      | mk d cs =>
        have hone : d.single.count = 1 := rfl
        rw [copySteps_mk, copySteps_mk, ownStep_of_lt hcount, ownStep_single, hone, Nat.zero_add,
          Nat.one_mul, Nat.add_comm]
    rw [rootSteps_mk, rootSteps_mk]
    simp only [List.map_append, List.sum_append, List.map_cons, List.sum_cons, List.map_replicate,
      List.sum_replicate_nat, hentry]
    omega
  | @inside data l r t t' hcount h ih =>
    have hentry : t.copySteps = t'.copySteps + 1 := by
      have hcount' : t'.data.count = 1 := by rw [h.data_eq, hcount]
      cases t with
      | mk d cs => cases t' with
        | mk d' cs' =>
          rw [rootSteps_mk, rootSteps_mk] at ih
          rw [copySteps_mk, copySteps_mk, hcount, hcount', Nat.one_mul, Nat.one_mul, ih]
    rw [rootSteps_mk, rootSteps_mk]
    simp only [List.map_append, List.sum_append, List.map_cons, List.sum_cons, hentry]
    omega

end BemOutline.Tree

import BemOutline.Arena.Measure
import BemOutline.Arena.Raw
import BemOutline.Proofs.Arena.Unfolding
import BemOutline.Proofs.Results
import Mathlib.Data.List.Fold

/-! The levels from an entry on, in arenas whose child links lead downwards. A number of no node
takes one level, both in the height and under the limit of the raw value. -/

namespace BemOutline.Arena

variable {a : Arena} {rank : Nat → Nat} {i k limit : Nat} {e : OutlineError}

def levels (a : Arena) (i : Nat) : Nat := a.heightAt a.levelBound i

theorem foldr_max_le_iff {ns : List Nat} : ns.foldr max 0 ≤ k ↔ ∀ n ∈ ns, n ≤ k := by
  induction ns with
  | nil => simp
  | cons n ns ih => rw [List.foldr_cons, Nat.max_le, ih, List.forall_mem_cons]

theorem foldRepeats_max (f : NodeId → Nat) (cs : List NodeId) :
    foldRepeats f max 0 cs = (cs.map f).foldr max 0 := by
  rw [foldRepeats_eq_foldl, ← List.foldl_eq_foldr, List.foldl_map]

theorem heightAt_succ (a : Arena) (k i : Nat) :
    a.heightAt (k + 1) i = 1 + ((a.childrenOf i).map (a.heightAt k)).foldr max 0 := by
  rw [heightAt]
  cases hn : a.node? i with
  | none => rw [childrenOf_of_none hn, List.map_nil, List.foldr_nil]
  | some n => rw [childrenOf_eq hn, ← foldRepeats_max]

theorem rawAt_eq_error_iff_children {n : Node} (hn : a.node? i = some n) :
    a.rawAt limit (k + 1) i = .error e ↔ n.children.mapM (a.rawAt limit k) = .error e := by
  rw [rawAt, hn]
  obtain ⟨data, parent, children⟩ := n
  cases children with
  | nil => exact ⟨nofun, nofun⟩
  | cons c cs =>
    refine bind_eq_error_iff.trans ⟨?_, .inl⟩
    rintro (hitems | ⟨items, -, hobj⟩)
    · exact hitems
    · cases hobj

namespace Ranked

/-- One level more than the rank is enough, as a number of no node has rank zero. -/
theorem heightAt_eq (h : a.Ranked rank) {l : Nat} (hk : rank i ≤ k) (hl : rank i ≤ l) :
    a.heightAt (k + 1) i = a.heightAt (l + 1) i := by
  apply h.levels_eq _ _ hk hl
  · intro k l i hn
    rw [heightAt_succ, heightAt_succ, childrenOf_of_none hn, List.map_nil, List.map_nil]
  · intro k l i n hn hc
    rw [heightAt_succ, heightAt_succ a (l + 1), childrenOf_eq hn, List.map_congr_left hc]

theorem levels_eq_one_add (h : a.Ranked rank) (i : Nat) :
    a.levels i = 1 + ((a.childrenOf i).map a.levels).foldr max 0 := by
  have hlevels : rank i ≤ a.size + 1 := Nat.le_succ_of_le (h.le_size i)
  rw [levels, levelBound, h.heightAt_eq (h.le_size i) hlevels, heightAt_succ]
  rfl

theorem levels_of_none (h : a.Ranked rank) (hn : a.node? i = none) : a.levels i = 1 := by
  rw [h.levels_eq_one_add, childrenOf_of_none hn, List.map_nil, List.foldr_nil]

theorem levels_pos (h : a.Ranked rank) (i : Nat) : 0 < a.levels i := by
  rw [h.levels_eq_one_add]
  exact Nat.lt_of_lt_of_le Nat.one_pos (Nat.le_add_right ..)

theorem levels_le_iff (h : a.Ranked rank) :
    a.levels i ≤ k + 1 ↔ ∀ c ∈ a.childrenOf i, a.levels c ≤ k := by
  rw [h.levels_eq_one_add, Nat.add_comm, Nat.add_le_add_iff_right, foldr_max_le_iff,
    List.forall_mem_map]

theorem rawAt_eq_error_iff (h : a.Ranked rank) :
    a.rawAt limit k i = .error e ↔ e = .nestingTooDeep limit ∧ k < a.levels i := by
  induction k generalizing i e with
  | zero =>
    rw [rawAt, Except.error.injEq, eq_comm]
    exact (and_iff_left (h.levels_pos i)).symm
  | succ k ih =>
    cases hn : a.node? i with
    | none => simp [rawAt, hn, h.levels_of_none hn]
    | some n =>
      have hdeep : k + 1 < a.levels i ↔ ∃ c ∈ n.children, k < a.levels c := by
        rw [← Nat.not_le, h.levels_le_iff, childrenOf_eq hn]
        simp
      rw [rawAt_eq_error_iff_children hn, mapM_eq_error_iff fun _ _ => ih, hdeep]

theorem toRaw_eq_error_iff (h : a.Ranked rank) :
    a.toRaw limit = .error e ↔ e = .nestingTooDeep limit ∧ limit + 1 < a.height := by
  rw [toRaw, height]
  cases a.root with
  | none => simp
  | some r => exact h.rawAt_eq_error_iff

end Ranked

end BemOutline.Arena

import BemOutline.Proofs.Tree.Reading

/-! The tree that a document with counts stands for. -/

namespace BemOutline

def Line.single (l : Line) : Line := { l with count := 1 }

theorem Line.single_of_count {l : Line} (h : l.count = 1) : l.single = l := by
  cases l
  cases h
  rfl

namespace Tree

mutual

/-- Every node below the top is repeated in its place as often as its count says, with all that
stands below it. In the result all counts are one. -/
def full : Tree → Tree
  | ⟨data, children⟩ => ⟨data.single, fulls children⟩

def fulls : List Tree → List Tree
  | [] => []
  | t :: ts => List.replicate t.data.count t.full ++ fulls ts

end

def spread (t : Tree) : List Tree := List.replicate t.data.count t.full

theorem fulls_eq (ts : List Tree) : fulls ts = ts.flatMap spread := by
  induction ts with
  | nil => rfl
  | cons t ts ih => rw [fulls, ih, List.flatMap_cons, spread]

theorem full_mk (data : Line) (children : List Tree) :
    full ⟨data, children⟩ = ⟨data.single, children.flatMap spread⟩ := by
  rw [full, fulls_eq]

theorem data_mem_preorder (t : Tree) : t.data ∈ t.preorder := by
  cases t
  rw [preorder]
  exact List.mem_cons_self

theorem full_eq_self {t : Tree} (h : ∀ l ∈ t.preorder, l.count = 1) : t.full = t := by
  induction t using Tree.induction with
  | step data children ih =>
    have hspread : ∀ t ∈ children, t.spread = [t] := by
      intro t ht
      have hlines : ∀ l ∈ t.preorder, l.count = 1 :=
        fun l hl => h l (mem_preorder_mk.2 (.inr ⟨t, ht, hl⟩))
      rw [spread, hlines _ t.data_mem_preorder, ih t ht hlines]
      rfl
    rw [full_mk, List.flatMap_congr hspread, List.flatMap_singleton',
      Line.single_of_count (h data (mem_preorder_mk.2 (.inl rfl)))]

theorem sizes_append (ts us : List Tree) : sizes (ts ++ us) = sizes ts + sizes us := by
  induction ts with
  | nil => rw [List.nil_append, sizes, Nat.zero_add]
  | cons t ts ih => rw [List.cons_append, sizes, sizes, ih, Nat.add_assoc]

theorem sizes_replicate (n : Nat) (t : Tree) : sizes (List.replicate n t) = n * t.size := by
  induction n with
  | zero => rw [List.replicate_zero, sizes, Nat.zero_mul]
  | succ n ih => rw [List.replicate_succ, sizes, ih, Nat.succ_mul, Nat.add_comm]

theorem size_le_size_full {t : Tree} (h : ∀ l ∈ t.preorder, 1 ≤ l.count) :
    t.size ≤ t.full.size := by
  induction t using Tree.induction with
  | step data children ih =>
    rw [full, size, size]
    refine Nat.add_le_add_left ?_ 1
    replace h : ∀ t ∈ children, ∀ l ∈ t.preorder, 1 ≤ l.count :=
      fun t ht l hl => h l (mem_preorder_mk.2 (.inr ⟨t, ht, hl⟩))
    induction children with
    | nil => exact Nat.le_refl _
    | cons t ts ihs =>
      have hhead := h t List.mem_cons_self
      have hlater : sizes ts ≤ sizes (fulls ts) :=
        ihs (fun u hu => ih u (List.mem_cons_of_mem _ hu))
          fun u hu => h u (List.mem_cons_of_mem _ hu)
      rw [fulls, sizes, sizes_append, sizes_replicate]
      have hrepeat := Nat.le_mul_of_pos_left t.full.size (hhead _ t.data_mem_preorder)
      exact Nat.add_le_add (Nat.le_trans (ih t List.mem_cons_self hhead) hrepeat) hlater

theorem mem_preorder_full {t : Tree} (h : ∀ l ∈ t.preorder, 1 ≤ l.count) {l : Line} :
    l ∈ t.full.preorder ↔ ∃ m ∈ t.preorder, m.single = l := by
  induction t using Tree.induction with
  | step data children ih =>
    have hlines : ∀ t ∈ children, ∀ l ∈ t.preorder, 1 ≤ l.count :=
      fun t ht l hl => h l (mem_preorder_mk.2 (.inr ⟨t, ht, hl⟩))
    rw [full_mk, mem_preorder_mk]
    simp only [mem_preorder_mk, List.mem_flatMap]
    constructor
    · rintro (rfl | ⟨u, ⟨t, ht, hu⟩, hl⟩)
      · exact ⟨data, .inl rfl, rfl⟩
      · rw [List.eq_of_mem_replicate hu] at hl
        obtain ⟨m, hm, rfl⟩ := (ih t ht (hlines t ht)).1 hl
        exact ⟨m, .inr ⟨t, ht, hm⟩, rfl⟩
    · rintro ⟨m, rfl | ⟨t, ht, hm⟩, rfl⟩
      · exact .inl rfl
      · have hcount := hlines t ht _ t.data_mem_preorder
        have hu : t.full ∈ t.spread := List.mem_replicate.2 ⟨by omega, rfl⟩
        exact .inr ⟨t.full, ⟨t, ht, hu⟩, (ih t ht (hlines t ht)).2 ⟨m, hm, rfl⟩⟩

end Tree

end BemOutline

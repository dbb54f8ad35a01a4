import BemOutline.Proofs.Arena.Height
import BemOutline.Proofs.Arena.RawValue
import BemOutline.Proofs.Expansion.Refinement

/-! The levels on which the lines of a tree stand. The top is level 0. Expanding counts moves no
line to another level. -/

namespace BemOutline

namespace Tree

inductive At : Tree → Nat → Line → Prop where
  | top {data : Line} {children : List Tree} : At ⟨data, children⟩ 0 data
  | child {data l : Line} {children : List Tree} {t : Tree} {n : Nat} :
    t ∈ children → At t n l → At ⟨data, children⟩ (n + 1) l

variable {data l : Line} {children ts : List Tree} {t u : Tree} {n k : Nat}

theorem at_zero_iff : At ⟨data, children⟩ 0 l ↔ l = data := by
  constructor
  · rintro ⟨⟩
    rfl
  · rintro rfl
    exact .top

theorem at_succ_iff : At ⟨data, children⟩ (n + 1) l ↔ ∃ t ∈ children, t.At n l := by
  constructor
  · rintro (_ | ⟨ht, hl⟩)
    exact ⟨_, ht, hl⟩
  · rintro ⟨t, ht, hl⟩
    exact .child ht hl

theorem heights_le_iff : heights ts ≤ k ↔ ∀ t ∈ ts, t.height ≤ k := by
  induction ts with
  | nil => exact iff_of_true (Nat.zero_le k) fun t ht => absurd ht List.not_mem_nil
  | cons t ts ih => rw [heights, Nat.max_le, ih, List.forall_mem_cons]

theorem height_le_iff : t.height ≤ k ↔ ∀ n l, t.At n l → n < k := by
  induction t using Tree.induction generalizing k with
  | step data children ih =>
    rw [height]
    constructor
    · intro hk n l hl
      cases n with
      | zero => omega
      | succ n =>
        obtain ⟨t, ht, hl⟩ := at_succ_iff.1 hl
        have hheight := heights_le_iff.1 (Nat.le_sub_one_of_lt hk) t ht
        have := (ih t ht).1 hheight n l hl
        omega
    · intro h
      have hk : 0 < k := h 0 data .top
      have hchildren : heights children ≤ k - 1 := by
        refine heights_le_iff.2 fun t ht => (ih t ht).2 fun n l hl => ?_
        have := h (n + 1) l (.child ht hl)
        omega
      omega

theorem mem_preorder_iff_at : l ∈ t.preorder ↔ ∃ n, t.At n l := by
  induction t using Tree.induction with
  | step data children ih =>
    rw [mem_preorder_mk]
    constructor
    · rintro (rfl | ⟨t, ht, hl⟩)
      · exact ⟨0, .top⟩
      · obtain ⟨n, hn⟩ := (ih t ht).1 hl
        exact ⟨n + 1, .child ht hn⟩
    · rintro ⟨n, hl⟩
      cases n with
      | zero => exact .inl (at_zero_iff.1 hl)
      | succ n =>
        obtain ⟨t, ht, hl⟩ := at_succ_iff.1 hl
        exact .inr ⟨t, ht, (ih t ht).2 ⟨n, hl⟩⟩

theorem at_full_iff (h : ∀ l ∈ t.preorder, 1 ≤ l.count) :
    t.full.At n l ↔ ∃ m, t.At n m ∧ m.single = l := by
  induction t using Tree.induction generalizing n with
  | step data children ih =>
    rw [full_mk]
    cases n with
    | zero => simp only [at_zero_iff, exists_eq_left, eq_comm (a := l)]
    | succ n =>
      have hlines : ∀ t ∈ children, ∀ l ∈ t.preorder, 1 ≤ l.count :=
        fun t ht l hl => h l (mem_preorder_mk.2 (.inr ⟨t, ht, hl⟩))
      simp only [at_succ_iff, List.mem_flatMap]
      constructor
      · rintro ⟨u, ⟨t, ht, hu⟩, hl⟩
        rw [List.eq_of_mem_replicate hu] at hl
        obtain ⟨m, hm, rfl⟩ := (ih t ht (hlines t ht)).1 hl
        exact ⟨m, ⟨t, ht, hm⟩, rfl⟩
      · rintro ⟨m, ⟨t, ht, hm⟩, rfl⟩
        have hcount := hlines t ht _ t.data_mem_preorder
        have hu : t.full ∈ t.spread := List.mem_replicate.2 ⟨by omega, rfl⟩
        exact ⟨t.full, ⟨t, ht, hu⟩, (ih t ht (hlines t ht)).2 ⟨m, hm, rfl⟩⟩

theorem forall_at_of_full_eq (ht : ∀ l ∈ t.preorder, 1 ≤ l.count)
    (hu : ∀ l ∈ u.preorder, 1 ≤ l.count) (h : u.full = t.full) {P : Nat → Line → Prop}
    (hP : ∀ n l, P n l.single ↔ P n l) (hall : ∀ n l, t.At n l → P n l) :
    ∀ n l, u.At n l → P n l := by
  intro n l hl
  -- over the common full tree and back, up to the count
  have hfull : t.full.At n l.single := h ▸ (at_full_iff hu).2 ⟨l, hl, rfl⟩
  obtain ⟨m, hm, heq⟩ := (at_full_iff ht).1 hfull
  rw [← hP, ← heq, hP]
  exact hall n m hm

end Tree

namespace Arena

variable {a : Arena} {rank : Nat → Nat} {t : Tree}

theorem Ascending.foldr_heightAt_eq (h : a.Ascending) {k : Nat} {cs : List Nat}
    (hcs : ∀ c ∈ cs, c < a.size)
    (item : ∀ c ∈ cs, ∀ t, a.subtree c = some t → a.heightAt k c = t.height) :
    (cs.map (a.heightAt k)).foldr max 0 = Tree.heights (cs.filterMap a.subtree) := by
  induction cs with
  | nil => rfl
  | cons c cs ih =>
    obtain ⟨hc, hcs⟩ := List.forall_mem_cons.1 hcs
    obtain ⟨t, ht⟩ := h.ranked.exists_subtree_iff.2 hc
    rw [List.map_cons, List.foldr_cons, item c List.mem_cons_self t ht,
      ih hcs fun d hd => item d (List.mem_cons_of_mem c hd), List.filterMap_cons_some ht,
      Tree.heights]

theorem Ascending.heightAt_eq (h : a.Ascending) {levels i : Nat} (hi : a.size - i ≤ levels)
    (ht : a.subtree i = some t) : a.heightAt levels i = t.height := by
  induction levels generalizing i t with
  | zero =>
    have := h.ranked.exists_subtree_iff.1 ⟨t, ht⟩
    omega
  | succ levels ih =>
    rw [h.ranked.subtree_eq] at ht
    obtain ⟨n, hn, rfl⟩ := Option.map_eq_some_iff.1 ht
    have hchildren := h.foldr_heightAt_eq (fun c hc => (h i n hn c hc).2) fun c hc u hu => by
      have hlt := h i n hn c hc
      exact ih (by omega) hu
    rw [heightAt_succ, childrenOf_eq hn, hchildren, Tree.height, Nat.add_comm]

theorem Ascending.height_eq (h : a.Ascending) (ht : a.document = some t) : a.height = t.height := by
  obtain ⟨r, hr, ht⟩ := Option.bind_eq_some_iff.1 ht
  rw [height, hr]
  exact h.heightAt_eq (Nat.le_succ_of_le (Nat.sub_le ..)) ht

theorem Ascending.exists_of_at (h : a.Ascending) {i : Nat} (ht : a.subtree i = some t) {n : Nat}
    {l : Line} (hl : t.At n l) :
    ∃ j m, a.node? j = some m ∧ m.data = l ∧ i ≤ j ∧ (n = 0 ↔ j = i) := by
  induction n generalizing i t with
  | zero =>
    rw [h.ranked.subtree_eq] at ht
    obtain ⟨m, hm, rfl⟩ := Option.map_eq_some_iff.1 ht
    exact ⟨i, m, hm, (Tree.at_zero_iff.1 hl).symm, le_rfl, by simp⟩
  | succ n ih =>
    rw [h.ranked.subtree_eq] at ht
    obtain ⟨p, hp, rfl⟩ := Option.map_eq_some_iff.1 ht
    obtain ⟨u, hu, hl⟩ := Tree.at_succ_iff.1 hl
    obtain ⟨c, hc, hu⟩ := List.mem_filterMap.1 hu
    obtain ⟨j, m, hm, hdata, hle, -⟩ := ih hu hl
    have hlt : i < j := Nat.lt_of_lt_of_le (h i p hp c hc).1 hle
    exact ⟨j, m, hm, hdata, Nat.le_of_lt hlt,
      iff_of_false (Nat.succ_ne_zero n) (Nat.ne_of_gt hlt)⟩

end Arena

namespace Expansion

open Arena Outline

variable {a : Arena} {t u : Tree}

theorem Sound.forall_at_expandAll_iff (h : Sound a) (ht : a.document = some t)
    {es : List Expander} (hu : (Expansion.expandAll es a).document = some u)
    {P : Nat → Line → Prop} (hP : ∀ n l, P n l.single ↔ P n l) :
    (∀ n l, u.At n l → P n l) ↔ ∀ n l, t.At n l → P n l := by
  obtain ⟨u', hu', hfull⟩ := h.document_expandAll ht es
  rw [hu] at hu'
  cases hu'
  have hcount : ∀ l ∈ t.preorder, 1 ≤ l.count := fun l hl => h.count_of_mem_preorder ht hl
  have hcount' : ∀ l ∈ u.preorder, 1 ≤ l.count :=
    fun l hl => (h.expandAll es).count_of_mem_preorder hu hl
  exact ⟨Tree.forall_at_of_full_eq hcount' hcount hfull.symm hP,
    Tree.forall_at_of_full_eq hcount hcount' hfull hP⟩

theorem isBlock_of_build {defaultTag text : String} {limit : Nat}
    (h : build defaultTag limit text = .ok a) (ht : a.document = some t) :
    ∀ n l, t.At n l → (l.name.isBlock ↔ n = 0) := by
  have hs := sound_of_build h
  intro n l hl
  rw [hs.document_eq] at ht
  obtain ⟨j, m, hm, rfl, -, hj⟩ := hs.ascending.exists_of_at ht hl
  obtain ⟨-, rfl⟩ := build_eq_ok h
  rw [isBlock_accepted (getElem?_of_node?_arenaOf hm), hj]

end Expansion

end BemOutline

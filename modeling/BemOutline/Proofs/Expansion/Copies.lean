import BemOutline.Expansion
import BemOutline.Proofs.Arena.Cloning

/-! Copies of what stands below a node, made one after the other. Each shows what the node shows, in
new nodes that are linked among themselves and have the lines of old ones. -/

namespace BemOutline.Expansion

open Arena Relation

variable {a b c : Arena} {mode : Mode} {x p i count : Nat} {made ids : List Nat} {m : Node}

/-- Whether a node has the line of an old one that is stored from a number on, and its children have
lines of the children of that one. -/
def Repeats (a : Arena) (x : Nat) (b : Arena) (m : Node) : Prop :=
  ∃ j n, x ≤ j ∧ a.node? j = some n ∧ m.data = n.data ∧
    ∀ c ∈ m.children, ∃ d ∈ n.children, (b.node? c).map (·.data) = (a.node? d).map (·.data)

/-- An arena that has grown by copies of what stands below one node, with their tops. -/
structure Enlarged (a : Arena) (x p : Nat) (b : Arena) (made : List Nat) : Prop where
  root : b.root = a.root
  old : ∀ i < a.size, b.node? i = a.node? i
  size : b.size = a.size + made.length * a.subtreeLength x
  linked : ∀ {i m}, a.size ≤ i → b.node? i = some m → b.Linked i b.size m
  repeats : ∀ {i m}, a.size ≤ i → b.node? i = some m → Repeats a x b m
  nodup : made.Nodup
  top : ∀ y ∈ made, a.size ≤ y ∧ y < b.size ∧ b.parentOf y = some p
  subtree : ∀ y ∈ made, b.subtree y = a.subtree x

theorem Linked.keep (h : b.Linked i b.size m) (hsize : b.size ≤ c.size)
    (hold : ∀ j < b.size, c.node? j = b.node? j) : c.Linked i c.size m where
  ascending := h.ascending
  child d hd := by
    obtain ⟨hlt, hdb, m', hm', hparent⟩ := h.child d hd
    exact ⟨hlt, hdb.trans_le hsize, m', (hold d hdb).trans hm', hparent⟩

theorem Repeats.keep (h : Repeats a x b m) (hlinked : b.Linked i b.size m)
    (hold : ∀ j < b.size, c.node? j = b.node? j) : Repeats a x c m := by
  obtain ⟨j, n, hj, hn, hdata, hchildren⟩ := h
  refine ⟨j, n, hj, hn, hdata, fun d hd => ?_⟩
  obtain ⟨-, hdb, -⟩ := hlinked.child d hd
  rw [hold d hdb]
  exact hchildren d hd

theorem bounds_of_reaches (ha : a.Ascending) (hx : x < a.size)
    (hold : ∀ j < a.size, b.node? j = a.node? j) (hi : ReflTransGen b.Child x i) :
    x ≤ i ∧ i < a.size := by
  induction hi with
  | refl => exact ⟨le_rfl, hx⟩
  | @tail j d _ hd ih =>
    obtain ⟨n, hn, hd⟩ := hd
    rw [hold j ih.2] at hn
    obtain ⟨hjd, hda⟩ := ha j n hn d hd
    exact ⟨ih.1.trans hjd.le, hda⟩

namespace Enlarged

theorem refl (a : Arena) (x p : Nat) : Enlarged a x p a [] where
  root := rfl
  old _ _ := rfl
  size := by simp
  linked hi hm := absurd (node?_lt hm) (Nat.not_lt.2 hi)
  repeats hi hm := absurd (node?_lt hm) (Nat.not_lt.2 hi)
  nodup := List.nodup_nil
  top := nofun
  subtree := nofun

theorem node?_cases (h : Enlarged a x p b made) (hm : b.node? i = some m) :
    a.node? i = some m ∨ a.size ≤ i := by
  obtain hi | hi := Nat.lt_or_ge i a.size
  · exact .inl ((h.old i hi).symm.trans hm)
  · exact .inr hi

theorem size_le (h : Enlarged a x p b made) : a.size ≤ b.size :=
  (Nat.le_add_right ..).trans_eq h.size.symm

theorem ascending (h : Enlarged a x p b made) (ha : a.Ascending) : b.Ascending := by
  intro i m hm d hd
  rcases h.node?_cases hm with hma | hi
  · obtain ⟨hid, hda⟩ := ha i m hma d hd
    exact ⟨hid, hda.trans_le h.size_le⟩
  · obtain ⟨hid, hdb, -⟩ := (h.linked hi hm).child d hd
    exact ⟨hid, hdb⟩

theorem subtree_of_lt (h : Enlarged a x p b made) (ha : a.Ascending) (hi : i < a.size) :
    b.subtree i = a.subtree i :=
  subtree_congr ha.ranked (h.ascending ha).ranked (fun _ hn d hd => (ha _ _ hn d hd).2) h.old hi

theorem subtreeLength_eq (h : Enlarged a x p b made) (ha : a.Ascending) (hx : x < a.size) :
    b.subtreeLength x = a.subtreeLength x := by
  have hb := (h.ascending ha).ranked
  obtain ⟨t, ht⟩ := ha.ranked.exists_subtree_iff.2 hx
  rw [hb.subtreeLength_eq, hb.length_order ((h.subtree_of_lt ha hx).trans ht),
    ha.ranked.subtreeLength_eq, ha.ranked.length_order ht]

theorem repeats_of_copying {source : Nat → Nat} (h : Enlarged a x p b made) (ha : a.Ascending)
    (hx : x < a.size) (hc : Copying b x (some p) source (fun _ => []) c) (hi : b.size ≤ i)
    (hm : c.node? i = some m) : Repeats a x c m := by
  have hsource : ∀ {j}, b.size ≤ j → j < c.size → x ≤ source j ∧ source j < a.size :=
    fun hj hlt => bounds_of_reaches ha hx h.old (hc.reached _ hj hlt)
  obtain ⟨hle, hlt⟩ := hsource hi (node?_lt hm)
  obtain ⟨n, hn, hdata, hchildren⟩ := hc.mirrors hi hm
  rw [List.filter_nil, List.append_nil] at hchildren
  refine ⟨source i, n, hle, (h.old _ hlt).symm.trans hn, hdata, fun d hd => ⟨source d, ?_, ?_⟩⟩
  · have hmem : source d ∈ m.children.map source := List.mem_map_of_mem hd
    rw [hchildren] at hmem
    exact List.mem_of_mem_filter hmem
  · obtain ⟨hid, hdc, m', hm', -⟩ := (hc.linked hi hm).child d hd
    obtain ⟨n', hn', hdata', -⟩ := hc.mirrors (hi.trans hid.le) hm'
    rw [← h.old _ (hsource (hi.trans hid.le) hdc).2, hm', hn', Option.map_some, Option.map_some,
      hdata']

theorem clone (h : Enlarged a x p b made) (ha : a.Ascending) (hx : x < a.size) :
    ∃ c, b.cloneSubtree? x (some p) = some (c, b.size) ∧ Enlarged a x p c (b.size :: made) := by
  have hb := h.ascending ha
  obtain ⟨n, hn⟩ := exists_node?_iff.2 (hx.trans_le h.size_le)
  obtain ⟨c, source, hclone, -, hc, hsize⟩ :=
    exists_copying hn (hb.acyclicBelow x) (hb.clearBelow x) (some p)
  -- a node of the larger arena has been there before or belongs to the new copy
  have hcases : ∀ {i m}, c.node? i = some m → i < b.size ∧ b.node? i = some m ∨ b.size ≤ i := by
    intro i m hm
    obtain hi | hi := Nat.lt_or_ge i b.size
    · exact .inl ⟨hi, (hc.old i hi).symm.trans hm⟩
    · exact .inr hi
  refine ⟨c, hclone,
    { root := hc.root.trans h.root
      old := fun i hi => (hc.old i (hi.trans_le h.size_le)).trans (h.old i hi)
      size := ?_
      linked := fun {i m} hi hm => ?_
      repeats := fun {i m} hi hm => ?_
      nodup := List.nodup_cons.2 ⟨fun hmem => Nat.lt_irrefl _ (h.top _ hmem).2.1, h.nodup⟩
      top := List.forall_mem_cons.2
        ⟨⟨h.size_le, hc.lt, hc.parent⟩, fun y hy => ?_⟩
      subtree := List.forall_mem_cons.2 ⟨?_, fun y hy => ?_⟩ }⟩
  · rw [hsize, h.subtreeLength_eq ha hx, h.size, List.length_cons, Nat.succ_mul, Nat.add_assoc]
  · obtain ⟨-, hmb⟩ | hib := hcases hm
    · exact Linked.keep (h.linked hi hmb) hc.lt.le hc.old
    · exact hc.linked hib hm
  · obtain ⟨-, hmb⟩ | hib := hcases hm
    · exact (h.repeats hi hmb).keep (h.linked hi hmb) hc.old
    · exact h.repeats_of_copying ha hx hc hib hm
  · obtain ⟨hay, hyb, hparent⟩ := h.top y hy
    refine ⟨hay, hyb.trans hc.lt, ?_⟩
    unfold parentOf at hparent ⊢
    rw [hc.old y hyb, hparent]
  · exact (hc.subtree_eq (hb.acyclicBelow x)).trans (h.subtree_of_lt ha hx)
  · rw [← h.subtree y hy]
    exact subtree_congr hb.ranked (hc.ascending hb).ranked (fun _ hn d hd => (hb _ _ hn d hd).2)
      hc.old (h.top y hy).2.1

theorem copies (h : Enlarged a x p b made) (ha : a.Ascending) (hx : x < a.size) (k : Nat) :
    Enlarged a x p (copies x p k b made).1 (copies x p k b made).2 ∧
      (copies x p k b made).2.length = k + made.length := by
  induction k generalizing b made with
  | zero => exact ⟨h, (Nat.zero_add _).symm⟩
  | succ k ih =>
    obtain ⟨c, hclone, hc⟩ := h.clone ha hx
    unfold Expansion.copies
    simp only [hclone]
    obtain ⟨henlarged, hlength⟩ := ih hc
    refine ⟨henlarged, hlength.trans ?_⟩
    rw [List.length_cons, Nat.add_comm made.length 1, ← Nat.add_assoc]

end Enlarged

/-- The arena and the numbers that stand for a node with a count. -/
inductive Supplied (a : Arena) (x p : Nat) : Mode → Nat → Arena → List Nat → Prop
  | copy {count : Nat} {b : Arena} {made : List Nat} :
    Enlarged a x p b made → made.length = count - 1 → Supplied a x p .copy count b (x :: made.reverse)
  | aliased {count : Nat} : Supplied a x p .aliased count a (List.replicate count x)

theorem supplied_entries (ha : a.Ascending) (hx : x < a.size) (mode : Mode) (p count : Nat) :
    Supplied a x p mode count (entries mode a x p count).1 (entries mode a x p count).2 := by
  cases mode with
  | copy =>
    obtain ⟨henlarged, hlength⟩ := (Enlarged.refl a x p).copies ha hx (count - 1)
    exact .copy henlarged hlength
  | aliased => exact .aliased

namespace Supplied

theorem exists_enlarged (h : Supplied a x p mode count b ids) :
    ∃ made, Enlarged a x p b made ∧ ∀ y ∈ ids, y = x ∨ y ∈ made := by
  cases h with
  | @copy _ _ made h _ =>
    refine ⟨made, h, fun y hy => ?_⟩
    rwa [List.mem_cons, List.mem_reverse] at hy
  | aliased => exact ⟨[], .refl a x p, fun y hy => .inl (List.eq_of_mem_replicate hy)⟩

theorem length_eq (h : Supplied a x p mode count b ids) (hcount : 1 ≤ count) :
    ids.length = count := by
  cases h with
  | copy _ hlength =>
    rw [List.length_cons, List.length_reverse, hlength]
    omega
  | aliased => exact List.length_replicate

theorem mem_self (h : Supplied a x p mode count b ids) (hcount : 1 ≤ count) : x ∈ ids := by
  cases h with
  | copy => exact List.mem_cons_self
  | aliased => exact List.mem_replicate.2 ⟨Nat.ne_of_gt hcount, rfl⟩

end Supplied

end BemOutline.Expansion

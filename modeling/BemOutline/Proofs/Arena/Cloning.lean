import BemOutline.Proofs.Arena.Copying

/-! Copying what stands below a node by a stack. The children that are still to be copied are those
of the nodes on the stack, and there are as many nodes to come as stand below these. -/

namespace BemOutline.Arena

open Function Relation

variable {a b : Arena} {id i c limit left : Nat} {parent : Option Nat} {source : Nat → Nat}
  {cs : List Nat} {n m : Node} {l : Line} {p : Nat × Nat} {stack : List (Nat × Nat)}
  {s : Arena × List (Nat × Nat)}

def agenda (a : Arena) (stack : List (Nat × Nat)) : Nat → List Nat :=
  stack.foldr (fun p todo => update todo p.2 (a.childrenOf p.1)) fun _ => []

theorem agenda_cons (a : Arena) (p : Nat × Nat) (stack : List (Nat × Nat)) :
    a.agenda (p :: stack) = update (a.agenda stack) p.2 (a.childrenOf p.1) := rfl

theorem agenda_of_not_mem (h : i ∉ stack.map Prod.snd) : a.agenda stack i = [] := by
  induction stack with
  | nil => rfl
  | cons p stack ih =>
    rw [List.map_cons, List.mem_cons, not_or] at h
    rw [agenda_cons, update_of_ne h.1, ih h.2]

def work (a : Arena) (stack : List (Nat × Nat)) : Nat :=
  (stack.map fun p => ((a.childrenOf p.1).map a.subtreeLength).sum).sum

theorem work_cons (a : Arena) (p : Nat × Nat) (stack : List (Nat × Nat)) :
    a.work (p :: stack) = ((a.childrenOf p.1).map a.subtreeLength).sum + a.work stack := rfl

/-- A stack of nodes that the copied one leads to and their new copies, each of which stands there
once. -/
structure Stacked (a b : Arena) (id : Nat) (stack : List (Nat × Nat)) : Prop where
  nodup : (stack.map Prod.snd).Nodup
  old : ∀ p ∈ stack, p.1 < a.size
  reached : ∀ p ∈ stack, ReflTransGen a.Child id p.1
  new : ∀ p ∈ stack, a.size ≤ p.2 ∧ p.2 < b.size

theorem Stacked.tail (h : Stacked a b id (p :: stack)) : Stacked a b id stack where
  nodup := (List.nodup_cons.1 h.nodup).2
  old q hq := h.old q (List.mem_cons_of_mem p hq)
  reached q hq := h.reached q (List.mem_cons_of_mem p hq)
  new q hq := h.new q (List.mem_cons_of_mem p hq)

theorem Stacked.push (h : Stacked a b id (p :: stack)) (hc : c < a.size)
    (hreached : ReflTransGen a.Child id c) :
    Stacked a (b.insert l (some p.2)).1 id (p :: (c, b.size) :: stack) where
  nodup := by
    obtain ⟨hp, hstack⟩ := List.nodup_cons.1 h.nodup
    have hfresh : b.size ∉ stack.map Prod.snd := by
      intro hmem
      obtain ⟨q, hq, heq⟩ := List.mem_map.1 hmem
      exact (h.new q (List.mem_cons_of_mem p hq)).2.ne heq
    have hne : p.2 ≠ b.size := (h.new p List.mem_cons_self).2.ne
    exact List.nodup_cons.2 ⟨by simpa [hne] using hp, List.nodup_cons.2 ⟨hfresh, hstack⟩⟩
  old q hq := by
    rcases List.mem_cons.1 hq with rfl | hq
    · exact h.old q List.mem_cons_self
    · rcases List.mem_cons.1 hq with rfl | hq
      · exact hc
      · exact h.old q (List.mem_cons_of_mem p hq)
  reached q hq := by
    rcases List.mem_cons.1 hq with rfl | hq
    · exact h.reached q List.mem_cons_self
    · rcases List.mem_cons.1 hq with rfl | hq
      · exact hreached
      · exact h.reached q (List.mem_cons_of_mem p hq)
  new q hq := by
    rw [size_insert]
    have htop := h.new p List.mem_cons_self
    rcases List.mem_cons.1 hq with rfl | hq
    · omega
    · rcases List.mem_cons.1 hq with rfl | hq
      · exact ⟨(htop.1.trans_lt htop.2).le, Nat.lt_succ_self _⟩
      · have hrest := h.new q (List.mem_cons_of_mem p hq)
        omega

def copyRound : Arena × List (Nat × Nat) → Arena × List (Nat × Nat)
  | (b, []) => (b, [])
  | (b, p :: stack) => (b.childrenOf p.1).foldl (copyChild p.2) (b, stack)

/-- Whether the loop of a copy, however often it goes round, ends with an arena. -/
def CopyLoop (b : Arena) (stack : List (Nat × Nat)) (c : Arena) : Prop :=
  ∃ rounds, copyRound^[rounds] (b, stack) = (c, [])

theorem copyRound_cons (b : Arena) (p : Nat × Nat) (stack : List (Nat × Nat)) :
    copyRound (b, p :: stack) = (b.childrenOf p.1).foldl (copyChild p.2) (b, stack) := rfl

theorem iterate_copyRound_nil (rounds : Nat) (b : Arena) :
    copyRound^[rounds] (b, []) = (b, []) :=
  iterate_fixed rfl rounds

theorem copyBelow_eq (left : Nat) (b : Arena) (stack : List (Nat × Nat)) :
    b.copyBelow left stack = (copyRound^[left] (b, stack)).1 := by
  induction left generalizing b stack with
  | zero => rfl
  | succ left ih =>
    cases stack with
    | nil => rw [iterate_copyRound_nil, copyBelow]
    | cons p stack => exact ih _ _

/-- The state in the middle of copying the children of `p`, of which `cs` are left. The arena is to
have `limit` nodes in the end. -/
structure Filling (a : Arena) (id : Nat) (parent : Option Nat) (limit : Nat) (p : Nat × Nat)
    (cs : List Nat) (s : Arena × List (Nat × Nat)) : Prop where
  copying : ∃ source, Copying a id parent source (update (a.agenda s.2) p.2 cs) s.1
  stacked : Stacked a s.1 id (p :: s.2)
  size : s.1.size + (cs.map a.subtreeLength).sum + a.work s.2 = limit

structure Running (a : Arena) (id : Nat) (parent : Option Nat) (limit : Nat)
    (s : Arena × List (Nat × Nat)) : Prop where
  copying : ∃ source, Copying a id parent source (a.agenda s.2) s.1
  stacked : Stacked a s.1 id s.2
  size : s.1.size + a.work s.2 = limit

theorem copyChild_of_none (hn : s.1.node? c = none) (copy : Nat) : copyChild copy s c = s := by
  unfold copyChild
  simp only [hn]

theorem copyChild_of_some (hn : s.1.node? c = some n) (copy : Nat) :
    copyChild copy s c = ((s.1.insert n.data (some copy)).1, (c, s.1.size) :: s.2) := by
  unfold copyChild
  simp only [hn]
  rfl

theorem length_copyChild (copy : Nat) (s : Arena × List (Nat × Nat)) (c : Nat) :
    (copyChild copy s c).2.length + s.1.size = s.2.length + (copyChild copy s c).1.size := by
  cases hn : s.1.node? c with
  | none => rw [copyChild_of_none hn]
  | some n =>
    rw [copyChild_of_some hn, size_insert, List.length_cons]
    omega

theorem length_foldl_copyChild (copy : Nat) (cs : List Nat) (s : Arena × List (Nat × Nat)) :
    (cs.foldl (copyChild copy) s).2.length + s.1.size =
      s.2.length + (cs.foldl (copyChild copy) s).1.size := by
  induction cs generalizing s with
  | nil => rfl
  | cons c cs ih =>
    have hfirst := length_copyChild copy s c
    have hrest := ih (copyChild copy s c)
    rw [List.foldl_cons]
    omega

namespace Filling

theorem copyChild (h : Filling a id parent limit p (c :: cs) s) (hid : a.AcyclicBelow id)
    (hc : c < a.size ∨ limit ≤ c) : Filling a id parent limit p cs (copyChild p.2 s c) := by
  obtain ⟨source, hcopying⟩ := h.copying
  obtain ⟨hnew, hlt⟩ := h.stacked.new p List.mem_cons_self
  have hsize := h.size
  rw [List.map_cons, List.sum_cons] at hsize
  cases hn : a.node? c with
  | none =>
    -- the number is not given out in the meantime either
    have hnone : s.1.node? c = none := by
      have hstale := hc.resolve_left (Nat.not_lt.2 (node?_eq_none_iff.1 hn))
      exact node?_eq_none_iff.2 (by omega)
    rw [copyChild_of_none hnone]
    rw [subtreeLength_of_none hn] at hsize
    exact ⟨⟨source, hcopying.skip hn⟩, h.stacked, by omega⟩
  | some n =>
    have hsome : s.1.node? c = some n := (hcopying.old c (node?_lt hn)).trans hn
    have hagenda : update (update (a.agenda s.2) p.2 cs) s.1.size n.children =
        update (a.agenda ((c, s.1.size) :: s.2)) p.2 cs := by
      rw [agenda_cons, update_comm hlt.ne, childrenOf_eq hn]
    have hinsert := hcopying.insert hnew hlt hn
    have hreached := hcopying.reaches hnew hlt (isNode_of_node? hn)
    have hlength := hid.subtreeLength_of_some hreached hn
    rw [copyChild_of_some hsome]
    refine ⟨⟨_, hagenda ▸ hinsert⟩, h.stacked.push (node?_lt hn) hreached, ?_⟩
    rw [size_insert, work_cons, childrenOf_eq hn]
    omega

theorem foldl_copyChild (h : Filling a id parent limit p cs s) (hid : a.AcyclicBelow id)
    (hcs : ∀ c ∈ cs, c < a.size ∨ limit ≤ c) :
    Filling a id parent limit p [] (cs.foldl (Arena.copyChild p.2) s) := by
  induction cs generalizing s with
  | nil => exact h
  | cons c cs ih =>
    obtain ⟨hc, hcs⟩ := List.forall_mem_cons.1 hcs
    exact ih (h.copyChild hid hc) hcs

theorem running (h : Filling a id parent limit p [] s) : Running a id parent limit s where
  copying := by
    have hdone : update (a.agenda s.2) p.2 [] = a.agenda s.2 :=
      update_eq_self_iff.2 (agenda_of_not_mem (List.nodup_cons.1 h.stacked.nodup).1).symm
    exact hdone ▸ h.copying
  stacked := h.stacked.tail
  size := h.size

end Filling

namespace Running

theorem filling (h : Running a id parent limit (b, p :: stack)) :
    Filling a id parent limit p (a.childrenOf p.1) (b, stack) where
  copying := h.copying
  stacked := h.stacked
  size := by
    have hsize := h.size
    rw [work_cons] at hsize
    exact (Nat.add_assoc ..).trans hsize

theorem round (h : Running a id parent limit s) (hid : a.AcyclicBelow id)
    (hlimit : ∀ i c, ReflTransGen a.Child id i → a.Child i c → c < a.size ∨ limit ≤ c) :
    Running a id parent limit (copyRound s) := by
  obtain ⟨b, stack⟩ := s
  cases stack with
  | nil => exact h
  | cons p stack =>
    obtain ⟨source, hcopying⟩ := h.copying
    have hchildren : b.childrenOf p.1 = a.childrenOf p.1 := by
      unfold childrenOf
      rw [hcopying.old p.1 (h.stacked.old p List.mem_cons_self)]
    have hfold := h.filling.foldl_copyChild hid fun c hc =>
      hlimit p.1 c (h.stacked.reached p List.mem_cons_self) (mem_childrenOf.1 hc)
    rw [copyRound_cons, hchildren]
    exact hfold.running

/-- Each round takes one node off the stack, so that the stack is empty before the time is up. -/
theorem rounds (h : Running a id parent limit s) (hid : a.AcyclicBelow id)
    (hlimit : ∀ i c, ReflTransGen a.Child id i → a.Child i c → c < a.size ∨ limit ≤ c)
    (hleft : limit + s.2.length ≤ left + s.1.size) :
    Running a id parent limit (copyRound^[left] s) ∧ (copyRound^[left] s).2 = [] := by
  induction left generalizing s with
  | zero =>
    have hsize := h.size
    obtain hempty : s.2 = [] := List.length_eq_zero_iff.1 (by omega)
    exact ⟨h, hempty⟩
  | succ left ih =>
    apply ih (h.round hid hlimit)
    obtain ⟨b, stack⟩ := s
    cases stack with
    | nil =>
      have hsize : b.size + 0 = limit := h.size
      change limit + 0 ≤ left + b.size
      omega
    | cons p stack =>
      have hlength : _ + b.size = stack.length + _ :=
        length_foldl_copyChild p.2 (b.childrenOf p.1) (b, stack)
      rw [copyRound_cons]
      change limit + (stack.length + 1) ≤ left + 1 + b.size at hleft
      omega

end Running

theorem size_push (a : Arena) (n : Node) : (a.push n).size = a.size + 1 := Array.size_push _

theorem node?_push (a : Arena) (n : Node) (i : Nat) :
    (a.push n).node? i = if i = a.size then some n else a.node? i :=
  Array.getElem?_push

theorem copying_push (hn : a.node? id = some n) (parent : Option Nat) :
    Copying a id parent (fun _ => id) (a.agenda [(id, a.size)]) (a.push ⟨n.data, parent, []⟩) := by
  have hnew : ∀ {i m}, a.size ≤ i → (a.push ⟨n.data, parent, []⟩).node? i = some m →
      i = a.size ∧ m = ⟨n.data, parent, []⟩ := by
    intro i m hi hm
    have hlt := node?_lt hm
    rw [size_push] at hlt
    obtain rfl : i = a.size := by omega
    rw [node?_push, if_pos rfl] at hm
    exact ⟨rfl, (Option.some.inj hm).symm⟩
  refine
    { root := rfl
      old := fun i hi => (node?_push ..).trans (if_neg hi.ne)
      lt := (Nat.lt_succ_self a.size).trans_eq (size_push ..).symm
      top := rfl
      parent := ?_
      reached := fun _ _ _ => .refl
      mirrors := fun {i m} hi hm => ?_
      linked := fun {i m} hi hm => ?_
      listed := fun i hi hlt => ?_ }
  · unfold parentOf
    rw [node?_push, if_pos rfl]
    rfl
  · obtain ⟨rfl, rfl⟩ := hnew hi hm
    rw [agenda_cons, update_self, childrenOf_eq hn]
    exact ⟨n, hn, rfl, rfl⟩
  · obtain ⟨rfl, rfl⟩ := hnew hi hm
    exact ⟨.nil, nofun⟩
  · rw [size_push] at hlt
    omega

theorem running_push (hn : a.node? id = some n) (hid : a.AcyclicBelow id) (parent : Option Nat) :
    Running a id parent (a.size + a.subtreeLength id)
      (a.push ⟨n.data, parent, []⟩, [(id, a.size)]) where
  copying := ⟨_, copying_push hn parent⟩
  stacked :=
    { nodup := List.nodup_singleton _
      old := List.forall_mem_singleton.2 (node?_lt hn)
      reached := List.forall_mem_singleton.2 .refl
      new := List.forall_mem_singleton.2
        ⟨le_rfl, (Nat.lt_succ_self a.size).trans_eq (size_push ..).symm⟩ }
  size := by
    rw [size_push, hid.subtreeLength_of_some .refl hn, work_cons, childrenOf_eq hn,
      Nat.add_assoc]
    rfl

/-- Whether every number listed below a node as a child is that of a stored node or lies beyond the
numbers that a copy takes. Another number of no node comes to life while the copy is made. -/
def ClearBelow (a : Arena) (id : Nat) : Prop :=
  ∀ i c, ReflTransGen a.Child id i → a.Child i c → c < a.size ∨ a.size + a.subtreeLength id ≤ c

theorem Ascending.clearBelow (h : a.Ascending) (id : Nat) : a.ClearBelow id := by
  rintro i c - ⟨n, hn, hc⟩
  exact .inl (h i n hn c hc).2

theorem Ascending.acyclicBelow (h : a.Ascending) (id : Nat) : a.AcyclicBelow id :=
  fun i _ => h.acyclic i

theorem exists_copying (hn : a.node? id = some n) (hid : a.AcyclicBelow id)
    (hclear : a.ClearBelow id) (parent : Option Nat) :
    ∃ b source, a.cloneSubtree? id parent = some (b, a.size) ∧
      CopyLoop (a.push ⟨n.data, parent, []⟩) [(id, a.size)] b ∧
      Copying a id parent source (fun _ => []) b ∧ b.size = a.size + a.subtreeLength id := by
  have hleft : a.size + a.subtreeLength id + [(id, a.size)].length ≤
      a.subtreeLength id + (a.push ⟨n.data, parent, []⟩).size := by
    rw [size_push, List.length_singleton]
    omega
  obtain ⟨hdone, hempty⟩ := (running_push hn hid parent).rounds hid hclear hleft
  obtain ⟨source, hcopying⟩ := hdone.copying
  rw [hempty] at hcopying
  refine ⟨_, source, ?_, ⟨_, Prod.ext rfl hempty⟩, hcopying, ?_⟩
  · unfold cloneSubtree?
    rw [hn]
    simp only [copyBelow_eq]
  · have hsize := hdone.size
    rwa [hempty] at hsize

/-- A copy of what stands below a node, in new nodes apart from the old ones. -/
structure Copied (a : Arena) (id : Nat) (parent : Option Nat) (b : Arena) (copy : Nat) : Prop where
  /-- The loop ends with this arena, without a bound on the times that it is run through. -/
  ends : ∃ n, a.node? id = some n ∧ CopyLoop (a.push ⟨n.data, parent, []⟩) [(id, a.size)] b
  size : b.size = a.size + a.subtreeLength id
  old : ∀ i < a.size, b.node? i = a.node? i
  root : b.root = a.root
  new : a.size ≤ copy ∧ copy < b.size
  parent : b.parentOf copy = parent
  document : ∃ t, t.size = a.subtreeLength id ∧
    ∀ k, a.size ≤ k → a.treeAt k id = some t ∧ b.treeAt k copy = some t
  nodup : (b.order copy).Nodup
  mem_order : ∀ i, i ∈ b.order copy ↔ a.size ≤ i ∧ i < b.size
  child : ∀ i c, a.size ≤ i → b.Child i c → a.size ≤ c ∧ c < b.size ∧ b.parentOf c = some i
  /-- An old node lists a new one only where it has listed that number all along, as one of no
  node. -/
  apart : ∀ i c, i < a.size → b.Child i c → a.size ≤ c → c < b.size →
    a.Child i c ∧ a.node? c = none

theorem Copying.copied (h : Copying a id parent source (fun _ => []) b) (hid : a.AcyclicBelow id)
    (hn : a.node? id = some n) (hloop : CopyLoop (a.push ⟨n.data, parent, []⟩) [(id, a.size)] b)
    (hsize : b.size = a.size + a.subtreeLength id) : Copied a id parent b a.size where
  ends := ⟨n, hn, hloop⟩
  size := hsize
  old := h.old
  root := h.root
  new := ⟨le_rfl, h.lt⟩
  parent := h.parent
  document := by
    obtain ⟨t, ht⟩ := h.exists_subtree hid
    refine ⟨t, hid.size_of_subtree ht, fun k hk => ?_⟩
    rw [h.treeAt_eq le_rfl h.lt, h.top, hid.treeAt_eq hk]
    exact ⟨ht, ht⟩
  nodup := (h.perm_order hid hsize).nodup_iff.2 List.nodup_range'
  mem_order i := by rw [(h.perm_order hid hsize).mem_iff, List.mem_range'_1, hsize]
  child i c hi hc := by
    obtain ⟨m, hm, hc⟩ := hc
    obtain ⟨hic, hcb, m', hm', hparent⟩ := (h.linked hi hm).child c hc
    refine ⟨hi.trans hic.le, hcb, ?_⟩
    unfold parentOf
    rw [hm', Option.bind_some, hparent]
  apart i c hi hc hle _ := by
    obtain ⟨m, hm, hc⟩ := hc
    rw [h.old i hi] at hm
    exact ⟨⟨m, hm, hc⟩, node?_eq_none_iff.2 hle⟩

/-- What has no cycle below it, and lists none of the next numbers there, is copied as it is, into
new nodes and nowhere else. Where there is no node there is no new arena. -/
theorem copied_of_cloneSubtree (a : Arena) (id : Nat) (parent : Option Nat)
    (hid : a.AcyclicBelow id) (hclear : a.ClearBelow id) :
    (a.cloneSubtree? id parent = none ↔ a.node? id = none) ∧
      ∀ b copy, a.cloneSubtree? id parent = some (b, copy) → Copied a id parent b copy := by
  cases hn : a.node? id with
  | none =>
    have hnone : a.cloneSubtree? id parent = none := by
      unfold cloneSubtree?
      rw [hn]
    simp [hnone]
  | some n =>
    obtain ⟨b, source, hclone, hloop, hcopying, hsize⟩ := exists_copying hn hid hclear parent
    refine ⟨by simp [hclone], fun b' copy hcopy => ?_⟩
    obtain ⟨rfl, rfl⟩ := Prod.mk.inj (Option.some.inj (hclone.symm.trans hcopy))
    exact hcopying.copied hid hn hloop hsize

/-- A child that is listed twice, a number of no node, and elsewhere a cycle and one of the numbers
that the copy takes. -/
theorem copied_of_cloneSubtree_shared :
    let a : Arena :=
      ⟨#[⟨⟨"ul", 0, "div", .block "ul", [], 1, none⟩, none, [1, 1, 9]⟩,
        ⟨⟨"  li", 2, "div", .elem "li", [], 1, none⟩, some 0, [2]⟩,
        ⟨⟨"    a", 4, "div", .elem "a", [], 1, none⟩, some 1, []⟩,
        ⟨⟨"  p", 2, "div", .elem "p", [], 1, none⟩, some 0, [3, 6]⟩], some 0⟩
    ∃ b, a.AcyclicBelow 0 ∧ a.ClearBelow 0 ∧
      a.cloneSubtree? 0 (some 3) = some (b, 4) ∧
      (b.nodes.toList.drop 4).map (·.children) = [[5, 6], [8], [7], [], []] ∧
      Copied a 0 (some 3) b 4 := by
  intro a
  have hlinks : ∀ i < a.size, ∀ c ∈ a.childrenOf i,
      i ≠ 3 → c ≠ 3 ∧ i < c ∧ (c < a.size ∨ a.size + 5 ≤ c) := by
    decide
  have hchild : ∀ {i c}, a.Child i c → i ≠ 3 → c ≠ 3 ∧ i < c ∧ (c < a.size ∨ a.size + 5 ≤ c) := by
    intro i c hc
    have hi : i < a.size := by
      obtain ⟨n, hn, -⟩ := hc
      exact node?_lt hn
    exact hlinks i hi c (mem_childrenOf.2 hc)
  have hid : a.AcyclicBelow 0 := acyclicBelow_of_closed
    (fun j c hj hc => ⟨(hchild hc hj).1, (hchild hc hj).2.1⟩) (by decide : (0 : Nat) ≠ 3)
  have hlength : a.subtreeLength 0 = 5 := by decide +kernel
  have hne : ∀ {i}, ReflTransGen a.Child 0 i → i ≠ 3 := by
    intro i hi
    induction hi with
    | refl => decide
    | tail _ hc ih => exact (hchild hc ih).1
  have hclear : a.ClearBelow 0 := by
    intro i c hi hc
    rw [hlength]
    exact (hchild hc (hne hi)).2.2
  have hvalue : (a.cloneSubtree? 0 (some 3)).map
      (fun p => (p.2, (p.1.nodes.toList.drop 4).map (·.children))) =
        some (4, [[5, 6], [8], [7], [], []]) := by
    decide +kernel
  obtain ⟨⟨b, copy⟩, hb, heq⟩ := Option.map_eq_some_iff.1 hvalue
  obtain ⟨rfl, hchildren⟩ := Prod.mk.inj heq
  have hcopy := (copied_of_cloneSubtree a 0 (some 3) hid hclear).2 b 4 hb
  exact ⟨b, hid, hclear, hb, hchildren, hcopy⟩

structure Chained (k : Nat) (b : Arena) : Prop where
  size : b.size = k + 2
  source : b.childrenOf k = [k + 1]
  copy : b.childrenOf (k + 1) = []

theorem Chained.round {k : Nat} (h : Chained k b) :
    ∃ c, copyRound (b, [(k, k + 1)]) = (c, [(k + 1, k + 2)]) ∧ Chained (k + 1) c := by
  obtain ⟨m, hm⟩ : ∃ m, b.node? (k + 1) = some m := exists_node?_iff.2 (by rw [h.size]; omega)
  have hempty := h.copy
  rw [childrenOf_eq hm] at hempty
  refine ⟨(b.insert m.data (some (k + 1))).1, ?_, ⟨?_, ?_, ?_⟩⟩
  · rw [copyRound_cons, h.source, List.foldl_cons, List.foldl_nil, copyChild_of_some hm, h.size]
  · rw [size_insert, h.size]
  · rw [childrenOf_eq (node?_insert_self hm), hempty, h.size, List.nil_append]
  · rw [← h.size, childrenOf_eq (node?_insert_size (node?_lt hm))]

theorem Chained.rounds {k : Nat} (h : Chained k b) (rounds : Nat) :
    (copyRound^[rounds] (b, [(k, k + 1)])).2 ≠ [] := by
  induction rounds generalizing k b with
  | zero => exact List.cons_ne_nil _ _
  | succ rounds ih =>
    obtain ⟨c, hround, hc⟩ := h.round
    rw [iterate_succ_apply, hround]
    exact ih hc

/-- A number of no node comes to life where it is one of those that the copy takes: a copy of two
nodes then takes three, with an item too many, and the copy of a single node that lists the next
number does not end. -/
theorem not_copied_of_listed_next :
    let ul : Line := ⟨"ul", 0, "div", .block "ul", [], 1, none⟩
    let li : Line := ⟨"  li", 2, "div", .elem "li", [], 1, none⟩
    let a : Arena := ⟨#[⟨ul, none, [1, 3]⟩, ⟨li, some 0, []⟩], some 0⟩
    let a' : Arena := ⟨#[⟨ul, none, [1]⟩], some 0⟩
    (a.AcyclicBelow 0 ∧ a.subtreeLength 0 = 2 ∧ ∃ b, a.cloneSubtree? 0 none = some (b, 2) ∧
      CopyLoop (a.push ⟨ul, none, []⟩) [(0, 2)] b ∧ b.size = a.size + 3 ∧
      a.childrenOf 0 = [1, 3] ∧ a.node? 3 = none ∧ b.childrenOf 2 = [3, 4]) ∧
    a'.AcyclicBelow 0 ∧ a'.subtreeLength 0 = 1 ∧
      ∀ b, ¬ CopyLoop (a'.push ⟨ul, none, []⟩) [(0, 1)] b := by
  intro ul li a a'
  have hacyclic : ∀ b : Arena, (∀ i < b.size, ∀ c ∈ b.childrenOf i, i < c) → b.AcyclicBelow 0 := by
    refine fun b hlt j _ => acyclic_of_lt (fun i c hc => ?_) j
    have hi : i < b.size := by
      obtain ⟨n, hn, -⟩ := hc
      exact node?_lt hn
    exact hlt i hi c (mem_childrenOf.2 hc)
  have hclone : a.cloneSubtree? 0 none =
      some ((copyRound^[3] (a.push ⟨ul, none, []⟩, [(0, 2)])).1, 2) := by
    decide +kernel
  have hempty : (copyRound^[3] (a.push ⟨ul, none, []⟩, [(0, 2)])).2 = [] := by decide +kernel
  refine ⟨⟨hacyclic a (by decide), by decide +kernel, _, hclone, ⟨3, Prod.ext rfl hempty⟩,
    by decide +kernel, rfl, rfl, by decide +kernel⟩, hacyclic a' (by decide), by decide +kernel, ?_⟩
  rintro b ⟨rounds, hrounds⟩
  have hchained : Chained 0 (a'.push ⟨ul, none, []⟩) := ⟨rfl, rfl, rfl⟩
  exact hchained.rounds rounds (congrArg Prod.snd hrounds)

end BemOutline.Arena

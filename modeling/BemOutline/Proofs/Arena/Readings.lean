import BemOutline.Proofs.Arena.Acyclic
import BemOutline.Proofs.Arena.Height
import Mathlib.Algebra.BigOperators.Group.Finset.Basic

/-! The readings of an arena without cycles. Those that work off a stack keep what stands on the
stack in step with what they have reckoned in already, in whatever order they stack the children. -/

namespace BemOutline.Arena

open Relation

variable {a : Arena} {rank : Nat → Nat} {i : Nat}

def visitsBelow (a : Arena) (v : Visit) : List Visit :=
  (a.childrenOf v.node).map (⟨·, v.level + 1⟩)

/-- A loop over a stack of visits, and what comes out of it. Every round takes the top off, reckons
it in and puts the visits below it on the stack, arranged in the loop's own way. -/
inductive Sweep (a : Arena) {α : Type} (reckon : α → Visit → α)
    (arrange : List Visit → List Visit) : α → List Visit → α → Prop where
  | done (acc : α) : Sweep a reckon arrange acc [] acc
  | round {acc outcome : α} {v : Visit} {stack : List Visit} :
    Sweep a reckon arrange (reckon acc v) (arrange (a.visitsBelow v) ++ stack) outcome →
      Sweep a reckon arrange acc (v :: stack) outcome

def Ends (a : Arena) {α : Type} (reckon : α → Visit → α) (arrange : List Visit → List Visit)
    (stack : List Visit) : Prop :=
  ∀ acc, ∃ outcome, a.Sweep reckon arrange acc stack outcome

section Sweep
variable {α β : Type} {reckon : α → Visit → α} {arrange : List Visit → List Visit}
  {acc outcome : α} {stack vs : List Visit} {v w : Visit}

theorem ends_nil : a.Ends reckon arrange [] := fun acc => ⟨acc, .done acc⟩

theorem Ends.cons (h : a.Ends reckon arrange (arrange (a.visitsBelow v) ++ stack)) :
    a.Ends reckon arrange (v :: stack) := by
  intro acc
  obtain ⟨outcome, hrest⟩ := h (reckon acc v)
  exact ⟨outcome, .round hrest⟩

theorem Ends.append (h : a.Ends reckon arrange stack)
    (hvs : ∀ v ∈ vs, ∀ stack, a.Ends reckon arrange stack → a.Ends reckon arrange (v :: stack)) :
    a.Ends reckon arrange (vs ++ stack) := by
  induction vs with
  | nil => exact h
  | cons v vs ih =>
    obtain ⟨hv, hvs⟩ := List.forall_mem_cons.1 hvs
    exact hv _ (ih hvs)

theorem child_of_mem_visitsBelow (hw : w ∈ a.visitsBelow v) : a.Child v.node w.node := by
  obtain ⟨c, hc, rfl⟩ := List.mem_map.1 hw
  exact mem_childrenOf.1 hc

theorem Ranked.ends_cons (h : a.Ranked rank) (harrange : ∀ vs, (arrange vs).Perm vs)
    (hstack : a.Ends reckon arrange stack) : a.Ends reckon arrange (v :: stack) := by
  obtain ⟨i, level⟩ := v
  induction i using h.induction generalizing level stack with
  | step i ih =>
    refine (hstack.append fun w hw stack hstack => ?_).cons
    obtain ⟨n, hn, hc⟩ := child_of_mem_visitsBelow ((harrange _).mem_iff.1 hw)
    exact ih n hn w.node hc hstack w.level

theorem Ranked.ends (h : a.Ranked rank) (harrange : ∀ vs, (arrange vs).Perm vs)
    (stack : List Visit) : a.Ends reckon arrange stack := by
  rw [← List.append_nil stack]
  exact ends_nil.append fun v _ _ => h.ends_cons harrange

variable (key : α → List Visit → β)
  (hround : ∀ acc v stack,
    key (reckon acc v) (arrange (a.visitsBelow v) ++ stack) = key acc (v :: stack))
include hround

theorem Sweep.keeps (h : a.Sweep reckon arrange acc stack outcome) :
    key outcome [] = key acc stack := by
  induction h with
  | done acc => rfl
  | round _ ih => rw [ih, hround]

theorem Ranked.sweep_iff (h : a.Ranked rank) (harrange : ∀ vs, (arrange vs).Perm vs)
    (hdone : ∀ x y, key x [] = key y [] → x = y) :
    a.Sweep reckon arrange acc stack outcome ↔ key outcome [] = key acc stack := by
  refine ⟨Sweep.keeps key hround, fun hkey => ?_⟩
  obtain ⟨other, hsweep⟩ : ∃ x, a.Sweep reckon arrange acc stack x := h.ends harrange stack acc
  obtain rfl : outcome = other := hdone _ _ (hkey.trans (hsweep.keeps key hround).symm)
  exact hsweep

end Sweep

def listed (a : Arena) (ids : List NodeId) (v : Visit) : List NodeId :=
  if a.isNode v.node then ids ++ [v.node] else ids

def counted (a : Arena) (count : Nat) (v : Visit) : Nat :=
  if a.isNode v.node then count + 1 else count

def deepest (top : Nat) (v : Visit) : Nat := max top v.level

def rootVisit (a : Arena) (level : Nat) : List Visit := (a.root.map (⟨·, level⟩)).toList

def listing (a : Arena) (ids : List NodeId) (stack : List Visit) : List NodeId :=
  ids ++ stack.flatMap (a.order ·.node)

def tally (a : Arena) (count : Nat) (stack : List Visit) : Nat :=
  count + (stack.map (a.subtreeLength ·.node)).sum

/-- Whether a level is reached neither so far nor by anything that the stack stands for. -/
def StaysWithin (a : Arena) (top : Nat) (stack : List Visit) (k : Nat) : Prop :=
  top ≤ k ∧ ∀ v ∈ stack, v.level + a.levels v.node ≤ k + 1

section Loops
variable {ids outcome : List NodeId} {count top n k : Nat} {stack : List Visit}
  {arrange : List Visit → List Visit}

theorem listed_eq (a : Arena) (ids : List NodeId) (v : Visit) :
    a.listed ids v = ids ++ a.listed [] v := by
  unfold listed
  split_ifs
  · rfl
  · exact (List.append_nil ids).symm

theorem counted_eq (a : Arena) (count : Nat) (v : Visit) :
    a.counted count v = count + (a.listed [] v).length := by
  unfold counted listed
  split_ifs <;> rfl

theorem listing_nil (a : Arena) (ids : List NodeId) : a.listing ids [] = ids :=
  List.append_nil ids

theorem staysWithin_nil : a.StaysWithin top [] k ↔ top ≤ k :=
  and_iff_left (List.forall_mem_nil _)

namespace Ranked

theorem order_visit (h : a.Ranked rank) (v : Visit) :
    a.order v.node = a.listed [] v ++ (a.visitsBelow v).flatMap (a.order ·.node) := by
  rw [h.order_eq, listed, visitsBelow, childrenOf, isNode, List.flatMap_map]
  cases a.node? v.node <;> simp

theorem listing_round (h : a.Ranked rank) (ids : List NodeId) (v : Visit) (stack : List Visit) :
    a.listing (a.listed ids v) (a.visitsBelow v ++ stack) = a.listing ids (v :: stack) := by
  unfold listing
  rw [listed_eq, List.flatMap_append, List.flatMap_cons, h.order_visit v, List.append_assoc,
    List.append_assoc]

theorem subtreeLength_visit (h : a.Ranked rank) (v : Visit) :
    a.subtreeLength v.node =
      (a.listed [] v).length + ((a.visitsBelow v).map (a.subtreeLength ·.node)).sum := by
  simp only [h.subtreeLength_eq]
  rw [h.order_visit, List.length_append, List.length_flatMap]

theorem tally_round (h : a.Ranked rank) (harrange : ∀ vs, (arrange vs).Perm vs) (count : Nat)
    (v : Visit) (stack : List Visit) :
    a.tally (a.counted count v) (arrange (a.visitsBelow v) ++ stack) =
      a.tally count (v :: stack) := by
  have hbelow := ((harrange (a.visitsBelow v)).map (a.subtreeLength ·.node)).sum_eq
  unfold tally
  rw [counted_eq, List.map_append, List.sum_append, hbelow, List.map_cons, List.sum_cons,
    h.subtreeLength_visit v]
  simp only [Nat.add_assoc]

theorem level_add_levels_le_iff (h : a.Ranked rank) (v : Visit) :
    v.level + a.levels v.node ≤ k + 1 ↔
      v.level ≤ k ∧ ∀ w ∈ a.visitsBelow v, w.level + a.levels w.node ≤ k + 1 := by
  unfold visitsBelow
  rw [List.forall_mem_map]
  by_cases hlevel : v.level ≤ k
  · obtain ⟨m, rfl⟩ := Nat.exists_eq_add_of_le hlevel
    have hsum : v.level + a.levels v.node ≤ v.level + m + 1 ↔ a.levels v.node ≤ m + 1 := by omega
    rw [hsum, h.levels_le_iff, and_iff_right hlevel]
    refine forall₂_congr fun c _ => ?_
    change _ ↔ v.level + 1 + a.levels c ≤ v.level + m + 1
    omega
  · have hpos := h.levels_pos v.node
    exact iff_of_false (by omega) fun hwithin => hlevel hwithin.1

theorem staysWithin_round (h : a.Ranked rank) (harrange : ∀ vs, (arrange vs).Perm vs) (top : Nat)
    (v : Visit) (stack : List Visit) :
    a.StaysWithin (deepest top v) (arrange (a.visitsBelow v) ++ stack) =
      a.StaysWithin top (v :: stack) := by
  funext k
  unfold StaysWithin deepest
  rw [Nat.max_le, List.forall_mem_cons, List.forall_mem_append, h.level_add_levels_le_iff]
  simp only [(harrange _).mem_iff, and_assoc]

theorem sweep_listed_iff (h : a.Ranked rank) :
    a.Sweep a.listed id ids stack outcome ↔ outcome = a.listing ids stack := by
  have hdone : ∀ x y, a.listing x [] = a.listing y [] → x = y := by
    intro x y heq
    rwa [listing_nil, listing_nil] at heq
  have hsweep : a.Sweep a.listed id ids stack outcome ↔ _ :=
    h.sweep_iff a.listing h.listing_round (fun _ => .refl _) hdone
  rw [hsweep, listing_nil]

theorem sweep_counted_iff (h : a.Ranked rank) (harrange : ∀ vs, (arrange vs).Perm vs) :
    a.Sweep a.counted arrange count stack n ↔ n = a.tally count stack :=
  h.sweep_iff a.tally (h.tally_round harrange) harrange fun _ _ => id

theorem sweep_deepest_iff (h : a.Ranked rank) (harrange : ∀ vs, (arrange vs).Perm vs) :
    a.Sweep deepest arrange top stack n ↔ ∀ k, n ≤ k ↔ a.StaysWithin top stack k := by
  have hdone : ∀ x y, a.StaysWithin x [] = a.StaysWithin y [] → x = y := by
    intro x y heq
    refine eq_of_forall_ge_iff fun k => ?_
    rw [← staysWithin_nil, heq, staysWithin_nil]
  rw [h.sweep_iff a.StaysWithin (h.staysWithin_round harrange) harrange hdone, funext_iff]
  simp only [eq_iff_iff, staysWithin_nil]

end Ranked

end Loops

/-- What the ways of reading an arena have to do with each other. -/
structure ReadingsAgree (a : Arena) : Prop where
  /-- The recursive pre-order, to which a number of no node adds nothing. -/
  order : ∀ i, a.order i = (a.node? i).elim [] fun n => i :: n.children.flatMap a.order
  iter : a.iter = a.root.elim [] a.order
  sweep_iter : ∀ ids, a.Sweep a.listed id [] (a.rootVisit 0) ids ↔ ids = a.iter
  lines : a.document.elim [] Tree.preorder = a.iter.filterMap fun j => (a.node? j).map (·.data)
  subtreeLength : ∀ i, a.subtreeLength i = (a.order i).length
  sweep_subtreeLength : ∀ i level count,
    a.Sweep a.counted List.reverse 0 [⟨i, level⟩] count ↔ count = a.subtreeLength i
  documentLength : a.documentLength = a.iter.length
  documentLength_root : a.documentLength = a.root.elim 0 a.subtreeLength
  occurrences : ∀ i, a.occurrences i = a.iter.count i
  documentLength_sum : a.documentLength = ∑ i ∈ Finset.range a.size, a.occurrences i
  /-- The levels from an entry on, of which a number of no node is one. -/
  levels : ∀ i, a.levels i =
    (a.node? i).elim 1 fun n => 1 + (n.children.map a.levels).foldr max 0
  height : a.height = a.root.elim 0 fun r => 1 + ((a.childrenOf r).map a.levels).foldr max 0
  sweep_height : ∀ top, a.Sweep deepest List.reverse 0 (a.rootVisit 1) top ↔ top = a.height
  raw : ∀ limit e, a.toRaw limit = .error e ↔ e = .nestingTooDeep limit ∧ limit + 1 < a.height

namespace Ranked

theorem sweep_iter_iff (h : a.Ranked rank) {ids : List NodeId} :
    a.Sweep a.listed id [] (a.rootVisit 0) ids ↔ ids = a.iter := by
  rw [h.sweep_listed_iff, h.iter_eq, rootVisit, listing]
  cases a.root <;> simp

theorem sweep_subtreeLength_iff (h : a.Ranked rank) {level count : Nat} :
    a.Sweep a.counted List.reverse 0 [⟨i, level⟩] count ↔ count = a.subtreeLength i := by
  rw [h.sweep_counted_iff List.reverse_perm, tally]
  simp

theorem sweep_height_iff (h : a.Ranked rank) {top : Nat} :
    a.Sweep deepest List.reverse 0 (a.rootVisit 1) top ↔ top = a.height := by
  have hheight : ∀ k, a.StaysWithin 0 (a.rootVisit 1) k ↔ a.height ≤ k := by
    intro k
    unfold StaysWithin rootVisit height
    cases a.root with
    | none => simp
    | some r =>
      rw [Option.map_some, Option.toList_some, List.forall_mem_singleton,
        and_iff_right (Nat.zero_le k)]
      change 1 + a.levels r ≤ k + 1 ↔ a.levels r ≤ k
      omega
  rw [h.sweep_deepest_iff List.reverse_perm]
  simp only [hheight]
  exact ⟨eq_of_forall_ge_iff, fun heq k => heq ▸ Iff.rfl⟩

theorem height_eq (h : a.Ranked rank) :
    a.height = a.root.elim 0 fun r => 1 + ((a.childrenOf r).map a.levels).foldr max 0 := by
  rw [height]
  cases a.root with
  | none => rfl
  | some r => exact h.levels_eq_one_add r

theorem levels_eq_elim (h : a.Ranked rank) (i : Nat) :
    a.levels i = (a.node? i).elim 1 fun n => 1 + (n.children.map a.levels).foldr max 0 := by
  cases hn : a.node? i with
  | none => exact h.levels_of_none hn
  | some n => rw [h.levels_eq_one_add, childrenOf_eq hn, Option.elim_some]

theorem lines_eq (h : a.Ranked rank) :
    a.document.elim [] Tree.preorder = a.iter.filterMap fun j => (a.node? j).map (·.data) := by
  rw [h.iter_eq, document]
  cases a.root with
  | none => rfl
  | some r =>
    rw [Option.bind_some, Option.elim_some]
    cases ht : a.subtree r with
    | none => rw [h.order_of_subtree_none ht, List.filterMap_nil, Option.elim_none]
    | some t => rw [Option.elim_some, h.preorder_eq ht]

theorem sum_occurrences (h : a.Ranked rank) :
    ∑ i ∈ Finset.range a.size, a.occurrences i = a.documentLength := by
  have hstored : ∀ i ∈ (a.iter : Multiset Nat), i ∈ Finset.range a.size :=
    fun i hi => Finset.mem_range.2 (isNode_iff.1 (List.of_mem_filter hi))
  have hsum := Multiset.sum_count_eq_card hstored
  simp only [Multiset.coe_count, Multiset.coe_card] at hsum
  simp only [h.occurrences_eq, h.documentLength_eq, hsum]

end Ranked

/-- Without cycles all readings are of one document. A number of no node has no place in it, but
takes a level of its own. -/
theorem readingsAgree_of_acyclic (h : ∀ i, ¬ TransGen a.Child i i) : a.ReadingsAgree := by
  have hranked := ranked_of_acyclic h
  exact
    { order := hranked.order_eq
      iter := hranked.iter_eq
      sweep_iter := fun ids => hranked.sweep_iter_iff
      lines := hranked.lines_eq
      subtreeLength := hranked.subtreeLength_eq
      sweep_subtreeLength := fun i level count => hranked.sweep_subtreeLength_iff
      documentLength := hranked.documentLength_eq
      documentLength_root := by
        unfold Arena.documentLength
        cases a.root <;> rfl
      occurrences := hranked.occurrences_eq
      documentLength_sum := hranked.sum_occurrences.symm
      levels := hranked.levels_eq_elim
      height := hranked.height_eq
      sweep_height := fun top => hranked.sweep_height_iff
      raw := fun limit e => hranked.toRaw_eq_error_iff }

/-- A child that is listed twice, numbers of no node on two levels, and a node that the root does
not lead to. -/
theorem readingsAgree_of_acyclic_shared :
    let a : Arena :=
      ⟨#[⟨⟨"  p", 2, "div", .elem "p", [], 1, none⟩, none, [2]⟩,
        ⟨⟨"ul", 0, "div", .block "ul", [], 1, none⟩, none, [2, 2, 9]⟩,
        ⟨⟨"  li", 2, "div", .elem "li", [], 1, none⟩, some 1, [3]⟩,
        ⟨⟨"    a", 4, "div", .elem "a", [], 1, none⟩, some 2, [8]⟩], some 1⟩
    (∀ i, ¬ TransGen a.Child i i) ∧ a.ReadingsAgree ∧ a.iter = [1, 2, 3, 2, 3] ∧
      a.documentLength = 5 ∧ a.height = 4 ∧
      a.toRaw 2 = .error (.nestingTooDeep 2) ∧ ∃ v, a.toRaw 3 = .ok v := by
  intro a
  have hlinks : ∀ i < a.size, ∀ c ∈ a.childrenOf i, i < c := by decide
  have hacyclic : ∀ i, ¬ TransGen a.Child i i := by
    refine acyclic_of_lt fun i c hc => ?_
    have hi : i < a.size := by
      obtain ⟨n, hn, -⟩ := hc
      exact node?_lt hn
    exact hlinks i hi c (mem_childrenOf.2 hc)
  have hread := readingsAgree_of_acyclic hacyclic
  have hiter : a.iter = [1, 2, 3, 2, 3] := hread.iter.trans (by decide)
  have hheight : a.height = 4 := by decide
  refine ⟨hacyclic, hread, hiter, ?_, hheight, ?_, ?_⟩
  · rw [hread.documentLength, hiter]
    rfl
  · exact (hread.raw 2 _).2 ⟨rfl, by decide⟩
  · exact ⟨_, rfl⟩

end BemOutline.Arena

import BemOutline.Arena.Raw
import BemOutline.Proofs.Arena.Unfolding
import BemOutline.Proofs.Results

/-! The raw value of a document and the limit on its levels in terms of the tree. -/

namespace BemOutline

def Line.contentOf (l : Line) : List Json → Json
  | [] => l.leafContent
  | v :: vs => .arr (v :: vs)

namespace Tree

mutual

def height : Tree → Nat
  | ⟨_, children⟩ => heights children + 1

def heights : List Tree → Nat
  | [] => 0
  | t :: ts => max t.height (heights ts)

end

mutual

def raw : Tree → Json
  | ⟨data, children⟩ => .obj (data.rawFields (data.contentOf (raws children)))

def raws : List Tree → List Json
  | [] => []
  | t :: ts => t.raw :: raws ts

end

theorem raws_eq (ts : List Tree) : raws ts = ts.map raw := by
  induction ts with
  | nil => rfl
  | cons t ts ih => rw [raws, ih, List.map_cons]

end Tree

namespace Arena.Ascending

variable {a : Arena} (h : a.Ascending) (limit : Nat)
include h

theorem mapM_rawAt {levels : Nat} {cs : List Nat} (hcs : ∀ c ∈ cs, c < a.size)
    (item : ∀ c ∈ cs, ∀ t, a.subtree c = some t →
      a.rawAt limit levels c =
        if t.height ≤ levels then .ok t.raw else .error (.nestingTooDeep limit)) :
    cs.mapM (a.rawAt limit levels) =
      if Tree.heights (cs.filterMap a.subtree) ≤ levels then
        .ok (Tree.raws (cs.filterMap a.subtree))
      else .error (.nestingTooDeep limit) := by
  induction cs with
  | nil => rfl
  | cons c cs ih =>
    obtain ⟨t, ht⟩ := h.ranked.exists_subtree_iff.2 (hcs c List.mem_cons_self)
    rw [List.mapM_cons, item c List.mem_cons_self t ht,
      ih (fun x hx => hcs x (List.mem_cons_of_mem _ hx))
        fun x hx => item x (List.mem_cons_of_mem _ hx),
      List.filterMap_cons_some ht, Tree.heights, Tree.raws]
    exact levels_bind ..

/-- The levels of the tree decide whether there is a value. -/
theorem rawAt_eq {levels i : Nat} {t : Tree} (ht : a.subtree i = some t) :
    a.rawAt limit levels i =
      if t.height ≤ levels then .ok t.raw else .error (.nestingTooDeep limit) := by
  induction levels generalizing i t with
  | zero =>
    cases t
    rw [rawAt, Tree.height, if_neg (Nat.not_succ_le_zero _)]
  | succ levels ih =>
    rw [h.ranked.subtree_eq] at ht
    obtain ⟨n, hn, rfl⟩ := Option.map_eq_some_iff.1 ht
    have hsize : ∀ c ∈ n.children, c < a.size := fun c hc => (h i n hn c hc).2
    have hitems := h.mapM_rawAt limit hsize fun c _ u hu => ih hu
    rw [rawAt, hn, Tree.height, Tree.raw]
    simp only [Nat.add_le_add_iff_right]
    cases hc : n.children with
    | nil => simp [Tree.heights, Tree.raws, Line.contentOf]
    | cons c cs =>
      rw [hc] at hitems
      obtain ⟨u, hu⟩ := h.ranked.exists_subtree_iff.2 (hsize c (hc ▸ List.mem_cons_self))
      simp only [hitems]
      split
      · rw [List.filterMap_cons_some hu, Tree.raws]
        rfl
      · rfl

theorem toRaw_eq {t : Tree} (ht : a.document = some t) :
    a.toRaw limit =
      if t.height ≤ limit + 1 then .ok t.raw else .error (.nestingTooDeep limit) := by
  obtain ⟨r, hr, ht⟩ := Option.bind_eq_some_iff.1 ht
  rw [toRaw, hr]
  exact h.rawAt_eq limit ht

end Arena.Ascending

end BemOutline

import BemOutline.Proofs.Bem.Translated
import BemOutline.Proofs.Render.Selectors

/-! Repeated nodes in stylesheets. What a node adds to the rules stays in them, and a further node
of its kind finds it there. A tree has therefore the rules of the tree without its repetitions. -/

namespace BemOutline.Render.Style

open Bem

/-- Additions to a value which change nothing once they have been made. -/
structure Cumulative {α β : Type} (add : β → α → α) : Prop where
  again : ∀ b x, add b (add b x) = add b x
  stays : ∀ {b x}, add b x = x → ∀ c, add b (add c x) = add c x

namespace Cumulative

variable {α β : Type} {add : β → α → α} {b : β} {l : List β} {x : α}

theorem stays_foldl (h : Cumulative add) (hb : add b x = x) (l : List β) :
    add b (l.foldl (fun x c => add c x) x) = l.foldl (fun x c => add c x) x := by
  induction l generalizing x with
  | nil => exact hb
  | cons c l ih => exact ih (h.stays hb c)

theorem foldl_of_mem (h : Cumulative add) (hb : b ∈ l) :
    add b (l.foldl (fun x c => add c x) x) = l.foldl (fun x c => add c x) x := by
  induction l generalizing x with
  | nil => cases hb
  | cons c l ih =>
    rcases List.mem_cons.1 hb with rfl | hb
    · exact h.stays_foldl (h.again b x) l
    · exact ih hb

theorem foldl_eq_self (hl : ∀ b ∈ l, add b x = x) : l.foldl (fun x b => add b x) x = x := by
  induction l with
  | nil => rfl
  | cons b l ih =>
    rw [List.foldl_cons, hl b List.mem_cons_self]
    exact ih fun c hc => hl c (List.mem_cons_of_mem _ hc)

theorem foldl_replicate (h : Cumulative add) (l : List β) (x : α) {n : Nat} (hn : 1 ≤ n) :
    (List.replicate n l).flatten.foldl (fun x b => add b x) x =
      l.foldl (fun x b => add b x) x := by
  obtain ⟨n, rfl⟩ := Nat.exists_eq_add_of_le' hn
  rw [List.replicate_succ, List.flatten_cons, List.foldl_append]
  apply foldl_eq_self
  intro b hb
  obtain ⟨l', hl', hb⟩ := List.mem_flatten.1 hb
  rw [List.eq_of_mem_replicate hl'] at hb
  exact h.foldl_of_mem hb

theorem optional {γ : Type} {add' : γ → α → α} (h : Cumulative add) (g : γ → Option β)
    (heq : ∀ c x, add' c x = (g c).elim x fun b => add b x) : Cumulative add' where
  again c x := by
    rw [heq c x, heq c]
    cases g c with
    | none => rfl
    | some b => exact h.again b x
  stays {b x} hb c := by
    rw [heq] at hb
    rw [heq c x, heq b]
    cases hgb : g b with
    | none => rfl
    | some b' =>
      rw [hgb] at hb
      cases g c with
      | none => exact hb
      | some c' => exact h.stays hb c'

theorem byName (h : Cumulative add) (key : α → String) (new : String → α)
    (hkey : ∀ b x, key (add b x) = key x) (hnew : ∀ name, key (new name) = name) :
    Cumulative fun (p : String × β) (l : List α) => atName key (new p.1) p.1 (add p.2) l where
  again p l := by
    induction l with
    | nil =>
      have hname : key (add p.2 (new p.1)) = p.1 := (hkey ..).trans (hnew p.1)
      rw [atName, atName, if_pos hname, h.again]
    | cons x l ih =>
      rw [atName]
      by_cases hx : key x = p.1
      · rw [if_pos hx, atName, if_pos ((hkey ..).trans hx), h.again]
      · rw [if_neg hx, atName, if_neg hx, ih]
  stays {p l} hl q := by
    induction l with
    | nil => cases hl
    | cons x l ih =>
      rw [atName] at hl
      -- the entry that holds the addition keeps its name, whatever else is added to it
      by_cases hx : key x = p.1
      · rw [if_pos hx] at hl
        have hx' := (List.cons.inj hl).1
        rw [atName]
        split
        · rw [atName, if_pos ((hkey ..).trans hx), h.stays hx']
        · rw [atName, if_pos hx, hx']
      · rw [if_neg hx] at hl
        have hl' := (List.cons.inj hl).2
        rw [atName]
        split
        · have hne : key (add q.2 x) ≠ p.1 := by rwa [hkey]
          rw [atName, if_neg hne, hl']
        · rw [atName, if_neg hx, ih hl']

end Cumulative

theorem pushNew_eq_self {l items : List String} (h : items ⊆ l) : pushNew l items = l := by
  unfold pushNew
  induction items with
  | nil => rfl
  | cons s items ih =>
    obtain ⟨hs, hitems⟩ := List.cons_subset.1 h
    rw [List.foldl_cons, if_pos hs, ih hitems]

theorem cumulative_pushNew : Cumulative fun items l => pushNew l items where
  again _ l := pushNew_eq_self fun _ hs => mem_pushNew.2 (.inr hs)
  stays {_ l} h more := by
    apply pushNew_eq_self
    intro s hs
    have hl : s ∈ l := h ▸ mem_pushNew.2 (.inr hs)
    exact mem_pushNew.2 (.inl hl)

theorem cumulative_mods :
    Cumulative fun items (r : ElemRule) => { r with mods := pushNew r.mods items } where
  again items r := congrArg (ElemRule.mk r.name) (cumulative_pushNew.again items r.mods)
  stays {_ r} h more :=
    congrArg (ElemRule.mk r.name) (cumulative_pushNew.stays (congrArg ElemRule.mods h) more)

def blockSuffixes (h : Head) : List String :=
  if h.elem = none ∧ h.block.isSome then modifierSuffixes h.mods else []

def elemSuffixes? (h : Head) : Option (String × List String) :=
  h.elem.map fun e => (e, modifierSuffixes h.elemMods)

def addElem (h : Head) (es : List ElemRule) : List ElemRule :=
  (elemSuffixes? h).elim es fun p =>
    atName ElemRule.name ⟨p.1, []⟩ p.1 (fun r => { r with mods := pushNew r.mods p.2 }) es

theorem addHead_eq (h : Head) (r : BlockRule) : addHead h r =
    { r with mods := pushNew r.mods (blockSuffixes h), elems := addElem h r.elems } := by
  rw [addHead, blockSuffixes, addElem, elemSuffixes?]
  cases h.elem with
  | some e => simp [pushNew, atElem_eq]
  | none =>
    by_cases hb : h.block.isSome
    · simp [hb]
    · simp [hb, pushNew]

theorem cumulative_addElem : Cumulative addElem := by
  have hnamed := cumulative_mods.byName ElemRule.name (fun name => ⟨name, []⟩)
    (fun _ _ => rfl) fun _ => rfl
  exact hnamed.optional elemSuffixes? fun _ _ => rfl

theorem cumulative_addHead : Cumulative addHead where
  again h r := by
    rw [addHead_eq h r, addHead_eq, cumulative_pushNew.again, cumulative_addElem.again]
  stays {h r} hr h' := by
    rw [addHead_eq] at hr
    have hmods := congrArg BlockRule.mods hr
    have helems := congrArg BlockRule.elems hr
    rw [addHead_eq h' r, addHead_eq, cumulative_pushNew.stays hmods,
      cumulative_addElem.stays helems]

theorem cumulative_addNode :
    Cumulative fun (p : Head × Option String) rules => addNode p.1 p.2 rules := by
  have hnamed := cumulative_addHead.byName BlockRule.name (fun name => ⟨name, [], []⟩)
    (fun h r => by rw [addHead_eq]) fun _ => rfl
  refine hnamed.optional (fun p => p.2.map fun b => (b, p.1)) ?_
  rintro ⟨h, _ | b⟩ rules
  · rfl
  · exact atBlock_eq b (addHead h) rules

theorem scoped_toBem (context : Option String) (data : Line) (children : List Tree) :
    (Tree.toBem ⟨data, children⟩).scoped context =
      (data.toHead, data.toHead.block? context) ::
        children.flatMap fun t => t.toBem.scoped (data.toHead.block? context) := by
  rw [Tree.toBem, Node.scoped_eq, Line.children_toContent, Tree.toBems_eq, List.flatMap_map]
  rfl

/-- Among its siblings a tree adds as much as all those that it stands for. -/
theorem foldl_scoped_full {t : Tree} (ht : ∀ l ∈ t.preorder, 1 ≤ l.count) (context : Option String)
    (rules : List BlockRule) :
    (t.full.toBem.scoped context).foldl (fun rules p => addNode p.1 p.2 rules) rules =
      (t.toBem.scoped context).foldl (fun rules p => addNode p.1 p.2 rules) rules := by
  induction t using Tree.induction generalizing context rules with
  | step data children ih =>
    have hhead : data.single.toHead = data.toHead := rfl
    rw [Tree.full_mk, scoped_toBem, scoped_toBem, hhead, List.foldl_cons, List.foldl_cons,
      List.flatMap_assoc, List.foldl_flatMap, List.foldl_flatMap]
    apply List.foldl_ext
    intro rules t hchild
    have hlines : ∀ l ∈ t.preorder, 1 ≤ l.count :=
      fun l hl => ht l (Tree.mem_preorder_mk.2 (.inr ⟨t, hchild, hl⟩))
    have hcount : 1 ≤ t.data.count := hlines _ t.data_mem_preorder
    rw [Tree.spread, List.flatMap_def, List.map_replicate,
      cumulative_addNode.foldl_replicate _ _ hcount]
    exact ih t hchild hlines _ rules

theorem rulesOf_full {t : Tree} (ht : ∀ l ∈ t.preorder, 1 ≤ l.count) :
    rulesOf t.full.toBem = rulesOf t.toBem := by
  rw [rulesOf, rulesOf, collect_eq_foldl, collect_eq_foldl]
  exact foldl_scoped_full ht none []

end BemOutline.Render.Style

import BemOutline.Proofs.Bem.Scope
import BemOutline.Render.Html
import BemOutline.Render.Style

/-! Where the class names of a stylesheet come from: each node puts the block in its scope, and its
own classes, into the rules. -/

namespace BemOutline.Render.Style

open Bem

variable {o : Options} {name s : String} {block : Option String} {h : Head} {n : Node} {a : Prop}
  {l items : List String} {rules : List BlockRule}

mutual

theorem collect_eq_foldl (context : Option String) (rules : List BlockRule) (n : Node) :
    collect context rules n =
      (n.scoped context).foldl (fun rules p => addNode p.1 p.2 rules) rules := by
  obtain ⟨h, c⟩ := n
  rw [collect, collectContent_eq_foldl, Node.scoped, List.foldl_cons]

theorem collectContent_eq_foldl (block : Option String) (rules : List BlockRule) (c : Content) :
    collectContent block rules c =
      (c.scoped block).foldl (fun rules p => addNode p.1 p.2 rules) rules := by
  cases c with
  | none => rfl
  | text s => rfl
  | items l => rw [collectContent, collectItems_eq_foldl, Content.scoped]
  | node n => rw [collectContent, collect_eq_foldl, Content.scoped]

theorem collectItems_eq_foldl (block : Option String) (rules : List BlockRule) (l : List Item) :
    collectItems block rules l =
      (itemsScoped block l).foldl (fun rules p => addNode p.1 p.2 rules) rules := by
  match l with
  | [] => rfl
  | .text s :: l => rw [collectItems, collectItems_eq_foldl, itemsScoped]
  | .node n :: l =>
    rw [collectItems, collectItems_eq_foldl, collect_eq_foldl, itemsScoped, List.foldl_append]

end

theorem mem_pushNew : s ∈ pushNew l items ↔ s ∈ l ∨ s ∈ items := by
  unfold pushNew
  induction items generalizing l with
  | nil => simp
  | cons x items ih =>
    rw [List.foldl_cons, ih, List.mem_cons]
    by_cases hx : x ∈ l
    · rw [if_pos hx]
      constructor
      · rintro (hs | hs)
        · exact .inl hs
        · exact .inr (.inr hs)
      · rintro (hs | rfl | hs)
        · exact .inl hs
        · exact .inl hx
        · exact .inr hs
    · rw [if_neg hx, List.mem_append, List.mem_singleton, or_assoc]

def atName {α : Type} (key : α → String) (new : α) (name : String) (f : α → α) : List α → List α
  | [] => [f new]
  | x :: xs => if key x = name then f x :: xs else x :: atName key new name f xs

theorem atElem_eq (name : String) (f : ElemRule → ElemRule) (es : List ElemRule) :
    atElem name f es = atName ElemRule.name ⟨name, []⟩ name f es := by
  induction es with
  | nil => rfl
  | cons e es ih => rw [atElem, atName, ih]

theorem atBlock_eq (name : String) (f : BlockRule → BlockRule) (bs : List BlockRule) :
    atBlock name f bs = atName BlockRule.name ⟨name, [], []⟩ name f bs := by
  induction bs with
  | nil => rfl
  | cons b bs ih => rw [atBlock, atName, ih]

theorem mem_flatMap_atName {α : Type} {key : α → String} {new : α} {f : α → α}
    {g : α → List String} {xs : List α} (hkey : key new = name)
    (hf : ∀ x, key x = name → (s ∈ g (f x) ↔ s ∈ g x ∨ a)) (hnew : s ∈ g new → a) :
    s ∈ (atName key new name f xs).flatMap g ↔ s ∈ xs.flatMap g ∨ a := by
  induction xs with
  | nil =>
    rw [atName, List.flatMap_singleton, hf _ hkey]
    exact ⟨fun hs => .inr (hs.elim hnew id), fun hs => .inr (hs.resolve_left List.not_mem_nil)⟩
  | cons x xs ih =>
    rw [atName]
    split
    · next hx =>
      rw [List.flatMap_cons, List.flatMap_cons, List.mem_append, List.mem_append, hf x hx,
        or_right_comm]
    · rw [List.flatMap_cons, List.flatMap_cons, List.mem_append, List.mem_append, ih, or_assoc]

theorem mem_elemSelectors {b : String} {e : ElemRule} :
    s ∈ elemSelectors o b e ↔ s = o.entityClass b (some e.name) ∨
      ∃ m ∈ e.mods, o.modifierClass (o.entityClass b (some e.name)) m = s := by
  rw [elemSelectors, List.mem_cons, List.mem_map]

theorem mem_blockSelectors {r : BlockRule} :
    s ∈ blockSelectors o r ↔ s = r.name ∨ (∃ m ∈ r.mods, o.modifierClass r.name m = s) ∨
      s ∈ r.elems.flatMap (elemSelectors o r.name) := by
  rw [blockSelectors, List.cons_append, List.mem_cons, List.mem_append, List.mem_map]

theorem exists_mem_pushNew {p : String → Prop} :
    (∃ m ∈ pushNew l items, p m) ↔ (∃ m ∈ l, p m) ∨ ∃ m ∈ items, p m := by
  simp only [mem_pushNew, or_and_right, exists_or]

theorem mem_entityClasses_elem {b e : String} (he : h.elem = some e) :
    s ∈ Html.entityClasses o h (some b) ↔ s = o.entityClass b (some e) ∨
      ∃ m ∈ modifierSuffixes h.elemMods, o.modifierClass (o.entityClass b (some e)) m = s := by
  unfold Html.entityClasses
  rw [he]
  exact List.mem_cons.trans (or_congr_right List.mem_map)

theorem mem_entityClasses_block {b : String} (he : h.elem = none) (hb : h.block.isSome) :
    s ∈ Html.entityClasses o h (some b) ↔ s = b ∨
      ∃ m ∈ modifierSuffixes h.mods, o.modifierClass b m = s := by
  unfold Html.entityClasses
  rw [he]
  dsimp only
  rw [if_pos hb, List.mem_cons, List.mem_map]

theorem entityClasses_of_none (block : Option String) (he : h.elem = none) (hb : h.block = none) :
    Html.entityClasses o h block = [] := by
  unfold Html.entityClasses
  rw [he, hb]
  cases block <;> rfl

theorem mem_blockSelectors_addHead (r : BlockRule) :
    s ∈ blockSelectors o (addHead h r) ↔
      s ∈ blockSelectors o r ∨ s = r.name ∨ s ∈ Html.entityClasses o h (some r.name) := by
  rw [mem_blockSelectors, mem_blockSelectors, addHead]
  cases he : h.elem with
  | some e =>
    rw [mem_entityClasses_elem he]
    dsimp only
    rw [atElem_eq, mem_flatMap_atName rfl (a := s = o.entityClass r.name (some e) ∨
      ∃ m ∈ modifierSuffixes h.elemMods, o.modifierClass (o.entityClass r.name (some e)) m = s)]
    · grind
    · rintro r' rfl
      rw [mem_elemSelectors, mem_elemSelectors, exists_mem_pushNew, or_or_distrib_left]
    · intro hs
      rcases mem_elemSelectors.1 hs with hs | ⟨m, hm, -⟩
      · exact .inl hs
      · cases hm
  | none =>
    dsimp only
    by_cases hb : h.block.isSome
    · rw [if_pos hb, mem_entityClasses_block he hb, exists_mem_pushNew]
      grind
    · have hnone : h.block = none := Option.not_isSome_iff_eq_none.1 hb
      rw [if_neg hb, entityClasses_of_none _ he hnone]
      have hnil : s ∉ ([] : List String) := List.not_mem_nil
      grind

theorem mem_selectors_addNode :
    s ∈ selectors o (addNode h block rules) ↔ s ∈ selectors o rules ∨
      ∃ b, block = some b ∧ (s = b ∨ s ∈ Html.entityClasses o h block) := by
  unfold selectors addNode
  cases block with
  | none => exact ⟨.inl, fun hs => hs.resolve_right fun ⟨_, hb, _⟩ => nomatch hb⟩
  | some b =>
    dsimp only
    rw [atBlock_eq, mem_flatMap_atName rfl (a := s = b ∨ s ∈ Html.entityClasses o h (some b))]
    · constructor
      · exact Or.imp_right fun hs => ⟨b, rfl, hs⟩
      · refine Or.imp_right ?_
        rintro ⟨_, ⟨⟩, hs⟩
        exact hs
    · rintro r rfl
      exact mem_blockSelectors_addHead r
    · intro hs
      rw [mem_blockSelectors] at hs
      rcases hs with hs | ⟨m, hm, -⟩ | hs
      · exact .inl hs
      · cases hm
      · cases hs

theorem mem_selectors_rulesOf :
    s ∈ selectors o (rulesOf n) ↔ ∃ p ∈ n.scoped none,
      ∃ b, p.2 = some b ∧ (s = b ∨ s ∈ Html.entityClasses o p.1 p.2) := by
  have hfold : ∀ (ps : List (Head × Option String)) (rules : List BlockRule),
      s ∈ selectors o (ps.foldl (fun rules p => addNode p.1 p.2 rules) rules) ↔
        s ∈ selectors o rules ∨ ∃ p ∈ ps,
          ∃ b, p.2 = some b ∧ (s = b ∨ s ∈ Html.entityClasses o p.1 p.2) := by
    -- the rules at the start vary, since each node adds to those of the nodes before it
    intro ps
    induction ps with
    | nil => exact fun rules => ⟨.inl, fun hs => hs.resolve_right fun ⟨_, hp, _⟩ => nomatch hp⟩
    | cons p ps ih =>
      intro rules
      rw [List.foldl_cons, ih, mem_selectors_addNode, or_assoc]
      simp only [List.mem_cons, exists_eq_or_imp]
  rw [rulesOf, collect_eq_foldl, hfold]
  exact or_iff_right List.not_mem_nil

end BemOutline.Render.Style

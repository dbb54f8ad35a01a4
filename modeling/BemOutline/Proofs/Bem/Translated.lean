import BemOutline.Proofs.Bem.CleanedRaw
import BemOutline.Proofs.Bem.Encoded
import BemOutline.Proofs.Tree.Full

/-! Documents as nodes, line by line. The value that is left of a document without its bookkeeping
is the one that its nodes are written as, and so it is read as them. -/

namespace BemOutline

open Bem Json

namespace Line

variable {l : Line}

/-- A line as the head of a node: the first one names a block, the others elements. -/
def toHead (l : Line) : Head :=
  match l.name with
  | .block s => { block := some s, tag := some l.tag, mods := l.modifierMap }
  | .elem s => { elem := some s, tag := some l.tag, elemMods := l.modifierMap }

/-- What the node of a line holds: the nodes below it, or else its text, or else an empty list. -/
def toContent (l : Line) : List Node → Content
  | [] =>
    match l.text with
    | some s => .text s
    | none => .items []
  | n :: ns => .items ((n :: ns).map .node)

theorem pairwise_modifiers_moved (h : l.modifiers.Pairwise (· < ·)) :
    l.moved.modifiers.Pairwise (· < ·) := by
  rw [moved]
  split
  · exact pairwise_insertModifier _ (h.filter _)
  · exact h

theorem proper_modifierMap (h : l.modifiers.Pairwise (· < ·)) :
    Json.Proper (.obj l.modifierMap) := by
  refine .obj ((List.pairwise_map).2 h) fun f hf => ?_
  obtain ⟨m, -, rfl⟩ := List.mem_map.1 hf
  exact .bool true

theorem proper_toHead (h : l.modifiers.Pairwise (· < ·)) : l.toHead.Proper := by
  have hmap := proper_modifierMap h
  have hnone : Json.Proper (.obj []) := .obj List.Pairwise.nil fun f hf => nomatch hf
  rw [toHead]
  cases l.name with
  | block s => exact ⟨hmap, hnone, hnone⟩
  | elem s => exact ⟨hnone, hmap, hnone⟩

theorem itemNodes_map_node (ns : List Node) : itemNodes (ns.map .node) = ns := by
  induction ns with
  | nil => rfl
  | cons n ns ih => rw [List.map_cons, itemNodes, ih]

theorem children_toContent (h : Head) (l : Line) (ns : List Node) :
    (Node.mk h (l.toContent ns)).children = ns := by
  cases ns with
  | nil =>
    rw [toContent]
    cases l.text <;> rfl
  | cons n ns => exact itemNodes_map_node (n :: ns)

theorem itemsToJson_map_node (ns : List Node) :
    itemsToJson (ns.map .node) = ns.map Node.toJson := by
  induction ns with
  | nil => rfl
  | cons n ns ih => rw [List.map_cons, itemsToJson, ih, List.map_cons]

theorem toFields_toContent (l : Line) (ns : List Node) :
    arrangedFields (l.toContent ns).toFields =
      [("content", l.contentOf (ns.map fun n => n.toJson.arranged))] := by
  cases ns with
  | nil =>
    rw [toContent, List.map_nil, contentOf, leafContent]
    cases l.text <;> rfl
  | cons n ns =>
    rw [toContent, Content.toFields, arrangedFields, arrangedFields, itemsToJson_map_node, arranged,
      arrangedItems_eq, List.map_map]
    rfl

theorem fieldsOf_toHead (l : Line) (content : Json) :
    fieldsOf (l.toHead.toFields ++ [("content", content)]) = l.plainFields content := by
  rw [plainFields]
  obtain ⟨source, depth, tag, name, modifiers, count, text⟩ := l
  -- the keys are known, and so is their order
  cases name <;> cases modifiers <;>
    simp +decide only [toHead, namedFields, modifierField, modifierMap, Head.toFields, textField,
      mapField, fieldsOf, insertField, List.map_nil, List.map_cons, List.nil_append,
      List.cons_append, List.foldl_cons, List.foldl_nil, reduceCtorEq, if_true, if_false]

end Line

namespace Tree

variable {t : Tree} {data : Line} {children : List Tree}

mutual

def toBem : Tree → Node
  | ⟨data, children⟩ => .mk data.toHead (data.toContent (toBems children))

def toBems : List Tree → List Node
  | [] => []
  | t :: ts => t.toBem :: toBems ts

end

theorem toBems_eq (ts : List Tree) : toBems ts = ts.map toBem := by
  induction ts with
  | nil => rfl
  | cons t ts ih => rw [toBems, ih, List.map_cons]

theorem proper_toBem (h : ∀ l ∈ t.preorder, l.modifiers.Pairwise (· < ·)) : t.toBem.Proper := by
  induction t using Tree.induction with
  | step data children ih =>
    rw [toBem]
    refine .mk (Line.proper_toHead (h data (data_mem_preorder _))) fun n hn => ?_
    rw [Line.children_toContent, toBems_eq] at hn
    obtain ⟨t, ht, rfl⟩ := List.mem_map.1 hn
    exact ih t ht fun l hl => h l (mem_preorder_mk.2 (.inr ⟨t, ht, hl⟩))

theorem arranged_toJson_toBem (h : ∀ l ∈ t.preorder, l.modifiers.Pairwise (· < ·)) :
    t.toBem.toJson.arranged = withoutBookkeeping t.raw := by
  induction t using Tree.induction with
  | step data children ih =>
    have hchildren : (toBems children).map (fun n => n.toJson.arranged) =
        children.map fun t => withoutBookkeeping t.raw := by
      rw [toBems_eq, List.map_map]
      exact List.map_congr_left fun t ht =>
        ih t ht fun l hl => h l (mem_preorder_mk.2 (.inr ⟨t, ht, hl⟩))
    have hhead := Line.proper_toHead (h data (data_mem_preorder _))
    rw [toBem, hhead.arranged_toJson, Line.toFields_toContent, hchildren,
      Line.fieldsOf_toHead, withoutBookkeeping_raw]

theorem ofJson_withoutBookkeeping (h : ∀ l ∈ t.preorder, l.modifiers.Pairwise (· < ·)) :
    Node.ofJson (withoutBookkeeping t.raw) = .ok t.toBem := by
  rw [← arranged_toJson_toBem h]
  exact (proper_toBem h).decodes

end Tree

end BemOutline

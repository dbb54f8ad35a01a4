import BemOutline.Bem.Node

/-! The nodes of a tree in document order, each with the block in whose scope it stands: its own
one, or that of the nearest node around it that has one. -/

namespace BemOutline.Bem

variable {context : Option String} {n : Node} {p : Head × Option String} {b : String}

mutual

def Node.scoped (context : Option String) : Node → List (Head × Option String)
  | .mk h c => (h, h.block? context) :: c.scoped (h.block? context)

def Content.scoped (block : Option String) : Content → List (Head × Option String)
  | .none => []
  | .text _ => []
  | .items l => itemsScoped block l
  | .node n => n.scoped block

def itemsScoped (block : Option String) : List Item → List (Head × Option String)
  | [] => []
  | .text _ :: l => itemsScoped block l
  | .node n :: l => n.scoped block ++ itemsScoped block l

end

theorem itemsScoped_eq (block : Option String) (l : List Item) :
    itemsScoped block l = (itemNodes l).flatMap (Node.scoped block) := by
  induction l with
  | nil => rfl
  | cons i l ih =>
    cases i with
    | text s => rw [itemsScoped, itemNodes, ih]
    | node n => rw [itemsScoped, itemNodes, ih, List.flatMap_cons]

theorem Node.scoped_eq (context : Option String) (n : Node) :
    n.scoped context = (n.head, n.head.block? context) ::
      n.children.flatMap (Node.scoped (n.head.block? context)) := by
  obtain ⟨h, c⟩ := n
  rw [Node.scoped]
  congr 1
  cases c with
  | none => rfl
  | text s => rfl
  | items l => exact itemsScoped_eq _ l
  | node m => exact (List.append_nil _).symm

theorem sizeOf_lt_of_mem_itemNodes {l : List Item} (hn : n ∈ itemNodes l) :
    sizeOf n < sizeOf l := by
  induction l with
  | nil => cases hn
  | cons i l ih =>
    rw [List.cons.sizeOf_spec]
    cases i with
    | text s =>
      have hl := ih hn
      omega
    | node m =>
      rw [Item.node.sizeOf_spec]
      rcases List.mem_cons.1 hn with rfl | hn
      · omega
      · have hl := ih hn
        omega

theorem Node.induction {P : Node → Prop} (h : ∀ n : Node, (∀ m ∈ n.children, P m) → P n)
    (n : Node) : P n := by
  have hsize : ∀ m ∈ n.children, sizeOf m < sizeOf n := by
    intro m hm
    obtain ⟨h, c⟩ := n
    rw [Node.mk.sizeOf_spec]
    cases c with
    | none => cases hm
    | text s => cases hm
    | items l =>
      have hl := sizeOf_lt_of_mem_itemNodes hm
      rw [Content.items.sizeOf_spec]
      omega
    | node m' =>
      rw [List.mem_singleton.1 hm, Content.node.sizeOf_spec]
      omega
  exact h n fun m hm =>
    have := hsize m hm
    Node.induction h m
termination_by sizeOf n

theorem snd_of_mem_scoped (hp : p ∈ n.scoped context) (hb : p.1.block = some b) :
    p.2 = some b := by
  induction n using Node.induction generalizing context with
  | h n ih =>
    rw [Node.scoped_eq] at hp
    rcases List.mem_cons.1 hp with rfl | hp
    · rw [Head.block?, hb, Option.some_or]
    · obtain ⟨m, hm, hp⟩ := List.mem_flatMap.1 hp
      exact ih m hm hp

theorem exists_block_of_mem_scoped (hp : p ∈ n.scoped context) (hb : p.2 = some b) :
    context = some b ∨ ∃ q ∈ n.scoped context, q.1.block = some b := by
  induction n using Node.induction generalizing context with
  | h n ih =>
    rw [Node.scoped_eq] at hp ⊢
    have hhead : n.head.block? context = some b → context = some b ∨
        ∃ q ∈ (n.head, n.head.block? context) ::
          n.children.flatMap (Node.scoped (n.head.block? context)), q.1.block = some b := by
      intro hblock
      rcases Option.or_eq_some_iff.1 hblock with hown | ⟨-, hcontext⟩
      · exact .inr ⟨_, List.mem_cons_self, hown⟩
      · exact .inl hcontext
    rcases List.mem_cons.1 hp with rfl | hp
    · exact hhead hb
    · obtain ⟨m, hm, hp⟩ := List.mem_flatMap.1 hp
      rcases ih m hm hp with hblock | ⟨q, hq, hown⟩
      · exact hhead hblock
      · exact .inr ⟨q, List.mem_cons_of_mem _ (List.mem_flatMap.2 ⟨m, hm, hq⟩), hown⟩

theorem exists_block_of_mem_scoped_none (hp : p ∈ n.scoped none) (hb : p.2 = some b) :
    ∃ q ∈ n.scoped none, q.1.block = some b :=
  (exists_block_of_mem_scoped hp hb).resolve_left nofun

end BemOutline.Bem

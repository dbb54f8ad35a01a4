import BemOutline.Proofs.Render.Marks
import BemOutline.Proofs.Render.Selectors

/-! Markup and stylesheet agree on the class names of a tree. -/

namespace BemOutline.Render

open Bem Html Style

variable {o : Options} {n : Node} {s : String}

/-- A class that some node has because of its names and modifiers and the block in its scope. -/
def IsEntityClass (o : Options) (n : Node) (s : String) : Prop :=
  ∃ p ∈ n.scoped none, ∃ b, p.2 = some b ∧ s ∈ entityClasses o p.1 (some b)

/-- A block that no node is: those that name it are elements of it. -/
def OnlyElements (n : Node) (s : String) : Prop :=
  (∃ p ∈ n.scoped none, p.1.block = some s) ∧
    ∀ p ∈ n.scoped none, p.1.block = some s → p.1.elem.isSome

theorem IsEntityClass.mem_selectors (hs : IsEntityClass o n s) :
    s ∈ selectors o (rulesOf n) := by
  obtain ⟨p, hp, b, hb, hs⟩ := hs
  exact mem_selectors_rulesOf.2 ⟨p, hp, b, hb, .inr (hb ▸ hs)⟩

theorem OnlyElements.mem_selectors (hs : OnlyElements n s) : s ∈ selectors o (rulesOf n) := by
  obtain ⟨⟨p, hp, hown⟩, -⟩ := hs
  exact mem_selectors_rulesOf.2 ⟨p, hp, s, snd_of_mem_scoped hp hown, .inl rfl⟩

theorem isEntityClass_or_onlyElements {p : Head × Option String} (hp : p ∈ n.scoped none)
    (hs : p.2 = some s) : IsEntityClass o n s ∨ OnlyElements n s := by
  by_cases hblock : ∃ q ∈ n.scoped none, q.1.block = some s ∧ q.1.elem = none
  · obtain ⟨q, hq, hown, helem⟩ := hblock
    have hisBlock : q.1.block.isSome := Option.isSome_of_eq_some hown
    have hclass : s ∈ entityClasses o q.1 (some s) :=
      (mem_entityClasses_block helem hisBlock).2 (.inl rfl)
    exact .inl ⟨q, hq, s, snd_of_mem_scoped hq hown, hclass⟩
  · refine .inr ⟨exists_block_of_mem_scoped_none hp hs, fun q hq hown => ?_⟩
    refine Option.isSome_iff_ne_none.2 fun helem => ?_
    exact hblock ⟨q, hq, hown, helem⟩

/-- The rules of a stylesheet are for the classes of the nodes of the tree, and for the blocks that
only have elements; those of the nodes in the markup are all among them. -/
theorem mem_selectors_iff_isEntityClass (o : Options) (n : Node) :
    (Written o (render o n).toList (nodeMarks none n) ∧
      ∀ h b, .opening h (some b) ∈ nodeMarks none n →
        ∀ s ∈ entityClasses o h (some b), s ∈ selectors o (rulesOf n)) ∧
    (renderCss o n).toList = ['\n'].intercalate ((selectors o (rulesOf n)).map cssRule) ∧
      ∀ s, s ∈ selectors o (rulesOf n) ↔ IsEntityClass o n s ∨ OnlyElements n s := by
  refine ⟨⟨written_render o n, ?_⟩, String.toList_ofList, fun s => ⟨?_, ?_⟩⟩
  · intro h b hmark s hs
    have hscoped : (h, some b) ∈ n.scoped none := of_mem_nodeMarks hmark
    exact IsEntityClass.mem_selectors ⟨_, hscoped, b, rfl, hs⟩
  · intro hs
    obtain ⟨p, hp, b, hb, rfl | hs⟩ := mem_selectors_rulesOf.1 hs
    · exact isEntityClass_or_onlyElements hp hb
    · exact .inl ⟨p, hp, b, hb, hb ▸ hs⟩
  · rintro (hs | hs)
    · exact hs.mem_selectors
    · exact hs.mem_selectors

example : selectors {} (rulesOf (.mk { block := some "b", elem := some "e" } .none)) =
    ["b", "b__e"] := by
  decide

end BemOutline.Render

import BemOutline.Proofs.Bem.Scope
import BemOutline.Render.Html

/-! What the markup of a tree is made of: the marks of its nodes in document order, with nothing but
line breaks and indentation in between. -/

namespace BemOutline.Render.Html

open Bem

variable {o : Options} {h : Head} {b context : Option String} {n : Node} {cs ds : List Char}

/-- A node opens in the scope of a block, has texts and nodes in it, and closes. -/
inductive Mark where
  | opening (h : Head) (block : Option String)
  | text (s : String)
  | closing (h : Head)

mutual

def nodeMarks (context : Option String) : Node → List Mark
  | .mk h c =>
    .opening h (h.block? context) ::
      if tagOf h ∈ voidTags then [] else contentMarks (h.block? context) c ++ [.closing h]

def contentMarks (block : Option String) : Content → List Mark
  | .none => []
  | .text s => [.text s]
  | .items l => itemMarks block l
  | .node n => nodeMarks block n

def itemMarks (block : Option String) : List Item → List Mark
  | [] => []
  | .text s :: l => .text s :: itemMarks block l
  | .node n :: l => nodeMarks block n ++ itemMarks block l

end

def Mark.Of (ps : List (Head × Option String)) : Mark → Prop
  | opening h b => (h, b) ∈ ps
  | text _ => True
  | closing h => ∃ b, (h, b) ∈ ps

theorem Mark.Of.mono {ps qs : List (Head × Option String)} {m : Mark} (hm : m.Of ps)
    (hsub : ps ⊆ qs) : m.Of qs := by
  cases m with
  | opening h b => exact hsub hm
  | text s => trivial
  | closing h =>
    obtain ⟨b, hb⟩ := hm
    exact ⟨b, hsub hb⟩

mutual

theorem of_mem_nodeMarks {context : Option String} {n : Node} {m : Mark}
    (hm : m ∈ nodeMarks context n) : m.Of (n.scoped context) := by
  obtain ⟨h, c⟩ := n
  rw [nodeMarks] at hm
  rw [Node.scoped]
  rcases List.mem_cons.1 hm with rfl | hm
  · exact List.mem_cons_self
  · split at hm
    · cases hm
    · rcases List.mem_append.1 hm with hm | hm
      · exact (of_mem_contentMarks hm).mono (List.subset_cons_self ..)
      · rw [List.mem_singleton.1 hm]
        exact ⟨_, List.mem_cons_self⟩

theorem of_mem_contentMarks {block : Option String} {c : Content} {m : Mark}
    (hm : m ∈ contentMarks block c) : m.Of (c.scoped block) := by
  cases c with
  | none => cases hm
  | text s =>
    rw [List.mem_singleton.1 hm]
    trivial
  | items l => exact of_mem_itemMarks hm
  | node n => exact of_mem_nodeMarks hm

theorem of_mem_itemMarks {block : Option String} {l : List Item} {m : Mark}
    (hm : m ∈ itemMarks block l) : m.Of (itemsScoped block l) := by
  match l with
  | [] => cases hm
  | .text s :: l =>
    rw [itemsScoped]
    rcases List.mem_cons.1 hm with rfl | hm
    · trivial
    · exact of_mem_itemMarks hm
  | .node n :: l =>
    rw [itemsScoped]
    rcases List.mem_append.1 hm with hm | hm
    · exact (of_mem_nodeMarks hm).mono (List.subset_append_left ..)
    · exact (of_mem_itemMarks hm).mono (List.subset_append_right ..)

end

variable {ms ns : List Mark}

/-- A text that consists of marks, line breaks and indentation. -/
inductive Written (o : Options) : List Char → List Mark → Prop
  | nil : Written o [] []
  | newline {cs : List Char} {ms : List Mark} : Written o cs ms → Written o ('\n' :: cs) ms
  | indent {cs : List Char} {ms : List Mark} : Written o cs ms →
    Written o (o.indent.toList ++ cs) ms
  | text {cs : List Char} {ms : List Mark} (s : String) : Written o cs ms →
    Written o (escapeText s.toList ++ cs) (.text s :: ms)
  | opening {cs : List Char} {ms : List Mark} (h : Head) (b : Option String) : Written o cs ms →
    Written o (openTag o h b ++ cs) (.opening h b :: ms)
  | closing {cs : List Char} {ms : List Mark} (h : Head) : Written o cs ms →
    Written o (closeTag h ++ cs) (.closing h :: ms)

namespace Written

theorem append (hcs : Written o cs ms) (hds : Written o ds ns) :
    Written o (cs ++ ds) (ms ++ ns) := by
  induction hcs with
  | nil => exact hds
  | newline _ ih => exact ih.newline
  | indent _ ih =>
    rw [List.append_assoc]
    exact ih.indent
  | text s _ ih =>
    rw [List.append_assoc]
    exact ih.text s
  | opening h b _ ih =>
    rw [List.append_assoc]
    exact ih.opening h b
  | closing h _ ih =>
    rw [List.append_assoc]
    exact ih.closing h

theorem pad (level : Nat) (hcs : Written o cs ms) : Written o (o.pad level ++ cs) ms := by
  unfold Options.pad
  induction level with
  | zero => exact hcs
  | succ level ih =>
    rw [List.replicate_succ, List.flatten_cons, List.append_assoc]
    exact ih.indent

end Written

def joined (lines : List (List Char)) : List Char := lines.flatMap fun l => l ++ ['\n']

theorem joined_append (ls ls' : List (List Char)) :
    joined (ls ++ ls') = joined ls ++ joined ls' := List.flatMap_append

theorem joined_singleton (l : List Char) : joined [l] = l ++ ['\n'] := List.flatMap_singleton ..

theorem Written.line {l : List Char} (level : Nat) (hl : Written o l ms) :
    Written o (joined [o.pad level ++ l]) ms := by
  have hline := (hl.append Written.nil.newline).pad level
  rw [List.append_nil] at hline
  rwa [joined_singleton, List.append_assoc]

theorem Written.openTag (h : Head) (b : Option String) :
    Written o (openTag o h b) [.opening h b] := by
  have hopen := Written.nil (o := o).opening h b
  rwa [List.append_nil] at hopen

theorem Written.closeTag (h : Head) : Written o (closeTag h) [.closing h] := by
  have hclose := Written.nil (o := o).closing h
  rwa [List.append_nil] at hclose

theorem Written.escapeText (s : String) : Written o (escapeText s.toList) [.text s] := by
  have htext := Written.nil (o := o).text s
  rwa [List.append_nil] at htext

theorem Written.inlineNode {text : List Char} (h : Head) (b : Option String) (level : Nat)
    (htext : Written o (Html.escapeText text) ms) :
    Written o (joined (inlineNode o h b level text)) (.opening h b :: (ms ++ [.closing h])) := by
  have hall := (Written.openTag h b).append (htext.append (Written.closeTag h))
  have hline := hall.line level
  unfold Html.inlineNode
  simp only [List.append_assoc]
  exact hline

theorem Written.wrapLines {inner : List (List Char)} (h : Head) (b : Option String) (level : Nat)
    (hinner : Written o (joined inner) ms) :
    Written o (joined (wrapLines o h b level inner)) (.opening h b :: (ms ++ [.closing h])) := by
  have hfirst := (Written.openTag h b).line (o := o) level
  have hlast := (Written.closeTag h).line (o := o) level
  have hall := hfirst.append (hinner.append hlast)
  rwa [← joined_append, ← joined_append] at hall

mutual

theorem written_nodeLines (context : Option String) (level : Nat) (n : Node) :
    Written o (joined (nodeLines o context level n)) (nodeMarks context n) := by
  obtain ⟨h, c⟩ := n
  rw [nodeLines, nodeMarks]
  by_cases hvoid : tagOf h ∈ voidTags
  · rw [if_pos hvoid, if_pos hvoid]
    exact (Written.openTag h _).line level
  · rw [if_neg hvoid, if_neg hvoid]
    exact written_contentLines h (h.block? context) level c

theorem written_contentLines (h : Head) (block : Option String) (level : Nat) (c : Content) :
    Written o (joined (contentLines o h block level c))
      (.opening h block :: (contentMarks block c ++ [.closing h])) := by
  match c with
  | .none => exact Written.nil.inlineNode h block level
  | .text s => exact (Written.escapeText s).inlineNode h block level
  | .items [] => exact Written.nil.inlineNode h block level
  | .items (i :: l) => exact (written_itemLines block (level + 1) (i :: l)).wrapLines h block level
  | .node n => exact (written_nodeLines block (level + 1) n).wrapLines h block level

theorem written_itemLines (block : Option String) (level : Nat) (l : List Item) :
    Written o (joined (itemLines o block level l)) (itemMarks block l) := by
  match l with
  | [] => exact .nil
  | .text s :: l =>
    have hl := written_itemLines block level l
    have hall := ((Written.escapeText s).line level).append hl
    rwa [← joined_append] at hall
  | .node n :: l =>
    have hn := written_nodeLines block level n
    have hl := written_itemLines block level l
    rw [itemLines, joined_append]
    exact hn.append hl

end

theorem written_render (o : Options) (n : Node) :
    Written o (render o n).toList (nodeMarks none n) := by
  unfold render
  rw [String.toList_ofList]
  exact written_nodeLines none 0 n

end BemOutline.Render.Html

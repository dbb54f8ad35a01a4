import BemOutline.Line.Parser
import Mathlib.Data.List.Infix

/-! Cutting at double dashes. In a longer run of dashes it is the first two that part, so that only
the last piece can end in a dash, and this settles where the cuts are. -/

namespace BemOutline.Line

/-- The pieces of a text between the double dashes that are met when it is read from the left. -/
inductive DashPieces : List Char → List (List Char) → Prop
  | last {piece : List Char} (plain : ¬ ['-', '-'] <:+: piece) : DashPieces piece [piece]
  | cut {piece cs : List Char} {pieces : List (List Char)} (plain : ¬ ['-', '-'] <:+: piece)
      (tight : piece.getLast? ≠ some '-') (rest : DashPieces cs pieces) :
      DashPieces (piece ++ '-' :: '-' :: cs) (piece :: pieces)

variable {c : Char} {cs piece : List Char} {pieces : List (List Char)}

namespace DashPieces

theorem ne_nil (h : DashPieces cs pieces) : pieces ≠ [] := by
  cases h <;> exact List.cons_ne_nil _ _

theorem not_infix (h : DashPieces cs pieces) (hp : piece ∈ pieces) : ¬ ['-', '-'] <:+: piece := by
  induction h with
  | last plain => exact List.mem_singleton.1 hp ▸ plain
  | cut plain _ _ ih =>
    rcases List.mem_cons.1 hp with rfl | hp
    · exact plain
    · exact ih hp

theorem subset (h : DashPieces cs pieces) (hp : piece ∈ pieces) : piece ⊆ cs := by
  induction h with
  | last => exact List.mem_singleton.1 hp ▸ List.Subset.refl _
  | cut _ _ _ ih =>
    rcases List.mem_cons.1 hp with rfl | hp
    · exact List.subset_append_left ..
    · have hrest := List.subset_cons_of_subset '-' (List.subset_cons_of_subset '-' (ih hp))
      exact List.subset_append_of_subset_right _ hrest

theorem forall_mem {p : Char → Prop} (h : DashPieces cs pieces) (hdash : p '-')
    (hp : ∀ piece ∈ pieces, ∀ c ∈ piece, p c) : ∀ c ∈ cs, p c := by
  induction h with
  | last => exact hp _ List.mem_cons_self
  | cut _ _ _ ih =>
    obtain ⟨hpiece, hpieces⟩ := List.forall_mem_cons.1 hp
    rw [List.forall_mem_append, List.forall_mem_cons, List.forall_mem_cons]
    exact ⟨hpiece, hdash, hdash, ih hpieces⟩

theorem getLast?_ne (h : DashPieces cs (piece :: pieces)) (hne : pieces ≠ []) :
    piece.getLast? ≠ some '-' := by
  cases h with
  | last => exact absurd rfl hne
  | cut _ tight => exact tight

theorem getLast?_eq_of_dash (h : DashPieces cs pieces) (hp : piece ∈ pieces)
    (hdash : piece.getLast? = some '-') : pieces.getLast? = some piece := by
  induction h with
  | last => rw [List.mem_singleton.1 hp, List.getLast?_singleton]
  | cut _ tight rest ih =>
    rcases List.mem_cons.1 hp with rfl | hp
    · exact absurd hdash tight
    · rw [List.getLast?_cons_of_ne_nil rest.ne_nil, ih hp]

theorem intercalate (hne : pieces ≠ [])
    (hplain : ∀ piece ∈ pieces, ¬ ['-', '-'] <:+: piece)
    (htight : ∀ piece ∈ pieces.dropLast, piece.getLast? ≠ some '-') :
    DashPieces (['-', '-'].intercalate pieces) pieces := by
  induction pieces with
  | nil => exact absurd rfl hne
  | cons piece pieces ih =>
    obtain ⟨hpiece, hpieces⟩ := List.forall_mem_cons.1 hplain
    cases pieces with
    | nil =>
      rw [List.intercalate_singleton]
      exact .last hpiece
    | cons next pieces =>
      rw [List.dropLast_cons_of_ne_nil (List.cons_ne_nil _ _), List.forall_mem_cons] at htight
      rw [List.intercalate_cons_cons, List.append_assoc]
      exact .cut hpiece htight.1 (ih (List.cons_ne_nil _ _) hpieces htight.2)

theorem dashes (h : DashPieces cs pieces) : DashPieces ('-' :: '-' :: cs) ([] :: pieces) :=
  @cut [] cs pieces (by simp) (by simp) h

theorem drop (h : DashPieces cs (piece :: pieces)) :
    DashPieces (cs.drop piece.length) ([] :: pieces) := by
  cases h with
  | last =>
    rw [List.drop_length]
    exact .last (by simp)
  | cut _ _ rest =>
    rw [List.drop_left]
    exact rest.dashes

theorem cons (h : DashPieces cs (piece :: pieces)) (hc : ¬ ['-', '-'] <+: c :: cs) :
    DashPieces (c :: cs) ((c :: piece) :: pieces) := by
  cases h with
  | last plain => exact .last (List.infix_cons_iff.not.2 (not_or.2 ⟨hc, plain⟩))
  | cut plain tight rest =>
    refine .cut (List.infix_cons_iff.not.2 (not_or.2 ⟨fun hp => hc ?_, plain⟩)) ?_ rest
    · exact hp.trans ((List.prefix_cons_inj c).2 (List.prefix_append ..))
    · cases piece with
      -- Two dashes follow, so the character in front of them is none.
      | nil => simpa [eq_comm] using hc
      | cons d piece => exact tight

end DashPieces

theorem splitAtDashes_ne_nil (cs : List Char) : splitAtDashes cs ≠ [] := by
  unfold splitAtDashes
  split
  · simp
  · simp
  · split
    · simp
    · split <;> simp

theorem splitAtDashes_cons (h : ¬ ['-', '-'] <+: c :: cs) :
    splitAtDashes (c :: cs) = (splitAtDashes cs).modifyHead (c :: ·) := by
  cases cs with
  | nil => rfl
  | cons d cs =>
    rw [splitAtDashes, if_neg (by rintro ⟨rfl, rfl⟩; exact h ⟨cs, rfl⟩)]
    cases hs : splitAtDashes (d :: cs) with
    | nil => exact absurd hs (splitAtDashes_ne_nil _)
    | cons piece pieces => rfl

theorem splitAtDashes_of_plain (h : ¬ ['-', '-'] <:+: cs) : splitAtDashes cs = [cs] := by
  induction cs with
  | nil => rfl
  | cons c cs ih =>
    rw [List.infix_cons_iff, not_or] at h
    rw [splitAtDashes_cons h.1, ih h.2, List.modifyHead_cons]

theorem splitAtDashes_append (hplain : ¬ ['-', '-'] <:+: piece)
    (htight : piece.getLast? ≠ some '-') :
    splitAtDashes (piece ++ '-' :: '-' :: cs) = piece :: splitAtDashes cs := by
  induction piece with
  | nil => rfl
  | cons c piece ih =>
    rw [List.infix_cons_iff, not_or] at hplain
    have hhead : ¬ ['-', '-'] <+: c :: (piece ++ '-' :: '-' :: cs) := by
      cases piece with
      | nil => simpa [eq_comm] using htight
      | cons d piece => simpa using hplain.1
    have hlast : piece.getLast? ≠ some '-' := by
      cases piece with
      | nil => simp
      | cons d piece => simpa using htight
    rw [List.cons_append, splitAtDashes_cons hhead, ih hplain.2 hlast, List.modifyHead_cons]

theorem DashPieces.splitAtDashes_eq (h : DashPieces cs pieces) : splitAtDashes cs = pieces := by
  induction h with
  | last plain => exact splitAtDashes_of_plain plain
  | cut plain tight _ ih => rw [splitAtDashes_append plain tight, ih]

example : splitAtDashes "a---b".toList = ["a".toList, "-b".toList] := by decide

theorem dashPieces_splitAtDashes (cs : List Char) : DashPieces cs (splitAtDashes cs) := by
  fun_induction splitAtDashes cs with
  | case1 => exact .last (by simp)
  | case2 c => exact .last (by simp [List.infix_cons_iff])
  | case3 c d cs h ih =>
    obtain ⟨rfl, rfl⟩ := h
    exact ih.dashes
  | case4 c d cs h hs ih => exact absurd hs ih.ne_nil
  | case5 c d cs h piece pieces hs ih => exact (hs ▸ ih).cons (by simpa [eq_comm] using h)

end BemOutline.Line

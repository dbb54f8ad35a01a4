import BemOutline.Text.Blank
import Mathlib.Data.List.Basic

/-! The pieces of a text between the occurrences of one character. -/

namespace BemOutline.Text

variable {sep c : Char} {cs piece : List Char}

theorem splitAtChar_eq_splitOn (sep : Char) (cs : List Char) :
    splitAtChar sep cs = cs.splitOn sep := by
  induction cs with
  | nil => rfl
  | cons c cs ih =>
    rw [splitAtChar, List.splitOn_cons_eq_if_modifyHead, ih]
    by_cases h : c = sep
    · simp [h]
    · cases hs : cs.splitOn sep with
      | nil => exact absurd hs (List.splitOn_ne_nil sep cs)
      | cons piece pieces => simp [h]

theorem splitAtChar_of_not_mem (h : sep ∉ cs) : splitAtChar sep cs = [cs] := by
  rw [splitAtChar_eq_splitOn, List.splitOn_eq_singleton h]

theorem splitOn_cons_self (sep : Char) (cs : List Char) :
    (sep :: cs).splitOn sep = [] :: cs.splitOn sep :=
  List.splitOn_append_cons_self_of_not_mem List.not_mem_nil cs

theorem splitOn_cons_of_ne (h : c ≠ sep) :
    (c :: cs).splitOn sep = (cs.splitOn sep).modifyHead (c :: ·) := by
  rw [List.splitOn_cons_eq_if_modifyHead, if_neg (by simpa using h)]

theorem head?_splitOn (sep : Char) (cs : List Char) :
    (cs.splitOn sep).head? = some (cs.takeWhile (· ≠ sep)) := by
  induction cs with
  | nil => rfl
  | cons c cs ih =>
    by_cases h : c = sep
    · subst h
      rw [splitOn_cons_self, List.takeWhile_cons_of_neg (by simp), List.head?_cons]
    · rw [splitOn_cons_of_ne h, List.head?_modifyHead, ih, List.takeWhile_cons_of_pos (by simpa),
        Option.map_some]

theorem mem_of_mem_splitOn (hp : piece ∈ cs.splitOn sep) (hc : c ∈ piece) : c ∈ cs ∧ c ≠ sep := by
  induction cs generalizing piece with
  | nil =>
    rw [List.mem_singleton.1 hp] at hc
    cases hc
  | cons x cs ih =>
    by_cases hx : x = sep
    · subst hx
      rw [splitOn_cons_self] at hp
      rcases List.mem_cons.1 hp with rfl | hp
      · cases hc
      · exact (ih hp hc).imp_left (List.mem_cons_of_mem _)
    · rw [splitOn_cons_of_ne hx] at hp
      obtain ⟨first, pieces, hs⟩ := List.exists_cons_of_ne_nil (List.splitOn_ne_nil sep cs)
      rw [hs] at hp ih
      rcases List.mem_cons.1 hp with rfl | hp
      · rcases List.mem_cons.1 hc with rfl | hc
        · exact ⟨List.mem_cons_self, hx⟩
        · exact (ih List.mem_cons_self hc).imp_left (List.mem_cons_of_mem _)
      · exact (ih (List.mem_cons_of_mem _ hp) hc).imp_left (List.mem_cons_of_mem _)

end BemOutline.Text

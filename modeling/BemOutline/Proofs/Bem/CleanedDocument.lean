import BemOutline.Proofs.Bem.CleanedRaw
import BemOutline.Proofs.Expansion.Refinement
import Mathlib.Control.Monad.Basic

/-! Cleaning the raw values of built and expanded documents. -/

namespace BemOutline.Bem

open Arena Expansion Outline

theorem isInternal_eq_false {m : String} (h : ∀ c ∈ m.toList, Line.isTokenChar c) :
    isInternal m = false := by
  rw [isInternal, decide_eq_false_iff_not]
  intro hm
  have hc := h '_' (List.mem_of_mem_head? hm)
  exact absurd hc (by decide)

theorem isInternal_modifier {defaultTag text : String} {l : Line}
    (hl : l ∈ acceptedLines defaultTag text) {m : String} (hm : m ∈ l.modifiers) :
    isInternal m = false := by
  obtain ⟨i, hi⟩ := List.mem_iff_getElem?.1 hl
  obtain ⟨number, line, hline⟩ := exists_parseChars_of_accepted hi
  exact isInternal_eq_false fun c hc => Line.isTokenChar_of_mem_modifiers hline hm hc

/-- Cleaning the raw value of a document deletes the bookkeeping of its nodes and moves the
modifiers that are misread. -/
theorem clean_raw_of_build {defaultTag text : String} {limit : Nat} {a : Arena}
    (h : build defaultTag limit text = .ok a) (es : List Expander) {rawLimit cleanLimit : Nat}
    {v w : Json} (hv : (expandAll es a).toRaw rawLimit = .ok v)
    (hw : clean cleanLimit v = .ok w) :
    (∃ t, (expandAll es a).document = some t ∧ v = t.raw ∧
      w = withoutBookkeeping (t.map Line.moved).raw) ∧
      (w = withoutBookkeeping v ↔ ∀ l ∈ acceptedLines defaultTag text, ¬ l.Misread) := by
  have hs := sound_of_build h
  obtain ⟨t, ht⟩ := hs.exists_document
  obtain ⟨u, hu, -⟩ := hs.document_expandAll ht es
  have hraw := (hs.expandAll es).ascending.toRaw_eq rawLimit hu
  rw [hv] at hraw
  split at hraw
  · cases hraw
    rw [clean_eq] at hw
    split at hw
    · cases hw
      have hinternal : ∀ l ∈ u.preorder, ∀ m ∈ l.modifiers, isInternal m = false :=
        (forall_mem_expandAll_iff h hu fun _ => .rfl).2 fun l hl m hm => isInternal_modifier hl hm
      rw [cleaned_raw hinternal]
      refine ⟨⟨u, hu, rfl, rfl⟩, withoutBookkeeping_moved_iff.trans ?_⟩
      exact forall_mem_expandAll_iff h hu fun _ => .rfl
    · cases hw
  · cases hraw

/-- Modifiers may be called like fields as long as they are not misread. -/
theorem clean_raw_of_build_outline :
    ∃ a v w, build "div" 2 "ul--elem\n  li--mods*2\n    a--elem--elemMods--mods*2" = .ok a ∧
      (expandAll [⟨.copy, 1, none⟩, ⟨.aliased, 20, none⟩] a).toRaw 2 = .ok v ∧
      clean 4 v = .ok w ∧ w = withoutBookkeeping v := by
  let a : Arena :=
    ⟨#[⟨⟨"ul--elem", 0, "div", .block "ul", ["elem"], 1, none⟩, none, [1]⟩,
      ⟨⟨"  li--mods*2", 2, "div", .elem "li", ["mods"], 2, none⟩, some 0, [2]⟩,
      ⟨⟨"    a--elem--elemMods--mods*2", 4, "div", .elem "a", ["elem", "elemMods", "mods"], 2,
        none⟩, some 1, []⟩], some 0⟩
  have hbuild : build "div" 2 "ul--elem\n  li--mods*2\n    a--elem--elemMods--mods*2" = .ok a := by
    decide +kernel
  have hok : (((expandAll [⟨.copy, 1, none⟩, ⟨.aliased, 20, none⟩] a).toRaw 2).bind
      (clean 4)).isOk := by decide +kernel
  cases hv : (expandAll [⟨.copy, 1, none⟩, ⟨.aliased, 20, none⟩] a).toRaw 2 with
  | error e =>
    rw [hv] at hok
    cases hok
  | ok v =>
    rw [hv] at hok
    change (clean 4 v).isOk at hok
    cases hw : clean 4 v with
    | error e =>
      rw [hw] at hok
      cases hok
    | ok w =>
      refine ⟨a, v, w, hbuild, hv, hw, (clean_raw_of_build hbuild _ hv hw).2.2 ?_⟩
      decide +kernel

/-- A block with the modifiers `elem` and `mods` ends up with `elem` and `elemMods`. -/
theorem clean_raw_misread :
    ∃ a v w, build "div" 0 "a--elem--mods" = .ok a ∧ (expandAll [] a).toRaw 0 = .ok v ∧
      clean 2 v = .ok w ∧ w ≠ withoutBookkeeping v := by
  refine ⟨_, .obj [("_depth", .int 0), ("_line", .str "a--elem--mods"), ("_number", .int 1),
      ("block", .str "a"), ("content", .arr []),
      ("mods", .obj [("elem", .bool true), ("mods", .bool true)]), ("tag", .str "div")],
    .obj [("block", .str "a"), ("content", .arr []),
      ("mods", .obj [("elem", .bool true), ("elemMods", .bool true)]), ("tag", .str "div")],
    rfl, rfl, rfl, ?_⟩
  simp [withoutBookkeeping, fieldsWithout, itemsWithout, isBookkeeping]

end BemOutline.Bem

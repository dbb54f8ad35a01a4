import BemOutline.Conversion.Basic
import BemOutline.Proofs.Bem.CleanedAgain
import BemOutline.Proofs.Bem.CleanedDocument
import BemOutline.Proofs.Bem.Translated
import BemOutline.Proofs.Outline.Limit

/-! The nodes that outlines are converted to. All stages on the way have the same limit, and the
cleaning of the raw value is the one that meets it first. -/

namespace BemOutline

open Bem Expansion Outline

/-- Lines whose modifiers are in order, and none of them called like bookkeeping. -/
structure Line.Regular (l : Line) : Prop where
  ascending : l.modifiers.Pairwise (· < ·)
  named : ∀ m ∈ l.modifiers, isInternal m = false

theorem Line.regular_single_iff (l : Line) : l.single.Regular ↔ l.Regular :=
  ⟨fun h => ⟨h.ascending, h.named⟩, fun h => ⟨h.ascending, h.named⟩⟩

theorem regular_of_accepted {defaultTag text : String} {l : Line}
    (hl : l ∈ acceptedLines defaultTag text) : l.Regular := by
  obtain ⟨i, hi⟩ := List.mem_iff_getElem?.1 hl
  obtain ⟨number, line, hline⟩ := exists_parseChars_of_accepted hi
  exact ⟨Line.pairwise_modifiers hline, fun m hm => isInternal_modifier hl hm⟩

namespace Conversion

variable {s : Settings} {text : String} {limit : Nat} {a : Arena} {t u : Tree} {n : Node}

theorem result_nodeOfOutline (s : Settings) (text : String) :
    (nodeOfOutline s text).result =
      match build s.defaultTag s.maxDepth text with
      | .error e => .error (.outline e)
      | .ok a => nodeOfArena s (expand s.expander a).1 := by
  rw [nodeOfOutline, parseTree]
  cases build s.defaultTag s.maxDepth text <;> rfl

theorem pairwise_modifiers_map_moved (h : ∀ l ∈ u.preorder, l.Regular) :
    ∀ l ∈ (u.map Line.moved).preorder, l.modifiers.Pairwise (· < ·) := by
  intro l hl
  obtain ⟨m, hm, rfl⟩ := Tree.mem_preorder_map_iff.1 hl
  exact Line.pairwise_modifiers_moved (h m hm).ascending

theorem nodeOfRaw_raw (s : Settings) (h : ∀ l ∈ u.preorder, l.Regular) :
    nodeOfRaw s u.raw =
      if nesting u.raw ≤ s.maxDepth then .ok (u.map Line.moved).toBem
      else .error (.outline (.nestingTooDeep s.maxDepth)) := by
  have hdecode := Tree.ofJson_withoutBookkeeping (pairwise_modifiers_map_moved h)
  rw [nodeOfRaw, clean_raw fun l hl => (h l hl).named]
  split_ifs
  · simp only [hdecode]
    rfl
  · rfl

theorem nodeOfArena_eq (s : Settings) (ha : a.Ascending) (hu : a.document = some u)
    (h : ∀ l ∈ u.preorder, l.Regular) :
    nodeOfArena s a =
      if nesting u.raw ≤ s.maxDepth then .ok (u.map Line.moved).toBem
      else .error (.outline (.nestingTooDeep s.maxDepth)) := by
  have hheight := u.height_le_nesting_raw
  rw [nodeOfArena, ha.toRaw_eq s.maxDepth hu]
  by_cases hraw : u.height ≤ s.maxDepth + 1
  · rw [if_pos hraw]
    exact nodeOfRaw_raw s h
  · rw [if_neg hraw, if_neg (by omega)]

theorem exists_document_expand (h : build s.defaultTag limit text = .ok a)
    (ht : a.document = some t) (e : Expander) :
    ∃ u, (expand e a).1.document = some u ∧ u.full = t.full ∧ (expand e a).1.Ascending ∧
      (∀ l ∈ u.preorder, l.Regular) ∧ (∀ n l, u.At n l → (l.name.isBlock ↔ n = 0)) ∧
      nesting u.raw = nesting t.raw := by
  have hs := sound_of_build h
  obtain ⟨u, hu, hfull⟩ := hs.document_expandAll ht [e]
  have hregular : ∀ l ∈ u.preorder, l.Regular :=
    (forall_mem_expandAll_iff h hu Line.regular_single_iff).2 fun _ hl => regular_of_accepted hl
  have hblock := (hs.forall_at_expandAll_iff (P := fun n l => l.name.isBlock ↔ n = 0) ht hu
    fun _ _ => .rfl).2 (isBlock_of_build h ht)
  refine ⟨u, hu, hfull, (hs.expandAll [e]).ascending, hregular, hblock,
    eq_of_forall_ge_iff fun k => ?_⟩
  rw [Tree.nesting_raw_le_iff, Tree.nesting_raw_le_iff]
  exact hs.forall_at_expandAll_iff ht hu fun _ _ => .rfl

/-- Where building already fails, cleaning would have failed as well. -/
theorem result_nodeOfOutline_eq (h : build s.defaultTag limit text = .ok a)
    (ht : a.document = some t) :
    ∃ u, (expand s.expander a).1.document = some u ∧ u.full = t.full ∧
      (nodeOfOutline s text).result =
        if nesting t.raw ≤ s.maxDepth then .ok (u.map Line.moved).toBem
        else .error (.outline (.nestingTooDeep s.maxDepth)) := by
  obtain ⟨u, hu, hfull, hb, hregular, -, hnesting⟩ := exists_document_expand h ht s.expander
  refine ⟨u, hu, hfull, ?_⟩
  rw [result_nodeOfOutline]
  obtain hbuild | ⟨hbuild, hdeep⟩ := build_of_build h ht s.maxDepth
  · rw [hbuild, ← hnesting]
    exact nodeOfArena_eq s hb hu hregular
  · have hheight := t.height_le_nesting_raw
    rw [hbuild, if_neg (by omega)]

/-- An outline becomes a node or has too many levels for the limit, where modifiers are a level of
their own. How its counts are expanded makes no difference to that. -/
theorem result_nodeOfOutline_of_build (h : build s.defaultTag limit text = .ok a) :
    ∃ t, a.document = some t ∧
      ((∃ e, (nodeOfOutline s text).result = .error e) ↔
        s.maxDepth < a.height ∨ ∃ n l, t.At n l ∧ l.modifiers ≠ [] ∧ s.maxDepth ≤ n + 1) ∧
      ∀ e, (nodeOfOutline s text).result = .error e →
        e = .outline (.nestingTooDeep s.maxDepth) := by
  have hs := sound_of_build h
  obtain ⟨t, ht⟩ := hs.exists_document
  obtain ⟨u, -, -, hn⟩ := result_nodeOfOutline_eq h ht
  refine ⟨t, ht, ?_⟩
  rw [hs.ascending.height_eq ht, ← Tree.lt_nesting_raw_iff, hn]
  by_cases hle : nesting t.raw ≤ s.maxDepth
  · rw [if_pos hle]
    refine ⟨iff_of_false ?_ (Nat.not_lt.2 hle), fun e he => ?_⟩
    · rintro ⟨e, he⟩
      cases he
    · cases he
  · rw [if_neg hle]
    exact ⟨iff_of_true ⟨_, rfl⟩ (Nat.lt_of_not_le hle), fun e he => (Except.error.inj he).symm⟩

/-- An outline with modifiers below the root needs one level more than it has. -/
theorem result_nodeOfOutline_of_build_modifier :
    ∃ a, build "div" 256 "ul\n  li--x*2" = .ok a ∧ a.height = 2 ∧
      (nodeOfOutline { maxDepth := 2 } "ul\n  li--x*2").result =
        .error (.outline (.nestingTooDeep 2)) := by
  let a : Arena :=
    ⟨#[⟨⟨"ul", 0, "div", .block "ul", [], 1, none⟩, none, [1]⟩,
      ⟨⟨"  li--x*2", 2, "div", .elem "li", ["x"], 2, none⟩, some 0, []⟩], some 0⟩
  have hbuild : build "div" 256 "ul\n  li--x*2" = .ok a := rfl
  obtain ⟨t, ht, hfails, herror⟩ := result_nodeOfOutline_of_build (s := { maxDepth := 2 }) hbuild
  cases ht
  obtain ⟨e, he⟩ := hfails.2 (.inr ⟨1, _, .child List.mem_cons_self .top, by decide, le_rfl⟩)
  refine ⟨a, hbuild, rfl, ?_⟩
  rw [he, herror e he]

theorem exists_document_of_nodeOfOutline (h : (nodeOfOutline s text).result = .ok n) :
    ∃ a u, build s.defaultTag s.maxDepth text = .ok a ∧
      (expand s.expander a).1.document = some u ∧ n = (u.map Line.moved).toBem ∧
      (∀ l ∈ u.preorder, l.Regular) ∧ (∀ level l, u.At level l → (l.name.isBlock ↔ level = 0)) ∧
      nesting u.raw ≤ s.maxDepth := by
  rw [result_nodeOfOutline] at h
  cases hbuild : build s.defaultTag s.maxDepth text with
  | error e =>
    rw [hbuild] at h
    cases h
  | ok a =>
    obtain ⟨t, ht⟩ := (sound_of_build hbuild).exists_document
    obtain ⟨u, hu, -, hb, hregular, hblock, -⟩ := exists_document_expand hbuild ht s.expander
    rw [hbuild] at h
    simp only [nodeOfArena_eq s hb hu hregular] at h
    split at h
    · next hle =>
      cases h
      exact ⟨a, u, rfl, hu, rfl, hregular, hblock, hle⟩
    · cases h

/-- The node of an outline is its expanded document line by line, with the modifiers that cleaning
leaves: a block at the root, and elements below it. -/
theorem eq_toBem_of_nodeOfOutline (h : (nodeOfOutline s text).result = .ok n) :
    ∃ a u, build s.defaultTag s.maxDepth text = .ok a ∧
      (expand s.expander a).1.document = some u ∧ n = (u.map Line.moved).toBem ∧
      ∀ level l, u.At level l → (l.name.isBlock ↔ level = 0) := by
  obtain ⟨a, u, hbuild, hu, hn, -, hblock, -⟩ := exists_document_of_nodeOfOutline h
  exact ⟨a, u, hbuild, hu, hn, hblock⟩

/-- A block with a modifier, and two elements with a tag and a text. -/
theorem eq_toBem_of_nodeOfOutline_list :
    ∃ n a u, (nodeOfOutline {} "ul--big\n  a.li*2 Home").result = .ok n ∧
      build "div" 256 "ul--big\n  a.li*2 Home" = .ok a ∧
      (expand {} a).1.document = some u ∧ n = (u.map Line.moved).toBem ∧
      ∀ level l, u.At level l → (l.name.isBlock ↔ level = 0) := by
  have hok : (nodeOfOutline {} "ul--big\n  a.li*2 Home").result.isOk := by decide +kernel
  cases hresult : (nodeOfOutline {} "ul--big\n  a.li*2 Home").result with
  | error e =>
    rw [hresult] at hok
    cases hok
  | ok n =>
    obtain ⟨a, u, hbuild, hu, hn, hblock⟩ := eq_toBem_of_nodeOfOutline hresult
    exact ⟨n, a, u, rfl, hbuild, hu, hn, hblock⟩

end Conversion

end BemOutline

import BemOutline.Proofs.Bem.CleanedRaw
import BemOutline.Proofs.Tree.Levels

/-! What cleaning leaves behind stays as it is when it is cleaned once more, and needs no more
levels than before. A map of modifiers is a level of its own. -/

namespace BemOutline

namespace Bem

theorem isInternal_of_isBookkeeping {key : String} (h : isBookkeeping key) : isInternal key := by
  rw [isBookkeeping, decide_eq_true_eq] at h
  rcases h with rfl | rfl | rfl <;> rfl

mutual

theorem cleaned_withoutBookkeeping : ∀ v, cleaned (withoutBookkeeping v) = cleaned v
  | .arr items => by
    rw [withoutBookkeeping, cleaned, cleanedItems_itemsWithout items, cleaned]
  | .obj fields => by
    rw [withoutBookkeeping, cleaned, cleanedFields_fieldsWithout fields, cleaned]
  | .null => rfl
  | .bool _ => rfl
  | .int _ => rfl
  | .float _ => rfl
  | .str _ => rfl

theorem cleanedItems_itemsWithout : ∀ vs, cleanedItems (itemsWithout vs) = cleanedItems vs
  | [] => rfl
  | v :: vs => by
    rw [itemsWithout, cleanedItems, cleaned_withoutBookkeeping v, cleanedItems_itemsWithout vs,
      cleanedItems]

theorem cleanedFields_fieldsWithout : ∀ fs, cleanedFields (fieldsWithout fs) = cleanedFields fs
  | [] => rfl
  | (k, v) :: fs => by
    have hrest := cleanedFields_fieldsWithout fs
    have hv := cleaned_withoutBookkeeping v
    rw [fieldsWithout]
    split
    · next hk => rw [hrest, cleanedFields, if_pos (isInternal_of_isBookkeeping hk)]
    · split
      · rw [cleanedFields, cleanedFields, hv, hrest]
      · rw [cleanedFields, cleanedFields, hrest]

end

mutual

theorem nesting_withoutBookkeeping : ∀ v, nesting (withoutBookkeeping v) = nesting v
  | .arr items => by
    rw [withoutBookkeeping, nesting, nestings_itemsWithout items, nesting]
  | .obj fields => by
    rw [withoutBookkeeping, nesting, fieldNesting_fieldsWithout fields, nesting]
  | .null => rfl
  | .bool _ => rfl
  | .int _ => rfl
  | .float _ => rfl
  | .str _ => rfl

theorem nestings_itemsWithout : ∀ vs, nestings (itemsWithout vs) = nestings vs
  | [] => rfl
  | v :: vs => by
    rw [itemsWithout, nestings, nesting_withoutBookkeeping v, nestings_itemsWithout vs, nestings]

theorem fieldNesting_fieldsWithout : ∀ fs, fieldNesting (fieldsWithout fs) = fieldNesting fs
  | [] => rfl
  | (k, v) :: fs => by
    have hrest := fieldNesting_fieldsWithout fs
    have hv := nesting_withoutBookkeeping v
    rw [fieldsWithout]
    split
    · next hk => rw [hrest, fieldNesting, if_pos (isInternal_of_isBookkeeping hk)]
    · split
      · rw [fieldNesting, fieldNesting, hv, hrest]
      · rw [fieldNesting, fieldNesting, hrest]

end

theorem nestings_le_iff {vs : List Json} {k : Nat} :
    nestings vs ≤ k ↔ ∀ v ∈ vs, nesting v ≤ k := by
  induction vs with
  | nil => exact iff_of_true (Nat.zero_le k) fun v hv => absurd hv List.not_mem_nil
  | cons v vs ih => rw [nestings, Nat.max_le, ih, List.forall_mem_cons]

end Bem

namespace Line

open Bem

variable {l : Line}

/-- How many objects the fields of a line open inside of each other. -/
def ownNesting (l : Line) : Nat := if l.modifiers = [] then 1 else 2

theorem ownNesting_pos (l : Line) : 0 < l.ownNesting := by
  rw [ownNesting]
  split <;> decide

theorem ownNesting_moved (l : Line) : l.moved.ownNesting = l.ownNesting := by
  obtain ⟨ms, hmoved, hnil⟩ := l.exists_moved
  rw [hmoved, ownNesting, ownNesting]
  exact if_congr hnil rfl rfl

theorem moved_moved (l : Line) : l.moved.moved = l.moved := by
  rw [moved_eq_self_iff]
  intro h
  rw [moved] at h
  split at h
  · exact h.2.2 (mem_insertModifier.2 (.inl rfl))
  · next hm => exact hm h

theorem isInternal_of_mem_moved (h : ∀ m ∈ l.modifiers, isInternal m = false) {m : String}
    (hm : m ∈ l.moved.modifiers) : isInternal m = false := by
  rw [moved] at hm
  split at hm
  · rcases mem_insertModifier.1 hm with rfl | hm
    · rfl
    · exact h m (List.mem_of_mem_filter hm)
  · exact h m hm

theorem fieldNesting_modifierMap (l : Line) : fieldNesting l.modifierMap = 0 := by
  rw [modifierMap]
  induction l.modifiers with
  | nil => rfl
  | cons m ms ih =>
    rw [List.map_cons, fieldNesting, nesting, ih, Nat.max_zero]
    exact ite_self 0

theorem nesting_rawFields (l : Line) (content : Json) :
    nesting (.obj (l.rawFields content)) = max l.ownNesting (nesting content + 1) := by
  have hmap := l.fieldNesting_modifierMap
  simp only [rawFields_eq, plainFields, namedFields, modifierField, ownNesting]
  cases l.name <;> by_cases hm : l.modifiers = [] <;>
    simp [hm, nesting, fieldNesting, isInternal, hmap] <;> omega

theorem nesting_contentOf (l : Line) (vs : List Json) :
    nesting (l.contentOf vs) = nestings vs := by
  cases vs with
  | nil =>
    rw [contentOf, leafContent]
    cases l.text <;> rfl
  | cons v vs => rw [contentOf, nesting]

end Line

namespace Tree

open Bem

variable {t : Tree} {l : Line} {n k : Nat}

theorem at_map_iff {f : Line → Line} : (t.map f).At n l ↔ ∃ m, t.At n m ∧ f m = l := by
  induction t using Tree.induction generalizing n with
  | step data children ih =>
    rw [map_mk]
    cases n with
    | zero => simp only [at_zero_iff, exists_eq_left, eq_comm (a := l)]
    | succ n =>
      simp only [at_succ_iff, List.mem_map]
      constructor
      · rintro ⟨u, ⟨t, ht, rfl⟩, hl⟩
        obtain ⟨m, hm, rfl⟩ := (ih t ht).1 hl
        exact ⟨m, ⟨t, ht, hm⟩, rfl⟩
      · rintro ⟨m, ⟨t, ht, hm⟩, rfl⟩
        exact ⟨t.map f, ⟨t, ht, rfl⟩, (ih t ht).2 ⟨m, hm, rfl⟩⟩

theorem mem_preorder_map_iff {f : Line → Line} :
    l ∈ (t.map f).preorder ↔ ∃ m ∈ t.preorder, f m = l := by
  simp only [mem_preorder_iff_at, at_map_iff]
  constructor
  · rintro ⟨n, m, hm, heq⟩
    exact ⟨m, ⟨n, hm⟩, heq⟩
  · rintro ⟨m, ⟨n, hm⟩, heq⟩
    exact ⟨n, m, hm, heq⟩

theorem map_moved_moved (t : Tree) : (t.map Line.moved).map Line.moved = t.map Line.moved := by
  rw [map_map]
  exact congrArg (fun f => t.map f) (funext Line.moved_moved)

theorem nesting_raw_le_iff :
    nesting t.raw ≤ k ↔ ∀ n l, t.At n l → n + l.ownNesting ≤ k := by
  induction t using Tree.induction generalizing k with
  | step data children ih =>
    rw [raw, Line.nesting_rawFields, Line.nesting_contentOf, Nat.max_le]
    constructor
    · rintro ⟨hdata, hk⟩ n l hl
      cases n with
      | zero =>
        rw [at_zero_iff.1 hl]
        omega
      | succ n =>
        obtain ⟨t, ht, hl⟩ := at_succ_iff.1 hl
        have hraw : t.raw ∈ raws children := by
          rw [raws_eq]
          exact List.mem_map_of_mem ht
        have hnesting := nestings_le_iff.1 (Nat.le_sub_one_of_lt hk) _ hraw
        have := (ih t ht).1 hnesting n l hl
        omega
    · intro h
      have hdata := h 0 data .top
      have hown := data.ownNesting_pos
      have hchildren : nestings (raws children) ≤ k - 1 := by
        rw [nestings_le_iff, raws_eq, List.forall_mem_map]
        intro t ht
        refine (ih t ht).2 fun n l hl => ?_
        have := h (n + 1) l (.child ht hl)
        omega
      omega

theorem height_le_nesting_raw (t : Tree) : t.height ≤ nesting t.raw := by
  refine height_le_iff.2 fun n l hl => ?_
  have hnesting := nesting_raw_le_iff.1 le_rfl n l hl
  have hown := l.ownNesting_pos
  omega

theorem lt_nesting_raw_iff :
    k < nesting t.raw ↔ k < t.height ∨ ∃ n l, t.At n l ∧ l.modifiers ≠ [] ∧ k ≤ n + 1 := by
  constructor
  · intro h
    by_contra hnot
    rw [not_or, not_lt] at hnot
    obtain ⟨hheight, hnone⟩ := hnot
    refine absurd (nesting_raw_le_iff.2 fun n l hl => ?_) (Nat.not_le.2 h)
    have hn := height_le_iff.1 hheight n l hl
    rw [Line.ownNesting]
    split
    · exact hn
    · next hne =>
      have : ¬ k ≤ n + 1 := fun hk => hnone ⟨n, l, hl, hne, hk⟩
      omega
  · rintro (hk | ⟨n, l, hl, hne, hk⟩)
    · exact hk.trans_le t.height_le_nesting_raw
    · have hnesting := nesting_raw_le_iff.1 le_rfl n l hl
      rw [Line.ownNesting, if_neg hne] at hnesting
      omega

theorem nesting_raw_map {f : Line → Line} (hf : ∀ l, (f l).ownNesting = l.ownNesting) (t : Tree) :
    nesting (t.map f).raw = nesting t.raw := by
  refine eq_of_forall_ge_iff fun k => ?_
  simp only [nesting_raw_le_iff, at_map_iff]
  constructor
  · intro h n l hl
    have := h n (f l) ⟨l, hl, rfl⟩
    rwa [hf] at this
  · rintro h n _ ⟨l, hl, rfl⟩
    rw [hf]
    exact h n l hl

end Tree

namespace Bem

variable {t : Tree} {limit : Nat}

theorem clean_raw (h : ∀ l ∈ t.preorder, ∀ m ∈ l.modifiers, isInternal m = false) :
    clean limit t.raw =
      if nesting t.raw ≤ limit then .ok (withoutBookkeeping (t.map Line.moved).raw)
      else .error (.nestingTooDeep limit) := by
  rw [clean_eq, cleaned_raw h]

/-- Cleaning again gives back what cleaning gave, within the same limit. -/
theorem clean_withoutBookkeeping_moved
    (h : ∀ l ∈ t.preorder, ∀ m ∈ l.modifiers, isInternal m = false)
    (hlimit : nesting t.raw ≤ limit) :
    clean limit (withoutBookkeeping (t.map Line.moved).raw) =
      .ok (withoutBookkeeping (t.map Line.moved).raw) := by
  have hmoved : ∀ l ∈ (t.map Line.moved).preorder, ∀ m ∈ l.modifiers, isInternal m = false := by
    intro l hl m hm
    obtain ⟨l', hl', rfl⟩ := Tree.mem_preorder_map_iff.1 hl
    exact Line.isInternal_of_mem_moved (h l' hl') hm
  rw [clean_eq, nesting_withoutBookkeeping, cleaned_withoutBookkeeping,
    Tree.nesting_raw_map Line.ownNesting_moved, if_pos hlimit, cleaned_raw hmoved, Tree.map_moved_moved]

end Bem

end BemOutline

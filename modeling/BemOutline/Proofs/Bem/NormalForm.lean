import BemOutline.Proofs.Bem.Cleaning
import BemOutline.Proofs.Json.Fields

/-! The values that cleaning leaves as they are. Whatever is cleaned becomes one of them, so that
cleaning once is enough. -/

namespace BemOutline

inductive Json.Part : Json → Json → Prop where
  | self {v : Json} : Part v v
  | item {u v : Json} {items : List Json} : v ∈ items → Part u v → Part u (.arr items)
  | field {u v : Json} {k : String} {fields : List (String × Json)} :
    (k, v) ∈ fields → Part u v → Part u (.obj fields)

namespace Bem

open Json

variable {fs : List (String × Json)} {v w : Json} {vs : List Json} {k : Nat}

/-- Fields without bookkeeping that keep the modifiers of an element where they belong. -/
structure Tidy (fields : List (String × Json)) : Prop where
  isInternal : ∀ f ∈ fields, isInternal f.1 = false
  elemMods : ∀ e m, field? "elem" fields = some e → e ≠ .null → e ≠ .bool false → e ≠ .str "" →
    field? "mods" fields = some m → ∃ m', field? "elemMods" fields = some m'

def IsNormal (v : Json) : Prop := ∀ fields, Part (.obj fields) v → Tidy fields

theorem namesElement_iff : namesElement v ↔ v ≠ .null ∧ v ≠ .bool false ∧ v ≠ .str "" := by
  cases v <;> simp [namesElement]

def Misplaced (fs : List (String × Json)) (m : Json) : Prop :=
  (∃ e, field? "elem" fs = some e ∧ namesElement e) ∧ field? "elemMods" fs = none ∧
    field? "mods" fs = some m

theorem moveModifiers_of_misplaced {m : Json} (h : Misplaced fs m) :
    moveModifiers fs = insertField "elemMods" m (eraseField "mods" fs) := by
  obtain ⟨⟨e, he, hnames⟩, hnone, hm⟩ := h
  rw [moveModifiers, he, hnone, hm]
  exact if_pos hnames

theorem moveModifiers_of_not_misplaced (h : ∀ m, ¬ Misplaced fs m) : moveModifiers fs = fs := by
  unfold moveModifiers
  split
  · next e m he hnone hm => exact if_neg fun hnames => h m ⟨⟨e, he, hnames⟩, hnone, hm⟩
  · rfl

theorem mem_of_mem_moveModifiers {f : String × Json} (hf : f ∈ moveModifiers fs) :
    f ∈ fs ∨ f.1 = "elemMods" ∧ ("mods", f.2) ∈ fs := by
  by_cases h : ∃ m, Misplaced fs m
  · obtain ⟨m, h⟩ := h
    rw [moveModifiers_of_misplaced h] at hf
    rcases mem_of_mem_insertField hf with rfl | hf
    · exact .inr ⟨rfl, mem_of_field? h.2.2⟩
    · exact .inl (List.mem_of_mem_filter hf)
  · rw [moveModifiers_of_not_misplaced (not_exists.1 h)] at hf
    exact .inl hf

theorem Tidy.moveModifiers_eq (h : Tidy fs) : moveModifiers fs = fs := by
  apply moveModifiers_of_not_misplaced
  rintro m ⟨⟨e, he, hnames⟩, hnone, hm⟩
  obtain ⟨hnull, hfalse, hempty⟩ := namesElement_iff.1 hnames
  obtain ⟨m', hm'⟩ := h.elemMods e m he hnull hfalse hempty hm
  rw [hnone] at hm'
  cases hm'

theorem tidy_moveModifiers (h : ∀ f ∈ fs, isInternal f.1 = false) : Tidy (moveModifiers fs) where
  isInternal f hf := by
    rcases mem_of_mem_moveModifiers hf with hf | ⟨hkey, -⟩
    · exact h f hf
    · rw [hkey]
      rfl
  elemMods e m he hnull hfalse hempty hm := by
    by_cases hmoved : ∃ m, Misplaced fs m
    · obtain ⟨m', hmoved⟩ := hmoved
      rw [moveModifiers_of_misplaced hmoved]
      exact ⟨m', by rw [field?_insertField, if_pos rfl]⟩
    · rw [moveModifiers_of_not_misplaced (not_exists.1 hmoved)] at he hm ⊢
      rw [← Option.ne_none_iff_exists']
      intro hnone
      exact hmoved ⟨m, ⟨e, he, namesElement_iff.2 ⟨hnull, hfalse, hempty⟩⟩, hnone, hm⟩

theorem isNormal_arr : IsNormal (.arr vs) ↔ ∀ v ∈ vs, IsNormal v := by
  constructor
  · exact fun h v hv fields hpart => h fields (.item hv hpart)
  · rintro h fields (_ | ⟨hv, hpart⟩)
    exact h _ hv fields hpart

theorem isNormal_obj : IsNormal (.obj fs) ↔ Tidy fs ∧ ∀ f ∈ fs, IsNormal f.2 := by
  constructor
  · exact fun h => ⟨h fs .self, fun f hf fields hpart => h fields (.field hf hpart)⟩
  · rintro ⟨htidy, h⟩ fields (_ | _ | ⟨hf, hpart⟩)
    · exact htidy
    · exact h _ hf fields hpart

mutual

theorem isNormal_cleaned : ∀ v, IsNormal (cleaned v)
  | .arr items => by
    rw [cleaned, isNormal_arr]
    exact isNormal_of_mem_cleanedItems items
  | .obj fields => by
    have h := isNormal_of_mem_cleanedFields fields
    rw [cleaned, isNormal_obj]
    refine ⟨tidy_moveModifiers fun f hf => (h f hf).1, fun f hf => ?_⟩
    rcases mem_of_mem_moveModifiers hf with hf | ⟨-, hf⟩
    · exact (h f hf).2
    · exact (h _ hf).2
  | .null => by rintro _ ⟨⟩
  | .bool _ => by rintro _ ⟨⟩
  | .int _ => by rintro _ ⟨⟩
  | .float _ => by rintro _ ⟨⟩
  | .str _ => by rintro _ ⟨⟩

theorem isNormal_of_mem_cleanedItems : ∀ vs, ∀ w ∈ cleanedItems vs, IsNormal w
  | [], _, hw => nomatch hw
  | v :: vs, w, hw => by
    rw [cleanedItems] at hw
    rcases List.mem_cons.1 hw with rfl | hw
    · exact isNormal_cleaned v
    · exact isNormal_of_mem_cleanedItems vs w hw

theorem isNormal_of_mem_cleanedFields :
    ∀ fs, ∀ f ∈ cleanedFields fs, isInternal f.1 = false ∧ IsNormal f.2
  | [], _, hf => nomatch hf
  | (k, v) :: fs, f, hf => by
    rw [cleanedFields] at hf
    split at hf
    · exact isNormal_of_mem_cleanedFields fs f hf
    · next hk =>
      rcases List.mem_cons.1 hf with rfl | hf
      · exact ⟨Bool.eq_false_iff.2 hk, isNormal_cleaned v⟩
      · exact isNormal_of_mem_cleanedFields fs f hf

end

mutual

theorem cleaned_of_isNormal : ∀ v, IsNormal v → cleaned v = v
  | .arr items, h => by rw [cleaned, cleanedItems_of_isNormal items (isNormal_arr.1 h)]
  | .obj fields, h => by
    obtain ⟨htidy, hfields⟩ := isNormal_obj.1 h
    rw [cleaned, cleanedFields_of_isNormal fields htidy.isInternal hfields, htidy.moveModifiers_eq]
  | .null, _ => rfl
  | .bool _, _ => rfl
  | .int _, _ => rfl
  | .float _, _ => rfl
  | .str _, _ => rfl

theorem cleanedItems_of_isNormal : ∀ vs, (∀ v ∈ vs, IsNormal v) → cleanedItems vs = vs
  | [], _ => rfl
  | v :: vs, h => by
    rw [List.forall_mem_cons] at h
    rw [cleanedItems, cleaned_of_isNormal v h.1, cleanedItems_of_isNormal vs h.2]

theorem cleanedFields_of_isNormal : ∀ fs : List (String × Json),
    (∀ f ∈ fs, isInternal f.1 = false) → (∀ f ∈ fs, IsNormal f.2) → cleanedFields fs = fs
  | [], _, _ => rfl
  | (k, v) :: fs, hk, h => by
    rw [List.forall_mem_cons] at hk h
    rw [cleanedFields, if_neg (Bool.eq_false_iff.1 hk.1), cleaned_of_isNormal v h.1,
      cleanedFields_of_isNormal fs hk.2 h.2]

end

theorem cleaned_eq_self_iff : cleaned v = v ↔ IsNormal v :=
  ⟨fun h => h ▸ isNormal_cleaned v, cleaned_of_isNormal v⟩

theorem fieldNesting_le_iff :
    fieldNesting fs ≤ k ↔ ∀ f ∈ fs, isInternal f.1 = false → nesting f.2 ≤ k := by
  induction fs with
  | nil => exact iff_of_true (Nat.zero_le k) fun f hf => absurd hf List.not_mem_nil
  | cons f fs ih =>
    obtain ⟨key, v⟩ := f
    rw [fieldNesting, List.forall_mem_cons, ← ih]
    cases isInternal key <;> simp

theorem fieldNesting_moveModifiers_le (fs : List (String × Json)) :
    fieldNesting (moveModifiers fs) ≤ fieldNesting fs := by
  have hle := fieldNesting_le_iff.1 (le_refl (fieldNesting fs))
  have hmods : isInternal "mods" = false := rfl
  rw [fieldNesting_le_iff]
  intro f hf hkey
  rcases mem_of_mem_moveModifiers hf with hf | ⟨-, hf⟩
  · exact hle f hf hkey
  · exact hle ("mods", f.2) hf hmods

mutual

theorem nesting_cleaned_le : ∀ v, nesting (cleaned v) ≤ nesting v
  | .arr items => by
    rw [cleaned, nesting, nesting]
    exact nestings_cleanedItems_le items
  | .obj fields => by
    rw [cleaned, nesting, nesting]
    exact Nat.succ_le_succ
      ((fieldNesting_moveModifiers_le _).trans (fieldNesting_cleanedFields_le fields))
  | .null => le_rfl
  | .bool _ => le_rfl
  | .int _ => le_rfl
  | .float _ => le_rfl
  | .str _ => le_rfl

theorem nestings_cleanedItems_le : ∀ vs, nestings (cleanedItems vs) ≤ nestings vs
  | [] => le_rfl
  | v :: vs => by
    rw [cleanedItems, nestings, nestings]
    exact max_le_max (nesting_cleaned_le v) (nestings_cleanedItems_le vs)

theorem fieldNesting_cleanedFields_le : ∀ fs, fieldNesting (cleanedFields fs) ≤ fieldNesting fs
  | [] => le_rfl
  | (k, v) :: fs => by
    rw [cleanedFields, fieldNesting]
    split
    · exact fieldNesting_cleanedFields_le fs
    · next hk =>
      rw [fieldNesting, if_neg hk]
      exact max_le_max (nesting_cleaned_le v) (fieldNesting_cleanedFields_le fs)

end

variable {limit : Nat}

/-- What comes out of cleaning is in normal form, is what went in just where that was in normal
form, and comes out again when it is cleaned within the same limit or a higher one. -/
theorem isNormal_of_clean (h : clean limit v = .ok w) :
    IsNormal w ∧ (w = v ↔ IsNormal v) ∧ ∀ limit', limit ≤ limit' → clean limit' w = .ok w := by
  rw [clean_eq] at h
  split at h
  · next hv =>
    cases h
    refine ⟨isNormal_cleaned v, cleaned_eq_self_iff, fun limit' hlimit => ?_⟩
    have hw : nesting (cleaned v) ≤ limit' := (nesting_cleaned_le v).trans (hv.trans hlimit)
    rw [clean_eq, if_pos hw, cleaned_of_isNormal _ (isNormal_cleaned v)]
  · cases h

/-- A map of modifiers is an object as the others are, and what is dropped needs no levels. -/
theorem isNormal_of_clean_item :
    ∃ v w, v = .obj [("_line", .obj [("a", .obj [("b", .obj [])])]),
        ("content", .arr [.str "Home", .obj [("elem", .str "link"),
          ("mods", .obj [("elem", .bool true), ("mods", .bool true)])]]),
        ("elem", .str "item"), ("mods", .obj [("_seen", .null), ("active", .bool true)])] ∧
      w = .obj [("content", .arr [.str "Home", .obj [("elem", .str "link"),
          ("elemMods", .obj [("elem", .bool true), ("elemMods", .bool true)])]]),
        ("elem", .str "item"), ("elemMods", .obj [("active", .bool true)])] ∧
      clean 3 v = .ok w ∧ IsNormal w ∧ clean 5 w = .ok w := by
  refine ⟨_, _, rfl, rfl, (and_iff_left_of_imp fun h => ?_).2 rfl⟩
  obtain ⟨hnormal, -, hagain⟩ := isNormal_of_clean h
  exact ⟨hnormal, hagain 5 (by decide)⟩

end Bem

end BemOutline

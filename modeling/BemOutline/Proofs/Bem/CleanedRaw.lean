import BemOutline.Proofs.Arena.RawValue
import BemOutline.Proofs.Bem.Cleaning
import BemOutline.Proofs.Line.Parsed
import BemOutline.Proofs.Tree.Reading

/-! Cleaning the raw values of documents. Besides the bookkeeping, cleaning also takes the map of
modifiers for a node when some of them are called as the fields of an element are. -/

namespace BemOutline

namespace Bem

def isBookkeeping (key : String) : Bool := key = "_depth" ∨ key = "_line" ∨ key = "_number"

mutual

/-- The value of a node without the bookkeeping in its own fields and in those of the nodes that it
holds. -/
def withoutBookkeeping : Json → Json
  | .arr items => .arr (itemsWithout items)
  | .obj fields => .obj (fieldsWithout fields)
  | v => v

def itemsWithout : List Json → List Json
  | [] => []
  | v :: vs => withoutBookkeeping v :: itemsWithout vs

def fieldsWithout : List (String × Json) → List (String × Json)
  | [] => []
  | (k, v) :: fs =>
    if isBookkeeping k then fieldsWithout fs
    else if k = "content" then (k, withoutBookkeeping v) :: fieldsWithout fs
    else (k, v) :: fieldsWithout fs

end

theorem itemsWithout_eq (vs : List Json) : itemsWithout vs = vs.map withoutBookkeeping := by
  induction vs with
  | nil => rfl
  | cons v vs ih => rw [itemsWithout, ih, List.map_cons]

end Bem

namespace Line

open Bem

variable {l : Line}

/-- Whether the modifiers are called like the name and the modifiers of an element that has them in
the wrong place. -/
def Misread (l : Line) : Prop :=
  "elem" ∈ l.modifiers ∧ "mods" ∈ l.modifiers ∧ "elemMods" ∉ l.modifiers

instance (l : Line) : Decidable l.Misread := inferInstanceAs (Decidable (_ ∧ _ ∧ _))

/-- The line that is left when its modifiers are taken for a node. -/
def moved (l : Line) : Line :=
  if l.Misread then
    { l with modifiers := insertModifier "elemMods" (l.modifiers.filter (· ≠ "mods")) }
  else l

theorem moved_eq_self_iff : l.moved = l ↔ ¬ l.Misread := by
  rw [moved]
  constructor
  · intro h hm
    rw [if_pos hm] at h
    have hmem : "elemMods" ∈ l.modifiers := by
      rw [← h]
      exact mem_insertModifier.2 (.inl rfl)
    exact hm.2.2 hmem
  · exact fun hm => if_neg hm

theorem exists_moved (l : Line) :
    ∃ ms, l.moved = { l with modifiers := ms } ∧ (ms = [] ↔ l.modifiers = []) := by
  by_cases hm : l.Misread
  · refine ⟨_, if_pos hm, iff_of_false ?_ ?_⟩
    · exact List.ne_nil_of_mem (mem_insertModifier.2 (.inl rfl))
    · exact List.ne_nil_of_mem hm.1
  · exact ⟨l.modifiers, if_neg hm, .rfl⟩

theorem field?_modifierMap (key : String) :
    Json.field? key l.modifierMap = if key ∈ l.modifiers then some (.bool true) else none := by
  rw [modifierMap]
  induction l.modifiers with
  | nil => rfl
  | cons m ms ih =>
    rw [List.map_cons, Json.field?, ih]
    by_cases h : m = key
    · simp [h]
    · simp [h, Ne.symm h]

theorem insertField_modifierMap (m : String) (ms : List String) :
    Json.insertField m (Json.bool true) (ms.map fun x => (x, .bool true)) =
      (insertModifier m ms).map fun x => (x, .bool true) := by
  induction ms with
  | nil => rfl
  | cons x ms ih =>
    rw [List.map_cons, Json.insertField, insertModifier, ih]
    split
    · rfl
    · split <;> rfl

theorem moveModifiers_modifierMap (l : Line) :
    moveModifiers l.modifierMap = l.moved.modifierMap := by
  rw [moveModifiers, field?_modifierMap, field?_modifierMap, field?_modifierMap, moved]
  by_cases he : "elem" ∈ l.modifiers
  · by_cases hk : "elemMods" ∈ l.modifiers
    · simp [Misread, he, hk]
    · by_cases hm : "mods" ∈ l.modifiers
      · have hmis : l.Misread := ⟨he, hm, hk⟩
        rw [if_pos he, if_neg hk, if_pos hm, if_pos hmis]
        change Json.insertField "elemMods" (.bool true) (Json.eraseField "mods" l.modifierMap) = _
        rw [Json.eraseField, modifierMap, List.filter_map, insertField_modifierMap]
        rfl
      · simp [Misread, he, hk, hm]
  · simp [Misread, he]

theorem cleanedFields_modifierMap (h : ∀ m ∈ l.modifiers, isInternal m = false) :
    cleanedFields l.modifierMap = l.modifierMap := by
  rw [modifierMap]
  generalize l.modifiers = ms at h
  induction ms with
  | nil => rfl
  | cons m ms ih =>
    have hm : ¬ isInternal m = true := by
      rw [h m List.mem_cons_self]
      exact Bool.false_ne_true
    rw [List.map_cons, cleanedFields, if_neg hm, cleaned,
      ih fun x hx => h x (List.mem_cons_of_mem _ hx)]

def plainFields (l : Line) (content : Json) : List (String × Json) :=
  l.namedFields content ++ [("tag", .str l.tag)]

theorem rawFields_eq (l : Line) (content : Json) :
    l.rawFields content =
      ("_depth", .int l.depth) :: ("_line", .str l.source) :: ("_number", .int l.count) ::
        l.plainFields content := rfl

theorem moveModifiers_plainFields (l : Line) (content : Json) :
    moveModifiers (l.plainFields content) = l.plainFields content := by
  simp only [moveModifiers, plainFields, namedFields, modifierField]
  cases l.name <;> by_cases hm : l.modifiers = [] <;> simp [hm, Json.field?]

theorem cleanedFields_plainFields (h : ∀ m ∈ l.modifiers, isInternal m = false)
    (content : Json) :
    cleanedFields (l.plainFields content) = l.moved.plainFields (cleaned content) := by
  obtain ⟨ms, hmoved, hnil⟩ := l.exists_moved
  have hmap : moveModifiers (cleanedFields l.modifierMap) = l.moved.modifierMap := by
    rw [cleanedFields_modifierMap h, moveModifiers_modifierMap]
  simp only [plainFields, namedFields, modifierField]
  rw [hmoved] at hmap ⊢
  rw [modifierMap, modifierMap] at hmap
  cases l.name <;> by_cases hm : l.modifiers = [] <;>
    simp [hm, hnil, cleanedFields, cleaned, isInternal, modifierMap, hmap]

theorem cleaned_rawFields (h : ∀ m ∈ l.modifiers, isInternal m = false) (content : Json) :
    cleaned (.obj (l.rawFields content)) = .obj (l.moved.plainFields (cleaned content)) := by
  have hfields : cleanedFields (l.rawFields content) = cleanedFields (l.plainFields content) := by
    rw [rawFields_eq]
    simp [cleanedFields, isInternal]
  rw [cleaned, hfields, cleanedFields_plainFields h, moveModifiers_plainFields]

theorem withoutBookkeeping_rawFields (l : Line) (content : Json) :
    withoutBookkeeping (.obj (l.rawFields content)) =
      .obj (l.plainFields (withoutBookkeeping content)) := by
  simp only [rawFields_eq, plainFields, namedFields, modifierField]
  cases l.name <;> by_cases hm : l.modifiers = [] <;>
    simp [hm, withoutBookkeeping, fieldsWithout, isBookkeeping]

theorem plainFields_moved_inj {content content' : Json} :
    l.moved.plainFields content = l.plainFields content' ↔
      l.moved = l ∧ content = content' := by
  obtain ⟨ms, hmoved, hnil⟩ := l.exists_moved
  simp only [hmoved, plainFields, namedFields, modifierField]
  have hself : { l with modifiers := ms } = l ↔ ms = l.modifiers := by
    cases l
    simp
  have hmap : ms.map (fun m => (m, Json.bool true)) = l.modifiers.map (fun m => (m, .bool true)) ↔
      ms = l.modifiers :=
    List.map_inj_right fun _ _ h => (Prod.mk.inj h).1
  rw [hself]
  cases l.name <;> by_cases hm : l.modifiers = [] <;>
    simp [hm, hnil, modifierMap, hmap, and_comm]

theorem contentOf_moved (l : Line) : l.moved.contentOf = l.contentOf := by
  obtain ⟨ms, hmoved, -⟩ := l.exists_moved
  rw [hmoved]
  rfl

theorem cleaned_contentOf (l : Line) (vs : List Json) :
    cleaned (l.contentOf vs) = l.contentOf (vs.map cleaned) := by
  cases vs with
  | nil =>
    rw [List.map_nil, contentOf, leafContent]
    cases l.text <;> rfl
  | cons v vs => rw [contentOf, cleaned, cleanedItems_eq, List.map_cons, contentOf]

theorem withoutBookkeeping_contentOf (l : Line) (vs : List Json) :
    withoutBookkeeping (l.contentOf vs) = l.contentOf (vs.map withoutBookkeeping) := by
  cases vs with
  | nil =>
    rw [List.map_nil, contentOf, leafContent]
    cases l.text <;> rfl
  | cons v vs => rw [contentOf, withoutBookkeeping, itemsWithout_eq, List.map_cons, contentOf]

theorem contentOf_inj {vs ws : List Json} (h : vs.length = ws.length) :
    l.contentOf vs = l.contentOf ws ↔ vs = ws := by
  cases vs with
  | nil => simp [List.length_eq_zero_iff.1 h.symm]
  | cons v vs =>
    cases ws with
    | nil => cases h
    | cons w ws => rw [contentOf, contentOf, Json.arr.injEq]

end Line

namespace Tree

mutual

def map (f : Line → Line) : Tree → Tree
  | ⟨data, children⟩ => ⟨f data, maps f children⟩

def maps (f : Line → Line) : List Tree → List Tree
  | [] => []
  | t :: ts => t.map f :: maps f ts

end

theorem maps_eq (f : Line → Line) (ts : List Tree) : maps f ts = ts.map (map f) := by
  induction ts with
  | nil => rfl
  | cons t ts ih => rw [maps, ih, List.map_cons]

theorem map_mk (f : Line → Line) (data : Line) (children : List Tree) :
    map f ⟨data, children⟩ = ⟨f data, children.map (map f)⟩ := by
  rw [map, maps_eq]

theorem map_map (f g : Line → Line) (t : Tree) : (t.map f).map g = t.map (g ∘ f) := by
  induction t using Tree.induction with
  | step data children ih =>
    rw [map_mk, map_mk, map_mk, List.map_map]
    exact congrArg (Tree.mk _) (List.map_congr_left ih)

end Tree

namespace Bem

theorem withoutBookkeeping_raw (data : Line) (children : List Tree) :
    withoutBookkeeping (Tree.raw ⟨data, children⟩) =
      .obj (data.plainFields
        (data.contentOf (children.map fun t => withoutBookkeeping t.raw))) := by
  rw [Tree.raw, Line.withoutBookkeeping_rawFields, Line.withoutBookkeeping_contentOf,
    Tree.raws_eq, List.map_map]
  rfl

theorem cleaned_raw {t : Tree}
    (h : ∀ l ∈ t.preorder, ∀ m ∈ l.modifiers, isInternal m = false) :
    cleaned t.raw = withoutBookkeeping (t.map Line.moved).raw := by
  induction t using Tree.induction with
  | step data children ih =>
    have hchildren : children.map (fun t => cleaned t.raw) =
        (children.map (Tree.map Line.moved)).map fun t => withoutBookkeeping t.raw := by
      rw [List.map_map]
      exact List.map_congr_left fun t ht =>
        ih t ht fun l hl => h l (Tree.mem_preorder_mk.2 (.inr ⟨t, ht, hl⟩))
    rw [Tree.map_mk, withoutBookkeeping_raw, Line.contentOf_moved, ← hchildren, Tree.raw,
      Line.cleaned_rawFields (h data (Tree.mem_preorder_mk.2 (.inl rfl))),
      Line.cleaned_contentOf, Tree.raws_eq, List.map_map]
    rfl

theorem withoutBookkeeping_moved_iff {t : Tree} :
    withoutBookkeeping (t.map Line.moved).raw = withoutBookkeeping t.raw ↔
      ∀ l ∈ t.preorder, ¬ l.Misread := by
  induction t using Tree.induction with
  | step data children ih =>
    -- the fields tell the modifiers of the top, the content tells the children
    rw [Tree.map_mk, withoutBookkeeping_raw, withoutBookkeeping_raw, Line.contentOf_moved,
      Json.obj.injEq, Line.plainFields_moved_inj, Line.moved_eq_self_iff,
      Line.contentOf_inj (by simp), List.map_map, List.map_inj_left]
    simp only [Tree.mem_preorder_mk, Function.comp_apply]
    constructor
    · rintro ⟨hdata, hchildren⟩ l (rfl | ⟨t, ht, hl⟩)
      · exact hdata
      · exact (ih t ht).1 (hchildren t ht) l hl
    · intro h
      refine ⟨h data (.inl rfl), fun t ht => (ih t ht).2 fun l hl => ?_⟩
      exact h l (.inr ⟨t, ht, hl⟩)

end Bem

end BemOutline

import BemOutline.Proofs.Bem.Cleaning

/-! Bookkeeping plays no part in cleaning: neither the cleaned value nor the levels that it takes
hang on the fields whose keys start with an underscore, or on anything inside of them. -/

namespace BemOutline

namespace Json

mutual

/-- The greatest number of objects on a way from a value down to a leaf. -/
def objectDepth : Json → Nat
  | .arr items => objectDepths items
  | .obj fields => fieldObjectDepth fields + 1
  | _ => 0

def objectDepths : List Json → Nat
  | [] => 0
  | v :: vs => max v.objectDepth (objectDepths vs)

def fieldObjectDepth : List (String × Json) → Nat
  | [] => 0
  | (_, v) :: fs => max v.objectDepth (fieldObjectDepth fs)

end

end Json

namespace Bem

mutual

/-- The value without the bookkeeping of its objects. -/
def stripped : Json → Json
  | .arr items => .arr (strippedItems items)
  | .obj fields => .obj (strippedFields fields)
  | v => v

def strippedItems : List Json → List Json
  | [] => []
  | v :: vs => stripped v :: strippedItems vs

def strippedFields : List (String × Json) → List (String × Json)
  | [] => []
  | (k, v) :: fs => if isInternal k then strippedFields fs else (k, stripped v) :: strippedFields fs

end

mutual

theorem cleaned_stripped : ∀ v, cleaned (stripped v) = cleaned v
  | .arr items => by rw [stripped, cleaned, cleanedItems_strippedItems items, cleaned]
  | .obj fields => by rw [stripped, cleaned, cleanedFields_strippedFields fields, cleaned]
  | .null => rfl
  | .bool _ => rfl
  | .int _ => rfl
  | .float _ => rfl
  | .str _ => rfl

theorem cleanedItems_strippedItems : ∀ vs, cleanedItems (strippedItems vs) = cleanedItems vs
  | [] => rfl
  | v :: vs => by
    rw [strippedItems, cleanedItems, cleaned_stripped v, cleanedItems_strippedItems vs,
      cleanedItems]

theorem cleanedFields_strippedFields : ∀ fs, cleanedFields (strippedFields fs) = cleanedFields fs
  | [] => rfl
  | (k, v) :: fs => by
    rw [strippedFields, cleanedFields]
    split
    · exact cleanedFields_strippedFields fs
    · next hk =>
      rw [cleanedFields, if_neg hk, cleaned_stripped v, cleanedFields_strippedFields fs]

end

mutual

theorem stripped_stripped : ∀ v, stripped (stripped v) = stripped v
  | .arr items => by rw [stripped, stripped, strippedItems_strippedItems items]
  | .obj fields => by rw [stripped, stripped, strippedFields_strippedFields fields]
  | .null => rfl
  | .bool _ => rfl
  | .int _ => rfl
  | .float _ => rfl
  | .str _ => rfl

theorem strippedItems_strippedItems : ∀ vs, strippedItems (strippedItems vs) = strippedItems vs
  | [] => rfl
  | v :: vs => by
    rw [strippedItems, strippedItems, stripped_stripped v, strippedItems_strippedItems vs]

theorem strippedFields_strippedFields :
    ∀ fs, strippedFields (strippedFields fs) = strippedFields fs
  | [] => rfl
  | (k, v) :: fs => by
    rw [strippedFields]
    split
    · exact strippedFields_strippedFields fs
    · next hk =>
      rw [strippedFields, if_neg hk, stripped_stripped v, strippedFields_strippedFields fs]

end

mutual

theorem nesting_eq : ∀ v, nesting v = (stripped v).objectDepth
  | .arr items => by rw [nesting, stripped, Json.objectDepth, nestings_eq items]
  | .obj fields => by rw [nesting, stripped, Json.objectDepth, fieldNesting_eq fields]
  | .null => rfl
  | .bool _ => rfl
  | .int _ => rfl
  | .float _ => rfl
  | .str _ => rfl

theorem nestings_eq : ∀ vs, nestings vs = Json.objectDepths (strippedItems vs)
  | [] => rfl
  | v :: vs => by rw [nestings, strippedItems, Json.objectDepths, nesting_eq v, nestings_eq vs]

theorem fieldNesting_eq : ∀ fs, fieldNesting fs = Json.fieldObjectDepth (strippedFields fs)
  | [] => rfl
  | (k, v) :: fs => by
    rw [fieldNesting, strippedFields]
    split
    · exact fieldNesting_eq fs
    · rw [Json.fieldObjectDepth, nesting_eq v, fieldNesting_eq fs]

end

/-- A value and what is left of it without its bookkeeping are cleaned alike. The objects that are
left inside of each other decide alone whether they are within a limit. -/
theorem clean_stripped (limit : Nat) (v : Json) :
    clean limit (stripped v) = clean limit v ∧
      clean limit v =
        if (stripped v).objectDepth ≤ limit then .ok (cleaned v)
        else .error (.nestingTooDeep limit) := by
  have hclean : ∀ u, clean limit u =
      if (stripped u).objectDepth ≤ limit then .ok (cleaned u)
      else .error (.nestingTooDeep limit) := by
    intro u
    rw [clean_eq, nesting_eq]
  refine ⟨?_, hclean v⟩
  rw [hclean, hclean, stripped_stripped, cleaned_stripped]

end Bem

end BemOutline

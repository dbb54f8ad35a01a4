import BemOutline.Bem.Clean
import BemOutline.Proofs.Results

/-! Cleaning without its limit. The limit only decides whether there is an answer. -/

namespace BemOutline.Bem

mutual

def cleaned : Json → Json
  | .arr items => .arr (cleanedItems items)
  | .obj fields => .obj (moveModifiers (cleanedFields fields))
  | .null => .null
  | .bool b => .bool b
  | .int n => .int n
  | .float x => .float x
  | .str s => .str s

def cleanedItems : List Json → List Json
  | [] => []
  | v :: vs => cleaned v :: cleanedItems vs

def cleanedFields : List (String × Json) → List (String × Json)
  | [] => []
  | (k, v) :: fs => if isInternal k then cleanedFields fs else (k, cleaned v) :: cleanedFields fs

end

mutual

/-- How many objects stand inside of each other, not counting what is dropped. -/
def nesting : Json → Nat
  | .arr items => nestings items
  | .obj fields => fieldNesting fields + 1
  | .null => 0
  | .bool _ => 0
  | .int _ => 0
  | .float _ => 0
  | .str _ => 0

def nestings : List Json → Nat
  | [] => 0
  | v :: vs => max (nesting v) (nestings vs)

def fieldNesting : List (String × Json) → Nat
  | [] => 0
  | (k, v) :: fs => if isInternal k then fieldNesting fs else max (nesting v) (fieldNesting fs)

end

theorem cleanedItems_eq (vs : List Json) : cleanedItems vs = vs.map cleaned := by
  induction vs with
  | nil => rfl
  | cons v vs ih => rw [cleanedItems, ih, List.map_cons]

variable {limit : Nat}

mutual

theorem cleanAt_eq : ∀ {level : Nat} (v : Json), level ≤ limit → cleanAt limit level v =
    if level + nesting v ≤ limit then .ok (cleaned v) else .error (.nestingTooDeep limit)
  | level, .arr items, hl => by
    rw [cleanAt, cleanItems_eq items hl, nesting, cleaned]
    split <;> rfl
  | level, .obj fields, hl => by
    rw [cleanAt, nesting, cleaned]
    by_cases hlevel : limit ≤ level
    · rw [if_pos hlevel, if_neg (by omega)]
    · rw [if_neg hlevel, cleanFields_eq fields (by omega), Nat.add_assoc, Nat.add_comm 1]
      split <;> rfl
  | _, .null, hl => by rw [cleanAt, nesting, cleaned, Nat.add_zero, if_pos hl]
  | _, .bool _, hl => by rw [cleanAt, nesting, cleaned, Nat.add_zero, if_pos hl]
  | _, .int _, hl => by rw [cleanAt, nesting, cleaned, Nat.add_zero, if_pos hl]
  | _, .float _, hl => by rw [cleanAt, nesting, cleaned, Nat.add_zero, if_pos hl]
  | _, .str _, hl => by rw [cleanAt, nesting, cleaned, Nat.add_zero, if_pos hl]

theorem cleanItems_eq : ∀ {level : Nat} (vs : List Json), level ≤ limit →
    cleanItems limit level vs =
      if level + nestings vs ≤ limit then .ok (cleanedItems vs)
      else .error (.nestingTooDeep limit)
  | _, [], hl => by rw [cleanItems, nestings, cleanedItems, Nat.add_zero, if_pos hl]
  | level, v :: vs, hl => by
    rw [cleanItems, cleanAt_eq v hl, cleanItems_eq vs hl, nestings, cleanedItems, levels_bind,
      Nat.add_max_add_left]

theorem cleanFields_eq : ∀ {level : Nat} (fs : List (String × Json)), level ≤ limit →
    cleanFields limit level fs =
      if level + fieldNesting fs ≤ limit then .ok (cleanedFields fs)
      else .error (.nestingTooDeep limit)
  | _, [], hl => by rw [cleanFields, fieldNesting, cleanedFields, Nat.add_zero, if_pos hl]
  | level, (k, v) :: fs, hl => by
    rw [cleanFields, fieldNesting, cleanedFields]
    by_cases hk : isInternal k
    · rw [if_pos hk, if_pos hk, if_pos hk]
      exact cleanFields_eq fs hl
    · rw [if_neg hk, if_neg hk, if_neg hk, cleanAt_eq v hl, cleanFields_eq fs hl, levels_bind,
        Nat.add_max_add_left]

end

theorem clean_eq (limit : Nat) (v : Json) :
    clean limit v =
      if nesting v ≤ limit then .ok (cleaned v) else .error (.nestingTooDeep limit) := by
  rw [clean, cleanAt_eq v (Nat.zero_le limit), Nat.zero_add]

end BemOutline.Bem

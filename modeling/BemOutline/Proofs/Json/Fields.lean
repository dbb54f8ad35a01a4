import BemOutline.Json.Basic
import Mathlib.Algebra.Group.Int.Defs
import Mathlib.Data.List.Nodup
import Mathlib.Data.String.Basic

/-! Fields under their keys. Objects in which every key stands once, in ascending order, are those
that reading a text can give. -/

namespace BemOutline.Json

variable {α : Type} {fs : List (String × Json)} {key k : String}

theorem field?_insertField (key : String) (v : Json) (fs : List (String × Json)) (k : String) :
    field? k (insertField key v fs) = if key = k then some v else field? k fs := by
  induction fs with
  | nil => rfl
  | cons f fs ih =>
    obtain ⟨k', v'⟩ := f
    rw [insertField]
    split
    · rfl
    · split
      · next heq =>
        subst heq
        rw [field?, field?]
        split <;> rfl
      · next hne =>
        rw [field?, ih, field?]
        by_cases hk' : k' = k
        · subst hk'
          rw [if_pos rfl, if_pos rfl, if_neg hne]
        · rw [if_neg hk', if_neg hk']

theorem field?_eq_none (h : key ∉ fs.map (·.1)) : field? key fs = none := by
  induction fs with
  | nil => rfl
  | cons f fs ih =>
    rw [List.map_cons, List.mem_cons, not_or] at h
    rw [field?, if_neg (Ne.symm h.1), ih h.2]

theorem mem_of_field? {v : Json} (hv : field? k fs = some v) : (k, v) ∈ fs := by
  induction fs with
  | nil => cases hv
  | cons f fs ih =>
    obtain ⟨k', v'⟩ := f
    rw [field?] at hv
    split at hv
    · next hk =>
      cases hv
      exact hk ▸ List.mem_cons_self
    · exact List.mem_cons_of_mem _ (ih hv)

theorem mem_of_mem_insertField {v : Json} {f : String × Json} (hf : f ∈ insertField key v fs) :
    f = (key, v) ∨ f ∈ fs := by
  induction fs with
  | nil => exact .inl (List.mem_singleton.1 hf)
  | cons g fs ih =>
    obtain ⟨k, w⟩ := g
    rw [insertField] at hf
    split at hf
    · exact List.mem_cons.1 hf
    · split at hf
      · next heq =>
        subst heq
        exact (List.mem_cons.1 hf).imp_right (List.mem_cons_of_mem _)
      · rcases List.mem_cons.1 hf with rfl | hf
        · exact .inr List.mem_cons_self
        · exact (ih hf).imp_right (List.mem_cons_of_mem _)

@[simp]
theorem field?_append (fs gs : List (String × Json)) (k : String) :
    field? k (fs ++ gs) = (field? k fs).or (field? k gs) := by
  induction fs with
  | nil => rfl
  | cons f fs ih =>
    rw [List.cons_append, field?, field?, ih]
    split <;> rfl

theorem field?_fieldsOf (h : (fs.map (·.1)).Nodup) (k : String) :
    field? k (fieldsOf fs) = field? k fs := by
  have hacc : ∀ (fs acc : List (String × Json)), (fs.map (·.1)).Nodup →
      field? k (fs.foldl (fun acc f => insertField f.1 f.2 acc) acc) =
        (field? k fs).or (field? k acc) := by
    intro fs
    induction fs with
    | nil => intro acc _; rfl
    | cons f fs ih =>
      intro acc hnodup
      rw [List.map_cons, List.nodup_cons] at hnodup
      rw [List.foldl_cons, ih _ hnodup.2, field?_insertField, field?]
      by_cases hk : f.1 = k
      · rw [if_pos hk, if_pos hk, field?_eq_none (hk ▸ hnodup.1)]
        rfl
      · rw [if_neg hk, if_neg hk]
  rw [fieldsOf, hacc fs [] h]
  exact Option.or_none

def AscendingKeys (fs : List (String × α)) : Prop := fs.Pairwise (·.1 < ·.1)

theorem insertField_of_lt {fs : List (String × α)} (h : ∀ f ∈ fs, f.1 < key) (v : α) :
    insertField key v fs = fs ++ [(key, v)] := by
  induction fs with
  | nil => rfl
  | cons f fs ih =>
    have hf : f.1 < key := h f List.mem_cons_self
    rw [insertField, if_neg (String.lt_asymm hf), if_neg fun he => ?_, List.cons_append,
      ih fun g hg => h g (List.mem_cons_of_mem _ hg)]
    rw [he] at hf
    exact String.lt_irrefl _ hf

theorem fieldsOf_of_ascending {fs : List (String × α)} (h : AscendingKeys fs) :
    fieldsOf fs = fs := by
  have hacc : ∀ (fs acc : List (String × α)), AscendingKeys (acc ++ fs) →
      fs.foldl (fun acc f => insertField f.1 f.2 acc) acc = acc ++ fs := by
    intro fs
    induction fs with
    | nil => intro acc _; simp
    | cons f fs ih =>
      intro acc hasc
      have hlt : ∀ g ∈ acc, g.1 < f.1 :=
        fun g hg => (List.pairwise_append.1 hasc).2.2 g hg f List.mem_cons_self
      rw [List.append_cons] at hasc
      rw [List.foldl_cons, insertField_of_lt hlt, ih _ hasc, List.append_assoc]
      rfl
  exact hacc fs [] h

mutual

/-- The value with the fields of its objects in ascending order of their keys. -/
def arranged : Json → Json
  | .arr items => .arr (arrangedItems items)
  | .obj fields => mkObj (arrangedFields fields)
  | v => v

def arrangedItems : List Json → List Json
  | [] => []
  | v :: vs => v.arranged :: arrangedItems vs

def arrangedFields : List (String × Json) → List (String × Json)
  | [] => []
  | (k, v) :: fs => (k, v.arranged) :: arrangedFields fs

end

theorem arrangedItems_eq (vs : List Json) : arrangedItems vs = vs.map arranged := by
  induction vs with
  | nil => rfl
  | cons v vs ih => rw [arrangedItems, ih, List.map_cons]

theorem arrangedFields_eq (fs : List (String × Json)) :
    arrangedFields fs = fs.map fun f => (f.1, f.2.arranged) := by
  induction fs with
  | nil => rfl
  | cons f fs ih => rw [arrangedFields, ih, List.map_cons]

theorem keys_arrangedFields (fs : List (String × Json)) :
    (arrangedFields fs).map (·.1) = fs.map (·.1) := by
  rw [arrangedFields_eq, List.map_map]
  rfl

theorem arrangedFields_append (fs gs : List (String × Json)) :
    arrangedFields (fs ++ gs) = arrangedFields fs ++ arrangedFields gs := by
  simp only [arrangedFields_eq, List.map_append]

theorem arrangedFields_eq_self (h : ∀ f ∈ fs, f.2.arranged = f.2) : arrangedFields fs = fs := by
  induction fs with
  | nil => rfl
  | cons f fs ih =>
    obtain ⟨k, v⟩ := f
    have hv : v.arranged = v := h (k, v) List.mem_cons_self
    rw [arrangedFields, hv, ih fun g hg => h g (List.mem_cons_of_mem _ hg)]

mutual

def depth : Json → Nat
  | .arr items => depths items + 1
  | .obj fields => fieldDepth fields + 1
  | _ => 0

def depths : List Json → Nat
  | [] => 0
  | v :: vs => max v.depth (depths vs)

def fieldDepth : List (String × Json) → Nat
  | [] => 0
  | (_, v) :: fs => max v.depth (fieldDepth fs)

end

/-- Values whose numbers are integers of sixty-four bits, with or without a sign. -/
inductive Whole : Json → Prop where
  | null : Whole .null
  | bool (b : Bool) : Whole (.bool b)
  | int {n : Int} : -2 ^ 63 ≤ n → n < 2 ^ 64 → Whole (.int n)
  | str (s : String) : Whole (.str s)
  | arr {items : List Json} : (∀ v ∈ items, Whole v) → Whole (.arr items)
  | obj {fields : List (String × Json)} : (∀ f ∈ fields, Whole f.2) → Whole (.obj fields)

/-- Whole values whose objects have each key once, in ascending order. -/
inductive Proper : Json → Prop where
  | null : Proper .null
  | bool (b : Bool) : Proper (.bool b)
  | int {n : Int} : -2 ^ 63 ≤ n → n < 2 ^ 64 → Proper (.int n)
  | str (s : String) : Proper (.str s)
  | arr {items : List Json} : (∀ v ∈ items, Proper v) → Proper (.arr items)
  | obj {fields : List (String × Json)} :
    AscendingKeys fields → (∀ f ∈ fields, Proper f.2) → Proper (.obj fields)

namespace Proper

variable {v : Json}

theorem whole (h : Proper v) : Whole v := by
  induction h with
  | null => exact .null
  | bool b => exact .bool b
  | int hmin hmax => exact .int hmin hmax
  | str s => exact .str s
  | arr _ ih => exact .arr ih
  | obj _ _ ih => exact .obj ih

theorem arranged_eq (h : Proper v) : v.arranged = v := by
  induction h with
  | null => rfl
  | bool b => rfl
  | int _ _ => rfl
  | str s => rfl
  | arr _ ih => rw [arranged, arrangedItems_eq, List.map_congr_left ih, List.map_id']
  | obj hasc _ ih => rw [arranged, arrangedFields_eq_self ih, mkObj, fieldsOf_of_ascending hasc]

end Proper

end BemOutline.Json

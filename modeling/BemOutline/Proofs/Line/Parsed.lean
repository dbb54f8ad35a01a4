import BemOutline.Proofs.Line.Dashes
import BemOutline.Proofs.Text.Pieces
import Mathlib.Data.List.TakeWhile
import Mathlib.Data.String.Basic

/-! What a line holds once it has been read. -/

namespace BemOutline.Line

variable {defaultTag cs : List Char} {number : Nat} {seen : Bool} {l : Line}

def tokenOf (cs : List Char) : List Char := (cs.dropWhile Text.isBlank).takeWhile isTokenChar

def restOf (cs : List Char) : List Char := (cs.dropWhile Text.isBlank).dropWhile isTokenChar

def ofParts (seen : Bool) (cs tag cls : List Char) : Line where
  source := String.ofList cs
  depth := if seen then (cs.takeWhile Text.isBlank).length else 0
  tag := String.ofList tag
  name :=
    if seen then .elem (String.ofList (classParts cls).1)
    else .block (String.ofList (classParts cls).1)
  modifiers := modifiersOf ((classParts cls).2.1.map String.ofList)
  count := (classParts cls).2.2
  text :=
    if Text.trim (restOf cs) = [] then none else some (String.ofList (Text.trim (restOf cs)))

theorem parseChars_eq : parseChars defaultTag number seen cs =
    if tokenOf cs = [] ∨ '\n' ∈ restOf cs then .error (.malformedLine number (String.ofList cs))
    else
      match tagAndClass? defaultTag (tokenOf cs) with
      | none => .error (.malformedLine number (String.ofList cs))
      | some (tag, cls) =>
        if (classParts cls).1 = [] then .ok none else .ok (some (ofParts seen cs tag cls)) := rfl

theorem parseChars_eq_some (h : parseChars defaultTag number seen cs = .ok (some l)) :
    ∃ tag cls, tagAndClass? defaultTag (tokenOf cs) = some (tag, cls) ∧
      (classParts cls).1 ≠ [] ∧ l = ofParts seen cs tag cls := by
  rw [parseChars_eq] at h
  by_cases hm : tokenOf cs = [] ∨ '\n' ∈ restOf cs
  · rw [if_pos hm] at h
    cases h
  · rw [if_neg hm] at h
    cases hcls : tagAndClass? defaultTag (tokenOf cs) with
    | none =>
      rw [hcls] at h
      cases h
    | some p =>
      obtain ⟨tag, cls⟩ := p
      rw [hcls] at h
      by_cases hname : (classParts cls).1 = []
      · simp only [hname, if_true] at h
        cases h
      · simp only [hname, if_false, Except.ok.injEq, Option.some.injEq] at h
        exact ⟨tag, cls, rfl, hname, h.symm⟩

theorem depth_of_first (h : parseChars defaultTag number false cs = .ok (some l)) :
    l.depth = 0 := by
  obtain ⟨tag, cls, -, -, rfl⟩ := parseChars_eq_some h
  rfl

theorem isBlock_name (h : parseChars defaultTag number seen cs = .ok (some l)) :
    l.name.isBlock = !seen := by
  obtain ⟨tag, cls, -, -, rfl⟩ := parseChars_eq_some h
  cases seen <;> rfl

theorem one_le_countOf (cs : List Char) : 1 ≤ countOf cs := by
  unfold countOf
  split
  · next h => exact h.2.2.1
  · exact Nat.le_refl 1

theorem one_le_count (h : parseChars defaultTag number seen cs = .ok (some l)) : 1 ≤ l.count := by
  obtain ⟨tag, cls, -, -, rfl⟩ := parseChars_eq_some h
  change 1 ≤ (classParts cls).2.2
  unfold classParts
  split
  · exact Nat.le_refl 1
  · split
    · exact Nat.le_refl 1
    · exact one_le_countOf _

def segment (token : List Char) (k : Nat) : List Char := (token.splitOn '.').getD k []

theorem segment_zero (token : List Char) : segment token 0 = token.takeWhile (· ≠ '.') := by
  rw [segment, List.getD_eq_getElem?_getD, ← List.head?_eq_getElem?, Text.head?_splitOn,
    Option.getD_some]

theorem mem_of_mem_segment {c : Char} {token : List Char} {k : Nat} (hc : c ∈ segment token k) :
    c ∈ token ∧ c ≠ '.' := by
  rw [segment, List.getD_eq_getElem?_getD] at hc
  cases hk : (token.splitOn '.')[k]? with
  | none =>
    rw [hk] at hc
    cases hc
  | some piece =>
    rw [hk] at hc
    exact Text.mem_of_mem_splitOn (List.mem_of_getElem? hk) hc

theorem tagAndClass?_eq (defaultTag token : List Char) : tagAndClass? defaultTag token =
    if segment token 0 = [] then none
    else if segment token 1 = [] then some (defaultTag, segment token 0)
    else some (segment token 0, segment token 1) := by
  rw [tagAndClass?, Text.splitAtChar_eq_splitOn, segment, segment]
  match token.splitOn '.' with
  | [] => rfl
  | [] :: _ => rfl
  | [_ :: _] => rfl
  | (_ :: _) :: [] :: _ => rfl
  | (_ :: _) :: (_ :: _) :: _ => rfl

theorem classParts_eq (cls : List Char) :
    ∃ name mods, DashPieces (cls.takeWhile (· ≠ '*')) (name :: mods) ∧
      classParts cls = (name, mods.filter (· ≠ []), countOf ((cls.splitOn '*').getD 1 [])) := by
  obtain ⟨name, mods, hdashes⟩ :=
    List.exists_cons_of_ne_nil (splitAtDashes_ne_nil (cls.takeWhile (· ≠ '*')))
  refine ⟨name, mods, hdashes ▸ dashPieces_splitAtDashes _, ?_⟩
  obtain ⟨counts, hstars⟩ := List.head?_eq_some_iff.1 (Text.head?_splitOn '*' cls)
  rw [classParts, Text.splitAtChar_eq_splitOn, hstars]
  simp only [hdashes]
  cases counts <;> rfl

def isWordChar (c : Char) : Bool := c.isAlphanum || c = '-'

theorem isTokenChar_iff {c : Char} : isTokenChar c ↔ isWordChar c ∨ c = '*' ∨ c = '.' := by
  simp only [isTokenChar, isWordChar, Bool.or_eq_true, decide_eq_true_eq]
  tauto

theorem isWordChar_of_mem_classPart {c : Char} {tag cls : List Char}
    (h : tagAndClass? defaultTag (tokenOf cs) = some (tag, cls))
    (hc : c ∈ cls.takeWhile (· ≠ '*')) : isWordChar c := by
  obtain ⟨k, rfl⟩ : ∃ k, cls = segment (tokenOf cs) k := by
    rw [tagAndClass?_eq] at h
    split_ifs at h
    · exact ⟨0, by cases h; rfl⟩
    · exact ⟨1, by cases h; rfl⟩
  obtain ⟨htoken, hpoint⟩ := mem_of_mem_segment ((List.takeWhile_subset _) hc)
  have hstar : c ≠ '*' := by simpa using List.mem_takeWhile_imp hc
  have hchar := isTokenChar_iff.1 (List.mem_takeWhile_imp htoken)
  exact (or_iff_left (not_or.2 ⟨hstar, hpoint⟩)).1 hchar

theorem mem_insertModifier {m x : String} {ms : List String} :
    x ∈ insertModifier m ms ↔ x = m ∨ x ∈ ms := by
  induction ms with
  | nil => simp [insertModifier]
  | cons y ms ih =>
    rw [insertModifier]
    split
    · simp
    · split
      · next hm => simp [hm]
      · rw [List.mem_cons, ih, List.mem_cons, or_left_comm]

theorem mem_modifiersOf {x : String} {ms : List String} : x ∈ modifiersOf ms ↔ x ∈ ms := by
  induction ms with
  | nil => rfl
  | cons m ms ih =>
    rw [modifiersOf, List.foldr_cons, mem_insertModifier, List.mem_cons]
    exact or_congr_right ih

theorem mem_modifiersOf_pieces {m : String} {pieces : List (List Char)} :
    m ∈ modifiersOf ((pieces.filter (· ≠ [])).map String.ofList) ↔ m ≠ "" ∧ m.toList ∈ pieces := by
  rw [mem_modifiersOf, List.mem_map]
  constructor
  · rintro ⟨piece, hp, rfl⟩
    rw [List.mem_filter, decide_eq_true_eq] at hp
    exact ⟨by simpa using hp.2, by simpa using hp.1⟩
  · rintro ⟨hm, hp⟩
    refine ⟨m.toList, List.mem_filter.2 ⟨hp, ?_⟩, String.ofList_toList⟩
    simpa using hm

theorem pairwise_insertModifier (m : String) {ms : List String} (h : ms.Pairwise (· < ·)) :
    (insertModifier m ms).Pairwise (· < ·) := by
  induction ms with
  | nil => exact List.pairwise_singleton ..
  | cons x ms ih =>
    obtain ⟨hx, hms⟩ := List.pairwise_cons.1 h
    rw [insertModifier]
    split
    · next hlt =>
      refine List.pairwise_cons.2 ⟨List.forall_mem_cons.2 ⟨hlt, fun y hy => ?_⟩, h⟩
      exact lt_trans hlt (hx y hy)
    · next hnlt =>
      split
      · exact h
      · next hne =>
        have hxm : x < m := lt_of_le_of_ne (not_lt.1 hnlt) (Ne.symm hne)
        refine List.pairwise_cons.2 ⟨fun y hy => ?_, ih hms⟩
        rcases mem_insertModifier.1 hy with rfl | hy
        · exact hxm
        · exact hx y hy

theorem pairwise_modifiersOf (ms : List String) : (modifiersOf ms).Pairwise (· < ·) := by
  induction ms with
  | nil => exact List.Pairwise.nil
  | cons m ms ih => exact pairwise_insertModifier m ih

theorem pairwise_modifiers (h : parseChars defaultTag number seen cs = .ok (some l)) :
    l.modifiers.Pairwise (· < ·) := by
  obtain ⟨tag, cls, -, -, rfl⟩ := parseChars_eq_some h
  exact pairwise_modifiersOf _

/-- The name and the modifiers of a line are the pieces of one run of letters, digits and dashes
between its double dashes. -/
theorem exists_dashPieces (h : parseChars defaultTag number seen cs = .ok (some l)) :
    ∃ left name mods, DashPieces left (name :: mods) ∧ (∀ c ∈ left, isWordChar c) ∧ name ≠ [] ∧
      l.name.text.toList = name ∧
      ∀ m, m ∈ l.modifiers ↔ m ≠ "" ∧ m.toList ∈ mods := by
  obtain ⟨tag, cls, hcls, hne, rfl⟩ := parseChars_eq_some h
  obtain ⟨name, mods, hpieces, hparts⟩ := classParts_eq cls
  refine ⟨_, name, mods, hpieces, fun c hc => isWordChar_of_mem_classPart hcls hc, ?_, ?_, ?_⟩
  · rwa [hparts] at hne
  · cases seen <;> simp [ofParts, Name.text, hparts]
  · intro m
    rw [ofParts, hparts]
    exact mem_modifiersOf_pieces

theorem isTokenChar_of_mem_modifiers (h : parseChars defaultTag number seen cs = .ok (some l))
    {m : String} (hm : m ∈ l.modifiers) {c : Char} (hc : c ∈ m.toList) : isTokenChar c := by
  obtain ⟨left, name, mods, hpieces, hword, -, -, hmods⟩ := exists_dashPieces h
  have hleft := hpieces.subset (List.mem_cons_of_mem _ ((hmods m).1 hm).2) hc
  exact isTokenChar_iff.2 (.inl (hword c hleft))

end BemOutline.Line

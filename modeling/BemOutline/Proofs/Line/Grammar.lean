import BemOutline.Proofs.Line.Parsed
import Mathlib.Data.List.DropRight
import Mathlib.Data.List.Sort

/-! The grammar of a line: which lines are faults, which name nothing, and which node each of the
others describes. -/

namespace BemOutline.Line

variable {cs : List Char} {l : Line}

/-- A line is a fault unless its first character that is not blank can start a token and no line
feed stands behind it. -/
def Malformed (cs : List Char) : Prop :=
  match cs.dropWhile Text.isBlank with
  | [] => True
  | c :: rest => ¬ (c.isAlphanum ∨ c = '*' ∨ c = '-') ∨ '\n' ∈ rest

def classPart (cs : List Char) : List Char :=
  if segment (tokenOf cs) 1 = [] then segment (tokenOf cs) 0 else segment (tokenOf cs) 1

/-- Where a name ends: at a star or at a double dash. -/
def AtMark (cs : List Char) : Prop := ['*'] <+: cs ∨ ['-', '-'] <+: cs

instance : DecidablePred AtMark := fun _ => inferInstanceAs (Decidable (_ ∨ _))

def nameOf : List Char → List Char
  | [] => []
  | c :: cs => if AtMark (c :: cs) then [] else c :: nameOf cs

def modifierPart (cls : List Char) : List Char :=
  (cls.takeWhile (· ≠ '*')).drop (nameOf cls).length

/-- The number between the first star and the second, if it is written in digits and neither zero
nor too large; or else 1. -/
def writtenCount (cls : List Char) : Nat :=
  let written := (cls.splitOn '*').getD 1 []
  let value := Nat.ofDigitChars 10 written 0
  if written.all Char.isDigit ∧ 1 ≤ value ∧ value < 2 ^ 32 then value else 1

def textPart (cs : List Char) : List Char :=
  ((restOf cs).dropWhile Text.isBlank).rdropWhile Text.isBlank

/-- The node that a line describes. -/
structure Describes (defaultTag : String) (seen : Bool) (cs : List Char) (l : Line) : Prop where
  source : l.source.toList = cs
  depth : l.depth = if seen then (cs.takeWhile Text.isBlank).length else 0
  tag : l.tag =
    if segment (tokenOf cs) 1 = [] then defaultTag else String.ofList (segment (tokenOf cs) 0)
  name : l.name =
    if seen then .elem (String.ofList (nameOf (classPart cs)))
    else .block (String.ofList (nameOf (classPart cs)))
  ascending : l.modifiers.Pairwise (· < ·)
  modifiers : ∃ pieces, DashPieces (modifierPart (classPart cs)) pieces ∧
    ∀ m, m ∈ l.modifiers ↔ m ≠ "" ∧ m.toList ∈ pieces
  count : l.count = writtenCount (classPart cs)
  text : l.text = if textPart cs = [] then none else some (String.ofList (textPart cs))

theorem Describes.unique {defaultTag : String} {seen : Bool} {l' : Line}
    (h : Describes defaultTag seen cs l) (h' : Describes defaultTag seen cs l') : l = l' := by
  obtain ⟨pieces, hpieces, hmem⟩ := h.modifiers
  obtain ⟨pieces', hpieces', hmem'⟩ := h'.modifiers
  have hmodifiers : l.modifiers = l'.modifiers := by
    refine h.ascending.eq_of_mem_iff h'.ascending fun m => ?_
    rw [hmem, hmem', ← hpieces.splitAtDashes_eq, ← hpieces'.splitAtDashes_eq]
  have hsource : l.source = l'.source := String.toList_inj.1 (h.source.trans h'.source.symm)
  have hdepth := h.depth.trans h'.depth.symm
  have htag := h.tag.trans h'.tag.symm
  have hname := h.name.trans h'.name.symm
  have hcount := h.count.trans h'.count.symm
  have htext := h.text.trans h'.text.symm
  cases l
  cases l'
  simp_all only

theorem isTokenChar_and_ne_iff {c : Char} :
    isTokenChar c ∧ c ≠ '.' ↔ c.isAlphanum ∨ c = '*' ∨ c = '-' := by
  have hpoint : c.isAlphanum ∨ c = '*' ∨ c = '-' → c ≠ '.' := by
    rintro h rfl
    revert h
    decide
  rw [isTokenChar_iff, isWordChar, Bool.or_eq_true, decide_eq_true_eq]
  tauto

theorem malformed_iff : Malformed cs ↔ segment (tokenOf cs) 0 = [] ∨ '\n' ∈ restOf cs := by
  rw [Malformed, segment_zero, tokenOf, restOf]
  cases cs.dropWhile Text.isBlank with
  | nil => simp
  | cons c rest =>
    simp only [← isTokenChar_and_ne_iff]
    by_cases hc : isTokenChar c
    · have hrest : '\n' ∈ rest ↔ '\n' ∈ rest.dropWhile isTokenChar := by
        have hnone : '\n' ∉ rest.takeWhile isTokenChar := fun h =>
          absurd (List.mem_takeWhile_imp h) (by decide)
        calc '\n' ∈ rest
            ↔ '\n' ∈ rest.takeWhile isTokenChar ++ rest.dropWhile isTokenChar := by
              rw [List.takeWhile_append_dropWhile]
          _ ↔ _ := List.mem_append.trans (or_iff_right hnone)
      rw [List.takeWhile_cons_of_pos hc, List.dropWhile_cons_of_pos hc, hrest]
      simp [hc]
    · rw [List.takeWhile_cons_of_neg hc]
      simp [hc]

instance : DecidablePred Malformed := fun _ => decidable_of_iff _ malformed_iff.symm

theorem parseChars_of_malformed {defaultTag : List Char} {number : Nat} {seen : Bool}
    (h : Malformed cs) :
    parseChars defaultTag number seen cs = .error (.malformedLine number (String.ofList cs)) := by
  rw [parseChars_eq, tagAndClass?_eq]
  rcases malformed_iff.1 h with h | h
  · rw [if_pos h, ite_self]
  · rw [if_pos (.inr h)]

def tagPart (defaultTag cs : List Char) : List Char :=
  if segment (tokenOf cs) 1 = [] then defaultTag else segment (tokenOf cs) 0

theorem head?_splitAtDashes (cls : List Char) :
    (splitAtDashes (cls.takeWhile (· ≠ '*'))).head? = some (nameOf cls) := by
  induction cls with
  | nil => rfl
  | cons c cls ih =>
    rw [nameOf]
    by_cases hstar : c = '*'
    · subst hstar
      rw [List.takeWhile_cons_of_neg (by simp), if_pos (.inl ⟨cls, rfl⟩)]
      rfl
    · rw [List.takeWhile_cons_of_pos (by simpa using hstar)]
      by_cases hdashes : ['-', '-'] <+: c :: cls
      · rw [if_pos (.inr hdashes)]
        obtain ⟨rest, hrest⟩ := hdashes
        cases hrest
        rfl
      · have hmark : ¬ AtMark (c :: cls) := by
          rintro (h | h)
          · exact hstar (by simpa [eq_comm] using h)
          · exact hdashes h
        have hleft : cls.takeWhile (· ≠ '*') <+: cls := List.takeWhile_prefix _
        have hhead : ¬ ['-', '-'] <+: c :: cls.takeWhile (· ≠ '*') := fun h =>
          hdashes (h.trans ((List.prefix_cons_inj c).2 hleft))
        rw [if_neg hmark, splitAtDashes_cons hhead, List.head?_modifyHead, ih, Option.map_some]

theorem nameOf_eq_nil_iff {cls : List Char} : nameOf cls = [] ↔ cls = [] ∨ AtMark cls := by
  cases cls with
  | nil => simp [nameOf]
  | cons c cls => simp [nameOf]

theorem countOf_eq_writtenCount (cls : List Char) :
    countOf ((cls.splitOn '*').getD 1 []) = writtenCount cls := by
  rw [writtenCount]
  generalize (cls.splitOn '*').getD 1 [] = written
  have hvalue : Text.digitsValue written = Nat.ofDigitChars 10 written 0 := rfl
  have hmax : maxCount = 2 ^ 32 - 1 := rfl
  rw [countOf, hvalue, hmax]
  refine if_congr ⟨?_, ?_⟩ rfl rfl
  · rintro ⟨-, hdigits, hlow, hhigh⟩
    exact ⟨hdigits, hlow, by omega⟩
  · rintro ⟨hdigits, hlow, hhigh⟩
    refine ⟨?_, hdigits, hlow, by omega⟩
    rintro rfl
    exact absurd hlow (by decide)

theorem exists_classParts_eq (cls : List Char) :
    ∃ mods, DashPieces (cls.takeWhile (· ≠ '*')) (nameOf cls :: mods) ∧
      classParts cls = (nameOf cls, mods.filter (· ≠ []), writtenCount cls) := by
  obtain ⟨name, mods, hpieces, hparts⟩ := classParts_eq cls
  have hname : name = nameOf cls := by
    have hhead := head?_splitAtDashes cls
    rw [hpieces.splitAtDashes_eq, List.head?_cons] at hhead
    exact Option.some.inj hhead
  subst hname
  exact ⟨mods, hpieces, countOf_eq_writtenCount cls ▸ hparts⟩

theorem describes_ofParts (defaultTag : String) (seen : Bool) (cs : List Char) :
    Describes defaultTag seen cs
      (ofParts seen cs (tagPart defaultTag.toList cs) (classPart cs)) := by
  obtain ⟨mods, hpieces, hparts⟩ := exists_classParts_eq (classPart cs)
  refine
    { source := String.toList_ofList
      depth := rfl
      tag := ?_
      name := by rw [ofParts, hparts]
      ascending := pairwise_modifiersOf _
      modifiers := ⟨[] :: mods, hpieces.drop, fun m => ?_⟩
      count := by rw [ofParts, hparts]
      text := rfl }
  · rw [ofParts, tagPart, apply_ite String.ofList, String.ofList_toList]
  · rw [ofParts, hparts, mem_modifiersOf_pieces]
    refine and_congr_right fun hm => ?_
    rw [List.mem_cons, or_iff_right (by simpa using hm)]

theorem parseChars_of_not_malformed {defaultTag : List Char} {number : Nat} {seen : Bool}
    (h : ¬ Malformed cs) : parseChars defaultTag number seen cs =
      if AtMark (classPart cs) then .ok none
      else .ok (some (ofParts seen cs (tagPart defaultTag cs) (classPart cs))) := by
  obtain ⟨hsegment, hbreak⟩ := not_or.1 (malformed_iff.not.1 h)
  have htoken : tokenOf cs ≠ [] := by
    rintro htoken
    rw [htoken] at hsegment
    exact hsegment rfl
  have hcls : classPart cs ≠ [] := by
    rw [classPart]
    split_ifs with hsecond
    · exact hsegment
    · exact hsecond
  obtain ⟨mods, -, hparts⟩ := exists_classParts_eq (classPart cs)
  have hname : (classParts (classPart cs)).1 = [] ↔ AtMark (classPart cs) := by
    rw [hparts, nameOf_eq_nil_iff, or_iff_right hcls]
  have hsplit : tagAndClass? defaultTag (tokenOf cs) =
      some (tagPart defaultTag cs, classPart cs) := by
    rw [tagAndClass?_eq, if_neg hsegment, tagPart, classPart]
    split_ifs <;> rfl
  rw [parseChars_eq, if_neg (not_or.2 ⟨htoken, hbreak⟩), hsplit]
  exact if_congr hname rfl rfl

/-- A line is a fault, or names nothing, or gives the one node that it describes. -/
theorem parse_grammar (defaultTag : String) (number : Nat) (seen : Bool) (line : String) :
    (∀ e, parse defaultTag number seen line = .error e ↔
      Malformed line.toList ∧ e = .malformedLine number line) ∧
    (parse defaultTag number seen line = .ok none ↔
      ¬ Malformed line.toList ∧ AtMark (classPart line.toList)) ∧
    ∀ l, parse defaultTag number seen line = .ok (some l) ↔
      ¬ Malformed line.toList ∧ ¬ AtMark (classPart line.toList) ∧
        Describes defaultTag seen line.toList l := by
  rw [parse]
  by_cases hfault : Malformed line.toList
  · rw [parseChars_of_malformed hfault, String.ofList_toList]
    simp [hfault, eq_comm]
  rw [parseChars_of_not_malformed hfault]
  by_cases hmark : AtMark (classPart line.toList)
  · simp [hfault, hmark]
  rw [if_neg hmark]
  refine ⟨by simp [hfault], by simp [hmark], fun l => ⟨?_, ?_⟩⟩
  · rintro ⟨⟩
    exact ⟨hfault, hmark, describes_ofParts ..⟩
  · rintro ⟨-, -, h⟩
    rw [h.unique (describes_ofParts ..)]

end BemOutline.Line

import BemOutline.Proofs.Line.Parsed
import BemOutline.Proofs.Text.Digits
import Mathlib.Data.List.Sort

/-! Lines as they are written: what is put down as a tag, a name, modifiers, a count and a text is
read back as these, and whatever is read has a name and modifiers that can be put down again. -/

namespace BemOutline.Line

variable {defaultTag cs indent : List Char} {number gap : Nat} {seen : Bool}

def IsWord (s : String) : Prop := s ≠ "" ∧ s.toList.all isWordChar

def IsPlain (s : String) : Prop := IsWord s ∧ ¬ ['-', '-'] <:+: s.toList

def EndsInDash (s : String) : Prop := s.toList.getLast? = some '-'

instance : DecidablePred IsWord := fun _ => inferInstanceAs (Decidable (_ ∧ _))
instance : DecidablePred IsPlain := fun _ => inferInstanceAs (Decidable (_ ∧ _))
instance : DecidablePred EndsInDash := fun _ => inferInstanceAs (Decidable (_ = _))

/-- What is put down about one node, the modifiers in any order. -/
structure Shorthand where
  tag : String
  name : String
  modifiers : List String
  count : Nat
  text : Option String

namespace Shorthand

def wordsPart (s : Shorthand) : List Char :=
  ['-', '-'].intercalate ((s.name :: s.modifiers).map String.toList)

def classPart (s : Shorthand) : List Char := s.wordsPart ++ '*' :: Nat.toDigits 10 s.count

def token (s : Shorthand) : List Char := s.tag.toList ++ '.' :: s.classPart

def rest (s : Shorthand) (gap : Nat) : List Char :=
  List.replicate gap ' ' ++ (s.text.getD "").toList

def write (s : Shorthand) (indent : List Char) (gap : Nat) : List Char :=
  indent ++ (s.token ++ s.rest gap)

/-- The conditions under which a line can be taken apart again. -/
structure Proper (s : Shorthand) : Prop where
  tag : IsWord s.tag
  words : ∀ w ∈ s.name :: s.modifiers, IsPlain w
  tight : ∀ w ∈ (s.name :: s.modifiers).dropLast, ¬ EndsInDash w
  count : 1 ≤ s.count ∧ s.count < 2 ^ 32
  text : ∀ t ∈ s.text, t ≠ "" ∧ Text.trim t.toList = t.toList ∧ '\n' ∉ t.toList

def toLine (s : Shorthand) (seen : Bool) (indent : List Char) (gap : Nat) : Line where
  source := String.ofList (s.write indent gap)
  depth := if seen then indent.length else 0
  tag := s.tag
  name := if seen then .elem s.name else .block s.name
  modifiers := modifiersOf s.modifiers
  count := s.count
  text := s.text

end Shorthand

theorem classParts_of_dashPieces {left name digits : List Char} {mods : List (List Char)}
    (h : DashPieces left (name :: mods)) (hleft : '*' ∉ left) (hdigits : '*' ∉ digits) :
    classParts (left ++ '*' :: digits) = (name, mods.filter (· ≠ []), countOf digits) := by
  rw [classParts, Text.splitAtChar_eq_splitOn, List.splitOn_append_cons_self_of_not_mem hleft,
    List.splitOn_eq_singleton hdigits]
  simp only [h.splitAtDashes_eq, List.headD_cons]

theorem tagAndClass?_of_not_mem {tag cls : List Char} (htag : tag ≠ []) (hcls : cls ≠ [])
    (h : '.' ∉ tag) (h' : '.' ∉ cls) :
    tagAndClass? defaultTag (tag ++ '.' :: cls) = some (tag, cls) := by
  rw [tagAndClass?_eq, segment, segment, List.splitOn_append_cons_self_of_not_mem h,
    List.splitOn_eq_singleton h']
  simp [htag, hcls]

theorem countOf_toDigits {n : Nat} (hlow : 1 ≤ n) (hhigh : n < 2 ^ 32) :
    countOf (Nat.toDigits 10 n) = n := by
  have hvalue : Text.digitsValue (Nat.toDigits 10 n) = n := Nat.ofDigitChars_ten_toDigits
  have hall : (Nat.toDigits 10 n).all Text.isDigit :=
    List.all_eq_true.2 fun c hc => Text.isDigit_of_mem_toDigits hc
  have hmax : n ≤ maxCount := Nat.le_sub_one_of_lt hhigh
  rw [countOf, hvalue, if_pos ⟨Nat.toDigits_ne_nil, hall, hlow, hmax⟩]

theorem trim_append_of_blank (h : ∀ c ∈ indent, Text.isBlank c) :
    Text.trim (indent ++ cs) = Text.trim cs := by
  rw [Text.trim, List.dropWhile_append_of_pos h, Text.trim]

theorem isTokenChar_of_isBlank {c : Char} (h : Text.isBlank c) : isTokenChar c = false := by
  obtain ⟨r, hr, hc⟩ := List.any_eq_true.1 h
  rw [Bool.and_eq_true, decide_eq_true_eq, decide_eq_true_eq] at hc
  have hall : ∀ r ∈ Text.blankRanges, ∀ k < r.2 + 1 - r.1,
      isTokenChar (Char.ofNat (r.1 + k)) = false := by
    decide
  have hrange := hall r hr (c.toNat - r.1) (by omega)
  rwa [Nat.add_sub_cancel' hc.1, Char.ofNat_toNat] at hrange

theorem isTokenChar_of_isWordChar {c : Char} (h : isWordChar c) : isTokenChar c :=
  isTokenChar_iff.2 (.inl h)

theorem isWordChar_of_isDigit {c : Char} (h : c.isDigit) : isWordChar c := by
  rw [isWordChar, Char.isAlphanum, h, Bool.or_true, Bool.true_or]

theorem IsWord.toList_ne_nil {w : String} (h : IsWord w) : w.toList ≠ [] := by
  simpa using h.1

theorem IsWord.isWordChar {w : String} (h : IsWord w) : ∀ c ∈ w.toList, isWordChar c :=
  List.all_eq_true.1 h.2

namespace Shorthand

variable {s : Shorthand}

/-- What makes a shorthand legible whatever its tag is. -/
structure Legible (s : Shorthand) : Prop where
  words : ∀ w ∈ s.name :: s.modifiers, IsPlain w
  tight : ∀ w ∈ (s.name :: s.modifiers).dropLast, ¬ EndsInDash w
  count : 1 ≤ s.count ∧ s.count < 2 ^ 32
  text : ∀ t ∈ s.text, t ≠ "" ∧ Text.trim t.toList = t.toList ∧ '\n' ∉ t.toList

theorem Proper.legible (h : s.Proper) : s.Legible := ⟨h.words, h.tight, h.count, h.text⟩

namespace Legible

theorem dashPieces (h : s.Legible) :
    DashPieces s.wordsPart (s.name.toList :: s.modifiers.map String.toList) := by
  refine .intercalate (by simp) (List.forall_mem_map.2 fun w hw => (h.words w hw).2) ?_
  rw [← List.map_dropLast]
  exact List.forall_mem_map.2 h.tight

theorem isWordChar_of_mem_wordsPart (h : s.Legible) : ∀ c ∈ s.wordsPart, isWordChar c := by
  refine h.dashPieces.forall_mem (by decide) ?_
  rw [← List.map_cons, List.forall_mem_map]
  exact fun w hw => (h.words w hw).1.isWordChar

theorem not_mem_classPart (h : s.Legible) : '.' ∉ s.classPart := by
  have hdigits : '.' ∉ Nat.toDigits 10 s.count :=
    Text.not_mem_of_holds (fun _ => Text.isDigit_of_mem_toDigits) rfl
  rw [classPart, List.mem_append, List.mem_cons, not_or, not_or]
  exact ⟨Text.not_mem_of_holds h.isWordChar_of_mem_wordsPart rfl, by decide, hdigits⟩

theorem isTokenChar_of_mem_classPart (h : s.Legible) : ∀ c ∈ s.classPart, isTokenChar c := by
  rw [classPart, List.forall_mem_append, List.forall_mem_cons]
  refine ⟨fun c hc => isTokenChar_of_isWordChar (h.isWordChar_of_mem_wordsPart c hc), by decide,
    fun c hc => ?_⟩
  exact isTokenChar_of_isWordChar (isWordChar_of_isDigit (Text.isDigit_of_mem_toDigits hc))

theorem classParts_classPart (h : s.Legible) :
    classParts s.classPart = (s.name.toList, s.modifiers.map String.toList, s.count) := by
  have hstar : '*' ∉ s.wordsPart := Text.not_mem_of_holds h.isWordChar_of_mem_wordsPart rfl
  have hdigits : '*' ∉ Nat.toDigits 10 s.count :=
    Text.not_mem_of_holds (fun _ => Text.isDigit_of_mem_toDigits) rfl
  have hfilter :
      (s.modifiers.map String.toList).filter (· ≠ []) = s.modifiers.map String.toList := by
    refine List.filter_eq_self.2 (List.forall_mem_map.2 fun m hm => ?_)
    exact decide_eq_true (h.words m (List.mem_cons_of_mem _ hm)).1.toList_ne_nil
  rw [classPart, classParts_of_dashPieces h.dashPieces hstar hdigits, hfilter,
    countOf_toDigits h.count.1 h.count.2]

theorem trim_rest (h : s.Legible) (gap : Nat) :
    Text.trim (s.rest gap) = (s.text.getD "").toList := by
  rw [rest, trim_append_of_blank fun c hc => by rw [List.eq_of_mem_replicate hc]; decide]
  cases htext : s.text with
  | none => rfl
  | some t => exact (h.text t htext).2.1

theorem not_mem_rest (h : s.Legible) (gap : Nat) : '\n' ∉ s.rest gap := by
  rw [rest, List.mem_append, not_or]
  refine ⟨fun hmem => absurd (List.eq_of_mem_replicate hmem) (by decide), ?_⟩
  cases htext : s.text with
  | none => exact List.not_mem_nil
  | some t => exact (h.text t htext).2.2

theorem ofParts_eq (h : s.Legible) (hindent : cs.takeWhile Text.isBlank = indent)
    (hrest : restOf cs = s.rest gap) :
    ofParts seen cs s.tag.toList s.classPart =
      { s.toLine seen indent gap with source := String.ofList cs } := by
  have hmodifiers : (s.modifiers.map String.toList).map String.ofList = s.modifiers := by
    simp
  have htext : (if (s.text.getD "").toList = [] then none
      else some (String.ofList (s.text.getD "").toList)) = s.text := by
    cases ht : s.text with
    | none => rfl
    | some t => simp [(h.text t ht).1]
  rw [ofParts, toLine, h.classParts_classPart, hindent, hrest, h.trim_rest, hmodifiers, htext,
    String.ofList_toList, String.ofList_toList]

end Legible

theorem isTokenChar_rest (hgap : s.text ≠ none → 0 < gap) :
    ∀ c ∈ (s.rest gap).head?, ¬ isTokenChar c := by
  cases gap with
  | zero =>
    -- Without a space there is no text either, and the token ends the line.
    have htext : s.text = none := by
      by_contra hne
      exact absurd (hgap hne) (lt_irrefl 0)
    rw [rest, htext]
    rintro c ⟨⟩
  | succ gap =>
    rw [rest, List.replicate_succ]
    rintro c ⟨⟩
    decide

theorem Legible.parseChars_append {token : List Char} (h : s.Legible)
    (hindent : ∀ c ∈ indent, Text.isBlank c) (hgap : s.text ≠ none → 0 < gap)
    (htoken : ∀ c ∈ token, isTokenChar c)
    (hsplit : tagAndClass? defaultTag token = some (s.tag.toList, s.classPart)) :
    parseChars defaultTag number seen (indent ++ (token ++ s.rest gap)) =
      .ok (some { s.toLine seen indent gap with
        source := String.ofList (indent ++ (token ++ s.rest gap)) }) := by
  have hne : token ≠ [] := by
    rintro rfl
    cases hsplit
  have hhead : ∀ c ∈ (token ++ s.rest gap).head?, ¬ Text.isBlank c := by
    intro c hc hblank
    rw [List.head?_append_of_ne_nil _ hne] at hc
    have hchar := htoken c (List.mem_of_mem_head? hc)
    exact Bool.false_ne_true ((isTokenChar_of_isBlank hblank).symm.trans hchar)
  have hspace := isTokenChar_rest hgap
  have hbody : (indent ++ (token ++ s.rest gap)).dropWhile Text.isBlank = token ++ s.rest gap :=
    Text.dropWhile_append_eq hindent hhead
  have htokenOf : tokenOf (indent ++ (token ++ s.rest gap)) = token := by
    rw [tokenOf, hbody, Text.takeWhile_append_eq htoken hspace]
  have hrest : restOf (indent ++ (token ++ s.rest gap)) = s.rest gap := by
    rw [restOf, hbody, Text.dropWhile_append_eq htoken hspace]
  have hname : (classParts s.classPart).1 ≠ [] := by
    rw [h.classParts_classPart]
    exact (h.words s.name List.mem_cons_self).1.toList_ne_nil
  rw [parseChars_eq, htokenOf, hrest, if_neg (not_or.2 ⟨hne, h.not_mem_rest gap⟩), hsplit]
  simp only [if_neg hname]
  rw [h.ofParts_eq (Text.takeWhile_append_eq hindent hhead) hrest]

namespace Proper

theorem isTokenChar_of_mem_token (h : s.Proper) : ∀ c ∈ s.token, isTokenChar c := by
  rw [token, List.forall_mem_append, List.forall_mem_cons]
  exact ⟨fun c hc => isTokenChar_of_isWordChar (h.tag.isWordChar c hc), by decide,
    h.legible.isTokenChar_of_mem_classPart⟩

theorem tagAndClass?_token (h : s.Proper) (defaultTag : List Char) :
    tagAndClass? defaultTag s.token = some (s.tag.toList, s.classPart) :=
  tagAndClass?_of_not_mem h.tag.toList_ne_nil (by simp [classPart])
    (Text.not_mem_of_holds h.tag.isWordChar rfl) h.legible.not_mem_classPart

theorem parseChars_write (h : s.Proper) (hindent : ∀ c ∈ indent, Text.isBlank c)
    (hgap : s.text ≠ none → 0 < gap) :
    parseChars defaultTag number seen (s.write indent gap) =
      .ok (some (s.toLine seen indent gap)) :=
  h.legible.parseChars_append hindent hgap h.isTokenChar_of_mem_token
    (h.tagAndClass?_token defaultTag)

end Proper

end Shorthand

/-- Reading undoes writing, and it gives nothing that could not be written. -/
theorem parse_write (defaultTag : String) (number : Nat) (seen : Bool) :
    (∀ (s : Shorthand) (indent : List Char) (gap : Nat), s.Proper →
      (∀ c ∈ indent, Text.isBlank c) → (s.text ≠ none → 0 < gap) →
      ∃ modifiers : List String,
        modifiers.Pairwise (· < ·) ∧ (∀ m, m ∈ modifiers ↔ m ∈ s.modifiers) ∧
        parse defaultTag number seen (String.ofList (s.write indent gap)) =
          .ok (some
            { source := String.ofList (s.write indent gap)
              depth := if seen then indent.length else 0
              tag := s.tag
              name := if seen then .elem s.name else .block s.name
              modifiers := modifiers
              count := s.count
              text := s.text })) ∧
    ∀ line l, parse defaultTag number seen line = .ok (some l) →
      IsPlain l.name.text ∧ (l.modifiers ≠ [] → ¬ EndsInDash l.name.text) ∧
      ∀ m ∈ l.modifiers, IsPlain m := by
  constructor
  · intro s indent gap hs hindent hgap
    refine ⟨modifiersOf s.modifiers, pairwise_modifiersOf _, fun m => mem_modifiersOf, ?_⟩
    rw [parse, String.toList_ofList]
    exact hs.parseChars_write hindent hgap
  · intro line l h
    obtain ⟨left, name, mods, hpieces, hword, hne, rfl, hmods⟩ := exists_dashPieces h
    have hplain : ∀ w : String, w ≠ "" → w.toList ∈ l.name.text.toList :: mods → IsPlain w := by
      intro w hw hp
      have hall := List.all_eq_true.2 fun c hc => hword c (hpieces.subset hp hc)
      exact ⟨⟨hw, hall⟩, hpieces.not_infix hp⟩
    refine ⟨hplain _ (by simpa using hne) List.mem_cons_self, fun hmodifiers => ?_, fun m hm => ?_⟩
    · obtain ⟨m, hm⟩ := List.exists_mem_of_ne_nil _ hmodifiers
      exact hpieces.getLast?_ne (List.ne_nil_of_mem ((hmods m).1 hm).2)
    · obtain ⟨hm, hp⟩ := (hmods m).1 hm
      exact hplain m hm (List.mem_cons_of_mem _ hp)

theorem parse_write_item :
    (⟨"li", "item", ["wide", "active-"], 12, some "Two words"⟩ : Shorthand).Proper ∧
    parse "div" 4 true " \tli.item--wide--active-*12 Two words" =
      .ok (some ⟨" \tli.item--wide--active-*12 Two words", 2, "li", .elem "item",
        ["active-", "wide"], 12, some "Two words"⟩) ∧
    IsPlain "item" ∧ ¬ EndsInDash "item" ∧ IsPlain "active-" := by
  have hproper : (⟨"li", "item", ["wide", "active-"], 12, some "Two words"⟩ : Shorthand).Proper :=
    { tag := by decide +kernel
      words := by decide +kernel
      tight := by decide +kernel
      count := by decide
      text := by rintro t ⟨⟩; decide +kernel }
  have hindent : ∀ c ∈ [' ', '\t'], Text.isBlank c := List.all_eq_true.1 (by decide)
  obtain ⟨modifiers, hascending, hmem, hparse⟩ :=
    (parse_write "div" 4 true).1 _ [' ', '\t'] 1 hproper hindent (fun _ => Nat.one_pos)
  have hmodifiers : modifiers = ["active-", "wide"] :=
    hascending.eq_of_mem_iff (by decide +kernel) fun m => by simp [hmem, or_comm]
  subst hmodifiers
  have hline := (parse_write "div" 4 true).2 _ _ hparse
  exact ⟨hproper, hparse, hline.1, hline.2.1 (List.cons_ne_nil _ _),
    hline.2.2 "active-" List.mem_cons_self⟩

end BemOutline.Line

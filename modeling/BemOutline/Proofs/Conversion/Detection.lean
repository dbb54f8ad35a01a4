import BemOutline.Proofs.Bem.Cleaning
import BemOutline.Proofs.Conversion.FedBack
import BemOutline.Proofs.Results
import Mathlib.Data.List.TakeWhile

/-! The guess at the format of a text against the readers. The guess looks at one character, which
is also the first that the readers do not skip. -/

namespace BemOutline

def Text.firstMark? (cs : List Char) : Option Char := cs.find? fun c => !isBlank c

namespace Text

variable {c : Char} {cs : List Char}

theorem firstMark?_cons_of_blank (hc : isBlank c) : firstMark? (c :: cs) = firstMark? cs :=
  List.find?_cons_of_neg (by rw [hc]; exact Bool.false_ne_true)

theorem firstMark?_cons_of_not_blank (hc : isBlank c = false) : firstMark? (c :: cs) = some c :=
  List.find?_cons_of_pos (by rw [hc]; rfl)

theorem firstMark?_eq_none_iff : firstMark? cs = none ↔ allBlank cs = true := by
  rw [firstMark?, List.find?_eq_none, allBlank, List.all_eq_true]
  simp

theorem head?_dropWhile_isBlank (cs : List Char) :
    (cs.dropWhile isBlank).head? = firstMark? cs :=
  (List.find?_not_eq_head?_dropWhile isBlank cs).symm

end Text

open Text (firstMark?)

theorem Format.detectChars_eq (cs : List Char) : detectChars cs = (firstMark? cs).map fun c =>
    if c = '<' then html else if c = '\x7b' then json else pseudocode := by
  rw [detectChars, ← Text.head?_dropWhile_isBlank]
  cases cs.dropWhile Text.isBlank <;> rfl

theorem Line.isTokenChar_of_tokenOf {cs : List Char} (h : tokenOf cs ≠ []) :
    ∃ c, firstMark? cs = some c ∧ isTokenChar c = true := by
  rw [tokenOf] at h
  rw [← Text.head?_dropWhile_isBlank]
  cases hbody : cs.dropWhile Text.isBlank with
  | nil => simp [hbody] at h
  | cons c rest =>
    rw [hbody] at h
    refine ⟨c, rfl, ?_⟩
    by_contra hc
    exact h (List.takeWhile_cons_of_neg hc)

namespace Outline

theorem findSome?_splitAtChar (cs : List Char) :
    (Text.splitAtChar '\n' cs).findSome? firstMark? = firstMark? cs := by
  induction cs with
  | nil => rfl
  | cons c cs ih =>
    rw [Text.splitAtChar]
    by_cases hbreak : c = '\n'
    · subst hbreak
      rw [if_pos rfl, Text.firstMark?_cons_of_blank (by decide), ← ih]
      rfl
    · rw [if_neg hbreak]
      cases hpieces : Text.splitAtChar '\n' cs with
      | nil => exact absurd hpieces (Text.splitAtChar_ne_nil '\n' cs)
      | cons piece pieces =>
        rw [hpieces] at ih
        simp only [List.findSome?_cons] at ih ⊢
        by_cases hc : Text.isBlank c
        · rw [Text.firstMark?_cons_of_blank hc, Text.firstMark?_cons_of_blank hc]
          exact ih
        · have hc := Bool.eq_false_of_not_eq_true hc
          rw [Text.firstMark?_cons_of_not_blank hc, Text.firstMark?_cons_of_not_blank hc]

theorem firstMark?_dropReturn (line : List Char) :
    firstMark? (dropReturn line) = firstMark? line := by
  unfold dropReturn
  split
  · next hlast =>
    obtain ⟨rest, rfl⟩ := List.getLast?_eq_some_iff.1 hlast
    have hreturn : ['\r'].find? (fun c => !Text.isBlank c) = none := by decide
    rw [List.dropLast_concat, firstMark?, firstMark?, List.find?_append, hreturn, Option.or_none]
  · rfl

theorem findSome?_textLines (text : String) :
    (textLines text).findSome? firstMark? = firstMark? text.toList := by
  rw [← linesOf_eq, linesOf, List.findSome?_map, ← findSome?_splitAtChar]
  exact congrArg (fun f => List.findSome? f _) (funext firstMark?_dropReturn)

/-- The first line that is not blank must be readable, even if it is not accepted itself. -/
theorem isTokenChar_of_accept {tag : List Char} {number : Nat} {seen : Bool}
    {lines : List (List Char)} (h : (accept tag number seen lines).1 ≠ []) :
    ∃ c, lines.findSome? firstMark? = some c ∧ Line.isTokenChar c = true := by
  induction lines generalizing number seen with
  | nil => exact absurd rfl h
  | cons line lines ih =>
    rw [accept] at h
    by_cases hb : Text.allBlank line
    · rw [if_pos hb] at h
      obtain ⟨c, hc, htoken⟩ := ih h
      exact ⟨c, by rw [List.findSome?_cons, Text.firstMark?_eq_none_iff.2 hb, hc], htoken⟩
    · rw [if_neg hb] at h
      have hne : Line.tokenOf line ≠ [] := by
        intro hnil
        rw [Line.parseChars_eq, if_pos (.inl hnil)] at h
        exact h rfl
      obtain ⟨c, hc, htoken⟩ := Line.isTokenChar_of_tokenOf hne
      exact ⟨c, by rw [List.findSome?_cons, hc], htoken⟩

theorem detect_of_build {defaultTag text : String} {limit : Nat} {a : Arena}
    (h : build defaultTag limit text = .ok a) : Format.detect text = some .pseudocode := by
  have haccepted : (accept defaultTag.toList 1 false (textLines text)).1 ≠ [] := by
    have hne := (build_eq_ok h).1
    rw [acceptedLines] at hne
    exact fun hnil => hne (by rw [hnil, List.map_nil])
  obtain ⟨c, hc, htoken⟩ := isTokenChar_of_accept haccepted
  have htag : c ≠ '<' := by
    rintro rfl
    exact absurd htoken (by decide)
  have hbrace : c ≠ '\x7b' := by
    rintro rfl
    exact absurd htoken (by decide)
  rw [Format.detect, Format.detectChars_eq, ← findSome?_textLines, hc, Option.map_some,
    if_neg htag, if_neg hbrace]

end Outline

namespace Json

variable {cs rest : List Char} {fields : List (String × Json)} {v : Json}

theorem isBlank_of_isSpace {c : Char} (h : isSpace c = true) : Text.isBlank c = true := by
  simp only [isSpace, Bool.or_eq_true, decide_eq_true_eq] at h
  rcases h with ((rfl | rfl) | rfl) | rfl <;> decide

theorem firstMark?_skipSpace (cs : List Char) : firstMark? (skipSpace cs) = firstMark? cs := by
  induction cs with
  | nil => rfl
  | cons c cs ih =>
    by_cases hc : isSpace c
    · rw [Text.firstMark?_cons_of_blank (isBlank_of_isSpace hc), ← ih, skipSpace, skipSpace,
        List.dropWhile_cons_of_pos hc]
    · rw [skipSpace, List.dropWhile_cons_of_neg hc]

def isNumber : Json → Bool
  | int _ => true
  | float _ => true
  | _ => false

theorem isNumber_finishFloat {negative : Bool} {significand : Nat} {exponent : Int}
    (h : finishFloat negative significand exponent cs = .ok (v, rest)) : v.isNumber = true := by
  unfold finishFloat at h
  split at h
  · cases h
    rfl
  · cases h

theorem isNumber_readExponent {negative : Bool} {significand : Nat} {exponent : Int}
    (h : readExponent negative significand exponent cs = .ok (v, rest)) : v.isNumber = true := by
  unfold readExponent at h
  grind [isNumber, isNumber_finishFloat]

theorem isNumber_readExponent? {negative : Bool} {significand : Nat} {exponent : Int}
    (h : readExponent? negative significand exponent cs = .ok (v, rest)) : v.isNumber = true := by
  unfold readExponent? at h
  split at h
  · exact isNumber_readExponent h
  · exact isNumber_readExponent h
  · exact isNumber_finishFloat h

theorem isNumber_readFraction {negative : Bool} {significand : Nat} {exponent : Int}
    (h : readFraction negative significand exponent cs = .ok (v, rest)) : v.isNumber = true := by
  unfold readFraction at h
  split at h
  · cases h
  · split at h
    · exact isNumber_readExponent? h
    · cases h

theorem isNumber_readNumber {negative : Bool} (h : readNumber negative cs = .ok (v, rest)) :
    v.isNumber = true := by
  unfold readNumber at h
  grind [isNumber, isNumber_finishFloat, isNumber_readExponent, isNumber_readFraction]

theorem eq_of_readWord {word : List Char} {value : Json}
    (h : readWord value word cs = .ok (v, rest)) : v = value := by
  induction word generalizing cs with
  | nil => cases h; rfl
  | cons w ws ih =>
    cases cs with
    | nil => cases h
    | cons c cs =>
      rw [readWord] at h
      split at h
      · exact ih h
      · cases h

theorem skipSpace_of_readValue_obj {size depth : Nat}
    (h : readValue size depth cs = .ok (.obj fields, rest)) :
    ∃ tail, skipSpace cs = '\x7b' :: tail := by
  unfold readValue at h
  split at h
  · cases h
  · next c tail hcs =>
    have hbrace : c = '\x7b' := by
      by_contra hc
      rw [if_neg hc] at h
      split_ifs at h with hnull htrue hfalse hminus hdigit hquote hbracket
      · cases eq_of_readWord h
      · cases eq_of_readWord h
      · cases eq_of_readWord h
      · cases isNumber_readNumber h
      · cases isNumber_readNumber h
      · obtain ⟨r, -, hstring⟩ := bind_eq_ok_iff.1 h
        cases hstring
      · cases depth with
        | zero => cases h
        | succ depth =>
          obtain ⟨r, -, hitems⟩ := bind_eq_ok_iff.1 h
          cases hitems
    exact ⟨tail, by rw [hcs, hbrace]⟩

theorem detect_of_read {text : String} (h : Json.read text = .ok (.obj fields)) :
    Format.detect text = some .json := by
  have hread : readChars? text.toList = .ok (.obj fields) := by
    rw [Json.read] at h
    cases hchars : readChars? text.toList with
    | error fault => simp [hchars] at h
    | ok v => simpa [hchars] using h
  obtain ⟨⟨v, rest⟩, hvalue, hend⟩ := bind_eq_ok_iff.1 hread
  simp only at hend
  split at hend
  · cases hend
    obtain ⟨tail, htail⟩ := skipSpace_of_readValue_obj hvalue
    rw [Format.detect, Format.detectChars_eq, ← firstMark?_skipSpace, htail,
      Text.firstMark?_cons_of_not_blank (by decide)]
    rfl
  · cases hend

end Json

namespace Conversion

open Bem

variable {s : Settings} {text : String} {n : Node} {source target : Format} {c : Converted}

theorem detect_of_nodeOfOutline (h : (nodeOfOutline s text).result = .ok n) :
    Format.detect text = some .pseudocode := by
  obtain ⟨a, -, hbuild, -⟩ := exists_document_of_nodeOfOutline h
  exact Outline.detect_of_build hbuild

theorem detect_of_nodeOfJson (h : nodeOfJson s text = .ok n) :
    Format.detect text = some .json := by
  rw [nodeOfJson] at h
  cases hraw : Json.read text with
  | error e => simp [hraw] at h
  | ok raw =>
    simp only [hraw] at h
    rw [nodeOfRaw, clean_eq] at h
    split_ifs at h
    -- cleaning makes no object of what was none
    cases raw with
    | obj fields => exact Json.detect_of_read hraw
    | _ => cases h

theorem converter_of_standard {converter : Converter}
    (h : standard.get? source target = some converter) :
    source = .pseudocode ∧ converter = fromOutline ∨ source = .json ∧ converter = fromJson := by
  cases source <;> cases target <;> first
    | (cases h; exact .inl ⟨rfl, rfl⟩)
    | (cases h; exact .inr ⟨rfl, rfl⟩)
    | cases h

theorem detect_of_convertFrom (h : (convertFrom s text source target).result = .ok c) :
    Format.detect text = some source := by
  cases hconverter : standard.get? source target with
  | none =>
    rw [convertFrom, hconverter] at h
    cases h
  | some converter =>
    have hout := output_convertFrom hconverter s text
    rw [h] at hout
    obtain ⟨rfl, rfl⟩ | ⟨rfl, rfl⟩ := converter_of_standard hconverter
    · rw [fromOutline, Outcome.result_andThen] at hout
      obtain ⟨n, hn, -⟩ := bind_eq_ok_iff.1 hout.symm
      exact detect_of_nodeOfOutline hn
    · rw [fromJson, Outcome.result_andThen] at hout
      obtain ⟨n, hn, -⟩ := bind_eq_ok_iff.1 hout.symm
      exact detect_of_nodeOfJson hn

/-- A text that converts from a format is taken for that format when none is named, and converts
from no other. -/
theorem detect_of_tryConvert {target : Option Format}
    (h : (tryConvert s text ⟨some source, target⟩).result = .ok c) :
    Format.detect text = some source ∧
      tryConvert s text ⟨none, target⟩ = tryConvert s text ⟨some source, target⟩ ∧
      ∀ s' source' target' c', (tryConvert s' text ⟨some source', target'⟩).result = .ok c' →
        source' = source := by
  have hdetect : Format.detect text = some source := detect_of_convertFrom h
  refine ⟨hdetect, ?_, fun s' source' target' c' h' => ?_⟩
  · rw [tryConvert, tryConvert, hdetect]
    rfl
  · have hdetect' : Format.detect text = some source' := detect_of_convertFrom h'
    exact Option.some.inj (hdetect'.symm.trans hdetect)

/-- A line without a name in front of the root, behind blanks that are no JSON. -/
theorem detect_of_tryConvert_nameless :
    ∃ c, (tryConvert {} "\u3000\n\x0b*2\nul\n  li" ⟨some .pseudocode, some .css⟩).result = .ok c ∧
      Format.detect "\u3000\n\x0b*2\nul\n  li" = some .pseudocode ∧
      tryConvert {} "\u3000\n\x0b*2\nul\n  li" ⟨none, some .css⟩ =
        tryConvert {} "\u3000\n\x0b*2\nul\n  li" ⟨some .pseudocode, some .css⟩ ∧
      ∀ s target c,
        (tryConvert s "\u3000\n\x0b*2\nul\n  li" ⟨some .json, target⟩).result ≠ .ok c := by
  have hok : (tryConvert {} "\u3000\n\x0b*2\nul\n  li"
      ⟨some .pseudocode, some .css⟩).result.isOk := by decide +kernel
  cases hresult : (tryConvert {} "\u3000\n\x0b*2\nul\n  li"
      ⟨some .pseudocode, some .css⟩).result with
  | error e =>
    rw [hresult] at hok
    cases hok
  | ok c =>
    obtain ⟨hdetect, hsame, honly⟩ := detect_of_tryConvert hresult
    refine ⟨c, rfl, hdetect, hsame, fun s target c' h => ?_⟩
    cases honly s .json target c' h

end Conversion

end BemOutline

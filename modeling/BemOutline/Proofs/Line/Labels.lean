import BemOutline.Line.Label
import BemOutline.Proofs.Line.Canonical

/-! Labels take one line. What a token holds has no line breaks, and in a quoted text they are
spelt as escapes. -/

namespace BemOutline

namespace Text

theorem ne_of_mem_toDigits {n : Nat} {c d : Char} (hd : ∀ k, Nat.digitChar k ≠ d)
    (hc : c ∈ Nat.toDigits 16 n) : c ≠ d := by
  induction n using Nat.strong_induction_on with
  | _ n ih =>
    rw [Nat.toDigits_eq_if (by decide)] at hc
    split at hc
    · rw [List.mem_singleton.1 hc]
      exact hd n
    · rcases List.mem_append.1 hc with hc | hc
      · exact ih (n / 16) (by omega) hc
      · rw [List.mem_singleton.1 hc]
        exact hd (n % 16)

theorem not_mem_quotedChar (c : Char) : '\n' ∉ quotedChar c := by
  have hdigits : '\n' ∉ hexDigits c.toNat :=
    fun hmem => ne_of_mem_toDigits (fun k => Nat.digitChar_ne '\n' (by decide)) hmem rfl
  unfold quotedChar
  split_ifs with htab hreturn hbreak hnul hquote hslash hcode
  iterate 6 decide
  · rw [List.mem_append, List.mem_append, not_or, not_or]
    exact ⟨⟨by decide, hdigits⟩, by decide⟩
  · exact fun hmem => hbreak (List.mem_singleton.1 hmem).symm

theorem not_mem_quoted (s : String) : '\n' ∉ (quoted s).toList := by
  rw [quoted, String.toList_ofList, quotedChars]
  simp [not_mem_quotedChar]

end Text

namespace Line

/-- Whether the tag, the name and the modifiers hold no line break. -/
structure Unbroken (l : Line) : Prop where
  tag : '\n' ∉ l.tag.toList
  name : '\n' ∉ l.name.text.toList
  modifiers : ∀ m ∈ l.modifiers, '\n' ∉ m.toList

variable {l : Line}

theorem Unbroken.not_mem_label (h : l.Unbroken) : '\n' ∉ l.label.toList := by
  rw [label]
  simp only [String.toList_append, List.mem_append, not_or]
  refine ⟨⟨⟨?named, ?modifiers⟩, ?count⟩, ?text⟩
  case named =>
    have hname := h.name
    split <;> next s hs =>
      rw [hs, Name.text] at hname
      simp [h.tag, hname]
  case modifiers =>
    simpa [String.toList_join] using h.modifiers
  case count =>
    split_ifs
    · have hdigits := Text.not_mem_of_holds (fun _ => Text.isDigit_of_mem_toDigits (n := l.count))
        (show Text.isDigit '\n' = false by decide)
      simpa [Nat.repr_eq_ofList_toDigits] using hdigits
    · exact List.not_mem_nil
  case text =>
    split
    · simp [Text.not_mem_quoted]
    · exact List.not_mem_nil

theorem IsPlain.not_mem {w : String} (h : IsPlain w) : '\n' ∉ w.toList :=
  Text.not_mem_of_holds h.1.isWordChar (by decide)

theorem unbroken_of_parseChars {defaultTag : String} {number : Nat} {seen : Bool} {cs : List Char}
    (h : parseChars defaultTag.toList number seen cs = .ok (some l))
    (htag : '\n' ∉ defaultTag.toList) : l.Unbroken := by
  have hc := canonical_shorthand h
  refine ⟨?_, (hc.words _ List.mem_cons_self).not_mem,
    fun m hm => (hc.words m (List.mem_cons_of_mem _ hm)).not_mem⟩
  obtain heq | hword := hc.tag
  · change '\n' ∉ l.shorthand.tag.toList
    rwa [heq]
  · refine Text.not_mem_of_holds (p := fun c => isTokenChar c && c ≠ '.') ?_ (by decide)
    exact List.all_eq_true.1 hword.2

end Line

end BemOutline

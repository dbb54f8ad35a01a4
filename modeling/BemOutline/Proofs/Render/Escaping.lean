import BemOutline.Proofs.Json.Scalars
import BemOutline.Render.Html

/-! Escaped text holds none of the characters that markup is made of, and gives back the text. -/

namespace BemOutline.Render.Html

open Text (isDigit)

variable {c : Char} {cs ds : List Char}

def unescape : List Char → List Char
  | '&' :: 'a' :: 'm' :: 'p' :: ';' :: cs => '&' :: unescape cs
  | '&' :: 'l' :: 't' :: ';' :: cs => '<' :: unescape cs
  | '&' :: 'g' :: 't' :: ';' :: cs => '>' :: unescape cs
  | '&' :: 'q' :: 'u' :: 'o' :: 't' :: ';' :: cs => '"' :: unescape cs
  | c :: cs => c :: unescape cs
  | [] => []

theorem unescape_cons (hc : c ≠ '&') (cs : List Char) : unescape (c :: cs) = c :: unescape cs := by
  rw [unescape]
  all_goals exact fun _ he => absurd he hc

theorem unescape_escapedTextChar (c : Char) (cs : List Char) :
    unescape (escapedTextChar c ++ cs) = c :: unescape cs := by
  unfold escapedTextChar
  split_ifs with hamp hlt hgt
  · subst hamp
    rfl
  · subst hlt
    rfl
  · subst hgt
    rfl
  · exact unescape_cons hamp cs

theorem unescape_escapedAttrChar (c : Char) (cs : List Char) :
    unescape (escapedAttrChar c ++ cs) = c :: unescape cs := by
  unfold escapedAttrChar
  split_ifs with hquote
  · subst hquote
    rfl
  · exact unescape_escapedTextChar c cs

theorem unescape_escapeText (cs : List Char) : unescape (escapeText cs) = cs := by
  unfold escapeText
  induction cs with
  | nil => rfl
  | cons c cs ih => rw [List.flatMap_cons, unescape_escapedTextChar, ih]

theorem unescape_escapeAttr (cs : List Char) : unescape (escapeAttr cs) = cs := by
  unfold escapeAttr
  induction cs with
  | nil => rfl
  | cons c cs ih => rw [List.flatMap_cons, unescape_escapedAttrChar, ih]

def Bare (cs : List Char) : Prop := ∀ c ∈ cs, c ≠ '<' ∧ c ≠ '>'

instance : DecidablePred Bare := List.decidableBAll _

theorem Bare.append (hcs : Bare cs) (hds : Bare ds) : Bare (cs ++ ds) :=
  List.forall_mem_append.2 ⟨hcs, hds⟩

theorem bare_escapedTextChar (c : Char) : Bare (escapedTextChar c) := by
  unfold escapedTextChar
  split_ifs with hamp hlt hgt
  · decide
  · decide
  · decide
  · exact List.forall_mem_singleton.2 ⟨hlt, hgt⟩

theorem bare_escapedAttrChar (c : Char) : Bare (escapedAttrChar c) := by
  unfold escapedAttrChar
  split_ifs
  · decide
  · exact bare_escapedTextChar c

theorem bare_escapeText (cs : List Char) : Bare (escapeText cs) := by
  intro c hc
  obtain ⟨d, -, hd⟩ := List.mem_flatMap.1 hc
  exact bare_escapedTextChar d c hd

theorem bare_escapeAttr (cs : List Char) : Bare (escapeAttr cs) := by
  intro c hc
  obtain ⟨d, -, hd⟩ := List.mem_flatMap.1 hc
  exact bare_escapedAttrChar d c hd

theorem quote_notMem_escapeAttr (cs : List Char) : '"' ∉ escapeAttr cs := by
  intro hmem
  obtain ⟨c, -, hc⟩ := List.mem_flatMap.1 hmem
  unfold escapedAttrChar at hc
  split_ifs at hc with hquote
  · exact absurd hc (by decide)
  · unfold escapedTextChar at hc
    split_ifs at hc with hamp hlt hgt
    · exact absurd hc (by decide)
    · exact absurd hc (by decide)
    · exact absurd hc (by decide)
    · exact hquote (List.mem_singleton.1 hc).symm

def Numeral (cs : List Char) : Prop := ∀ c ∈ cs, isDigit c ∨ c ∈ ['-', '+', '.', 'e']

instance : DecidablePred Numeral := List.decidableBAll _

theorem Numeral.append (hcs : Numeral cs) (hds : Numeral ds) : Numeral (cs ++ ds) :=
  List.forall_mem_append.2 ⟨hcs, hds⟩

theorem Numeral.of_subset (hds : Numeral ds) (h : ∀ c ∈ cs, c ∈ ds) : Numeral cs :=
  fun c hc => hds c (h c hc)

theorem numeral_toDigits (n : Nat) : Numeral (Nat.toDigits 10 n) :=
  fun _ hc => .inl (Text.isDigit_of_mem_toDigits hc)

theorem numeral_intChars (n : Int) : Numeral (Json.intChars n) := by
  have hdigits := numeral_toDigits n.natAbs
  unfold Json.intChars
  split_ifs
  · exact List.forall_mem_cons.2 ⟨.inr (by decide), hdigits⟩
  · exact hdigits

theorem numeral_zeros (n : Nat) : Numeral (Decimal.zeros n) := by
  intro c hc
  rw [List.eq_of_mem_replicate hc]
  exact .inl (by decide)

theorem numeral_exponent (style : Decimal.Layout) (e : Int) : Numeral (style.exponent e) := by
  have hsign : Numeral (if e < 0 then ['-'] else if style.expPlus then ['+'] else []) := by
    split_ifs <;> decide
  exact List.forall_mem_cons.2 ⟨.inr (by decide), hsign.append (numeral_toDigits _)⟩

theorem numeral_place (style : Decimal.Layout) (d : Decimal.Digits) : Numeral (style.place d) := by
  have hdigits := numeral_toDigits d.digits
  unfold Decimal.Layout.place
  dsimp only
  split_ifs
  · exact (hdigits.append (numeral_zeros _)).append (by decide)
  · exact (hdigits.append (numeral_zeros _)).append nofun
  · exact (hdigits.of_subset fun _ => List.mem_of_mem_take).append
      (List.forall_mem_cons.2 ⟨.inr (by decide), hdigits.of_subset fun _ => List.mem_of_mem_drop⟩)
  · exact (Numeral.append (by decide) (numeral_zeros _)).append hdigits
  · generalize Nat.toDigits 10 d.digits = ds at hdigits ⊢
    match ds, hdigits with
    | [], _ => exact nofun
    | [c], hdigits => exact hdigits.append (numeral_exponent _ _)
    | c :: c' :: cs, hdigits =>
      obtain ⟨hc, hcs⟩ := List.forall_mem_cons.1 hdigits
      exact List.forall_mem_cons.2 ⟨hc, List.forall_mem_cons.2
        ⟨.inr (by decide), Numeral.append hcs (numeral_exponent _ _)⟩⟩

theorem numeral_renderChars (style : Decimal.Layout) (bits : UInt64) :
    Numeral (style.renderChars bits) := by
  have hsign : Numeral (if bits >>> 63 = 1 then ['-'] else []) := by
    split_ifs <;> decide
  have hzero : Numeral (if style.pointZero then ['0', '.', '0'] else ['0']) := by
    split_ifs <;> decide
  unfold Decimal.Layout.renderChars
  dsimp only
  by_cases hmagnitude : bits &&& 0x7FFFFFFFFFFFFFFF = 0
  · rw [if_pos hmagnitude]
    exact hsign.append hzero
  · rw [if_neg hmagnitude]
    exact hsign.append (numeral_place _ _)

theorem numeral_floatChars (x : Float) : Numeral (Json.floatChars x) := numeral_renderChars _ _

theorem escapeAttr_of_numeral (hcs : Numeral cs) : escapeAttr cs = cs := by
  have hchar : ∀ c ∈ cs, escapedAttrChar c = [c] := by
    intro c hc
    have hne : c ≠ '"' ∧ c ≠ '&' ∧ c ≠ '<' ∧ c ≠ '>' := by
      refine ⟨?_, ?_, ?_, ?_⟩ <;>
      · rintro rfl
        exact absurd (hcs _ hc) (by decide)
    unfold escapedAttrChar escapedTextChar
    rw [if_neg hne.1, if_neg hne.2.1, if_neg hne.2.2.1, if_neg hne.2.2.2]
  unfold escapeAttr
  rw [List.flatMap_congr hchar, List.flatMap_singleton']

end BemOutline.Render.Html

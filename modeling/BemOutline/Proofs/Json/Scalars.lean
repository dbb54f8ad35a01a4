import BemOutline.Json.Printer
import BemOutline.Json.Reader
import BemOutline.Proofs.Json.Fields
import BemOutline.Proofs.Text.Digits

/-! Strings and integers are read back as they were written. -/

namespace BemOutline.Json

open Text (isDigit digitValue hexValue? exists_toDigits_eq)

variable {rest : List Char} {c : Char} {bound n : Nat}

theorem hexValue?_digitChar : ∀ d < 16, hexValue? (Nat.digitChar d) = some d := by decide

theorem hexValue?_unitHex (n : Nat) : hexValue? (unitHex n) = some (n % 16) :=
  hexValue?_digitChar _ (Nat.mod_lt _ (by decide))

theorem length_le_byteLength (cs : List Char) : cs.length ≤ byteLength cs := by
  induction cs with
  | nil => exact le_rfl
  | cons c cs ih =>
    have hc := c.utf8Size_pos
    rw [List.length_cons, byteLength]
    omega

theorem readHex4_of_lt (hn : n < 256) (rest : List Char) :
    readHex4 ('0' :: '0' :: unitHex (n / 16) :: unitHex n :: rest) = .ok (n, rest) := by
  have hlen := length_le_byteLength ['0', '0', unitHex (n / 16), unitHex n]
  have hzero : hexValue? '0' = some 0 := by decide
  have hvalue : ((0 * 16 + 0) * 16 + n / 16 % 16) * 16 + n % 16 = n := by omega
  have hbytes : ¬ byteLength (('0' :: '0' :: unitHex (n / 16) :: unitHex n :: rest).take 4) < 4 :=
    Nat.not_lt.2 hlen
  rw [readHex4, if_neg hbytes]
  simp only [hzero, hexValue?_unitHex, hvalue]

theorem readEscape_control (hc : c.toNat < 0x20) (rest : List Char) :
    readEscape ('u' :: '0' :: '0' :: unitHex (c.toNat / 16) :: unitHex c.toNat :: rest) =
      .ok (c, rest) := by
  change readUnicodeEscape _ = _
  have hhex := readHex4_of_lt (n := c.toNat) (by omega) rest
  have hhigh : ¬ (0xDC00 ≤ c.toNat ∧ c.toNat ≤ 0xDFFF) := by omega
  have hlow : c.toNat < 0xD800 ∨ 0xDBFF < c.toNat := by omega
  simp only [readUnicodeEscape, hhex, bind, Except.bind]
  rw [if_neg hhigh, if_pos hlow, Char.ofNat_toNat]

theorem readChars_escape {cs : List Char} (h : readEscape cs = .ok (c, rest)) :
    readChars (bound + 1) ('\\' :: cs) =
      (readChars bound rest).map fun r => (c :: r.1, r.2) := by
  rw [readChars, if_neg (by decide), if_pos rfl, h]
  rfl

theorem readChars_escapedChar (bound : Nat) (c : Char) (rest : List Char) :
    readChars (bound + 1) (escapedChar c ++ rest) =
      (readChars bound rest).map fun r => (c :: r.1, r.2) := by
  rw [escapedChar]
  split_ifs with h1 h2 h3 h4 h5 h6 h7 h8
  · subst h1
    exact readChars_escape rfl
  · subst h2
    exact readChars_escape rfl
  · subst h3
    exact readChars_escape rfl
  · subst h4
    exact readChars_escape rfl
  · subst h5
    exact readChars_escape rfl
  · subst h6
    exact readChars_escape rfl
  · subst h7
    exact readChars_escape rfl
  · exact readChars_escape (readEscape_control h8 rest)
  · rw [List.singleton_append, readChars, if_neg h1, if_neg h2, if_neg h8]
    rfl

theorem readChars_flatMap_escapedChar (cs rest : List Char) (hb : cs.length < bound) :
    readChars bound (cs.flatMap escapedChar ++ '"' :: rest) = .ok (cs, rest) := by
  induction cs generalizing bound with
  | nil =>
    obtain ⟨bound, rfl⟩ := Nat.exists_eq_add_one.2 hb
    rw [List.flatMap_nil, List.nil_append, readChars, if_pos rfl]
  | cons c cs ih =>
    obtain ⟨bound, rfl⟩ := Nat.exists_eq_add_one.2 (Nat.zero_lt_of_lt hb)
    have hcs : cs.length < bound := Nat.lt_of_succ_lt_succ hb
    rw [List.flatMap_cons, List.append_assoc, readChars_escapedChar, ih hcs, Except.map]

theorem length_le_flatMap_escapedChar (cs : List Char) :
    cs.length ≤ (cs.flatMap escapedChar).length := by
  have hone : ∀ c, 1 ≤ (escapedChar c).length := by
    intro c
    rw [escapedChar]
    split_ifs <;> simp
  induction cs with
  | nil => exact le_rfl
  | cons c cs ih =>
    have hc := hone c
    rw [List.flatMap_cons, List.length_append, List.length_cons]
    omega

/-- What may stand behind a number: nothing that the number could go on with. -/
def EndsNumber (rest : List Char) : Prop :=
  ∀ c ∈ rest.head?, isDigit c = false ∧ c ≠ '.' ∧ c ≠ 'e' ∧ c ≠ 'E'

theorem endsNumber_nil : EndsNumber [] := by
  intro c hc
  cases hc

theorem endsNumber_cons (h : isDigit c = false ∧ c ≠ '.' ∧ c ≠ 'e' ∧ c ≠ 'E') :
    EndsNumber (c :: rest) := by
  intro d hd
  cases hd
  exact h

theorem EndsNumber.any_head? (h : EndsNumber rest) : rest.head?.any isDigit = false := by
  cases rest with
  | nil => rfl
  | cons c rest => exact (h c rfl).1

theorem EndsNumber.takeWhile_isDigit (h : EndsNumber rest) : rest.takeWhile isDigit = [] := by
  cases rest with
  | nil => rfl
  | cons c rest =>
    have hc := (h c rfl).1
    exact List.takeWhile_cons_of_neg (hc ▸ Bool.false_ne_true)

theorem le_ofDigitChars (ds : List Char) (n : Nat) : n ≤ Nat.ofDigitChars 10 ds n := by
  induction ds generalizing n with
  | nil => exact le_rfl
  | cons d ds ih =>
    have hle := ih (10 * n + (d.toNat - '0'.toNat))
    rw [Nat.ofDigitChars_cons]
    omega

theorem gatherDigits_append {ds : List Char} (hds : ∀ d ∈ ds, isDigit d)
    (hle : Nat.ofDigitChars 10 ds n ≤ bound) (hrest : EndsNumber rest) (taken : Nat) :
    gatherDigits bound n taken (ds ++ rest) =
      (Nat.ofDigitChars 10 ds n, taken + ds.length, rest) := by
  induction ds generalizing n taken with
  | nil =>
    cases rest with
    | nil => rfl
    | cons c rest =>
      have hc : isDigit c = false := (hrest c rfl).1
      rw [List.nil_append, gatherDigits, hc, Bool.false_and, if_neg Bool.false_ne_true]
      rfl
  | cons d ds ih =>
    have hvalue : n * 10 + digitValue d = 10 * n + (d.toNat - '0'.toNat) := by
      rw [digitValue, Nat.mul_comm]
    have hnext := (le_ofDigitChars ds (10 * n + (d.toNat - '0'.toNat))).trans hle
    have hd : (isDigit d && decide (n * 10 + digitValue d ≤ bound)) = true := by
      rw [hds d List.mem_cons_self, hvalue, Bool.true_and]
      exact decide_eq_true hnext
    rw [List.cons_append, gatherDigits, if_pos hd, hvalue,
      ih (fun x hx => hds x (List.mem_cons_of_mem _ hx)) hle, List.length_cons,
      Nat.add_assoc, Nat.add_comm 1]
    rfl

theorem readNumber_toDigits (negative : Bool) (hn : n ≤ maxSignificand) (hrest : EndsNumber rest) :
    readNumber negative (Nat.toDigits 10 n ++ rest) =
      if negative = false then .ok (.int n, rest)
      else if n = 0 ∨ Nat.pow 2 63 < n then .ok (.float (-Float.ofNat n), rest)
      else .ok (.int (-n), rest) := by
  obtain ⟨d, ds, hdigits, hd, hds, hvalue, hzero⟩ := exists_toDigits_eq n
  have hlead : ¬ (d = '0' ∧ (ds ++ rest).head?.any isDigit) := by
    rintro ⟨h0, hany⟩
    rw [hzero h0, List.nil_append, hrest.any_head?] at hany
    cases hany
  have hgather := gatherDigits_append hds (hvalue.trans_le hn) hrest 0
  rw [hdigits, List.cons_append, readNumber, if_neg hlead, if_pos hd]
  simp only [hgather, hvalue, hrest.takeWhile_isDigit, List.length_nil, List.drop_zero]
  split
  · exact absurd rfl (hrest _ rfl).2.1
  · exact absurd rfl (hrest _ rfl).2.2.1
  · exact absurd rfl (hrest _ rfl).2.2.2
  · simp

end BemOutline.Json

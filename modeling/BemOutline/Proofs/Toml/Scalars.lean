import BemOutline.Proofs.Text.Digits
import BemOutline.Proofs.Text.Pieces
import BemOutline.Proofs.Toml.Quotation
import BemOutline.Toml.Reader

/-! Texts, numbers and flags are read back as values from the end of a line. -/

namespace BemOutline.Toml

open Text (isDigit digitsValue hexValue? baseValue takeWhile_append_eq isDigit_of_mem_toDigits
  exists_toDigits_eq ne_of_holds)

variable {c e : Char} {cs ds w rest : List Char} {v : Toml} {n : Nat}

/-- Whether a text at the end of a line is read as a value, whatever the next lines hold. -/
structure Value (w : List Char) (v : Toml) : Prop where
  head : ∃ c cs, w = c :: cs ∧ isSpace c = false
  read : ∀ size rest, readValue size maxDepth (w ++ '\n' :: rest) = some (v, '\n' :: rest)

theorem readValue_scalar (hlist : c ≠ '[') (htable : c ≠ '\x7b') (size depth : Nat) :
    readValue size depth (c :: cs) = readScalar (c :: cs) := by
  have hbracket : dropWord? ['['] (c :: cs) = none := if_neg hlist
  have hbrace : dropWord? ['\x7b'] (c :: cs) = none := if_neg htable
  rw [readValue.eq_def, hbracket, hbrace]

theorem value_of_readScalar (hc : isSpace c = false) (hlist : c ≠ '[') (htable : c ≠ '\x7b')
    (h : ∀ rest, readScalar (c :: (cs ++ '\n' :: rest)) = some (v, '\n' :: rest)) :
    Value (c :: cs) v where
  head := ⟨c, cs, rfl, hc⟩
  read size rest := by
    rw [List.cons_append, readValue_scalar hlist htable, h]

theorem value_writeText (s : String) : Value (writeText s) (.str s) := by
  have hrest : ∀ (rest : List Char) (q : Quotation), ('\n' :: rest).head? ≠ some q.mark := by
    intro rest q
    cases q <;> simp [Quotation.mark]
  have hread := fun rest => readText_writeText s (hrest rest)
  obtain ⟨cs, hcs⟩ : ∃ cs, writeText s = (Quotation.chosenFor s.toList).mark :: cs := by
    rw [writeText, Quotation.write_eq, Quotation.delimiter]
    split_ifs <;> exact ⟨_, rfl⟩
  generalize Quotation.chosenFor s.toList = q at hcs
  rw [hcs] at hread ⊢
  apply value_of_readScalar (by cases q <;> rfl) (by cases q <;> decide) (by cases q <;> decide)
  intro rest
  obtain ⟨q', hsingle⟩ : ∃ q', Quotation.single? (q.mark :: (cs ++ '\n' :: rest)) = some q' := by
    cases q <;> exact ⟨_, rfl⟩
  rw [readScalar, hsingle]
  simp only
  rw [← List.cons_append, hread, Option.map_some]

theorem readField_digits {width low high : Nat} (hds : ∀ d ∈ ds, isDigit d)
    (he : isDigit e = false) (h : readField width low high (ds ++ e :: rest) = some (n, cs)) :
    ∃ ds', (∀ d ∈ ds', isDigit d) ∧ cs = ds' ++ e :: rest := by
  rw [readField] at h
  simp only [List.length_take] at h
  split_ifs at h with hfield
  obtain ⟨hlen, hall, -⟩ := hfield
  cases h
  refine ⟨ds.drop width, fun d hd => hds d (List.mem_of_mem_drop hd), ?_⟩
  have hle : width ≤ ds.length := by
    by_contra hlt
    have hmem : e ∈ (ds ++ e :: rest).take width := by
      obtain ⟨k, hk⟩ : ∃ k, width - ds.length = k + 1 := ⟨width - ds.length - 1, by omega⟩
      rw [List.take_append, hk, List.take_succ_cons]
      exact List.mem_append_right _ List.mem_cons_self
    have := List.all_eq_true.1 hall e hmem
    rw [he] at this
    cases this
  rw [List.drop_append_of_le_length hle]

theorem dropWord?_digits {m : Char} (hds : ∀ d ∈ ds, isDigit d) (hm : isDigit m = false)
    (he : e ≠ m) : dropWord? [m] (ds ++ e :: rest) = none := by
  cases ds with
  | nil => rw [List.nil_append, dropWord?, if_neg he]
  | cons d ds =>
    have hd := ne_of_holds (hds d List.mem_cons_self) m hm
    rw [List.cons_append, dropWord?, if_neg hd]

theorem readMoment_digits (hds : ∀ d ∈ ds, isDigit d) (he : isDigit e = false) (hdash : e ≠ '-')
    (hcolon : e ≠ ':') : readMoment (ds ++ e :: rest) = none := by
  have hdate : dropDate? (ds ++ e :: rest) = none := by
    rw [dropDate?]
    cases h : readField 4 0 9999 (ds ++ e :: rest) with
    | none => rfl
    | some r =>
      obtain ⟨ds', hds', heq⟩ := readField_digits hds he h
      simp only [Option.bind_eq_bind, Option.bind_some, heq,
        dropWord?_digits hds' (rfl : isDigit '-' = false) hdash, Option.bind_none]
  have htime : dropTime? (ds ++ e :: rest) = none := by
    rw [dropTime?]
    cases h : readField 2 0 23 (ds ++ e :: rest) with
    | none => rfl
    | some r =>
      obtain ⟨ds', hds', heq⟩ := readField_digits hds he h
      simp only [Option.bind_eq_bind, Option.bind_some, heq,
        dropWord?_digits hds' (rfl : isDigit ':' = false) hcolon, Option.bind_none]
  rw [readMoment, hdate, htime]
  rfl

theorem readDigits_digits (hds : ∀ d ∈ ds, isDigit d) (hne : ds ≠ []) (he : isDigit e = false)
    (hunderscore : e ≠ '_') :
    readDigits isDigit (ds ++ e :: rest) = some (ds, e :: rest) := by
  have hrun : (ds ++ e :: rest).takeWhile (fun c => isDigit c || c = '_') = ds := by
    apply takeWhile_append_eq
    · intro d hd
      rw [hds d hd, Bool.true_or]
    · intro d hd
      cases hd
      simp [he, hunderscore]
  have hsplit : Text.splitAtChar '_' ds = [ds] :=
    Text.splitAtChar_of_not_mem fun h => Bool.false_ne_true (hds _ h)
  rw [readDigits]
  simp only [hrun, hsplit, List.all_cons, List.all_nil, List.flatten_cons, List.flatten_nil,
    List.append_nil, List.drop_left]
  simp [hne]

theorem baseValue_digits (hds : ∀ d ∈ ds, isDigit d) :
    baseValue 10 ds = Nat.ofDigitChars 10 ds 0 := by
  have hfold : ∀ start, ds.foldl (fun n c => 10 * n + (hexValue? c).getD 0) start =
      Nat.ofDigitChars 10 ds start := by
    induction ds with
    | nil => exact fun start => rfl
    | cons d ds ih =>
      intro start
      have hdigit := hds d List.mem_cons_self
      rw [isDigit, Bool.and_eq_true, decide_eq_true_eq, decide_eq_true_eq] at hdigit
      have hd : hexValue? d = some (d.toNat - '0'.toNat) := by rw [hexValue?, if_pos hdigit]
      rw [List.foldl_cons, Nat.ofDigitChars_cons, hd, Option.getD_some]
      exact ih (fun x hx => hds x (List.mem_cons_of_mem _ hx)) _
  exact hfold 0

theorem readWhole_digits (hds : ∀ x ∈ c :: cs, isDigit x) (hzero : c = '0' → cs = []) :
    readWhole (c :: cs ++ '\n' :: rest) = some (c :: cs, '\n' :: rest) := by
  have hread : readDigits isDigit (c :: cs ++ '\n' :: rest) = some (c :: cs, '\n' :: rest) :=
    readDigits_digits hds (List.cons_ne_nil c cs) rfl (by decide)
  rw [readWhole, hread]
  refine if_neg ?_
  rintro ⟨hhead, hlen⟩
  rw [hzero (Option.some.inj hhead)] at hlen
  exact Nat.lt_irrefl 1 hlen

theorem readNumber_digits (hds : ∀ x ∈ c :: cs, isDigit x) (hzero : c = '0' → cs = [])
    (hn : baseValue 10 (c :: cs) ≤ maxMagnitude) (rest : List Char) :
    readNumber (c :: cs ++ '\n' :: rest) =
      some (.int (baseValue 10 (c :: cs)), '\n' :: rest) := by
  have hne := ne_of_holds (hds c List.mem_cons_self)
  have htail : readTail ('\n' :: rest) = some (.none, '\n' :: rest) := rfl
  have hdecimal : ∀ text, readDecimal false text (c :: cs ++ '\n' :: rest) =
      some (.int (baseValue 10 (c :: cs)), '\n' :: rest) := by
    intro text
    rw [readDecimal, readWhole_digits hds hzero]
    simp only [htail]
    rw [if_neg Bool.false_ne_true, if_pos hn]
  have hsign : readSign (c :: cs ++ '\n' :: rest) = (none, c :: cs ++ '\n' :: rest) := by
    rw [List.cons_append, readSign, if_neg (hne '+' rfl), if_neg (hne '-' rfl)]
  have hradix : radix? (c :: cs ++ '\n' :: rest) = none := by
    cases cs with
    | nil => simp [radix?, base?]
    | cons d ds =>
      have h0 : c ≠ '0' := fun h0 => List.cons_ne_nil d ds (hzero h0)
      rw [List.cons_append, List.cons_append, radix?, if_neg h0]
  have hinf : dropWord? ['i', 'n', 'f'] (c :: cs ++ '\n' :: rest) = none := if_neg (hne 'i' rfl)
  have hnan : dropWord? ['n', 'a', 'n'] (c :: cs ++ '\n' :: rest) = none := if_neg (hne 'n' rfl)
  rw [readNumber, hsign]
  simp only [hinf, hnan, hradix, Option.or_none, Option.isNone_none, if_true]
  exact hdecimal _

theorem value_digits (hds : ∀ x ∈ c :: cs, isDigit x) (hzero : c = '0' → cs = [])
    (hn : baseValue 10 (c :: cs) ≤ maxMagnitude) :
    Value (c :: cs) (.int (baseValue 10 (c :: cs))) := by
  have hne := ne_of_holds (hds c List.mem_cons_self)
  apply value_of_readScalar _ (hne '[' rfl) (hne '\x7b' rfl)
  · intro rest
    have hsingle : Quotation.single? (c :: (cs ++ '\n' :: rest)) = none := by
      rw [Quotation.single?, if_neg (hne '"' rfl), if_neg (hne '\'' rfl)]
    have hmoment : readMoment (c :: cs ++ '\n' :: rest) = none :=
      readMoment_digits hds rfl (by decide) (by decide)
    rw [readScalar, hsingle]
    simp only
    rw [← List.cons_append, hmoment, readNumber_digits hds hzero hn]
    rfl
  · simp [isSpace, hne ' ' rfl, hne '\t' rfl]

theorem value_toDigits (hn : n ≤ maxMagnitude) : Value (Nat.toDigits 10 n) (.int n) := by
  have hdigits : ∀ x ∈ Nat.toDigits 10 n, isDigit x := fun x hx => isDigit_of_mem_toDigits hx
  have hvalue : baseValue 10 (Nat.toDigits 10 n) = n :=
    (baseValue_digits hdigits).trans Nat.ofDigitChars_ten_toDigits
  obtain ⟨d, ds, heq, -, -, -, hzero⟩ := exists_toDigits_eq n
  rw [heq] at hdigits hvalue ⊢
  have hread := value_digits hdigits hzero (hvalue.symm ▸ hn)
  rwa [hvalue] at hread

theorem value_bool (b : Bool) : Value (if b then "true" else "false").toList (.bool b) := by
  cases b with
  | false => exact value_of_readScalar rfl (by decide) (by decide) fun rest => rfl
  | true => exact value_of_readScalar rfl (by decide) (by decide) fun rest => rfl

end BemOutline.Toml

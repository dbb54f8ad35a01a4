import BemOutline.Proofs.Json.Printed

/-! Brackets that are open at once in a text. Those inside of strings do not count. -/

namespace BemOutline.Json

open Text (isDigit isDigit_of_mem_toDigits ne_of_holds)

inductive Quoting where
  | plain
  | quoted
  | escaped

/-- The greatest number of brackets that are open at once, with so many open in front. -/
def nestingFrom : Quoting → Nat → List Char → Nat
  | _, opened, [] => opened
  | .plain, opened, c :: cs =>
    if c = '"' then nestingFrom .quoted opened cs
    else if c = '[' ∨ c = '\x7b' then nestingFrom .plain (opened + 1) cs
    else if c = ']' ∨ c = '\x7d' then max opened (nestingFrom .plain (opened - 1) cs)
    else nestingFrom .plain opened cs
  | .quoted, opened, c :: cs =>
    if c = '\\' then nestingFrom .escaped opened cs
    else if c = '"' then nestingFrom .plain opened cs
    else nestingFrom .quoted opened cs
  | .escaped, opened, _ :: cs => nestingFrom .quoted opened cs

def bracketNesting (text : String) : Nat := nestingFrom .plain 0 text.toList

variable {v : Json} {c : Char} {level : Nat} {cs rest : List Char}

theorem le_nestingFrom (q : Quoting) (opened : Nat) (cs : List Char) :
    opened ≤ nestingFrom q opened cs := by
  fun_induction nestingFrom q opened cs with
  | case1 => exact le_rfl
  | case3 opened c cs _ _ ih => exact (Nat.le_succ _).trans ih
  | case4 => exact Nat.le_max_left ..
  | case2 => assumption
  | case5 => assumption
  | case6 => assumption
  | case7 => assumption
  | case8 => assumption
  | case9 => assumption

def IsInert (c : Char) : Prop := c ≠ '"' ∧ c ∉ ['[', '\x7b', ']', '\x7d']

theorem nestingFrom_inert (h : ∀ c ∈ cs, IsInert c) (opened : Nat) (rest : List Char) :
    nestingFrom .plain opened (cs ++ rest) = nestingFrom .plain opened rest := by
  induction cs with
  | nil => rfl
  | cons c cs ih =>
    obtain ⟨hquote, hbracket⟩ := h c List.mem_cons_self
    simp only [List.mem_cons, List.not_mem_nil, or_false, not_or] at hbracket
    rw [List.cons_append, nestingFrom, if_neg hquote, if_neg (by tauto), if_neg (by tauto)]
    exact ih fun d hd => h d (List.mem_cons_of_mem _ hd)

theorem inert_breakTo (level : Nat) : ∀ c ∈ breakTo level, IsInert c := by
  intro c hc
  rcases List.mem_cons.1 hc with rfl | hc
  · exact ⟨by decide, by decide⟩
  · rw [List.eq_of_mem_replicate hc]
    exact ⟨by decide, by decide⟩

theorem inert_of_isDigit (h : isDigit c) : IsInert c := by
  refine ⟨ne_of_holds h _ rfl, ?_⟩
  simp [ne_of_holds h '[' rfl, ne_of_holds h '\x7b' rfl, ne_of_holds h ']' rfl,
    ne_of_holds h '\x7d' rfl]

theorem inert_intChars (n : Int) : ∀ c ∈ intChars n, IsInert c := by
  intro c hc
  rw [intChars] at hc
  split at hc
  · rcases List.mem_cons.1 hc with rfl | hc
    · exact ⟨by decide, by decide⟩
    · exact inert_of_isDigit (isDigit_of_mem_toDigits hc)
  · exact inert_of_isDigit (isDigit_of_mem_toDigits hc)

theorem nestingFrom_escapedChar (opened : Nat) (c : Char) (rest : List Char) :
    nestingFrom .quoted opened (escapedChar c ++ rest) = nestingFrom .quoted opened rest := by
  have hplain : ∀ d, d ≠ '\\' → d ≠ '"' →
      ∀ cs, nestingFrom .quoted opened (d :: cs) = nestingFrom .quoted opened cs := by
    intro d hback hquote cs
    rw [nestingFrom, if_neg hback, if_neg hquote]
  have hhex : ∀ d < 16, Nat.digitChar d ≠ '\\' ∧ Nat.digitChar d ≠ '"' := by decide
  have hunit : ∀ n, unitHex n ≠ '\\' ∧ unitHex n ≠ '"' :=
    fun n => hhex _ (Nat.mod_lt _ (by decide))
  rw [escapedChar]
  split_ifs with h1 h2 h3 h4 h5 h6 h7 h8
  iterate 7 rfl
  · change nestingFrom .quoted opened ('0' :: '0' :: unitHex _ :: unitHex _ :: rest) = _
    rw [hplain _ (by decide) (by decide), hplain _ (by decide) (by decide),
      hplain _ (hunit _).1 (hunit _).2, hplain _ (hunit _).1 (hunit _).2]
  · exact hplain c h2 h1 rest

theorem nestingFrom_stringChars (opened : Nat) (cs rest : List Char) :
    nestingFrom .plain opened (stringChars cs ++ rest) = nestingFrom .plain opened rest := by
  have hbody : nestingFrom .quoted opened (cs.flatMap escapedChar ++ '"' :: rest) =
      nestingFrom .plain opened rest := by
    induction cs with
    | nil => rfl
    | cons c cs ih => rw [List.flatMap_cons, List.append_assoc, nestingFrom_escapedChar, ih]
  rw [stringChars_append]
  exact hbody

section Entries

variable {vs : List Json} {fs : List (String × Json)} {opened : Nat}

theorem inert_entryMark (first : Bool) : ∀ c ∈ entryMark first, IsInert c := by
  cases first with
  | true => exact fun c hc => absurd hc List.not_mem_nil
  | false =>
    intro c hc
    rw [List.mem_singleton.1 hc]
    exact ⟨by decide, by decide⟩

theorem nestingFrom_itemsOnto (first : Bool)
    (hvs : ∀ v ∈ vs, ∀ rest, nestingFrom .plain opened (prettyOnto level v rest) =
      max (opened + v.depth) (nestingFrom .plain opened rest)) (rest : List Char) :
    nestingFrom .plain opened (itemsOnto first level vs rest) =
      max (opened + depths vs) (nestingFrom .plain opened rest) := by
  induction vs generalizing first with
  | nil => exact (Nat.max_eq_right (le_nestingFrom ..)).symm
  | cons v vs ih =>
    have hitems := ih false fun w hw => hvs w (List.mem_cons_of_mem _ hw)
    rw [itemsOnto, prettyItems_cons, nestingFrom_inert (inert_entryMark first),
      nestingFrom_inert (inert_breakTo level), hvs v List.mem_cons_self, hitems, depths,
      ← Nat.add_max_add_left, Nat.max_assoc]

theorem nestingFrom_fieldsOnto (first : Bool)
    (hfs : ∀ f ∈ fs, ∀ rest, nestingFrom .plain opened (prettyOnto level f.2 rest) =
      max (opened + f.2.depth) (nestingFrom .plain opened rest)) (rest : List Char) :
    nestingFrom .plain opened (fieldsOnto first level fs rest) =
      max (opened + fieldDepth fs) (nestingFrom .plain opened rest) := by
  induction fs generalizing first with
  | nil => exact (Nat.max_eq_right (le_nestingFrom ..)).symm
  | cons f fs ih =>
    obtain ⟨k, v⟩ := f
    have hfields := ih false fun g hg => hfs g (List.mem_cons_of_mem _ hg)
    have hcolon : ∀ cs, nestingFrom .plain opened (':' :: ' ' :: cs) =
        nestingFrom .plain opened cs := fun _ => rfl
    rw [fieldsOnto, prettyFields_cons, nestingFrom_inert (inert_entryMark first),
      nestingFrom_inert (inert_breakTo level), nestingFrom_stringChars, hcolon,
      hfs (k, v) List.mem_cons_self, hfields, fieldDepth, ← Nat.add_max_add_left, Nat.max_assoc]

end Entries

theorem nestingFrom_close (hc : c = ']' ∨ c = '\x7d') (level opened : Nat) (rest : List Char) :
    nestingFrom .plain (opened + 1) (breakTo level ++ c :: rest) =
      max (opened + 1) (nestingFrom .plain opened rest) := by
  rw [nestingFrom_inert (inert_breakTo level)]
  rcases hc with rfl | rfl <;> rfl

theorem Whole.nestingFrom_prettyOnto (h : Whole v) (level opened : Nat) (rest : List Char) :
    nestingFrom .plain opened (prettyOnto level v rest) =
      max (opened + v.depth) (nestingFrom .plain opened rest) := by
  -- what stands between two brackets has one more in front, and the closing one takes it off
  have hinner : ∀ opened n rest, max (opened + 1 + n) (max (opened + 1)
      (nestingFrom .plain opened rest)) = max (opened + (n + 1)) (nestingFrom .plain opened rest) := by
    intro opened n rest
    omega
  have hscalar : ∀ opened rest, nestingFrom .plain opened rest =
      max (opened + 0) (nestingFrom .plain opened rest) :=
    fun _ _ => (Nat.max_eq_right (le_nestingFrom ..)).symm
  induction h generalizing level opened rest with
  | null => exact hscalar opened rest
  | bool b => cases b <;> exact hscalar opened rest
  | @int n _ _ => exact (nestingFrom_inert (inert_intChars n) opened rest).trans (hscalar ..)
  | str s => exact (nestingFrom_stringChars opened s.toList rest).trans (hscalar ..)
  | @arr items _ ih =>
    rw [depth]
    cases items with
    | nil => rfl
    | cons w ws =>
      have hitems := nestingFrom_itemsOnto true
        (fun x hx => ih x hx (level + 1) (opened + 1)) (breakTo level ++ ']' :: rest)
      rw [nestingFrom_close (.inl rfl), hinner] at hitems
      exact hitems
  | @obj fields _ ih =>
    rw [depth]
    cases fields with
    | nil => rfl
    | cons f fs =>
      have hfields := nestingFrom_fieldsOnto true
        (fun x hx => ih x hx (level + 1) (opened + 1)) (breakTo level ++ '\x7d' :: rest)
      rw [nestingFrom_close (.inr rfl), hinner] at hfields
      exact hfields

theorem Whole.bracketNesting_pretty (h : Whole v) : bracketNesting v.pretty = v.depth := by
  have htext : v.pretty.toList = prettyOnto 0 v [] := String.toList_ofList
  rw [bracketNesting, htext, h.nestingFrom_prettyOnto, Nat.zero_add]
  exact Nat.max_eq_left (Nat.zero_le _)

end BemOutline.Json

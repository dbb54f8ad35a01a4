import BemOutline.Proofs.Json.Scalars

/-! Values over several lines are read back, with the fields of their objects in order, as long as
no more brackets are open at once than may be. -/

namespace BemOutline.Json

open Text (isDigit exists_toDigits_eq ne_of_holds)

variable {v : Json} {c : Char} {level size bound : Nat} {cs rest : List Char}

def entryMark (first : Bool) : List Char := if first then [] else [',']

def itemsOnto (first : Bool) (level : Nat) : List Json → List Char → List Char
  | [], rest => rest
  | v :: vs, rest => entryMark first ++ prettyItems level (v :: vs) rest

def fieldsOnto (first : Bool) (level : Nat) : List (String × Json) → List Char → List Char
  | [], rest => rest
  | f :: fs, rest => entryMark first ++ prettyFields level (f :: fs) rest

theorem prettyItems_cons (level : Nat) (v : Json) (vs : List Json) (rest : List Char) :
    prettyItems level (v :: vs) rest =
      breakTo level ++ prettyOnto level v (itemsOnto false level vs rest) := by
  cases vs <;> rfl

theorem prettyFields_cons (level : Nat) (k : String) (v : Json) (fs : List (String × Json))
    (rest : List Char) :
    prettyFields level ((k, v) :: fs) rest =
      breakTo level ++ (stringChars k.toList ++
        ':' :: ' ' :: prettyOnto level v (fieldsOnto false level fs rest)) := by
  cases fs <;> exact List.append_assoc ..

theorem stringChars_append (cs rest : List Char) :
    stringChars cs ++ rest = '"' :: (cs.flatMap escapedChar ++ '"' :: rest) := by
  simp [stringChars]

theorem length_le_append (cs rest : List Char) : rest.length ≤ (cs ++ rest).length := by
  rw [List.length_append]
  exact Nat.le_add_left ..

theorem length_lt_breakTo (level : Nat) (rest : List Char) :
    rest.length < (breakTo level ++ rest).length := by
  rw [breakTo, List.cons_append, List.length_cons]
  exact Nat.lt_succ_of_le (length_le_append ..)

mutual

theorem length_le_prettyOnto (level : Nat) : ∀ (v : Json) (rest : List Char),
    rest.length ≤ (prettyOnto level v rest).length
  | .null, rest => length_le_append ['n', 'u', 'l', 'l'] rest
  | .bool b, rest => length_le_append (boolChars b) rest
  | .int n, rest => length_le_append (intChars n) rest
  | .float x, rest => length_le_append (floatChars x) rest
  | .str s, rest => length_le_append (stringChars s.toList) rest
  | .arr [], rest => length_le_append ['[', ']'] rest
  | .arr (v :: vs), rest => by
    have hitems := length_le_prettyItems (level + 1) (v :: vs) (breakTo level ++ ']' :: rest)
    have hbreak := length_lt_breakTo level (']' :: rest)
    rw [prettyOnto, List.length_cons]
    rw [List.length_cons] at hbreak
    omega
  | .obj [], rest => length_le_append ['\x7b', '\x7d'] rest
  | .obj (f :: fs), rest => by
    have hfields := length_le_prettyFields (level + 1) (f :: fs) (breakTo level ++ '\x7d' :: rest)
    have hbreak := length_lt_breakTo level ('\x7d' :: rest)
    rw [prettyOnto, List.length_cons]
    rw [List.length_cons] at hbreak
    omega

theorem length_le_prettyItems (level : Nat) : ∀ (vs : List Json) (rest : List Char),
    rest.length ≤ (prettyItems level vs rest).length
  | [], _ => le_rfl
  | [v], rest => (length_le_prettyOnto level v rest).trans (length_le_append ..)
  | v :: w :: vs, rest => by
    have hitems := length_le_prettyItems level (w :: vs) rest
    have hv := length_le_prettyOnto level v (',' :: prettyItems level (w :: vs) rest)
    have hbreak := length_lt_breakTo level
      (prettyOnto level v (',' :: prettyItems level (w :: vs) rest))
    rw [List.length_cons] at hv
    change _ ≤ (breakTo level ++ prettyOnto level v (',' :: prettyItems level (w :: vs) rest)).length
    omega

theorem length_le_prettyFields (level : Nat) : ∀ (fs : List (String × Json)) (rest : List Char),
    rest.length ≤ (prettyFields level fs rest).length
  | [], _ => le_rfl
  | [(k, v)], rest => by
    have hv := length_le_prettyOnto level v rest
    rw [prettyFields_cons, fieldsOnto]
    simp only [List.length_append, List.length_cons]
    omega
  | (k, v) :: f :: fs, rest => by
    have hfields := length_le_prettyFields level (f :: fs) rest
    have hv := length_le_prettyOnto level v (',' :: prettyFields level (f :: fs) rest)
    rw [prettyFields_cons, fieldsOnto, entryMark, if_neg Bool.false_ne_true, List.singleton_append]
    simp only [List.length_append, List.length_cons] at hv ⊢
    omega

end

theorem skipSpace_of_not (h : isSpace c = false) : skipSpace (c :: rest) = c :: rest :=
  List.dropWhile_cons_of_neg (h ▸ Bool.false_ne_true)

theorem skipSpace_breakTo (level : Nat) (rest : List Char) :
    skipSpace (breakTo level ++ rest) = skipSpace rest := by
  have hspaces : ∀ c ∈ breakTo level, isSpace c = true := by
    intro c hc
    rcases List.mem_cons.1 hc with rfl | hc
    · rfl
    · rw [List.eq_of_mem_replicate hc]
      rfl
  exact List.dropWhile_append_of_pos hspaces

theorem isSpace_of_isDigit (h : isDigit c) : isSpace c = false := by
  simp [isSpace, ne_of_holds h ' ' rfl, ne_of_holds h '\n' rfl, ne_of_holds h '\t' rfl,
    ne_of_holds h '\r' rfl]

theorem Whole.exists_head (h : Whole v) (level : Nat) (rest : List Char) :
    ∃ c cs, prettyOnto level v rest = c :: cs ∧ isSpace c = false ∧ c ≠ ']' := by
  cases h with
  | null => exact ⟨_, _, rfl, rfl, by decide⟩
  | bool b => cases b <;> exact ⟨_, _, rfl, rfl, by decide⟩
  | @int n _ _ =>
    rw [prettyOnto, intChars]
    obtain ⟨d, ds, hdigits, hd, -⟩ := exists_toDigits_eq n.natAbs
    rw [hdigits]
    split
    · exact ⟨_, _, rfl, rfl, by decide⟩
    · exact ⟨d, _, rfl, isSpace_of_isDigit hd, ne_of_holds hd _ rfl⟩
  | str s => exact ⟨_, _, rfl, rfl, by decide⟩
  | @arr items _ => cases items <;> exact ⟨_, _, rfl, rfl, by decide⟩
  | @obj fields _ => cases fields <;> exact ⟨_, _, rfl, rfl, by decide⟩

section Scalars

variable {depth : Nat}

theorem readValue_boolChars (b : Bool) (rest : List Char) :
    readValue size depth (boolChars b ++ rest) = .ok (.bool b, rest) := by
  rw [readValue.eq_def]
  cases b <;> rfl

theorem readValue_stringChars {s : String} (hs : s.length < size) (rest : List Char) :
    readValue size depth (stringChars s.toList ++ rest) = .ok (.str s, rest) := by
  have hread := readChars_flatMap_escapedChar s.toList rest hs
  rw [stringChars_append, readValue.eq_def, skipSpace_of_not rfl]
  change (readChars size _ >>= _) = _
  rw [hread]
  exact congrArg (fun t => Except.ok (Json.str t, rest)) String.ofList_toList

theorem readValue_digit (hc : isDigit c) (rest : List Char) :
    readValue size depth (c :: rest) = readNumber false (c :: rest) := by
  rw [readValue.eq_def, skipSpace_of_not (isSpace_of_isDigit hc)]
  simp only [ne_of_holds hc 'n' rfl, ne_of_holds hc 't' rfl, ne_of_holds hc 'f' rfl,
    ne_of_holds hc '-' rfl, hc, if_true, if_false]

theorem readValue_intChars {n : Int} (hmin : -2 ^ 63 ≤ n) (hmax : n < 2 ^ 64)
    (hrest : EndsNumber rest) :
    readValue size depth (intChars n ++ rest) = .ok (.int n, rest) := by
  have hbound : n.natAbs ≤ maxSignificand := by
    have heq : maxSignificand = 2 ^ 64 - 1 := rfl
    omega
  rw [intChars]
  split
  · next hneg =>
    have hfits : ¬ (n.natAbs = 0 ∨ Nat.pow 2 63 < n.natAbs) := by
      have heq : Nat.pow 2 63 = 2 ^ 63 := rfl
      omega
    have hvalue : -(n.natAbs : Int) = n := by omega
    rw [List.cons_append, readValue.eq_def, skipSpace_of_not rfl]
    change readNumber true _ = _
    rw [readNumber_toDigits true hbound hrest, if_neg (by decide), if_neg hfits, hvalue]
  · next hneg =>
    have hvalue : (n.natAbs : Int) = n := by omega
    obtain ⟨d, ds, hdigits, hd, -⟩ := exists_toDigits_eq n.natAbs
    have hnumber := readNumber_toDigits false hbound hrest
    rw [hdigits] at hnumber ⊢
    rw [List.cons_append] at hnumber ⊢
    rw [readValue_digit hd, hnumber, if_pos rfl, hvalue]

end Scalars

/-- Whether a reader takes a value off every text that starts with it and is not too long. -/
def ReadsBack (item : Reader Json) (size level : Nat) (v : Json) : Prop :=
  ∀ rest, EndsNumber rest → (prettyOnto level v rest).length < size →
    item (prettyOnto level v rest) = .ok (v.arranged, rest)

section Entries

variable {item : Reader Json} {vs : List Json} {fs : List (String × Json)} {k : String}
  {first : Bool}

theorem endsNumber_breakTo (level : Nat) (rest : List Char) : EndsNumber (breakTo level ++ rest) :=
  endsNumber_cons (by decide)

theorem endsNumber_itemsOnto (level : Nat) (vs : List Json) (h : EndsNumber rest) :
    EndsNumber (itemsOnto false level vs rest) := by
  cases vs with
  | nil => exact h
  | cons v vs => exact endsNumber_cons (by decide)

theorem endsNumber_fieldsOnto (level : Nat) (fs : List (String × Json)) (h : EndsNumber rest) :
    EndsNumber (fieldsOnto false level fs rest) := by
  cases fs with
  | nil => exact h
  | cons f fs => exact endsNumber_cons (by decide)

theorem entryStart_close {close : Char} (hspace : isSpace close = false) (eof missing : FaultKind)
    (first : Bool) (level : Nat) (rest : List Char) :
    entryStart close eof missing first (breakTo level ++ close :: rest) = .ok (false, rest) := by
  rw [entryStart, skipSpace_breakTo, skipSpace_of_not hspace]
  exact if_pos rfl

theorem entryStart_entry {close : Char} (hclose : close ≠ ',') (eof missing : FaultKind)
    (first : Bool) (level : Nat) (hc : isSpace c = false) (hne : c ≠ close) (cs : List Char) :
    entryStart close eof missing first
      (entryMark first ++ (breakTo level ++ c :: cs)) = .ok (true, c :: cs) := by
  have hskip : skipSpace (breakTo level ++ c :: cs) = c :: cs := by
    rw [skipSpace_breakTo, skipSpace_of_not hc]
  cases first with
  | true =>
    rw [entryMark, entryStart, if_pos rfl, List.nil_append, hskip]
    exact (if_neg hne).trans (if_pos rfl)
  | false =>
    rw [entryMark, entryStart, if_neg Bool.false_ne_true, List.singleton_append,
      skipSpace_of_not (by decide)]
    simp only [hclose.symm, if_false, Bool.false_eq_true, if_true, hskip, hne]

theorem readItems_itemsOnto (first : Bool) (level : Nat) (rest : List Char)
    (hvs : ∀ v ∈ vs, ReadsBack item size (level + 1) v ∧ Whole v)
    (hsize : (itemsOnto first (level + 1) vs (breakTo level ++ ']' :: rest)).length ≤ size)
    (hbound : (itemsOnto first (level + 1) vs (breakTo level ++ ']' :: rest)).length < bound) :
    readItems item bound first (itemsOnto first (level + 1) vs (breakTo level ++ ']' :: rest)) =
      .ok (vs.map arranged, rest) := by
  obtain ⟨bound, rfl⟩ := Nat.exists_eq_add_one.2 (Nat.zero_lt_of_lt hbound)
  -- the bound falls by one with every entry, and the text by more
  induction vs generalizing first bound with
  | nil =>
    rw [itemsOnto, readItems, entryStart_close (by decide)]
    rfl
  | cons v vs ih =>
    obtain ⟨hv, hwhole⟩ := hvs v List.mem_cons_self
    generalize hbehind : itemsOnto false (level + 1) vs (breakTo level ++ ']' :: rest) = behind at *
    have hlen := length_le_prettyOnto (level + 1) v behind
    have hbreak := length_lt_breakTo (level + 1) (prettyOnto (level + 1) v behind)
    have hends : EndsNumber behind :=
      hbehind ▸ endsNumber_itemsOnto _ vs (endsNumber_breakTo _ _)
    rw [itemsOnto, prettyItems_cons, hbehind] at hsize hbound ⊢
    rw [List.length_append] at hsize hbound
    obtain ⟨bound, rfl⟩ := Nat.exists_eq_add_one.2 (show 0 < bound by omega)
    have hitem := hv behind hends (by omega)
    have hitems := ih false (fun w hw => hvs w (List.mem_cons_of_mem _ hw))
      (by rw [hbehind]; omega) bound (by rw [hbehind]; omega)
    rw [hbehind] at hitems
    obtain ⟨c, cs, heq, hc, hne⟩ := hwhole.exists_head (level + 1) behind
    rw [heq] at hitem ⊢
    rw [readItems, entryStart_entry (by decide) _ _ _ _ hc hne]
    simp only [bind, Except.bind, if_true, hitem, hitems, List.map_cons]

theorem readKey_stringChars (hk : k.length < size) (rest : List Char) :
    readKey size (stringChars k.toList ++ ':' :: rest) = .ok (k, rest) := by
  have hread := readChars_flatMap_escapedChar k.toList (':' :: rest) hk
  rw [stringChars_append, readKey, hread]
  exact congrArg (fun s => Except.ok (s, rest)) String.ofList_toList

theorem length_le_stringChars (s : String) : s.length ≤ (stringChars s.toList).length := by
  have hle := length_le_flatMap_escapedChar s.toList
  rw [stringChars, List.length_append, List.length_cons]
  exact hle.trans (by omega)

theorem readFields_fieldsOnto (first : Bool) (level : Nat) (rest : List Char)
    (hspace : ∀ cs, item (' ' :: cs) = item cs)
    (hfs : ∀ f ∈ fs, ReadsBack item size (level + 1) f.2)
    (hsize : (fieldsOnto first (level + 1) fs (breakTo level ++ '\x7d' :: rest)).length ≤ size)
    (hbound : (fieldsOnto first (level + 1) fs (breakTo level ++ '\x7d' :: rest)).length < bound) :
    readFields item size bound first
      (fieldsOnto first (level + 1) fs (breakTo level ++ '\x7d' :: rest)) =
      .ok (fs.map fun f => (f.1, f.2.arranged), rest) := by
  obtain ⟨bound, rfl⟩ := Nat.exists_eq_add_one.2 (Nat.zero_lt_of_lt hbound)
  induction fs generalizing first bound with
  | nil =>
    rw [fieldsOnto, readFields, entryStart_close (by decide)]
    rfl
  | cons f fs ih =>
    obtain ⟨k, v⟩ := f
    have hv : ReadsBack item size (level + 1) v := hfs (k, v) List.mem_cons_self
    generalize hbehind :
      fieldsOnto false (level + 1) fs (breakTo level ++ '\x7d' :: rest) = behind at *
    have hlen := length_le_prettyOnto (level + 1) v behind
    have hkey := length_le_stringChars k
    have hends : EndsNumber behind :=
      hbehind ▸ endsNumber_fieldsOnto _ fs (endsNumber_breakTo _ _)
    rw [fieldsOnto, prettyFields_cons, hbehind] at hsize hbound ⊢
    simp only [List.length_append, List.length_cons] at hsize hbound
    obtain ⟨bound, rfl⟩ := Nat.exists_eq_add_one.2 (show 0 < bound by omega)
    have hitem := hv behind hends (by omega)
    have hfields := ih false (fun w hw => hfs w (List.mem_cons_of_mem _ hw))
      (by rw [hbehind]; omega) bound (by rw [hbehind]; omega)
    rw [hbehind] at hfields
    have hsmall : k.length < size := by omega
    have hname := readKey_stringChars hsmall (' ' :: prettyOnto (level + 1) v behind)
    rw [stringChars_append] at hname ⊢
    rw [readFields, entryStart_entry (by decide) _ _ _ _ (by decide) (by decide)]
    simp only [bind, Except.bind, if_true, hname, hspace, hitem, hfields, List.map_cons]

end Entries

theorem depth_le_of_mem {items : List Json} (hv : v ∈ items) : v.depth ≤ depths items := by
  induction items with
  | nil => cases hv
  | cons w ws ih =>
    rw [depths]
    rcases List.mem_cons.1 hv with rfl | hv
    · exact Nat.le_max_left ..
    · exact (ih hv).trans (Nat.le_max_right ..)

theorem depth_le_of_mem_fields {fields : List (String × Json)} {f : String × Json}
    (hf : f ∈ fields) : f.2.depth ≤ fieldDepth fields := by
  induction fields with
  | nil => cases hf
  | cons g gs ih =>
    rw [fieldDepth]
    rcases List.mem_cons.1 hf with rfl | hf
    · exact Nat.le_max_left ..
    · exact (ih hf).trans (Nat.le_max_right ..)

theorem readValue_bracket (size depth : Nat) (cs : List Char) :
    readValue size (depth + 1) ('[' :: cs) =
      (readItems (readValue size depth) size true cs).map fun r => (.arr r.1, r.2) := by
  rw [readValue.eq_def, skipSpace_of_not rfl]
  rfl

theorem readValue_brace (size depth : Nat) (cs : List Char) :
    readValue size (depth + 1) ('\x7b' :: cs) =
      (readFields (readValue size depth) size size true cs).map fun r => (mkObj r.1, r.2) := by
  rw [readValue.eq_def, skipSpace_of_not rfl]
  rfl

/-- A value is read back by a reader that may open as many brackets as stand inside of each
other. -/
theorem Whole.readsBack (h : Whole v) {depth : Nat} (hdepth : v.depth ≤ depth) (size level : Nat) :
    ReadsBack (readValue size depth) size level v := by
  induction h generalizing depth level with
  | null =>
    intro rest _ _
    rw [readValue.eq_def]
    rfl
  | bool b =>
    intro rest _ _
    exact readValue_boolChars b rest
  | int hmin hmax =>
    intro rest hrest _
    exact readValue_intChars hmin hmax hrest
  | str s =>
    intro rest _ hsize
    have hlen := length_le_stringChars s
    rw [prettyOnto, List.length_append] at hsize
    exact readValue_stringChars (by omega) rest
  | @arr items hitems ih =>
    intro rest _ hsize
    rw [Json.depth] at hdepth
    obtain ⟨depth, rfl⟩ := Nat.exists_eq_add_one.2 (Nat.zero_lt_of_lt hdepth)
    have hitem : ∀ w ∈ items, ReadsBack (readValue size depth) size (level + 1) w ∧ Whole w := by
      intro w hw
      have hw' := depth_le_of_mem hw
      exact ⟨ih w hw (by omega) (level + 1), hitems w hw⟩
    cases items with
    | nil =>
      obtain ⟨size, rfl⟩ := Nat.exists_eq_add_one.2 (Nat.zero_lt_of_lt hsize)
      rw [prettyOnto, readValue_bracket]
      rfl
    | cons w ws =>
      rw [prettyOnto, List.length_cons] at hsize
      rw [prettyOnto, readValue_bracket]
      change (readItems _ size true (itemsOnto true (level + 1) (w :: ws) _)).map _ = _
      rw [readItems_itemsOnto true level rest hitem (Nat.le_of_succ_le (Nat.le_of_succ_le hsize))
        (Nat.lt_of_succ_lt hsize), arranged, arrangedItems_eq]
      rfl
  | @obj fields hfields ih =>
    intro rest _ hsize
    rw [Json.depth] at hdepth
    obtain ⟨depth, rfl⟩ := Nat.exists_eq_add_one.2 (Nat.zero_lt_of_lt hdepth)
    have hfield : ∀ f ∈ fields, ReadsBack (readValue size depth) size (level + 1) f.2 := by
      intro f hf
      have hf' := depth_le_of_mem_fields hf
      exact ih f hf (by omega) (level + 1)
    have hspace : ∀ cs, readValue size depth (' ' :: cs) = readValue size depth cs := by
      intro cs
      have hskip : skipSpace (' ' :: cs) = skipSpace cs := rfl
      rw [readValue.eq_def, readValue.eq_def, hskip]
    cases fields with
    | nil =>
      obtain ⟨size, rfl⟩ := Nat.exists_eq_add_one.2 (Nat.zero_lt_of_lt hsize)
      rw [prettyOnto, readValue_brace]
      rfl
    | cons f fs =>
      rw [prettyOnto, List.length_cons] at hsize
      rw [prettyOnto, readValue_brace]
      change (readFields _ size size true (fieldsOnto true (level + 1) (f :: fs) _)).map _ = _
      rw [readFields_fieldsOnto true level rest hspace hfield
        (Nat.le_of_succ_le (Nat.le_of_succ_le hsize)) (Nat.lt_of_succ_lt hsize), arranged,
        arrangedFields_eq]
      rfl

theorem Whole.read_pretty (h : Whole v) (hdepth : v.depth ≤ maxOpen) :
    read v.pretty = .ok v.arranged := by
  have hvalue := h.readsBack hdepth ((prettyOnto 0 v []).length + 1) 0 [] endsNumber_nil
    (Nat.lt_succ_self _)
  have htext : v.pretty.toList = prettyOnto 0 v [] := String.toList_ofList
  rw [read, htext, readChars?, hvalue]
  rfl

end BemOutline.Json

import BemOutline.Proofs.Toml.Scalars

/-! Documents of pairs, the last of them in one table. Lines that are read as statements one by one
are read as a document, and its fields are the pairs in their order. -/

namespace BemOutline.Toml

open Text (takeWhile_append_eq ne_of_holds)

variable {key name : String} {cs w rest : List Char} {v : Toml} {st : Statement} {size bound : Nat}

/-- Whether some lines are read as a statement in front of any others. -/
def Reads (w : List Char) (st : Statement) : Prop :=
  w ≠ [] ∧ ∀ size bound rest,
    readStatements size (bound + 1) (w ++ rest) = (readStatements size bound rest).map (st :: ·)

def IsBare (key : List Char) : Prop := key ≠ [] ∧ ∀ c ∈ key, isBareChar c = true

instance (key : List Char) : Decidable (IsBare key) :=
  decidable_of_iff (key ≠ [] ∧ key.all isBareChar = true) (and_congr_right' List.all_eq_true)

theorem IsBare.exists_cons (h : IsBare cs) : ∃ c ds, cs = c :: ds ∧ isBareChar c = true := by
  obtain ⟨hne, hbare⟩ := h
  cases cs with
  | nil => exact absurd rfl hne
  | cons c ds => exact ⟨c, ds, rfl, hbare c List.mem_cons_self⟩

theorem IsBare.not_mem (h : IsBare cs) {c : Char} (hc : isBareChar c = false) : c ∉ cs :=
  Text.not_mem_of_holds h.2 hc

theorem isSpace_of_isBareChar {c : Char} (h : isBareChar c = true) : isSpace c = false := by
  simp [isSpace, ne_of_holds h ' ' rfl, ne_of_holds h '\t' rfl]

theorem readName_bare (hkey : IsBare key.toList) (hrest : ∀ c ∈ rest.head?, ¬ isBareChar c) :
    readName (key.toList ++ rest) = some (key, rest) := by
  have htake : (key.toList ++ rest).takeWhile isBareChar = key.toList :=
    takeWhile_append_eq hkey.2 hrest
  have hsingle : Quotation.single? (key.toList ++ rest) = none := by
    obtain ⟨c, cs, hcs, hc⟩ := hkey.exists_cons
    rw [hcs, List.cons_append, Quotation.single?, if_neg (ne_of_holds hc '"' rfl),
      if_neg (ne_of_holds hc '\'' rfl)]
  rw [readName, hsingle]
  simp only [htake]
  rw [if_neg hkey.1, String.ofList_toList, List.drop_left]

theorem readKey_bare (hkey : IsBare key.toList) (hrest : ∀ c ∈ rest.head?, ¬ isBareChar c)
    (hpoint : dropWord? ['.'] (skipSpace rest) = none) :
    readKey (key.toList ++ rest) = some (⟨[], key⟩, skipSpace rest) := by
  have hskip : skipSpace (key.toList ++ rest) = key.toList ++ rest := by
    obtain ⟨c, cs, hcs, hc⟩ := hkey.exists_cons
    rw [hcs, List.cons_append]
    exact List.dropWhile_cons_of_neg (by simp [isSpace_of_isBareChar hc])
  have hnames : readNames maxDepth rest = some ([], skipSpace rest) := by
    rw [maxDepth, readNames, hpoint]
  rw [readKey, hskip, readName_bare hkey hrest]
  simp only [hnames, Option.map_some]
  rfl

theorem readPair_bare (hkey : IsBare key.toList) (hv : Value w v) (size : Nat)
    (rest : List Char) :
    readPair (readValue size maxDepth) (key.toList ++ ' ' :: '=' :: ' ' :: (w ++ '\n' :: rest)) =
      some ((⟨[], key⟩, v), '\n' :: rest) := by
  have hskip : skipSpace (' ' :: (w ++ '\n' :: rest)) = w ++ '\n' :: rest := by
    obtain ⟨d, ds, rfl, hd⟩ := hv.head
    rw [List.cons_append, skipSpace, List.dropWhile_cons_of_pos rfl,
      List.dropWhile_cons_of_neg (by simp [hd])]
  have hbehind : ∀ tail, readKey (key.toList ++ ' ' :: '=' :: tail) =
      some (⟨[], key⟩, '=' :: tail) :=
    fun tail => readKey_bare hkey (by simp [isBareChar]) rfl
  rw [readPair, hbehind]
  simp only [dropWord?, if_true, hskip, hv.read, Option.map_some]
  rfl

theorem readStatements_of_readStatement {c : Char} (hc : c ≠ '\n') (hspace : isSpace c = false)
    (hcomment : c ≠ '#')
    (h : readStatement size (c :: cs ++ rest) = some (st, '\n' :: rest)) :
    readStatements size (bound + 1) (c :: cs ++ rest) =
      (readStatements size bound rest).map (st :: ·) := by
  have hfill : skipFill false (c :: cs ++ rest) = some (c :: cs ++ rest) := by
    rw [List.cons_append, skipFill, if_neg hc, if_neg Bool.false_ne_true, if_neg (by simp [hspace]),
      if_neg hcomment]
  have hend : dropLineEnd ('\n' :: rest) = some rest := rfl
  rw [readStatements, hfill]
  simp only [List.cons_append] at h ⊢
  rw [h]
  simp only [hend]

theorem readStatement_pair (hkey : IsBare key.toList) (hv : Value w v) (size : Nat)
    (rest : List Char) :
    readStatement size (key.toList ++ ' ' :: '=' :: ' ' :: (w ++ '\n' :: rest)) =
      some (.pair ⟨[], key⟩ v, '\n' :: rest) := by
  have hpair := readPair_bare hkey hv size rest
  obtain ⟨c, cs, hcs, hc⟩ := hkey.exists_cons
  have hopen : ∀ ws tail, dropWord? ('[' :: ws) (c :: tail) = none :=
    fun _ _ => if_neg (ne_of_holds hc '[' rfl)
  rw [hcs, List.cons_append] at hpair ⊢
  rw [readStatement, hopen, hopen]
  simp only [hpair, Option.map_some]

theorem reads_pair (hkey : IsBare key.toList) (hv : Value w v) :
    Reads (key.toList ++ [' ', '=', ' '] ++ w ++ ['\n']) (.pair ⟨[], key⟩ v) := by
  refine ⟨by simp, fun size bound rest => ?_⟩
  have hstatement := readStatement_pair hkey hv size rest
  obtain ⟨c, cs, hcs, hc⟩ := hkey.exists_cons
  have hne := ne_of_holds hc
  have hsplit : key.toList ++ ' ' :: '=' :: ' ' :: (w ++ '\n' :: rest) =
      c :: (cs ++ [' ', '=', ' '] ++ w ++ ['\n']) ++ rest := by
    simp only [hcs, List.append_assoc, List.cons_append, List.nil_append]
  rw [hsplit] at hstatement
  rw [hcs]
  exact readStatements_of_readStatement (hne '\n' rfl) (isSpace_of_isBareChar hc) (hne '#' rfl)
    hstatement

theorem reads_header (hname : IsBare name.toList) :
    Reads ('\n' :: '[' :: (name.toList ++ [']', '\n'])) (.header ⟨[], name⟩) := by
  refine ⟨by simp, fun size bound rest => ?_⟩
  have hkey : readKey (name.toList ++ ']' :: '\n' :: rest) = some (⟨[], name⟩, ']' :: '\n' :: rest) :=
    readKey_bare hname (by simp [isBareChar]) rfl
  have hitem : dropWord? ['[', '['] ('[' :: (name.toList ++ ']' :: '\n' :: rest)) = none := by
    obtain ⟨c, cs, hcs, hc⟩ := hname.exists_cons
    rw [hcs, dropWord?, if_pos rfl, List.cons_append, dropWord?, if_neg (ne_of_holds hc '[' rfl)]
  have htable : dropWord? ['['] ('[' :: (name.toList ++ ']' :: '\n' :: rest)) =
      some (name.toList ++ ']' :: '\n' :: rest) := rfl
  have hheader : readHeader [']'] (name.toList ++ ']' :: '\n' :: rest) =
      some (⟨[], name⟩, '\n' :: rest) := by
    rw [readHeader, hkey]
    rfl
  have hstatement : readStatement size ('[' :: (name.toList ++ ']' :: '\n' :: rest)) =
      some (.header ⟨[], name⟩, '\n' :: rest) := by
    rw [readStatement, hitem, htable]
    simp only [hheader, Option.map_some]
  have hsplit : '[' :: (name.toList ++ ']' :: '\n' :: rest) =
      '[' :: (name.toList ++ [']', '\n']) ++ rest := by
    simp only [List.append_assoc, List.cons_append, List.nil_append]
  rw [hsplit] at hstatement
  have hline : readStatements size (bound + 1) ('[' :: (name.toList ++ [']', '\n']) ++ rest) = _ :=
    readStatements_of_readStatement (by decide) rfl (by decide) hstatement
  -- the break in front of the bracket is filler
  exact hline

theorem readStatements_flatMap {ls : List (List Char × Statement)}
    (h : ∀ l ∈ ls, Reads l.1 l.2) (hbound : ls.length < bound) :
    readStatements size bound (ls.flatMap Prod.fst) = some (ls.map Prod.snd) := by
  induction ls generalizing bound with
  | nil =>
    obtain ⟨b, rfl⟩ := Nat.exists_eq_add_of_lt hbound
    rfl
  | cons l ls ih =>
    obtain ⟨b, rfl⟩ := Nat.exists_eq_add_of_lt hbound
    rw [List.length_cons] at hbound ⊢
    have hlater : readStatements size (ls.length + 1 + b) (ls.flatMap Prod.fst) =
        some (ls.map Prod.snd) :=
      ih (fun l' hl' => h l' (List.mem_cons_of_mem _ hl')) (by omega)
    rw [List.flatMap_cons, (h l List.mem_cons_self).2, hlater]
    rfl

theorem length_le_length_flatMap {ls : List (List Char × Statement)}
    (h : ∀ l ∈ ls, Reads l.1 l.2) : ls.length ≤ (ls.flatMap Prod.fst).length := by
  induction ls with
  | nil => exact Nat.le_refl 0
  | cons l ls ih =>
    have hpos := List.length_pos_of_ne_nil (h l List.mem_cons_self).1
    have hlater := ih fun l' hl' => h l' (List.mem_cons_of_mem _ hl')
    rw [List.flatMap_cons, List.length_append, List.length_cons]
    omega

theorem unifyBreaks_of_not_mem (h : '\r' ∉ cs) : unifyBreaks cs = cs := by
  induction cs with
  | nil => rfl
  | cons c cs ih =>
    rw [List.mem_cons, not_or] at h
    cases cs with
    | nil => rfl
    | cons d ds => rw [unifyBreaks, if_neg fun hc => h.1 hc.1.symm, ih h.2]

theorem readChars_flatMap {ls : List (List Char × Statement)} (h : ∀ l ∈ ls, Reads l.1 l.2)
    (hmark : (ls.flatMap Prod.fst).head? ≠ some '\uFEFF') (hreturn : '\r' ∉ ls.flatMap Prod.fst) :
    readChars (ls.flatMap Prod.fst) = assemble (ls.map Prod.snd) := by
  have hdrop : dropMark (ls.flatMap Prod.fst) = ls.flatMap Prod.fst := by
    generalize ls.flatMap Prod.fst = cs at hmark
    cases cs with
    | nil => rfl
    | cons c cs =>
      refine if_neg ?_
      rintro rfl
      exact hmark rfl
  rw [readChars, hdrop, unifyBreaks_of_not_mem hreturn,
    readStatements_flatMap h (Nat.lt_succ_of_le (length_le_length_flatMap h))]

variable {s inner : Section} {e : Entry}

theorem field?_of_not_mem (h : name ∉ s.map Prod.fst) : field? name s = none := by
  induction s with
  | nil => rfl
  | cons p s ih =>
    rw [List.map_cons, List.mem_cons, not_or] at h
    rw [field?, if_neg (Ne.symm h.1), ih h.2]

theorem field?_append_self (h : name ∉ s.map Prod.fst) :
    field? name (s ++ [(name, e)]) = some e := by
  induction s with
  | nil => exact if_pos rfl
  | cons p s ih =>
    rw [List.map_cons, List.mem_cons, not_or] at h
    rw [List.cons_append, field?, if_neg (Ne.symm h.1), ih h.2]

namespace Section

theorem set_of_not_mem (h : name ∉ s.map Prod.fst) : s.set name e = s ++ [(name, e)] := by
  induction s with
  | nil => rfl
  | cons p s ih =>
    rw [List.map_cons, List.mem_cons, not_or] at h
    rw [set, if_neg (Ne.symm h.1), ih h.2, List.cons_append]

theorem set_append_self {e' : Entry} (h : name ∉ s.map Prod.fst) :
    set name e' (s ++ [(name, e)]) = s ++ [(name, e')] := by
  induction s with
  | nil => exact if_pos rfl
  | cons p s ih =>
    rw [List.map_cons, List.mem_cons, not_or] at h
    rw [List.cons_append, set, if_neg (Ne.symm h.1), ih h.2, List.cons_append]

theorem addPair_of_not_mem (h : key ∉ s.map Prod.fst) :
    addPair ⟨[], key⟩ v s = some (s ++ [(key, .value v)]) := by
  rw [addPair, alter, addNew, field?_of_not_mem h]
  simp only [set_of_not_mem h]

theorem openTable_of_not_mem (h : name ∉ s.map Prod.fst) :
    openTable name s = some (s ++ [(name, .table .opened [])]) := by
  rw [openTable, field?_of_not_mem h]
  simp only [set_of_not_mem h]

theorem alter_opened {f : Section → Option Section} (h : name ∉ s.map Prod.fst) :
    alter .passed f [name] (s ++ [(name, .table .opened inner)]) =
      (f inner).map fun inner' => s ++ [(name, .table .opened inner')] := by
  rw [alter, field?_append_self h]
  simp only [alter, set_append_self h]
  rfl

end Section

namespace Draft

def atRoot (s : Section) : Draft := ⟨s, []⟩

def inTable (s : Section) (name : String) (inner : Section) : Draft :=
  ⟨s ++ [(name, .table .opened inner)], [name]⟩

theorem add_header (h : name ∉ s.map Prod.fst) :
    (atRoot s).add (.header ⟨[], name⟩) = some (inTable s name []) := by
  rw [atRoot, add, Section.alter, Section.openTable_of_not_mem h]
  rfl

theorem add_pair_inTable {k : Key} (h : name ∉ s.map Prod.fst) :
    (inTable s name inner).add (.pair k v) = (inner.addPair k v).map (inTable s name) := by
  rw [inTable, add, Section.alter_opened h, Option.map_map]
  rfl

end Draft

structure PairLine where
  key : String
  written : List Char
  value : Toml

namespace PairLine

variable {p : PairLine} {ps qs : List PairLine}

def chars (p : PairLine) : List Char := p.key.toList ++ [' ', '=', ' '] ++ p.written ++ ['\n']

def statement (p : PairLine) : Statement := .pair ⟨[], p.key⟩ p.value

def entry (p : PairLine) : String × Entry := (p.key, .value p.value)

def field (p : PairLine) : String × Toml := (p.key, p.value)

structure Sound (p : PairLine) : Prop where
  bare : IsBare p.key.toList
  value : Value p.written p.value
  noReturn : '\r' ∉ p.written

theorem Sound.reads (h : p.Sound) : Reads p.chars p.statement := reads_pair h.bare h.value

theorem Sound.not_mem_chars (h : p.Sound) : '\r' ∉ p.chars := by
  have hkey : '\r' ∉ p.key.toList := h.bare.not_mem rfl
  simp [chars, hkey, h.noReturn]

theorem Sound.head?_chars (h : p.Sound) (rest : List Char) :
    (p.chars ++ rest).head? ≠ some '\uFEFF' := by
  obtain ⟨c, cs, hcs, hc⟩ := h.bare.exists_cons
  rw [chars, hcs]
  simpa using ne_of_holds hc '\uFEFF' rfl

/-- Pairs are added one behind the other wherever a pair is added as to a single section. -/
theorem foldlM_add {place : Section → Draft}
    (hplace : ∀ s k v, (place s).add (.pair k v) = (s.addPair k v).map place)
    (hkeys : (s.map Prod.fst ++ ps.map PairLine.key).Nodup) :
    (ps.map statement).foldlM Draft.add (place s) = some (place (s ++ ps.map entry)) := by
  induction ps generalizing s with
  | nil =>
    rw [List.map_nil, List.map_nil, List.append_nil]
    rfl
  | cons p ps ih =>
    have hfresh : p.key ∉ s.map Prod.fst := by
      intro hmem
      exact (List.nodup_append.1 hkeys).2.2 _ hmem _ List.mem_cons_self rfl
    have hlater : ((s ++ [p.entry]).map Prod.fst ++ ps.map PairLine.key).Nodup := by
      simpa [entry] using hkeys
    have hadd : (place s).add p.statement = some (place (s ++ [p.entry])) := by
      rw [statement, hplace, Section.addPair_of_not_mem hfresh]
      rfl
    rw [List.map_cons, List.foldlM_cons, hadd, Option.bind_eq_bind, Option.bind_some, ih hlater,
      List.map_cons, List.append_assoc, List.singleton_append]

theorem fieldsToToml_append (s t : Section) :
    fieldsToToml (s ++ t) = fieldsToToml s ++ fieldsToToml t := by
  induction s with
  | nil => rfl
  | cons p s ih => rw [List.cons_append, fieldsToToml, fieldsToToml, ih, List.cons_append]

theorem fieldsToToml_map_entry (ps : List PairLine) :
    fieldsToToml (ps.map entry) = ps.map field := by
  induction ps with
  | nil => rfl
  | cons p ps ih => rw [List.map_cons, entry, fieldsToToml, ih, Entry.toToml, List.map_cons, field]

theorem assemble_pairs (hname : name ∉ ps.map PairLine.key) (hps : (ps.map PairLine.key).Nodup)
    (hqs : (qs.map PairLine.key).Nodup) :
    assemble (ps.map statement ++ .header ⟨[], name⟩ :: qs.map statement) =
      some (ps.map field ++ [(name, .table (qs.map field))]) := by
  have hnames : (ps.map entry).map Prod.fst = ps.map PairLine.key := by
    rw [List.map_map]
    rfl
  rw [← hnames] at hname
  have hfirst : (ps.map statement).foldlM Draft.add (Draft.atRoot []) =
      some (Draft.atRoot (ps.map entry)) :=
    foldlM_add (fun s k v => rfl) (by simpa using hps)
  have hlast : (qs.map statement).foldlM Draft.add (Draft.inTable (ps.map entry) name []) =
      some (Draft.inTable (ps.map entry) name (qs.map entry)) :=
    foldlM_add (fun inner k v => Draft.add_pair_inTable hname) (by simpa using hqs)
  have hall : (ps.map statement ++ .header ⟨[], name⟩ :: qs.map statement).foldlM Draft.add {} =
      some (Draft.inTable (ps.map entry) name (qs.map entry)) := by
    rw [List.foldlM_append]
    change ((ps.map statement).foldlM Draft.add (Draft.atRoot [])).bind _ = _
    rw [hfirst, Option.bind_some, List.foldlM_cons, Draft.add_header hname, Option.bind_eq_bind,
      Option.bind_some, hlast]
  rw [assemble, hall, Option.map_some, Draft.inTable, fieldsToToml_append, fieldsToToml_map_entry,
    fieldsToToml, fieldsToToml, Entry.toToml, fieldsToToml_map_entry]

def line (p : PairLine) : List Char × Statement := (p.chars, p.statement)

def headerLine (name : String) : List Char × Statement :=
  ('\n' :: '[' :: (name.toList ++ [']', '\n']), .header ⟨[], name⟩)

theorem flatMap_line (ps : List PairLine) : (ps.map line).flatMap Prod.fst = ps.flatMap chars :=
  List.flatMap_map ..

theorem flatMap_lines (ps qs : List PairLine) (name : String) :
    (ps.map line ++ headerLine name :: qs.map line).flatMap Prod.fst =
      ps.flatMap chars ++ '\n' :: '[' :: (name.toList ++ [']', '\n']) ++ qs.flatMap chars := by
  rw [List.flatMap_append, List.flatMap_cons, flatMap_line, flatMap_line, headerLine,
    List.append_assoc]

theorem reads_lines (hps : ∀ p ∈ ps, p.Sound) (hname : IsBare name.toList)
    (hqs : ∀ q ∈ qs, q.Sound) :
    ∀ l ∈ ps.map line ++ headerLine name :: qs.map line, Reads l.1 l.2 := by
  simp only [List.mem_append, List.mem_cons, List.mem_map]
  rintro l (⟨p, hp, rfl⟩ | rfl | ⟨q, hq, rfl⟩)
  · exact (hps p hp).reads
  · exact reads_header hname
  · exact (hqs q hq).reads

theorem head?_lines (hps : ∀ p ∈ ps, p.Sound) (ls : List (List Char × Statement)) :
    ((ps.map line ++ headerLine name :: ls).flatMap Prod.fst).head? ≠ some '\uFEFF' := by
  cases ps with
  | nil => simp [headerLine]
  | cons p ps =>
    rw [List.map_cons, List.cons_append, List.flatMap_cons]
    exact (hps p List.mem_cons_self).head?_chars _

theorem not_mem_lines (hps : ∀ p ∈ ps, p.Sound) (hname : IsBare name.toList)
    (hqs : ∀ q ∈ qs, q.Sound) :
    '\r' ∉ (ps.map line ++ headerLine name :: qs.map line).flatMap Prod.fst := by
  have hheader : '\r' ∉ (headerLine name).1 := by
    have hchars : '\r' ∉ name.toList := hname.not_mem rfl
    simp [headerLine, hchars]
  simp only [List.mem_flatMap, List.mem_append, List.mem_cons, List.mem_map]
  rintro ⟨l, ⟨p, hp, rfl⟩ | rfl | ⟨q, hq, rfl⟩, hmem⟩
  · exact (hps p hp).not_mem_chars hmem
  · exact hheader hmem
  · exact (hqs q hq).not_mem_chars hmem

theorem readChars_pairs (hps : ∀ p ∈ ps, p.Sound) (hname : IsBare name.toList)
    (hqs : ∀ q ∈ qs, q.Sound) (hkeys : (ps.map PairLine.key ++ [name]).Nodup)
    (hinner : (qs.map PairLine.key).Nodup) :
    readChars (ps.flatMap chars ++ '\n' :: '[' :: (name.toList ++ [']', '\n']) ++
      qs.flatMap chars) = some (ps.map field ++ [(name, .table (qs.map field))]) := by
  obtain ⟨hfirst, -, hdisjoint⟩ := List.nodup_append.1 hkeys
  have hfresh : name ∉ ps.map PairLine.key :=
    fun hmem => hdisjoint _ hmem _ List.mem_cons_self rfl
  have hstatements : (ps.map line ++ headerLine name :: qs.map line).map Prod.snd =
      ps.map statement ++ .header ⟨[], name⟩ :: qs.map statement := by
    simp [line, headerLine, Function.comp_def]
  rw [← flatMap_lines, readChars_flatMap (reads_lines hps hname hqs) (head?_lines hps _)
    (not_mem_lines hps hname hqs), hstatements, assemble_pairs hfresh hfirst hinner]

end PairLine

end BemOutline.Toml

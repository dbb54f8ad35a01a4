import BemOutline.Toml.Quotation
import Mathlib.Data.List.Basic
import Mathlib.Data.Nat.Init
import Mathlib.Tactic.SplitIfs

/-! Every text is read back from the quotation that is chosen for it. A quotation on several lines
may hold marks like those that close it, as long as not too many of them stand side by side. -/

namespace BemOutline.Toml.Quotation

variable {q : Quotation} {p p' : Place} {run k : Nat} {c d : Char} {cs w rest : List Char}

theorem delimiter_of_multi (h : q.isMulti = true) : q.delimiter = [q.mark, q.mark, q.mark] := by
  rw [delimiter, if_pos h]
  rfl

theorem delimiter_of_single (h : q.isMulti = false) : q.delimiter = [q.mark] := by
  rw [delimiter, if_neg (by simp [h])]
  rfl

theorem dropWord?_append (ws cs : List Char) : dropWord? ws (ws ++ cs) = some cs := by
  induction ws with
  | nil => rfl
  | cons w ws ih => rw [List.cons_append, dropWord?, if_pos rfl, ih]

theorem dropWord?_eq_some (h : dropWord? w cs = some rest) : cs = w ++ rest := by
  induction w generalizing cs with
  | nil =>
    cases h
    rfl
  | cons v w ih =>
    cases cs with
    | nil => cases h
    | cons c cs =>
      rw [dropWord?] at h
      split_ifs at h with hc
      rw [hc, ih h, List.cons_append]

theorem closing?_marks (hk : k ≤ q.maxRun) (hrest : rest.head? ≠ some q.mark) :
    q.closing? (List.replicate k q.mark ++ (q.delimiter ++ rest)) =
      some (List.replicate k q.mark, rest) := by
  have hstop : ∀ n, (rest.take n).takeWhile (· = q.mark) = [] := by
    intro n
    cases n <;> cases rest <;> simp_all
  cases hm : q.isMulti with
  | false =>
    obtain rfl : k = 0 := by simpa [maxRun, hm] using hk
    rw [List.replicate_zero, List.nil_append, closing?, dropWord?_append]
    simp [hm]
  | true =>
    have hcomm : List.replicate k q.mark ++ (q.delimiter ++ rest) =
        q.delimiter ++ (List.replicate k q.mark ++ rest) := by
      rw [delimiter, if_pos hm, ← List.append_assoc, ← List.append_assoc,
        List.replicate_append_replicate, List.replicate_append_replicate, Nat.add_comm]
    have hmore : ((List.replicate k q.mark ++ rest).take 2).takeWhile (· = q.mark) =
        List.replicate k q.mark := by
      have hk2 : k ≤ 2 := by simpa [maxRun, hm] using hk
      rw [List.take_append, List.take_of_length_le (by simpa using hk2), List.takeWhile_append,
        List.takeWhile_replicate]
      simp [hstop]
    rw [hcomm, closing?, dropWord?_append]
    simp only [hm, if_true, hmore, List.length_replicate, List.drop_left']

theorem closing?_of_ne (hd : d ≠ q.mark) (hk : k ≤ q.maxRun) :
    q.closing? (List.replicate k q.mark ++ d :: rest) = none := by
  rw [closing?]
  cases hdrop : dropWord? q.delimiter (List.replicate k q.mark ++ d :: rest) with
  | none => rfl
  | some tail =>
    -- the delimiter would reach over the character that is no mark
    have heq := congrArg (·[k]?) (dropWord?_eq_some hdrop)
    have hlt : k < (if q.isMulti then 3 else 1) := by
      rw [maxRun] at hk
      split_ifs at hk ⊢ <;> omega
    simp [delimiter, List.getElem?_append, hlt] at heq
    exact absurd heq hd

theorem readBody_of_closing (hp : p.isOpen = true) (h : q.closing? (c :: cs) = some (w, rest)) :
    q.readBody p (c :: cs) = some (w, rest) := by
  rw [readBody, if_pos hp, h]

theorem readBody_of_step {out : Option Char}
    (h : p.isOpen = false ∨ q.closing? (c :: cs) = none) (hs : q.step p c = some (out, p')) :
    q.readBody p (c :: cs) = (q.readBody p' cs).map fun r => (out.toList ++ r.1, r.2) := by
  have hnone : (if p.isOpen then q.closing? (c :: cs) else none) = none := by
    rcases h with h | h <;> simp [h]
  rw [readBody, hnone]
  simp only [hs]

theorem readBody_silent (hp : p.isOpen = false) (hs : q.step p c = some (none, p')) :
    q.readBody p (c :: cs) = q.readBody p' cs := by
  rw [readBody_of_step (.inl hp) hs]
  exact Option.map_id'

/-- A way to write one character. It starts with no mark, and is read off any rest. -/
structure Stands (q : Quotation) (c : Char) (w : List Char) : Prop where
  head : ∃ d ds, w = d :: ds ∧ d ≠ q.mark
  read : ∀ rest,
    q.readBody .text (w ++ rest) = (q.readBody .text rest).map fun r => (c :: r.1, r.2)

/-- What stands between the delimiters for a text, given how many marks stand in front of it. -/
inductive Spells (q : Quotation) : Nat → List Char → List Char → Prop where
  | nil {run : Nat} : Spells q run [] []
  | mark {run : Nat} {cs w : List Char} :
    run < q.maxRun → Spells q (run + 1) cs w → Spells q run (q.mark :: cs) (q.mark :: w)
  | char {run : Nat} {c : Char} {cs v w : List Char} :
    Stands q c v → Spells q 0 cs w → Spells q run (c :: cs) (v ++ w)

theorem Spells.marks_or (h : Spells q run cs w) (hrun : run ≤ q.maxRun) :
    ∃ k, run + k ≤ q.maxRun ∧
      (cs = List.replicate k q.mark ∧ w = List.replicate k q.mark ∨
        ∃ d ds, w = List.replicate k q.mark ++ d :: ds ∧ d ≠ q.mark) := by
  induction h with
  | nil => exact ⟨0, hrun, .inl ⟨rfl, rfl⟩⟩
  | mark hlt _ ih =>
    obtain ⟨k, hk, ⟨rfl, rfl⟩ | ⟨d, ds, rfl, hd⟩⟩ := ih hlt
    · exact ⟨k + 1, by omega, .inl ⟨rfl, rfl⟩⟩
    · exact ⟨k + 1, by omega, .inr ⟨d, ds, rfl, hd⟩⟩
  | @char _ _ _ _ w hv _ _ =>
    obtain ⟨d, ds, rfl, hd⟩ := hv.head
    exact ⟨0, hrun, .inr ⟨d, ds ++ w, rfl, hd⟩⟩

theorem step_mark (q : Quotation) : q.step .text q.mark = some (some q.mark, .text) := by
  cases q <;> rfl

theorem Spells.readBody_eq (h : Spells q run cs w) (hrun : run ≤ q.maxRun)
    (hrest : rest.head? ≠ some q.mark) :
    q.readBody .text (w ++ (q.delimiter ++ rest)) = some (cs, rest) := by
  induction h with
  | nil =>
    have hclose := closing?_marks (Nat.zero_le q.maxRun) hrest
    cases hd : q.delimiter ++ rest with
    | nil =>
      have hlen := congrArg List.length hd
      rw [List.length_append, delimiter, List.length_replicate, List.length_nil] at hlen
      split_ifs at hlen <;> omega
    | cons d ds =>
      rw [List.replicate_zero, List.nil_append, hd] at hclose
      exact readBody_of_closing rfl hclose
  | @mark run cs w hlt hw ih =>
    obtain ⟨k, hk, ⟨hcs, hwk⟩ | ⟨d, ds, hwk, hd⟩⟩ := (Spells.mark hlt hw).marks_or hrun
    · -- only marks are left, which all stand in front of the closing ones
      have hclose := closing?_marks (by omega : k ≤ q.maxRun) hrest
      rw [← hwk, List.cons_append] at hclose
      rw [List.cons_append, readBody_of_closing rfl hclose, hwk, hcs]
    · have hclose : q.closing? (List.replicate k q.mark ++ d :: (ds ++ (q.delimiter ++ rest))) =
          none := closing?_of_ne hd (by omega)
      rw [← List.cons_append, ← List.append_assoc, ← hwk, List.cons_append] at hclose
      rw [List.cons_append, readBody_of_step (.inr hclose) q.step_mark, ih hlt]
      rfl
  | char hv _ ih =>
    rw [List.append_assoc, hv.read, ih (Nat.zero_le _)]
    rfl

theorem stands_plain (hc : c ≠ q.mark) (hs : q.step .text c = some (some c, .text)) :
    Stands q c [c] where
  head := ⟨c, [], rfl, hc⟩
  read _ := readBody_of_step (.inr (closing?_of_ne hc (Nat.zero_le _))) hs

theorem stands_behind_escape (hq : q.hasEscapes = true) {v : List Char}
    (h : ∀ rest, q.readBody .escape (v ++ rest) =
      (q.readBody .text rest).map fun r => (c :: r.1, r.2)) : Stands q c ('\\' :: v) where
  head := ⟨'\\', v, rfl, by cases q <;> decide⟩
  read rest := by
    have hs : q.step .text '\\' = some (none, .escape) := by
      rw [step, plainStep, if_pos ⟨rfl, hq⟩]
    have hmark : '\\' ≠ q.mark := by cases q <;> decide
    have hclose : q.closing? ('\\' :: (v ++ rest)) = none :=
      closing?_of_ne hmark (Nat.zero_le q.maxRun)
    rw [List.cons_append, readBody_of_step (.inr hclose) hs, h]
    exact Option.map_id'

theorem stands_escape (hq : q.hasEscapes = true) (hs : q.step .escape d = some (some c, .text)) :
    Stands q c ['\\', d] :=
  stands_behind_escape hq fun _ => readBody_of_step (.inl rfl) hs

theorem hexValue?_upperHex (n : Nat) : Text.hexValue? (upperHex n) = some (n % 16) := by
  have hdigit : ∀ d < 16, Text.hexValue? (Nat.digitChar d).toUpper = some d := by decide
  exact hdigit _ (Nat.mod_lt _ (by decide))

theorem stands_code (hq : q.hasEscapes = true) (hc : c.toNat < 256) :
    Stands q c ['\\', 'u', '0', '0', upperHex (c.toNat / 16), upperHex c.toNat] := by
  refine stands_behind_escape hq fun rest => ?_
  have hvalue : c.toNat / 16 % 16 * 16 + c.toNat % 16 = c.toNat := by omega
  have hzero : ∀ left, q.step (.code (left + 2) 0) '0' = some (none, .code (left + 1) 0) :=
    fun left => rfl
  have hhigh : q.step (.code 2 0) (upperHex (c.toNat / 16)) =
      some (none, .code 1 (c.toNat / 16 % 16)) := by
    rw [step, codeStep, hexValue?_upperHex]
    simp
  have hlow : q.step (.code 1 (c.toNat / 16 % 16)) (upperHex c.toNat) = some (some c, .text) := by
    rw [step, codeStep, hexValue?_upperHex]
    simp only [Nat.lt_irrefl, if_false, hvalue, Char.ofNat_toNat]
    exact if_pos c.valid
  have hopen : q.step .escape 'u' = some (none, .code 4 0) := rfl
  rw [List.cons_append, readBody_silent rfl hopen, List.cons_append,
    readBody_silent rfl (hzero 2), List.cons_append, readBody_silent rfl (hzero 1),
    List.cons_append, readBody_silent rfl hhigh, List.cons_append,
    readBody_of_step (.inl rfl) hlow]
  rfl

theorem stands_escapedChar (hq : q.hasEscapes = true) (hc : c ≠ '"') :
    Stands q c (q.escapedChar c) := by
  have hmark : q.mark = '"' := of_decide_eq_true hq
  rw [escapedChar]
  split_ifs with h1 h2 h3 hm h4 h5 h6 h7
  · exact stands_escape hq (h1 ▸ rfl)
  · exact stands_escape hq (h2 ▸ rfl)
  · subst h3
    apply stands_plain (hmark ▸ hc)
    rw [step, plainStep, if_neg (by simp), if_pos (.inr ⟨rfl, hm⟩)]
  · exact stands_escape hq (h3 ▸ rfl)
  · exact stands_escape hq (h4 ▸ rfl)
  · exact stands_escape hq (h5 ▸ rfl)
  · subst h6
    exact stands_escape hq rfl
  · apply stands_code hq
    have hcontrol : c.toNat < 0x20 ∨ c.toNat = 0x7F := by simpa [isControl] using h7
    omega
  · apply stands_plain (hmark ▸ hc)
    have hline : isLineChar c = true := by simp [isLineChar, h7]
    rw [step, plainStep, if_neg fun h => h6 h.1, if_pos (.inl hline)]

theorem spells_escapedBody (hq : q.hasEscapes = true) (run : Nat) (cs : List Char) :
    Spells q run cs (q.escapedBody run cs) := by
  have hmark : q.mark = '"' := of_decide_eq_true hq
  induction cs generalizing run with
  | nil => exact .nil
  | cons c cs ih =>
    rw [escapedBody]
    split_ifs with hc hrun
    · subst hc
      rw [← hmark]
      exact .mark hrun (ih _)
    · subst hc
      exact .char (stands_escape hq rfl) (ih 0)
    · exact .char (stands_escapedChar hq hc) (ih 0)

theorem le_longestRun (mark : Char) (run : Nat) (cs : List Char) :
    run ≤ longestRun mark run cs := by
  induction cs generalizing run with
  | nil => exact Nat.le_refl _
  | cons c cs ih =>
    rw [longestRun]
    split_ifs
    · exact Nat.le_trans (Nat.le_succ run) (ih _)
    · exact Nat.le_max_left ..

theorem longestRun_of_not_mem {mark : Char} (h : mark ∉ cs) (run : Nat) :
    longestRun mark run cs = run := by
  induction cs generalizing run with
  | nil => rfl
  | cons c cs ih =>
    rw [List.mem_cons, not_or] at h
    rw [longestRun, if_neg (Ne.symm h.1), ih h.2, Nat.max_eq_left (Nat.zero_le _)]

theorem spells_self (hq : q.hasEscapes = false)
    (hplain : ∀ c ∈ cs, isLineChar c = true ∨ c = '\n' ∧ q.isMulti = true)
    (hrun : longestRun q.mark run cs ≤ q.maxRun) : Spells q run cs cs := by
  induction cs generalizing run with
  | nil => exact .nil
  | cons c cs ih =>
    have htail := fun run => @ih run fun d hd => hplain d (List.mem_cons_of_mem _ hd)
    rw [longestRun] at hrun
    split_ifs at hrun with hc
    · subst hc
      exact .mark (Nat.le_trans (le_longestRun ..) hrun) (htail _ hrun)
    · have hs : q.step .text c = some (some c, .text) := by
        rw [step, plainStep, if_neg (by simp [hq]), if_pos (hplain c List.mem_cons_self)]
      exact .char (stands_plain hc hs) (htail 0 (Nat.le_trans (Nat.le_max_right ..) hrun))

def body (q : Quotation) (cs : List Char) : List Char :=
  if q.hasEscapes then q.escapedBody 0 cs else cs

theorem write_eq (q : Quotation) (cs : List Char) :
    q.write cs =
      q.delimiter ++ ((if q.isMulti ∧ '\n' ∈ cs then ['\n'] else []) ++
        (q.body cs ++ q.delimiter)) := by
  rw [write, body, List.append_assoc, List.append_assoc]

/-- Whether a text can be written in a quotation: without escapes, all has to stand for itself. -/
def Fits (q : Quotation) (cs : List Char) : Prop :=
  q.hasEscapes = false →
    (∀ c ∈ cs, isLineChar c = true ∨ c = '\n' ∧ q.isMulti = true) ∧
      longestRun q.mark 0 cs ≤ q.maxRun

theorem Fits.spells (h : Fits q cs) : Spells q 0 cs (q.body cs) := by
  rw [body]
  split_ifs with hq
  · exact spells_escapedBody hq 0 cs
  · have hno : q.hasEscapes = false := by simpa using hq
    exact spells_self hno (h hno).1 (h hno).2

theorem isLineChar_of_needsNoCode (h : needsNoCode cs = true) (hc : c ∈ cs) :
    isLineChar c = true ∨ c = '\n' := by
  have hall := List.all_eq_true.1 h c hc
  simp only [Bool.or_eq_true, decide_eq_true_eq] at hall
  exact hall.symm

theorem fits_chosenFor (cs : List Char) : Fits (chosenFor cs) cs := by
  rw [chosenFor]
  split_ifs with h1 h2 h3 h4
  · exact fun h => nomatch h
  · intro _
    refine ⟨fun c hc => .inl ?_, ?_⟩
    · rcases isLineChar_of_needsNoCode h2.1 hc with hline | rfl
      · exact hline
      · exact absurd hc h2.2.1
    · exact Nat.le_of_eq (longestRun_of_not_mem h2.2.2 0)
  · exact fun h => nomatch h
  · intro _
    exact ⟨fun c hc => (isLineChar_of_needsNoCode h4.1 hc).imp_right fun h => ⟨h, rfl⟩, h4.2⟩
  · exact fun h => nomatch h
  · exact fun h => nomatch h

theorem isLineChar_upperHex (n : Nat) : isLineChar (upperHex n) = true := by
  have hdigit : ∀ d < 16, isLineChar (Nat.digitChar d).toUpper = true := by decide
  exact hdigit _ (Nat.mod_lt _ (by decide))

theorem isLineChar_mark (q : Quotation) : isLineChar q.mark = true := by
  cases q <;> rfl

theorem isLineChar_of_mem_escapedChar (h : d ∈ q.escapedChar c) :
    isLineChar d = true ∨ d = '\n' ∧ c = '\n' := by
  have hpair : ∀ {e : Char}, isLineChar e = true → d ∈ ['\\', e] → isLineChar d = true := by
    intro e he hd
    rcases List.mem_cons.1 hd with rfl | hd
    · rfl
    · rwa [List.mem_singleton.1 hd]
  rw [escapedChar] at h
  split_ifs at h with h1 h2 h3 hm h4 h5 h6 h7
  · exact .inl (hpair (by decide) h)
  · exact .inl (hpair (by decide) h)
  · exact .inr ⟨List.mem_singleton.1 h, h3⟩
  · exact .inl (hpair (by decide) h)
  · exact .inl (hpair (by decide) h)
  · exact .inl (hpair (by decide) h)
  · exact .inl (hpair (by decide) h)
  · left
    simp only [List.mem_cons, List.not_mem_nil, or_false] at h
    rcases h with rfl | rfl | rfl | rfl | rfl | rfl
    · rfl
    · rfl
    · rfl
    · rfl
    · exact isLineChar_upperHex _
    · exact isLineChar_upperHex _
  · left
    rw [List.mem_singleton.1 h]
    simp [isLineChar, h7]

theorem isLineChar_of_mem_escapedBody (h : d ∈ q.escapedBody run cs) :
    isLineChar d = true ∨ d = '\n' ∧ '\n' ∈ cs := by
  induction cs generalizing run with
  | nil => cases h
  | cons c cs ih =>
    have htail : ∀ {run}, d ∈ q.escapedBody run cs →
        isLineChar d = true ∨ d = '\n' ∧ '\n' ∈ c :: cs :=
      fun h => (ih h).imp_right fun h => ⟨h.1, List.mem_cons_of_mem _ h.2⟩
    rw [escapedBody] at h
    split_ifs at h with hc hrun
    · rcases List.mem_cons.1 h with rfl | h
      · exact .inl rfl
      · exact htail h
    · rcases List.mem_cons.1 h with rfl | h
      · exact .inl rfl
      · rcases List.mem_cons.1 h with rfl | h
        · exact .inl rfl
        · exact htail h
    · rcases List.mem_append.1 h with h | h
      · rcases isLineChar_of_mem_escapedChar h with h | ⟨hd, rfl⟩
        · exact .inl h
        · exact .inr ⟨hd, List.mem_cons_self⟩
      · exact htail h

theorem Fits.isLineChar_of_mem_body (h : Fits q cs) (hd : d ∈ q.body cs) :
    isLineChar d = true ∨ d = '\n' ∧ '\n' ∈ cs := by
  rw [body] at hd
  split_ifs at hd with hq
  · exact isLineChar_of_mem_escapedBody hd
  · rcases (h (by simpa using hq)).1 d hd with hline | ⟨rfl, -⟩
    · exact .inl hline
    · exact .inr ⟨rfl, hd⟩

theorem Fits.isLineChar_of_mem_write (h : Fits q cs) (hd : d ∈ q.write cs) :
    isLineChar d = true ∨ d = '\n' := by
  have hdelimiter : d ∈ q.delimiter → isLineChar d = true :=
    fun hd => List.eq_of_mem_replicate hd ▸ q.isLineChar_mark
  simp only [write_eq, List.mem_append] at hd
  rcases hd with hd | hd | hd | hd
  · exact .inl (hdelimiter hd)
  · split_ifs at hd
    · exact .inr (List.mem_singleton.1 hd)
    · cases hd
  · exact (h.isLineChar_of_mem_body hd).imp_right And.left
  · exact .inl (hdelimiter hd)

/-- The line break in front of a text with line breaks is no part of it, and no other text starts
with one. -/
theorem Fits.dropBreak_eq (h : Fits q cs) (rest : List Char) :
    q.dropBreak ((if q.isMulti ∧ '\n' ∈ cs then ['\n'] else []) ++
      (q.body cs ++ (q.delimiter ++ rest))) = q.body cs ++ (q.delimiter ++ rest) := by
  split_ifs with hbreak
  · rw [List.singleton_append, dropBreak, if_pos ⟨rfl, hbreak.1⟩]
  · rw [List.nil_append]
    cases hb : q.body cs ++ (q.delimiter ++ rest) with
    | nil => rfl
    | cons c tail =>
      rw [dropBreak, if_neg]
      rintro ⟨rfl, hm⟩
      have hmem : '\n' ∈ q.body cs ∨ '\n' = q.mark := by
        cases hbody : q.body cs with
        | nil =>
          rw [hbody, List.nil_append, delimiter_of_multi hm] at hb
          exact .inr (List.cons.inj hb).1.symm
        | cons d ds =>
          rw [hbody] at hb
          exact .inl ((List.cons.inj hb).1 ▸ List.mem_cons_self)
      rcases hmem with hmem | hmark
      · rcases h.isLineChar_of_mem_body hmem with hline | ⟨-, hcs⟩
        · cases hline
        · exact hbreak ⟨hm, hcs⟩
      · have := q.isLineChar_mark
        rw [← hmark] at this
        cases this

theorem Fits.read_write (h : Fits q cs) (hrest : rest.head? ≠ some q.mark) :
    q.read (q.write cs ++ rest) = some (cs, rest) := by
  rw [write_eq, List.append_assoc, List.append_assoc, List.append_assoc, read, dropWord?_append]
  simp only [h.dropBreak_eq]
  exact h.spells.readBody_eq (Nat.zero_le _) hrest

theorem Fits.any?_write (h : Fits q cs) (hrest : rest.head? ≠ some q.mark) :
    any? (q.write cs ++ rest) = some q := by
  rw [write_eq, List.append_assoc]
  cases hm : q.isMulti with
  | true =>
    rw [delimiter_of_multi hm, any?]
    cases q with
    | basic => cases hm
    | literal => cases hm
    | multiBasic => rfl
    | multiLiteral => rfl
  | false =>
    have hmax : q.maxRun = 0 := by simp [maxRun, hm]
    -- a second mark is the closing one, and no third mark follows
    have htake : ∀ m : Char, ((q.mark :: (q.body cs ++ (q.mark :: rest))).take 3) ≠ [m, m, m] := by
      intro m heq
      obtain ⟨k, hk, ⟨-, hbody⟩ | ⟨d, ds, hbody, hd⟩⟩ := h.spells.marks_or (Nat.zero_le _)
      · obtain rfl : k = 0 := by omega
        rw [hbody] at heq
        cases rest with
        | nil => simp at heq
        | cons r rest =>
          simp at heq hrest
          exact hrest (heq.2.trans heq.1.symm)
      · obtain rfl : k = 0 := by omega
        rw [hbody] at heq
        simp at heq
        exact hd (heq.2.1.trans heq.1.symm)
    rw [delimiter_of_single hm, any?]
    simp only [false_and, if_false, List.nil_append, List.append_assoc, List.singleton_append,
      Bool.false_eq_true]
    have hbasic : multiBasic.delimiter = ['"', '"', '"'] := rfl
    have hliteral : multiLiteral.delimiter = ['\'', '\'', '\''] := rfl
    rw [hbasic, hliteral, if_neg (htake _), if_neg (htake _)]
    cases q with
    | basic => rfl
    | literal => rfl
    | multiBasic => cases hm
    | multiLiteral => cases hm

end Quotation

open Quotation

theorem readText_writeText (s : String) {rest : List Char}
    (hrest : ∀ q : Quotation, rest.head? ≠ some q.mark) :
    readText (writeText s ++ rest) = some (s, rest) := by
  have hfits := fits_chosenFor s.toList
  rw [writeText, readText, hfits.any?_write (hrest _)]
  simp only [hfits.read_write (hrest _), Option.map_some, String.ofList_toList]

theorem isLineChar_of_mem_writeText {s : String} {c : Char} (h : c ∈ writeText s) :
    isLineChar c = true ∨ c = '\n' :=
  (fits_chosenFor s.toList).isLineChar_of_mem_write h

end BemOutline.Toml

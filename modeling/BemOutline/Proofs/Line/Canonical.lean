import BemOutline.Proofs.Line.Grammar
import BemOutline.Proofs.Line.Written

/-! What can be said about a node on one line. There is a line for it exactly if its parts meet a
few conditions (`canonical_iff`, the result of this module), and then it can be printed. -/

namespace BemOutline.Line

def shorthand (l : Line) : Shorthand := ⟨l.tag, l.name.text, l.modifiers, l.count, l.text⟩

def IsTag (s : String) : Prop := s ≠ "" ∧ s.toList.all fun c => isTokenChar c && c ≠ '.'

instance : DecidablePred IsTag := fun _ => inferInstanceAs (Decidable (_ ∧ _))

variable {cs indent : List Char} {defaultTag : String} {number : Nat} {seen : Bool} {l : Line}

namespace Shorthand

/-- What a line can say about a node. A tag that cannot be written can be left out if it is the
default one, and of the modifiers one at most can end in a dash. -/
structure Canonical (defaultTag : String) (s : Shorthand) : Prop where
  tag : s.tag = defaultTag ∨ IsTag s.tag
  words : ∀ w ∈ s.name :: s.modifiers, IsPlain w
  tight : s.modifiers ≠ [] → ¬ EndsInDash s.name
  loose : ∀ m ∈ s.modifiers, ∀ m' ∈ s.modifiers, EndsInDash m → EndsInDash m' → m = m'
  ascending : s.modifiers.Pairwise (· < ·)
  count : 1 ≤ s.count ∧ s.count < 2 ^ 32
  text : ∀ t ∈ s.text, t ≠ "" ∧ Text.trim t.toList = t.toList ∧ '\n' ∉ t.toList

instance (defaultTag : String) : DecidablePred (Canonical defaultTag) := fun s =>
  decidable_of_iff
    ((s.tag = defaultTag ∨ IsTag s.tag) ∧ (∀ w ∈ s.name :: s.modifiers, IsPlain w) ∧
      (s.modifiers ≠ [] → ¬ EndsInDash s.name) ∧
      (∀ m ∈ s.modifiers, ∀ m' ∈ s.modifiers, EndsInDash m → EndsInDash m' → m = m') ∧
      s.modifiers.Pairwise (· < ·) ∧ (1 ≤ s.count ∧ s.count < 2 ^ 32) ∧
      ∀ t ∈ s.text, t ≠ "" ∧ Text.trim t.toList = t.toList ∧ '\n' ∉ t.toList)
    ⟨fun ⟨tag, words, tight, loose, ascending, count, text⟩ =>
      ⟨tag, words, tight, loose, ascending, count, text⟩,
      fun h => ⟨h.tag, h.words, h.tight, h.loose, h.ascending, h.count, h.text⟩⟩

def arranged (s : Shorthand) : Shorthand where
  __ := s
  modifiers := s.modifiers.filter (¬ EndsInDash ·) ++ s.modifiers.filter (EndsInDash ·)

def tagMark (s : Shorthand) : List Char := if IsTag s.tag then s.tag.toList ++ ['.'] else []

def print (s : Shorthand) : List Char :=
  s.tagMark ++ s.arranged.classPart ++ s.rest (if s.text = none then 0 else 1)

end Shorthand

theorem tagAndClass?_of_tagless {cls : List Char} (hcls : cls ≠ []) (h : '.' ∉ cls)
    (defaultTag : List Char) : tagAndClass? defaultTag cls = some (defaultTag, cls) := by
  rw [tagAndClass?_eq, segment, segment, List.splitOn_eq_singleton h]
  simp [hcls]

theorem not_isBlank_getLast?_trim (cs : List Char) :
    ∀ c ∈ (Text.trim cs).getLast?, ¬ Text.isBlank c := by
  intro c hc
  obtain ⟨hne, rfl⟩ := List.mem_getLast?_eq_getLast hc
  exact List.rdropWhile_last_not _ _ hne

namespace Shorthand.Canonical

variable {s : Shorthand}

theorem mem_arranged {m : String} : m ∈ s.arranged.modifiers ↔ m ∈ s.modifiers := by
  simp only [arranged, List.mem_append, List.mem_filter, decide_eq_true_eq]
  tauto

theorem modifiersOf_arranged (h : s.Canonical defaultTag) :
    modifiersOf s.arranged.modifiers = s.modifiers :=
  (pairwise_modifiersOf _).eq_of_mem_iff h.ascending fun _ => mem_modifiersOf.trans mem_arranged

theorem filter_endsInDash (h : s.Canonical defaultTag) :
    s.modifiers.filter (EndsInDash ·) = [] ∨ ∃ m, s.modifiers.filter (EndsInDash ·) = [m] := by
  have hmem : ∀ m ∈ s.modifiers.filter (EndsInDash ·), m ∈ s.modifiers ∧ EndsInDash m := by
    simp [List.mem_filter]
  have hascending := h.ascending.filter (EndsInDash ·)
  match hf : s.modifiers.filter (EndsInDash ·) with
  | [] => exact .inl rfl
  | [m] => exact .inr ⟨m, rfl⟩
  | m :: m' :: ms =>
    rw [hf] at hmem hascending
    obtain ⟨hm, hdash⟩ := hmem m (by simp)
    obtain ⟨hm', hdash'⟩ := hmem m' (by simp)
    have hlt : m < m' := List.rel_of_pairwise_cons hascending (by simp)
    exact absurd (h.loose m hm m' hm' hdash hdash') hlt.ne

theorem legible_arranged (h : s.Canonical defaultTag) : s.arranged.Legible where
  words := by
    obtain ⟨hname, hmodifiers⟩ := List.forall_mem_cons.1 h.words
    exact List.forall_mem_cons.2 ⟨hname, fun m hm => hmodifiers m (mem_arranged.1 hm)⟩
  tight := by
    have htight : ∀ m ∈ s.modifiers.filter (¬ EndsInDash ·), ¬ EndsInDash m :=
      fun m hm => by simpa using (List.mem_filter.1 hm).2
    intro w hw
    suffices hmem : s.modifiers ≠ [] ∧ w ∈ s.name :: s.modifiers.filter (¬ EndsInDash ·) by
      rcases List.mem_cons.1 hmem.2 with rfl | hw
      · exact h.tight hmem.1
      · exact htight w hw
    rw [arranged] at hw
    obtain hnone | ⟨m, hone⟩ := h.filter_endsInDash
    · simp only [hnone, List.append_nil] at hw
      refine ⟨fun hmodifiers => ?_, List.mem_of_mem_dropLast hw⟩
      rw [hmodifiers] at hw
      cases hw
    · simp only [hone, ← List.cons_append, List.dropLast_concat] at hw
      refine ⟨fun hmodifiers => ?_, hw⟩
      rw [hmodifiers] at hone
      cases hone
  count := h.count
  text := h.text

theorem isTokenChar_token (h : s.Canonical defaultTag) :
    ∀ c ∈ s.tagMark ++ s.arranged.classPart, isTokenChar c := by
  rw [List.forall_mem_append]
  refine ⟨fun c hc => ?_, h.legible_arranged.isTokenChar_of_mem_classPart⟩
  rw [tagMark] at hc
  split_ifs at hc with htag
  · rcases List.mem_append.1 hc with hc | hc
    · exact (Bool.and_eq_true_iff.1 (List.all_eq_true.1 htag.2 c hc)).1
    · rw [List.mem_singleton.1 hc]
      decide
  · cases hc

theorem tagAndClass?_token (h : s.Canonical defaultTag) :
    tagAndClass? defaultTag.toList (s.tagMark ++ s.arranged.classPart) =
      some (s.tag.toList, s.arranged.classPart) := by
  have hcls : s.arranged.classPart ≠ [] := by simp [classPart]
  have hpoint := h.legible_arranged.not_mem_classPart
  rw [tagMark]
  split_ifs with htag
  · have htagpoint : '.' ∉ s.tag.toList := fun hmem => by
      simpa using List.all_eq_true.1 htag.2 '.' hmem
    rw [List.append_assoc, List.singleton_append]
    exact tagAndClass?_of_not_mem (by simpa using htag.1) hcls htagpoint hpoint
  · rw [h.tag.resolve_right htag]
    exact tagAndClass?_of_tagless hcls hpoint _

theorem parseChars_print (h : s.Canonical defaultTag) (hindent : ∀ c ∈ indent, Text.isBlank c) :
    parseChars defaultTag.toList number seen (indent ++ s.print) =
      .ok (some
        { source := String.ofList (indent ++ s.print)
          depth := if seen then indent.length else 0
          tag := s.tag
          name := if seen then .elem s.name else .block s.name
          modifiers := s.modifiers
          count := s.count
          text := s.text }) := by
  have hgap : s.arranged.text ≠ none → 0 < if s.text = none then 0 else 1 := by
    intro htext
    rw [if_neg (show s.text ≠ none from htext)]
    exact Nat.one_pos
  have hread : parseChars defaultTag.toList number seen _ = _ :=
    h.legible_arranged.parseChars_append hindent hgap h.isTokenChar_token h.tagAndClass?_token
  rw [toLine, h.modifiersOf_arranged] at hread
  exact hread

theorem not_mem_print (h : s.Canonical defaultTag) : '\n' ∉ s.print := by
  rw [print, List.mem_append, not_or]
  exact ⟨Text.not_mem_of_holds h.isTokenChar_token rfl, h.legible_arranged.not_mem_rest _⟩

theorem not_isBlank_getLast?_print (h : s.Canonical defaultTag) :
    ∀ c ∈ s.print.getLast?, ¬ Text.isBlank c := by
  intro c hc
  rw [print] at hc
  cases htext : s.text with
  | none =>
    have hrest : s.rest 0 = [] := by simp [rest, htext]
    rw [if_pos htext, hrest, List.append_nil] at hc
    have hchar := h.isTokenChar_token c (List.mem_of_getLast? hc)
    exact fun hblank => Bool.false_ne_true ((isTokenChar_of_isBlank hblank).symm.trans hchar)
  | some t =>
    obtain ⟨hne, htrim, -⟩ := h.text t htext
    have hrest : s.rest 1 = ' ' :: t.toList := by simp [rest, htext]
    rw [if_neg (by simp [htext]), hrest,
      List.getLast?_append_of_ne_nil _ (List.cons_ne_nil _ _),
      List.getLast?_cons_of_ne_nil (by simpa using hne), ← htrim] at hc
    exact not_isBlank_getLast?_trim _ c hc

theorem not_allBlank_print (s : Shorthand) : ¬ Text.allBlank s.print := by
  have hstar : '*' ∈ s.print := by simp [print, classPart]
  exact fun hall => absurd (List.all_eq_true.1 hall '*' hstar) (by decide)

end Shorthand.Canonical

theorem countOf_lt (cs : List Char) : countOf cs < 2 ^ 32 := by
  unfold countOf
  split
  · next h => exact Nat.lt_of_le_of_lt h.2.2.2 (by decide)
  · decide

theorem count_lt (h : parseChars defaultTag.toList number seen cs = .ok (some l)) :
    l.count < 2 ^ 32 := by
  obtain ⟨tag, cls, -, -, rfl⟩ := parseChars_eq_some h
  obtain ⟨name, mods, -, hparts⟩ := classParts_eq cls
  rw [ofParts, hparts]
  exact countOf_lt _

theorem prefix_trim (cs : List Char) : Text.trim cs <+: cs.dropWhile Text.isBlank :=
  List.rdropWhile_prefix ..

theorem trim_trim (cs : List Char) : Text.trim (Text.trim cs) = Text.trim cs := by
  change ((Text.trim cs).dropWhile Text.isBlank).rdropWhile Text.isBlank = Text.trim cs
  have hhead : (Text.trim cs).dropWhile Text.isBlank = Text.trim cs := by
    rw [List.dropWhile_eq_self_iff]
    intro hpos
    rw [(prefix_trim cs).getElem hpos]
    exact List.dropWhile_get_zero_not _ _ _
  rw [hhead]
  exact List.rdropWhile_idempotent _ _

theorem mem_of_mem_trim {c : Char} (hc : c ∈ Text.trim cs) : c ∈ cs :=
  (List.dropWhile_suffix _).subset ((prefix_trim cs).subset hc)

theorem tag_of_parseChars (h : parseChars defaultTag.toList number seen cs = .ok (some l)) :
    l.tag = defaultTag ∨ IsTag l.tag := by
  obtain ⟨tag, cls, hsplit, -, rfl⟩ := parseChars_eq_some h
  rw [tagAndClass?_eq] at hsplit
  split_ifs at hsplit with hfirst
  · cases hsplit
    exact .inl String.ofList_toList
  · cases hsplit
    refine .inr ⟨by simpa [ofParts] using hfirst, List.all_eq_true.2 fun c hc => ?_⟩
    rw [ofParts, String.toList_ofList] at hc
    obtain ⟨htoken, hpoint⟩ := mem_of_mem_segment hc
    exact Bool.and_eq_true_iff.2 ⟨List.mem_takeWhile_imp htoken, decide_eq_true hpoint⟩

theorem text_of_parseChars (h : parseChars defaultTag.toList number seen cs = .ok (some l)) :
    ∀ t ∈ l.text, t ≠ "" ∧ Text.trim t.toList = t.toList ∧ '\n' ∉ t.toList := by
  have hbreak : '\n' ∉ restOf cs := by
    intro hmem
    rw [parseChars_of_malformed (malformed_iff.2 (.inr hmem))] at h
    cases h
  obtain ⟨tag, cls, -, -, rfl⟩ := parseChars_eq_some h
  have htext : (ofParts seen cs tag cls).text =
      if Text.trim (restOf cs) = [] then none
      else some (String.ofList (Text.trim (restOf cs))) := rfl
  intro t ht
  rw [Option.mem_def, htext] at ht
  split_ifs at ht with hblank
  cases ht
  rw [String.toList_ofList]
  exact ⟨by simpa using hblank, trim_trim _, fun hmem => hbreak (mem_of_mem_trim hmem)⟩

theorem canonical_shorthand (h : parseChars defaultTag.toList number seen cs = .ok (some l)) :
    l.shorthand.Canonical defaultTag := by
  obtain ⟨left, name, mods, hpieces, hword, hne, rfl, hmods⟩ := exists_dashPieces h
  have hplain : ∀ w : String, w ≠ "" → w.toList ∈ l.name.text.toList :: mods → IsPlain w := by
    intro w hw hp
    have hall := List.all_eq_true.2 fun c hc => hword c (hpieces.subset hp hc)
    exact ⟨⟨hw, hall⟩, hpieces.not_infix hp⟩
  have hpiece : ∀ m ∈ l.modifiers, m.toList ∈ l.name.text.toList :: mods :=
    fun m hm => List.mem_cons_of_mem _ ((hmods m).1 hm).2
  have hname : l.name.text ≠ "" := by simpa using hne
  exact
    { tag := tag_of_parseChars h
      words := List.forall_mem_cons.2 ⟨hplain _ hname List.mem_cons_self, fun m hm =>
        hplain m ((hmods m).1 hm).1 (hpiece m hm)⟩
      tight := fun hmodifiers => by
        obtain ⟨m, hm⟩ := List.exists_mem_of_ne_nil _ hmodifiers
        exact hpieces.getLast?_ne (List.ne_nil_of_mem ((hmods m).1 hm).2)
      loose := fun m hm m' hm' hdash hdash' => by
        have hlast := hpieces.getLast?_eq_of_dash (hpiece m hm) hdash
        have hlast' := hpieces.getLast?_eq_of_dash (hpiece m' hm') hdash'
        exact String.toList_inj.1 (Option.some.inj (hlast.symm.trans hlast'))
      ascending := pairwise_modifiers h
      count := ⟨one_le_count h, count_lt h⟩
      text := text_of_parseChars h }

/-- A node has a line exactly if what is said about it meets the conditions. -/
theorem canonical_iff {s : Shorthand} : s.Canonical defaultTag ↔
    ∃ line l, parse defaultTag number seen line = .ok (some l) ∧ l.shorthand = s := by
  constructor
  · intro h
    have hindent : ∀ c ∈ [], Text.isBlank c := nofun
    have hread : parseChars defaultTag.toList number seen s.print = _ := h.parseChars_print hindent
    refine ⟨String.ofList s.print, _, (congrArg _ String.toList_ofList).trans hread, ?_⟩
    cases seen <;> rfl
  · rintro ⟨line, l, h, rfl⟩
    exact canonical_shorthand h

end BemOutline.Line

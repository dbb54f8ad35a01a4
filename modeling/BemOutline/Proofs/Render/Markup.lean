import BemOutline.Proofs.Render.Escaping
import BemOutline.Proofs.Render.Marks

/-! Markup is read back by cutting it at its angle brackets: the tags that come out are those of the
tree, and what stands between them is its texts. No name, class, value or text of a node can open,
close or end anything. -/

namespace BemOutline.Render.Html

open Bem
open Text (takeWhile_append_eq dropWhile_append_eq)

variable {o : Options} {h : Head} {b : Option String} {n : Node} {cs ds rest name value : List Char}
  {ms : List Mark}

/-- A text cut at angle brackets: what stands in front of the first tag, and each tag with what
stands behind it. -/
abbrev Cut := List Char × List (List Char × List Char)

mutual

def cutText : List Char → Option Cut
  | [] => some ([], [])
  | c :: cs =>
    if c = '<' then (cutTag cs).map fun r => ([], (r.1, r.2.1) :: r.2.2)
    else if c = '>' then none
    else (cutText cs).map fun r => (c :: r.1, r.2)

def cutTag : List Char → Option (List Char × Cut)
  | [] => none
  | c :: cs =>
    if c = '>' then (cutText cs).map fun r => ([], r)
    else if c = '<' then none
    else (cutTag cs).map fun r => (c :: r.1, r.2)

end

inductive Tag where
  | opening (name : String) (attrs : List (String × Option String))
  | closing (name : String)
deriving DecidableEq, Repr

def readValue : List Char → Option (Option String × List Char)
  | '=' :: '"' :: cs =>
    match cs.dropWhile (· ≠ '"') with
    | [] => none
    | _ :: rest => some (some (String.ofList (unescape (cs.takeWhile (· ≠ '"')))), rest)
  | cs => some (none, cs)

theorem length_readValue {v : Option String} (h : readValue cs = some (v, rest)) :
    rest.length ≤ cs.length := by
  unfold readValue at h
  split at h
  · next cs =>
    have hdrop := (List.dropWhile_suffix (· ≠ '"') (l := cs)).length_le
    split at h
    · cases h
    · next heq =>
      cases h
      rw [heq] at hdrop
      simp only [List.length_cons] at hdrop ⊢
      omega
  · cases h
    exact le_rfl

def isNameChar (c : Char) : Bool := c ≠ ' ' && c ≠ '='

def readAttrs : List Char → Option (List (String × Option String))
  | [] => some []
  | c :: cs =>
    if c = ' ' then
      match _h : readValue (cs.dropWhile isNameChar) with
      | none => none
      | some (v, rest) =>
        (readAttrs rest).map ((String.ofList (cs.takeWhile isNameChar), v) :: ·)
    else none
termination_by cs => cs.length
decreasing_by
  have hvalue := length_readValue _h
  have hdrop := (List.dropWhile_suffix isNameChar (l := cs)).length_le
  simp only [List.length_cons]
  omega

def readTag : List Char → Option Tag
  | '/' :: name => some (.closing (String.ofList name))
  | cs =>
    (readAttrs (cs.dropWhile (· ≠ ' '))).map (.opening (String.ofList (cs.takeWhile (· ≠ ' '))))

def attrValue? : Json → Option (Option String)
  | .bool true => some none
  | .str s => some (some s)
  | .int n => some (some (String.ofList (Json.intChars n)))
  | .float x => some (some (Json.floatText x))
  | _ => none

def allAttrs (o : Options) (h : Head) (b : Option String) : List (String × Json) :=
  (if classes o h b = [] then [] else [("class", .str (" ".intercalate (classes o h b)))]) ++
    h.attrs

def shownAttrs (o : Options) (h : Head) (b : Option String) : List (String × Option String) :=
  (allAttrs o h b).filterMap fun a => (attrValue? a.2).map (a.1, ·)

def Mark.tag? (o : Options) : Mark → Option Tag
  | opening h b => some (.opening (tagOf h) (shownAttrs o h b))
  | text _ => none
  | closing h => some (.closing (tagOf h))

def textsBetween : List Mark → List (List String)
  | [] => [[]]
  | .text s :: ms =>
    match textsBetween ms with
    | [] => [[s]]
    | ss :: rest => (s :: ss) :: rest
  | _ :: ms => [] :: textsBetween ms

/-- Whether a text outside of tags is made of some texts in that order, escaped, with nothing but
line breaks and indentation around them. -/
inductive Holds (o : Options) : List String → List Char → Prop
  | nil : Holds o [] []
  | newline {ss : List String} {cs : List Char} : Holds o ss cs → Holds o ss ('\n' :: cs)
  | indent {ss : List String} {cs : List Char} : Holds o ss cs →
    Holds o ss (o.indent.toList ++ cs)
  | text {ss : List String} {cs escaped : List Char} {s : String} : unescape escaped = s.toList →
    Holds o ss cs → Holds o (s :: ss) (escaped ++ cs)

def IsName (s : String) : Prop :=
  s ≠ "" ∧ ∀ c ∈ s.toList, ¬ Text.isBlank c ∧ c ∉ ['"', '\'', '/', '=', '<', '>']

@[mk_iff]
structure Named (h : Head) : Prop where
  tag : IsName (tagOf h)
  attrs : ∀ a ∈ h.attrs, IsName a.1

instance : DecidablePred IsName := fun s =>
  have := List.decidableBAll (fun c => ¬ Text.isBlank c ∧ c ∉ ['"', '\'', '/', '=', '<', '>'])
  inferInstanceAs (Decidable (s ≠ "" ∧ ∀ c ∈ s.toList, _))

instance : DecidablePred Named := fun h => decidable_of_iff _ (named_iff h).symm

theorem IsName.isNameChar {s : String} (hs : IsName s) : ∀ c ∈ s.toList, Html.isNameChar c := by
  intro c hc
  obtain ⟨hblank, hmem⟩ := hs.2 c hc
  have hspace : c ≠ ' ' := by
    rintro rfl
    exact hblank (by decide)
  have heq : c ≠ '=' := by
    rintro rfl
    exact hmem (by decide)
  simp [Html.isNameChar, hspace, heq]

theorem IsName.bare {s : String} (hs : IsName s) : Bare s.toList := by
  intro c hc
  have hmem := (hs.2 c hc).2
  constructor
  · rintro rfl
    exact hmem (by decide)
  · rintro rfl
    exact hmem (by decide)

theorem cutText_append (hds : Bare ds) (cs : List Char) :
    cutText (ds ++ cs) = (cutText cs).map fun r => (ds ++ r.1, r.2) := by
  induction ds with
  | nil => exact Option.map_id'.symm
  | cons d ds ih =>
    obtain ⟨⟨hlt, hgt⟩, hds⟩ := List.forall_mem_cons.1 hds
    rw [List.cons_append, cutText, if_neg hlt, if_neg hgt, ih hds, Option.map_map]
    rfl

theorem cutTag_append (hds : Bare ds) (cs : List Char) :
    cutTag (ds ++ '>' :: cs) = (cutText cs).map fun r => (ds, r) := by
  induction ds with
  | nil => rw [List.nil_append, cutTag, if_pos rfl]
  | cons d ds ih =>
    obtain ⟨⟨hlt, hgt⟩, hds⟩ := List.forall_mem_cons.1 hds
    rw [List.cons_append, cutTag, if_neg hgt, if_neg hlt, ih hds, Option.map_map]
    rfl

theorem cutText_tag (hds : Bare ds) (cs : List Char) :
    cutText ('<' :: (ds ++ '>' :: cs)) = (cutText cs).map fun r => ([], (ds, r.1) :: r.2) := by
  rw [cutText, if_pos rfl, cutTag_append hds, Option.map_map]
  rfl

def EndsAttr (cs : List Char) : Prop := ∀ c ∈ cs.head?, c = ' '

theorem readAttrs_cons {v : Option String} (hname : ∀ c ∈ name, isNameChar c)
    (hcs : ∀ c ∈ cs.head?, ¬ isNameChar c) (hvalue : readValue cs = some (v, rest)) :
    readAttrs (' ' :: (name ++ cs)) =
      (readAttrs rest).map ((String.ofList name, v) :: ·) := by
  have hdrop := dropWhile_append_eq hname hcs
  rw [readAttrs, if_pos rfl, takeWhile_append_eq hname hcs]
  split
  · next heq =>
    rw [hdrop, hvalue] at heq
    cases heq
  · next heq =>
    rw [hdrop, hvalue] at heq
    cases heq
    rfl

theorem readValue_quoted (hvalue : '"' ∉ value) (rest : List Char) :
    readValue ('=' :: '"' :: (value ++ '"' :: rest)) =
      some (some (String.ofList (unescape value)), rest) := by
  have hall : ∀ c ∈ value, decide (c ≠ '"') := by
    intro c hc
    exact decide_eq_true (ne_of_mem_of_not_mem hc hvalue)
  have hquote : ∀ c ∈ ('"' :: rest).head?, ¬ decide (c ≠ '"') := by
    rintro c ⟨⟩
    decide
  rw [readValue, dropWhile_append_eq hall hquote, takeWhile_append_eq hall hquote]

theorem readValue_of_endsAttr (hcs : EndsAttr cs) : readValue cs = some (none, cs) := by
  unfold readValue
  split
  · exact absurd (hcs '=' rfl) (by decide)
  · rfl

theorem attrChars_eq (name : String) (v : Json) :
    attrChars name v =
      match attrValue? v with
      | none => []
      | some none => ' ' :: name.toList
      | some (some s) =>
        ' ' :: (name.toList ++ '=' :: '"' :: (escapeAttr s.toList ++ ['"'])) := by
  match v with
  | .null => rfl
  | .bool true => rfl
  | .bool false => rfl
  | .arr _ => rfl
  | .obj _ => rfl
  | .str s =>
    unfold attrChars attrValue?
    simp
  | .int n =>
    have hnumeral := escapeAttr_of_numeral (numeral_intChars n)
    unfold attrChars attrValue?
    simp [hnumeral]
  | .float x =>
    have hnumeral := escapeAttr_of_numeral (numeral_floatChars x)
    unfold attrChars attrValue? Json.floatText
    simp [hnumeral]

theorem endsAttr_attrChars (name : String) (v : Json) (hrest : EndsAttr rest) :
    EndsAttr (attrChars name v ++ rest) := by
  rw [attrChars_eq]
  split
  · exact hrest
  · rintro c ⟨⟩
    rfl
  · rintro c ⟨⟩
    rfl

theorem readAttrs_attrChars {name : String} (hname : IsName name) (v : Json)
    (hrest : EndsAttr rest) :
    readAttrs (attrChars name v ++ rest) =
      (readAttrs rest).map (((attrValue? v).map (name, ·)).toList ++ ·) := by
  rw [attrChars_eq]
  split
  · next hv =>
    rw [hv]
    exact Option.map_id'.symm
  · next hv =>
    have hend : ∀ c ∈ rest.head?, ¬ isNameChar c := by
      intro c hc
      rw [hrest c hc]
      decide
    have hread := readAttrs_cons hname.isNameChar hend (readValue_of_endsAttr hrest)
    rw [hv, List.cons_append, hread, String.ofList_toList]
    rfl
  · next s hv =>
    have hquote := readValue_quoted (quote_notMem_escapeAttr s.toList) rest
    have hend : ∀ c ∈ ('=' :: '"' :: (escapeAttr s.toList ++ '"' :: rest)).head?,
        ¬ isNameChar c := by
      rintro c ⟨⟩
      decide
    have hread := readAttrs_cons hname.isNameChar hend hquote
    rw [unescape_escapeAttr, String.ofList_toList, String.ofList_toList] at hread
    rw [hv]
    simp only [List.cons_append, List.append_assoc, List.nil_append]
    rw [hread]
    rfl

theorem endsAttr_flatMap_attrChars (as : List (String × Json)) :
    EndsAttr (as.flatMap fun a => attrChars a.1 a.2) := by
  induction as with
  | nil => exact nofun
  | cons a as ih =>
    rw [List.flatMap_cons]
    exact endsAttr_attrChars a.1 a.2 ih

theorem readAttrs_flatMap_attrChars {as : List (String × Json)} (has : ∀ a ∈ as, IsName a.1) :
    readAttrs (as.flatMap fun a => attrChars a.1 a.2) =
      some (as.filterMap fun a => (attrValue? a.2).map (a.1, ·)) := by
  induction as with
  | nil => rw [List.flatMap_nil, readAttrs, List.filterMap_nil]
  | cons a as ih =>
    obtain ⟨ha, has⟩ := List.forall_mem_cons.1 has
    rw [List.flatMap_cons, readAttrs_attrChars ha a.2 (endsAttr_flatMap_attrChars as), ih has,
      Option.map_some]
    cases hv : attrValue? a.2 with
    | none => simp [hv]
    | some v => simp [hv]

theorem attributes_eq (o : Options) (h : Head) (b : Option String) :
    attributes o h b = (allAttrs o h b).flatMap fun a => attrChars a.1 a.2 := by
  unfold attributes allAttrs classAttribute
  rw [List.flatMap_append]
  split
  · rfl
  · rw [List.flatMap_singleton]

theorem isName_of_mem_allAttrs (o : Options) (b : Option String) (hh : Named h) :
    ∀ a ∈ allAttrs o h b, IsName a.1 := by
  have hclass : IsName "class" := by decide
  unfold allAttrs
  refine List.forall_mem_append.2 ⟨?_, hh.attrs⟩
  split
  · exact nofun
  · exact List.forall_mem_singleton.2 hclass

theorem bare_attrChars {name : String} (hname : IsName name) (v : Json) :
    Bare (attrChars name v) := by
  have hspace : Bare [' '] := by decide
  have hassign : Bare ['=', '"'] := by decide
  have hquote : Bare ['"'] := by decide
  rw [attrChars_eq]
  split
  · exact nofun
  · exact hspace.append hname.bare
  · next s _ =>
    have hvalue := (bare_escapeAttr s.toList).append hquote
    exact hspace.append (hname.bare.append (hassign.append hvalue))

theorem bare_attributes (o : Options) (b : Option String) (hh : Named h) :
    Bare (attributes o h b) := by
  rw [attributes_eq]
  intro c hc
  obtain ⟨a, ha, hca⟩ := List.mem_flatMap.1 hc
  exact bare_attrChars (isName_of_mem_allAttrs o b hh a ha) a.2 c hca

theorem readTag_opening (o : Options) (b : Option String) (hh : Named h) :
    readTag ((tagOf h).toList ++ attributes o h b) =
      some (.opening (tagOf h) (shownAttrs o h b)) := by
  have hname : ∀ c ∈ (tagOf h).toList, decide (c ≠ ' ') := by
    intro c hc
    refine decide_eq_true ?_
    rintro rfl
    exact absurd (hh.tag.isNameChar _ hc) (by decide)
  have hattrs : ∀ c ∈ (attributes o h b).head?, ¬ decide (c ≠ ' ') := by
    rw [attributes_eq]
    intro c hc
    rw [endsAttr_flatMap_attrChars _ c hc]
    decide
  unfold readTag
  split
  · next heq =>
    -- a tag has a name, and that does not start with a slash
    obtain ⟨c, cs, hcs⟩ := List.exists_cons_of_ne_nil (mt String.toList_eq_nil_iff.1 hh.tag.1)
    rw [hcs] at heq
    cases heq
    exact absurd (hh.tag.2 '/' (hcs ▸ List.mem_cons_self)).2 (by decide)
  · rw [dropWhile_append_eq hname hattrs, takeWhile_append_eq hname hattrs, attributes_eq,
      readAttrs_flatMap_attrChars (isName_of_mem_allAttrs o b hh), String.ofList_toList]
    rfl

theorem readTag_closing (name : String) : readTag ('/' :: name.toList) = some (.closing name) := by
  rw [readTag, String.ofList_toList]

theorem cutText_openTag (o : Options) (b : Option String) (hh : Named h) (cs : List Char) :
    cutText (openTag o h b ++ cs) =
      (cutText cs).map fun r => ([], ((tagOf h).toList ++ attributes o h b, r.1) :: r.2) := by
  have hcut := cutText_tag (hh.tag.bare.append (bare_attributes o b hh)) cs
  unfold openTag
  simpa using hcut

theorem cutText_closeTag (hh : Named h) (cs : List Char) :
    cutText (closeTag h ++ cs) =
      (cutText cs).map fun r => ([], ('/' :: (tagOf h).toList, r.1) :: r.2) := by
  have hslash : Bare ['/'] := by decide
  have hcut := cutText_tag (hslash.append hh.tag.bare) cs
  unfold closeTag
  simpa using hcut

/-- A cut shows some marks: its tags are theirs, and between them stand their texts. -/
structure Shows (o : Options) (ms : List Mark) (r : Cut) : Prop where
  tags : r.2.map (fun t => readTag t.1) = (ms.filterMap (Mark.tag? o)).map some
  texts : List.Forall₂ (Holds o) (textsBetween ms) (r.1 :: r.2.map (·.2))

theorem Shows.text {gap e : List Char} {tags : List (List Char × List Char)} {s : String}
    (he : unescape e = s.toList) (h : Shows o ms (gap, tags)) :
    Shows o (.text s :: ms) (e ++ gap, tags) := by
  obtain ⟨htags, htexts⟩ := h
  refine ⟨htags, ?_⟩
  rw [textsBetween]
  cases hms : textsBetween ms with
  | nil =>
    rw [hms] at htexts
    cases htexts
  | cons ss rest =>
    rw [hms] at htexts
    cases htexts with
    | cons hfirst hrest => exact .cons (.text he hfirst) hrest

theorem Shows.layout {gap gap' : List Char} {tags : List (List Char × List Char)}
    (hgap : ∀ ss, Holds o ss gap → Holds o ss gap') (h : Shows o ms (gap, tags)) :
    Shows o ms (gap', tags) := by
  obtain ⟨htags, htexts⟩ := h
  refine ⟨htags, ?_⟩
  cases hms : textsBetween ms with
  | nil =>
    rw [hms] at htexts
    cases htexts
  | cons ss rest =>
    rw [hms] at htexts
    cases htexts with
    | cons hfirst hrest => exact .cons (hgap _ hfirst) hrest

theorem Written.exists_cut {ps : List (Head × Option String)} (ho : Bare o.indent.toList)
    (hps : ∀ p ∈ ps, Named p.1) (hw : Written o cs ms) (hms : ∀ m ∈ ms, m.Of ps) :
    ∃ r, cutText cs = some r ∧ Shows o ms r := by
  -- what is written in front goes to the first text of a cut, or becomes its first tag
  induction hw with
  | nil => exact ⟨([], []), rfl, rfl, .cons .nil .nil⟩
  | newline _ ih =>
    obtain ⟨r, hr, hshows⟩ := ih hms
    have hbreak : Bare ['\n'] := by decide
    have hcut := cutText_append hbreak _ ▸ congrArg (Option.map _) hr
    exact ⟨_, hcut, hshows.layout fun _ => .newline⟩
  | indent _ ih =>
    obtain ⟨r, hr, hshows⟩ := ih hms
    have hcut := cutText_append ho _ ▸ congrArg (Option.map _) hr
    exact ⟨_, hcut, hshows.layout fun _ => .indent⟩
  | text s _ ih =>
    obtain ⟨r, hr, hshows⟩ := ih fun m hm => hms m (List.mem_cons_of_mem _ hm)
    have hcut := cutText_append (bare_escapeText s.toList) _ ▸ congrArg (Option.map _) hr
    exact ⟨_, hcut, hshows.text (unescape_escapeText s.toList)⟩
  | @opening cs ms h b _ ih =>
    obtain ⟨r, hr, htags, htexts⟩ := ih fun m hm => hms m (List.mem_cons_of_mem _ hm)
    have hh : Named h := hps (h, b) (hms _ List.mem_cons_self)
    refine ⟨_, (cutText_openTag o b hh cs).trans (congrArg _ hr), ?_, .cons .nil htexts⟩
    rw [List.map_cons, readTag_opening o b hh, htags]
    rfl
  | @closing cs ms h _ ih =>
    obtain ⟨r, hr, htags, htexts⟩ := ih fun m hm => hms m (List.mem_cons_of_mem _ hm)
    obtain ⟨b, hb⟩ := hms _ List.mem_cons_self
    have hh : Named h := hps (h, b) hb
    refine ⟨_, (cutText_closeTag hh cs).trans (congrArg _ hr), ?_, .cons .nil htexts⟩
    rw [List.map_cons, readTag_closing, htags]
    rfl

/-- Whatever the texts, classes and values of a tree hold, its markup is cut into the tags of its
nodes, each with its classes and values, and its texts stand in order between them. -/
theorem exists_cut_render (o : Options) (n : Node) (hn : ∀ p ∈ n.scoped none, Named p.1)
    (ho : Bare o.indent.toList) :
    ∃ gap tags, cutText (render o n).toList = some (gap, tags) ∧
      tags.map (fun t => readTag t.1) = ((nodeMarks none n).filterMap (Mark.tag? o)).map some ∧
      List.Forall₂ (Holds o) (textsBetween (nodeMarks none n)) (gap :: tags.map (·.2)) := by
  obtain ⟨r, hr, hshows⟩ := (written_render o n).exists_cut ho hn fun m => of_mem_nodeMarks
  exact ⟨r.1, r.2, hr, hshows.tags, hshows.texts⟩

/-- Quotes and brackets in every place, an element that is void and holds a text all the same, and
attributes that are off, on, and numbers. -/
theorem exists_cut_render_menu :
    let o : Options := { elemSeparator := "<\"", indent := "\t&" }
    let n : Node := .mk
      { block := some "menu", tag := some "ul", cls := some " x\"></ul> ",
        attrs := [("data-a", .str "\"&quot;>"), ("hidden", .bool true), ("n", .int (-1)),
          ("off", .bool false)] }
      (.items [.text "a < b", .text "&lt;",
        .node (.mk { elem := some "line", tag := some "br" } (.text "lost")),
        .node (.mk {} (.node (.mk { tag := some "i" } (.text "</i>"))))])
    (∀ p ∈ n.scoped none, Named p.1) ∧ Bare o.indent.toList ∧
      ∃ gap tags, cutText (render o n).toList = some (gap, tags) ∧
        tags.map (fun t => readTag t.1) =
          [some (.opening "ul" [("class", some "menu x\"></ul>"), ("data-a", some "\"&quot;>"),
              ("hidden", none), ("n", some "-1")]),
            some (.opening "br" [("class", some "menu<\"line")]),
            some (.opening "div" []), some (.opening "i" []), some (.closing "i"),
            some (.closing "div"), some (.closing "ul")] ∧
        List.Forall₂ (Holds o) [[], ["a < b", "&lt;"], [], [], ["</i>"], [], [], []]
          (gap :: tags.map (·.2)) := by
  intro o n
  have hn : ∀ p ∈ n.scoped none, Named p.1 := by decide
  have ho : Bare o.indent.toList := by decide
  exact ⟨hn, ho, exists_cut_render o n hn ho⟩

end BemOutline.Render.Html

import BemOutline.Proofs.Conversion.FedBack
import BemOutline.Proofs.Line.Canonical
import BemOutline.Proofs.Render.Entities
import BemOutline.Proofs.Render.Nesting

/-! The class names of outlines. What a line can say leaves no room for two readings of a class
name, so that no selector stands in a stylesheet twice. -/

namespace BemOutline

open Bem Expansion Line Outline Render Render.Style

namespace Line

variable {l : Line}

/-- Lines whose name and modifiers can be told from each other when they are joined. -/
structure Plain (l : Line) : Prop where
  name : IsPlain l.name.text
  modifiers : ∀ m ∈ l.modifiers, IsPlain m
  tight : l.modifiers ≠ [] → ¬ EndsInDash l.name.text

theorem plain_single_iff (l : Line) : l.single.Plain ↔ l.Plain :=
  ⟨fun h => ⟨h.name, h.modifiers, h.tight⟩, fun h => ⟨h.name, h.modifiers, h.tight⟩⟩

theorem plain_of_accepted {defaultTag text : String} (hl : l ∈ acceptedLines defaultTag text) :
    l.Plain := by
  obtain ⟨i, hi⟩ := List.mem_iff_getElem?.1 hl
  obtain ⟨number, line, hline⟩ := exists_parseChars_of_accepted hi
  have h := canonical_shorthand hline
  obtain ⟨hname, hmodifiers⟩ := List.forall_mem_cons.1 h.words
  exact ⟨hname, hmodifiers, h.tight⟩

theorem Plain.moved (h : l.Plain) : l.moved.Plain := by
  unfold Line.moved
  split_ifs with hmis
  · refine ⟨h.name, fun m hm => ?_, fun _ => h.tight (List.ne_nil_of_mem hmis.1)⟩
    rcases mem_insertModifier.1 hm with rfl | hm
    · decide +kernel
    · exact h.modifiers m (List.mem_of_mem_filter hm)
  · exact h

theorem name_moved (l : Line) : l.moved.name = l.name := by
  obtain ⟨ms, hmoved, -⟩ := l.exists_moved
  rw [hmoved]

theorem modifierSuffixes_modifierMap (l : Line) : modifierSuffixes l.modifierMap = l.modifiers := by
  unfold modifierSuffixes modifierMap
  rw [List.filterMap_map]
  exact List.filterMap_some

theorem elem_toHead : l.toHead.elem = if l.name.isBlock then none else some l.name.text := by
  unfold toHead
  cases l.name <;> rfl

theorem block_toHead : l.toHead.block = if l.name.isBlock then some l.name.text else none := by
  unfold toHead
  cases l.name <;> rfl

theorem mem_of_mem_mods {m : String} (hm : m ∈ modifierSuffixes l.toHead.mods) :
    m ∈ l.modifiers := by
  unfold toHead at hm
  cases hname : l.name with
  | block s => simpa [hname, modifierSuffixes_modifierMap] using hm
  | elem s => simp [hname, modifierSuffixes] at hm

theorem mem_of_mem_elemMods {m : String} (hm : m ∈ modifierSuffixes l.toHead.elemMods) :
    m ∈ l.modifiers := by
  unfold toHead at hm
  cases hname : l.name with
  | block s => simp [hname, modifierSuffixes] at hm
  | elem s => simpa [hname, modifierSuffixes_modifierMap] using hm

end Line

namespace Tree

variable {t : Tree} {context : Option String} {p : Head × Option String} {x : Entity}

theorem mem_scoped_of_elems (h : ∀ l ∈ t.preorder, l.name.isBlock = false)
    (hp : p ∈ t.toBem.scoped context) : p.2 = context ∧ ∃ l ∈ t.preorder, p.1 = l.toHead := by
  induction t using Tree.induction with
  | step data children ih =>
    have hblock : data.toHead.block? context = context := by
      unfold Head.block?
      rw [Line.block_toHead, h data (data_mem_preorder _)]
      rfl
    rw [scoped_toBem, hblock] at hp
    rcases List.mem_cons.1 hp with rfl | hp
    · exact ⟨rfl, data, data_mem_preorder _, rfl⟩
    · obtain ⟨t, ht, hp⟩ := List.mem_flatMap.1 hp
      have hlines : ∀ l ∈ t.preorder, l ∈ (Tree.mk data children).preorder :=
        fun l hl => mem_preorder_mk.2 (.inr ⟨t, ht, hl⟩)
      obtain ⟨hcontext, l, hl, hhead⟩ := ih t ht (fun l hl => h l (hlines l hl)) hp
      exact ⟨hcontext, l, hlines l hl, hhead⟩

theorem mem_scoped_toBem (h : ∀ level l, t.At level l → (l.name.isBlock ↔ level = 0))
    (hp : p ∈ t.toBem.scoped none) :
    p.2 = some t.data.name.text ∧ ∃ l ∈ t.preorder, p.1 = l.toHead := by
  obtain ⟨data, children⟩ := t
  have hblock : data.toHead.block? none = some data.name.text := by
    unfold Head.block?
    rw [Line.block_toHead, (h 0 data .top).2 rfl]
    rfl
  rw [scoped_toBem, hblock] at hp
  rcases List.mem_cons.1 hp with rfl | hp
  · exact ⟨rfl, data, data_mem_preorder _, rfl⟩
  · obtain ⟨t, ht, hp⟩ := List.mem_flatMap.1 hp
    have helems : ∀ l ∈ t.preorder, l.name.isBlock = false := by
      intro l hl
      obtain ⟨level, hl⟩ := mem_preorder_iff_at.1 hl
      have hlevel := (h (level + 1) l (.child ht hl)).not.2 (Nat.succ_ne_zero level)
      exact Bool.eq_false_of_not_eq_true hlevel
    obtain ⟨hcontext, l, hl, hhead⟩ := mem_scoped_of_elems helems hp
    exact ⟨hcontext, l, mem_preorder_mk.2 (.inr ⟨t, ht, hl⟩), hhead⟩

theorem legible_of_mentions (h : ∀ level l, t.At level l → (l.name.isBlock ↔ level = 0))
    (hplain : ∀ l ∈ t.preorder, l.Plain) (hx : Mentions t.toBem x) :
    x.block = t.data.name.text ∧ x.Legible := by
  have helem : ∀ {l : Line} {e : String}, l.toHead.elem = some e → l.name.text = e := by
    intro l e he
    rw [Line.elem_toHead] at he
    split_ifs at he
    exact Option.some.inj he
  cases hx with
  | @block p b hp hb =>
    obtain ⟨hroot, -⟩ := mem_scoped_toBem h hp
    exact ⟨Option.some.inj (hb.symm.trans hroot), by simp, by simp, by simp⟩
  | @blockModifier p b m hp hb he hm =>
    obtain ⟨hroot, l, hl, hhead⟩ := mem_scoped_toBem h hp
    rw [hhead] at hm
    have hword : IsPlain m := (hplain l hl).modifiers m (Line.mem_of_mem_mods hm)
    have hscope : p.2 = some b := snd_of_mem_scoped hp hb
    exact ⟨Option.some.inj (hscope.symm.trans hroot), by simp, by simpa, by simp⟩
  | @elem p b e hp hb he =>
    obtain ⟨hroot, l, hl, hhead⟩ := mem_scoped_toBem h hp
    rw [hhead] at he
    have hword : IsPlain e := helem he ▸ (hplain l hl).name
    exact ⟨Option.some.inj (hb.symm.trans hroot), by simpa, by simp, by simp⟩
  | @elemModifier p b e m hp hb he hm =>
    obtain ⟨hroot, l, hl, hhead⟩ := mem_scoped_toBem h hp
    rw [hhead] at he hm
    have hmodifier := Line.mem_of_mem_elemMods hm
    have hline := hplain l hl
    have hword : IsPlain e := helem he ▸ hline.name
    have hsuffix : IsPlain m := hline.modifiers m hmodifier
    have htight : ¬ EndsInDash e := helem he ▸ hline.tight (List.ne_nil_of_mem hmodifier)
    exact ⟨Option.some.inj (hb.symm.trans hroot), by simpa, by simpa, by simpa⟩

end Tree

namespace Render

variable {o : Options} {x : Entity} {w : String}

theorem clean_of_isPlain (h : IsPlain w) : Clean w.toList := by
  intro c hc
  have hword : isWordChar c := h.1.isWordChar c hc
  have htoken : isTokenChar c := isTokenChar_of_isWordChar hword
  refine ⟨fun hblank => ?_, fun hmem => ?_⟩
  · rw [isTokenChar_of_isBlank hblank] at htoken
    cases htoken
  · have hmark : c = '\x7b' ∨ c = '\x7d' ∨ c = '&' := by simpa using hmem
    rcases hmark with rfl | rfl | rfl <;> exact absurd hword (by decide)

theorem Entity.Legible.clean (h : x.Legible) (hmod : o.modSeparator = "--")
    (helem : o.elemSeparator = "__") (hblock : IsPlain x.block) :
    Clean (classSelector (x.className o)) := by
  have helemPart : Clean x.elemPart := by
    unfold elemPart
    cases he : x.elem with
    | none => exact nofun
    | some e =>
      have hname := clean_of_isPlain (h.elem e he)
      exact clean_append.2 ⟨(by decide : Clean ['_', '_']), hname⟩
  have htail : Clean x.tail := by
    unfold tail
    cases hm : x.modifier with
    | none => exact helemPart
    | some m =>
      have hsuffix := clean_of_isPlain (h.modifier m hm)
      exact clean_append.2 ⟨helemPart, clean_append.2 ⟨(by decide : Clean ['-', '-']), hsuffix⟩⟩
  apply clean_classSelector
  rw [toList_className hmod helem]
  exact clean_append.2 ⟨clean_of_isPlain hblock, htail⟩

theorem readRules_renderCss {n : Node}
    (h : ∀ s ∈ selectors o (rulesOf n), Clean (classSelector s)) :
    readRules [] [] (renderCss o n).toList =
      some ((selectors o (rulesOf n)).map classSelector) := by
  have hcss := Reads.intercalate fun s hs => reads_cssRule (h s hs)
  rw [List.flatMap_singleton'] at hcss
  unfold renderCss
  rw [String.toList_ofList]
  exact hcss.readRules_eq

end Render

namespace Conversion

variable {s : Settings} {text : String} {r : Request} {c : Converted} {n : Node}

theorem exists_converter_of_tryConvert (h : (tryConvert s text r).result = .ok c) :
    ∃ converter, standard.get? c.source c.target = some converter ∧
      (converter s text c.target).result = .ok c.output := by
  unfold tryConvert at h
  split at h
  · cases h
  · next source hsource =>
    cases hconverter : standard.get? source ((r.target.or source.defaultTarget?).getD source) with
    | none =>
      rw [convertFrom, hconverter] at h
      cases h
    | some converter =>
      rw [result_convertFrom hconverter] at h
      cases hout : (converter s text _).result with
      | error e =>
        rw [hout] at h
        cases h
      | ok out =>
        rw [hout] at h
        cases h
        exact ⟨converter, hconverter, hout⟩

theorem exists_node_of_tryConvert_css (h : (tryConvert s text r).result = .ok c)
    (hsource : c.source = .pseudocode) (htarget : c.target = .css) :
    ∃ n, (nodeOfOutline s text).result = .ok n ∧ c.output = renderCss s.renderOptions n := by
  obtain ⟨converter, hconverter, hout⟩ := exists_converter_of_tryConvert h
  rw [hsource, htarget] at hconverter
  cases hconverter
  rw [htarget, fromOutline, Outcome.result_andThen] at hout
  obtain ⟨n, hn, hrender⟩ := bind_eq_ok_iff.1 hout
  refine ⟨n, hn, ?_⟩
  have hrender : render s n .css = .ok c.output := hrender
  unfold render renderText at hrender
  split at hrender
  · cases hrender
  · next out heq =>
    cases heq
    split_ifs at hrender
    exact (Except.ok.inj hrender).symm

theorem legible_of_nodeOfOutline (h : (nodeOfOutline s text).result = .ok n) :
    ∃ b, IsPlain b ∧ ∀ x, Mentions n x → x.block = b ∧ x.Legible := by
  obtain ⟨a, u, hbuild, hu, rfl, -, hblock, -⟩ := exists_document_of_nodeOfOutline h
  have hplain : ∀ l ∈ (u.map Line.moved).preorder, l.Plain := by
    have hu : (expandAll [s.expander] a).document = some u := hu
    have hlines := (forall_mem_expandAll_iff hbuild hu plain_single_iff).2
      fun l hl => plain_of_accepted hl
    intro l hl
    obtain ⟨m, hm, rfl⟩ := Tree.mem_preorder_map_iff.1 hl
    exact (hlines m hm).moved
  have hlevels : ∀ level l, (u.map Line.moved).At level l → (l.name.isBlock ↔ level = 0) := by
    intro level l hl
    obtain ⟨m, hm, rfl⟩ := Tree.at_map_iff.1 hl
    rw [name_moved]
    exact hblock level m hm
  have hroot := hplain _ (Tree.data_mem_preorder _)
  exact ⟨_, hroot.name, fun x hx => Tree.legible_of_mentions hlevels hplain hx⟩

/-- In the stylesheet of an outline every block and element of it, and every modifier of them, has
one selector of its own. -/
theorem nodup_selectors_of_tryConvert (hmod : s.modSeparator = "--")
    (helem : s.elemSeparator = "__") (h : (tryConvert s text r).result = .ok c)
    (hsource : c.source = .pseudocode) (htarget : c.target = .css) :
    ∃ n sels, (nodeOfOutline s text).result = .ok n ∧
      readRules [] [] c.output.toList = some sels ∧ sels.Nodup ∧
      (∀ sel, sel ∈ sels ↔
        ∃ x, Mentions n x ∧ classSelector (x.className s.renderOptions) = sel) ∧
      ∀ x y, Mentions n x → Mentions n y →
        x.className s.renderOptions = y.className s.renderOptions → x = y := by
  obtain ⟨n, hn, hout⟩ := exists_node_of_tryConvert_css h hsource htarget
  obtain ⟨b, hb, hlegible⟩ := legible_of_nodeOfOutline hn
  have hinj : ∀ x y, Mentions n x → Mentions n y →
      x.className s.renderOptions = y.className s.renderOptions → x = y := by
    intro x y hx hy hname
    obtain ⟨hxblock, hx⟩ := hlegible x hx
    obtain ⟨hyblock, hy⟩ := hlegible y hy
    exact hx.className_inj hmod helem hy (hxblock.trans hyblock.symm) hname
  have hclean : ∀ sel ∈ selectors s.renderOptions (rulesOf n), Clean (classSelector sel) := by
    intro sel hsel
    rw [selectors_eq] at hsel
    obtain ⟨x, hx, rfl⟩ := List.mem_map.1 hsel
    obtain ⟨rfl, hx⟩ := hlegible x (mem_entities_rulesOf.1 hx)
    exact hx.clean hmod helem hb
  have hread := readRules_renderCss hclean
  rw [← hout, selectors_eq, List.map_map] at hread
  refine ⟨n, _, hn, hread, ?_, fun sel => ?_, hinj⟩
  · refine List.Nodup.map_on ?_ (nodup_entities (distinct_rulesOf n))
    intro x hx y hy hsel
    have hname := String.toList_inj.1 (List.cons.inj hsel).2
    exact hinj x y (mem_entities_rulesOf.1 hx) (mem_entities_rulesOf.1 hy) hname
  · simp only [List.mem_map, mem_entities_rulesOf]
    rfl

/-- Names and modifiers that begin and end in dashes. -/
theorem nodup_selectors_of_tryConvert_dashes :
    ∃ c n sels,
      (tryConvert {} "a---b\n  b-\n  b--c\n  b---c*2" ⟨none, some .css⟩).result = .ok c ∧
        c.source = .pseudocode ∧ c.target = .css ∧
        (nodeOfOutline {} "a---b\n  b-\n  b--c\n  b---c*2").result = .ok n ∧
        readRules [] [] c.output.toList = some sels ∧
        sels = [".a", ".a---b", ".a__b-", ".a__b", ".a__b--c", ".a__b---c"].map String.toList ∧
        sels.Nodup ∧
        ∀ x y, Mentions n x → Mentions n y → x.className {} = y.className {} → x = y := by
  have hvalue : (tryConvert {} "a---b\n  b-\n  b--c\n  b---c*2"
      ⟨none, some .css⟩).result.toOption.map
        (fun c => (c.source, c.target, readRules [] [] c.output.toList)) =
      some (.pseudocode, .css,
        some ([".a", ".a---b", ".a__b-", ".a__b", ".a__b--c", ".a__b---c"].map String.toList)) := by
    decide +kernel
  cases hresult : (tryConvert {} "a---b\n  b-\n  b--c\n  b---c*2" ⟨none, some .css⟩).result with
  | error e =>
    rw [hresult] at hvalue
    cases hvalue
  | ok c =>
    rw [hresult] at hvalue
    obtain ⟨hsource, hvalue⟩ := Prod.mk.inj (Option.some.inj hvalue)
    obtain ⟨htarget, hread⟩ := Prod.mk.inj hvalue
    obtain ⟨n, sels, hn, hsels, hnodup, -, hinj⟩ :=
      nodup_selectors_of_tryConvert rfl rfl hresult hsource htarget
    exact ⟨c, n, sels, rfl, hsource, htarget, hn, hsels,
      Option.some.inj (hsels.symm.trans hread), hnodup, hinj⟩

end Conversion

end BemOutline

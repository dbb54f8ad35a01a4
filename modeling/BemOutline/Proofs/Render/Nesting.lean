import BemOutline.Proofs.Render.Selectors
import BemOutline.Text.Blank
import Mathlib.Data.List.Basic

/-! Nested rules and flat ones are the same stylesheet: reading either text rule by rule, with the
selector around a rule in the place of each ampersand, gives the same selectors. -/

namespace BemOutline.Render.Style

open Bem Text

variable {o : Options} {n : Node} {outer : List (List Char)} {w w' sel body pad : List Char}
  {s t b suffix : String} {ss ss' : List String} {e : ElemRule} {r : BlockRule}

def fullSelector (around : Option (List Char)) (sel : List Char) : List Char :=
  match around with
  | none => sel
  | some s => sel.flatMap fun c => if c = '&' then s else [c]

/-- The full selectors of the rules in a text, inside of some open rules, the innermost first, and
behind what was read since the last brace. -/
def readRules : List (List Char) → List Char → List Char → Option (List (List Char))
  | outer, before, [] => if outer = [] ∧ allBlank before then some [] else none
  | outer, before, c :: cs =>
    if c = '\x7b' then
      let s := fullSelector outer.head? (trim before)
      (readRules (s :: outer) [] cs).map (s :: ·)
    else if c = '\x7d' then
      if outer ≠ [] ∧ allBlank before then readRules outer.tail [] cs else none
    else readRules outer (before ++ [c]) cs

def closes : Nat → List Char → Bool
  | depth, [] => depth = 0
  | depth, c :: cs =>
    if c = '\x7b' then closes (depth + 1) cs
    else if c = '\x7d' then depth ≠ 0 && closes (depth - 1) cs
    else closes depth cs

theorem closes_of_readRules {before cs : List Char} {r : List (List Char)}
    (h : readRules outer before cs = some r) : closes outer.length cs := by
  induction cs generalizing outer before r with
  | nil =>
    rw [readRules] at h
    split at h
    · next hend =>
      rw [hend.1]
      rfl
    · cases h
  | cons c cs ih =>
    rw [readRules] at h
    rw [closes]
    split at h
    · next hc =>
      obtain ⟨r', hr', -⟩ := Option.map_eq_some_iff.1 h
      rw [if_pos hc]
      exact ih hr'
    · next hc =>
      rw [if_neg hc]
      split at h
      · next hc' =>
        rw [if_pos hc']
        split at h
        · next hopen =>
          have hcs := ih h
          rw [List.length_tail] at hcs
          have hdepth : outer.length ≠ 0 := mt List.length_eq_zero_iff.1 hopen.1
          rw [decide_eq_true hdepth, Bool.true_and]
          exact hcs
        · cases h
      · next hc' =>
        rw [if_neg hc']
        exact ih h

theorem readRules_blank {before : List Char} (hw : ∀ c ∈ w, isBlank c) (cs : List Char) :
    readRules outer (w ++ before) cs = readRules outer before cs := by
  have hall : ∀ x, allBlank (w ++ x) = allBlank x := by
    intro x
    unfold allBlank
    rw [List.all_append, List.all_eq_true.2 hw, Bool.true_and]
  have htrim : ∀ x, trim (w ++ x) = trim x := by
    intro x
    unfold trim
    rw [List.dropWhile_append_of_pos hw]
  induction cs generalizing outer before with
  | nil => rw [readRules, readRules, hall]
  | cons c cs ih => rw [readRules, readRules, htrim, hall, List.append_assoc, ih]

theorem readRules_append {before : List Char} (hw : ∀ c ∈ w, c ≠ '\x7b' ∧ c ≠ '\x7d')
    (cs : List Char) : readRules outer before (w ++ cs) = readRules outer (before ++ w) cs := by
  induction w generalizing before with
  | nil => rw [List.nil_append, List.append_nil]
  | cons c w ih =>
    obtain ⟨⟨hopen, hclose⟩, hw⟩ := List.forall_mem_cons.1 hw
    rw [List.cons_append, readRules, if_neg hopen, if_neg hclose, ih hw, List.append_assoc]
    rfl

def classSelector (s : String) : List Char := '.' :: s.toList

/-- A text between rules that adds the selectors of some classes to what follows it. -/
def Reads (outer : List (List Char)) (w : List Char) (ss : List String) : Prop :=
  ∀ cs, readRules outer [] (w ++ cs) = (readRules outer [] cs).map (ss.map classSelector ++ ·)

theorem Reads.readRules_eq (h : Reads [] w ss) :
    readRules [] [] w = some (ss.map classSelector) := by
  have hw := h []
  have hend : readRules [] [] [] = some [] := rfl
  rwa [List.append_nil, hend, Option.map_some, List.append_nil] at hw

theorem reads_blank (hw : ∀ c ∈ w, isBlank c) : Reads outer w [] := by
  intro cs
  have hbraces : ∀ c ∈ w, c ≠ '\x7b' ∧ c ≠ '\x7d' := by
    intro c hc
    constructor
    · rintro rfl
      exact absurd (hw _ hc) (by decide)
    · rintro rfl
      exact absurd (hw _ hc) (by decide)
  have hblank : readRules outer (w ++ []) cs = readRules outer [] cs := readRules_blank hw cs
  rw [readRules_append hbraces, List.nil_append, ← List.append_nil w, hblank]
  exact Option.map_id'.symm

theorem reads_nil : Reads outer [] [] := by
  intro cs
  exact Option.map_id'.symm

theorem Reads.append (h : Reads outer w ss) (h' : Reads outer w' ss') :
    Reads outer (w ++ w') (ss ++ ss') := by
  intro cs
  rw [List.append_assoc, h, h', Option.map_map, List.map_append]
  simp only [Function.comp_def, List.append_assoc]

theorem Reads.flatMap {α : Type} {f : α → List Char} {g : α → List String} {as : List α}
    (h : ∀ a ∈ as, Reads outer (f a) (g a)) : Reads outer (as.flatMap f) (as.flatMap g) := by
  induction as with
  | nil => exact reads_nil
  | cons a as ih =>
    obtain ⟨ha, has⟩ := List.forall_mem_cons.1 h
    exact ha.append (ih has)

theorem reads_newline : Reads outer ['\n'] [] :=
  reads_blank (List.forall_mem_singleton.2 rfl)

theorem Reads.intercalate {α : Type} {f : α → List Char} {g : α → List String} {as : List α}
    (h : ∀ a ∈ as, Reads outer (f a) (g a)) :
    Reads outer (['\n'].intercalate (as.map f)) (as.flatMap g) := by
  induction as with
  | nil => exact reads_nil
  | cons a as ih =>
    obtain ⟨ha, has⟩ := List.forall_mem_cons.1 h
    cases as with
    | nil =>
      rw [List.map_singleton, List.intercalate_singleton, List.flatMap_singleton]
      exact ha
    | cons a' as =>
      have hall := (ha.append reads_newline).append (ih has)
      rw [List.append_nil] at hall
      rw [List.map_cons, List.map_cons, List.intercalate_cons_cons, List.flatMap_cons]
      exact hall

def Clean (cs : List Char) : Prop := ∀ c ∈ cs, ¬ isBlank c ∧ c ∉ ['\x7b', '\x7d', '&']

theorem clean_append : Clean (w ++ w') ↔ Clean w ∧ Clean w' := List.forall_mem_append

theorem trim_append_blank (hsel : ∀ c ∈ sel, ¬ isBlank c) : trim (sel ++ [' ']) = sel := by
  have hkeep : ∀ x : List Char, (∀ c ∈ x, ¬ isBlank c) → x.dropWhile isBlank = x := by
    intro x hx
    cases x with
    | nil => rfl
    | cons c x => exact List.dropWhile_cons_of_neg (hx c List.mem_cons_self)
  cases sel with
  | nil => decide
  | cons c sel =>
    have hc : ¬ isBlank c := hsel c List.mem_cons_self
    unfold trim
    rw [List.cons_append, List.dropWhile_cons_of_neg hc, ← List.cons_append, List.reverse_append,
      List.reverse_singleton, List.singleton_append, List.dropWhile_cons_of_pos (by decide),
      hkeep _ fun d hd => hsel d (List.mem_reverse.1 hd), List.reverse_reverse]

theorem Clean.solid (hsel : Clean sel) :
    ∀ c ∈ sel, ¬ isBlank c ∧ c ≠ '\x7b' ∧ c ≠ '\x7d' := by
  intro c hc
  obtain ⟨hblank, hmem⟩ := hsel c hc
  refine ⟨hblank, ?_, ?_⟩
  · rintro rfl
    exact hmem (by decide)
  · rintro rfl
    exact hmem (by decide)

theorem Reads.rule (hsel : ∀ c ∈ sel, ¬ isBlank c ∧ c ≠ '\x7b' ∧ c ≠ '\x7d')
    (hfull : fullSelector outer.head? sel = classSelector s)
    (hbody : Reads (classSelector s :: outer) body ss) :
    Reads outer (sel ++ " \x7b\n".toList ++ body ++ "\x7d\n".toList) (s :: ss) := by
  intro cs
  have hbefore : ∀ c ∈ sel ++ [' '], c ≠ '\x7b' ∧ c ≠ '\x7d' :=
    List.forall_mem_append.2
      ⟨fun c hc => (hsel c hc).2, List.forall_mem_singleton.2 (by decide)⟩
  have htrim := trim_append_blank fun c hc => (hsel c hc).1
  have htext : sel ++ " \x7b\n".toList ++ body ++ "\x7d\n".toList ++ cs =
      (sel ++ [' ']) ++ '\x7b' :: (['\n'] ++ (body ++ '\x7d' :: (['\n'] ++ cs))) := by
    simp
  have hend : readRules (classSelector s :: outer) [] ('\x7d' :: (['\n'] ++ cs)) =
      readRules outer [] cs := by
    rw [readRules, if_neg (by decide), if_pos rfl, if_pos ⟨nofun, rfl⟩, List.tail_cons,
      reads_newline]
    exact Option.map_id'
  rw [htext, readRules_append hbefore, List.nil_append, readRules, if_pos rfl, htrim, hfull]
  dsimp only
  rw [reads_newline, hbody, hend, Option.map_map, Option.map_map]
  rfl

theorem fullSelector_ampersand {x : List Char} (hsel : Clean sel) :
    fullSelector (some x) ('&' :: sel) = x ++ sel := by
  have hchar : ∀ c ∈ sel, (if c = '&' then x else [c]) = [c] := by
    intro c hc
    refine if_neg ?_
    rintro rfl
    exact (hsel _ hc).2 (by decide)
  unfold fullSelector
  dsimp only
  rw [List.flatMap_cons, if_pos rfl, List.flatMap_congr hchar, List.flatMap_singleton']

theorem Reads.nested (hbody : Reads (classSelector t :: classSelector s :: outer) body ss)
    (hpad : ∀ c ∈ pad, isBlank c) (ht : classSelector t = classSelector s ++ sel)
    (hclean : Clean (classSelector t)) :
    Reads (classSelector s :: outer)
      (pad ++ '&' :: sel ++ " \x7b\n".toList ++ body ++ pad ++ "\x7d\n".toList) (t :: ss) := by
  have hsel : Clean sel := (clean_append.1 (ht ▸ hclean)).2
  have hsolid : ∀ c ∈ '&' :: sel, ¬ isBlank c ∧ c ≠ '\x7b' ∧ c ≠ '\x7d' :=
    List.forall_mem_cons.2 ⟨by decide, hsel.solid⟩
  have hfull := (fullSelector_ampersand hsel).trans ht.symm
  have hinner : Reads (classSelector t :: classSelector s :: outer) (body ++ pad) ss := by
    have hall := hbody.append (reads_blank hpad)
    rwa [List.append_nil] at hall
  have hrule : Reads (classSelector s :: outer)
      ('&' :: sel ++ " \x7b\n".toList ++ (body ++ pad) ++ "\x7d\n".toList) (t :: ss) :=
    Reads.rule hsolid hfull hinner
  have hpadded := (reads_blank hpad).append hrule
  simpa only [List.append_assoc, List.nil_append] using hpadded

theorem classSelector_append (s t : String) :
    classSelector (s ++ t) = classSelector s ++ t.toList := by
  unfold classSelector
  rw [String.toList_append, List.cons_append]

theorem classSelector_entityClass (o : Options) (b e : String) :
    classSelector (o.entityClass b (some e)) =
      classSelector b ++ (o.elemSeparator ++ e).toList := by
  rw [← classSelector_append, ← String.append_assoc]
  rfl

theorem classSelector_modifierClass (o : Options) (s suffix : String) :
    classSelector (o.modifierClass s suffix) =
      classSelector s ++ (o.modSeparator ++ suffix).toList := by
  rw [← classSelector_append, ← String.append_assoc]
  rfl

theorem isBlank_of_mem_pad (ho : ∀ c ∈ o.indent.toList, isBlank c) (level : Nat) :
    ∀ c ∈ o.pad level, isBlank c := by
  intro c hc
  obtain ⟨l, hl, hc⟩ := List.mem_flatten.1 hc
  rw [List.eq_of_mem_replicate hl] at hc
  exact ho c hc

theorem reads_scssModifiers {ms : List String} (hpad : ∀ c ∈ pad, isBlank c)
    (hclean : ∀ m ∈ ms, Clean (classSelector (o.modifierClass s m))) :
    Reads (classSelector s :: outer) (ms.flatMap (scssModifier o pad))
      (ms.map (o.modifierClass s)) := by
  rw [List.map_eq_flatMap]
  refine Reads.flatMap fun m hm => ?_
  have hempty : Reads (classSelector (o.modifierClass s m) :: classSelector s :: outer) [] [] :=
    reads_nil
  have hrule := hempty.nested hpad (classSelector_modifierClass o s m) (hclean m hm)
  rwa [List.append_nil] at hrule

theorem reads_scssElem (ho : ∀ c ∈ o.indent.toList, isBlank c)
    (hclean : ∀ s ∈ elemSelectors o b e, Clean (classSelector s)) :
    Reads [classSelector b] (scssElem o e) (elemSelectors o b e) := by
  obtain ⟨hentity, hmods⟩ := List.forall_mem_cons.1 hclean
  have hmodRules : Reads [classSelector (o.entityClass b (some e.name)), classSelector b]
      (e.mods.flatMap (scssModifier o (o.pad 2)))
      (e.mods.map (o.modifierClass (o.entityClass b (some e.name)))) :=
    reads_scssModifiers (isBlank_of_mem_pad ho 2) fun m hm => hmods _ (List.mem_map_of_mem hm)
  exact hmodRules.nested (isBlank_of_mem_pad ho 1) (classSelector_entityClass o b e.name) hentity

theorem reads_scssBlock (ho : ∀ c ∈ o.indent.toList, isBlank c)
    (hclean : ∀ s ∈ blockSelectors o r, Clean (classSelector s)) :
    Reads [] (scssBlock o r) (blockSelectors o r) := by
  unfold blockSelectors at hclean
  obtain ⟨hhead, helems⟩ := List.forall_mem_append.1 hclean
  obtain ⟨hblock, hmods⟩ := List.forall_mem_cons.1 hhead
  have hmodRules : Reads [classSelector r.name] (r.mods.flatMap (scssModifier o (o.pad 1)))
      (r.mods.map (o.modifierClass r.name)) :=
    reads_scssModifiers (isBlank_of_mem_pad ho 1) fun m hm => hmods _ (List.mem_map_of_mem hm)
  have helemRules : Reads [classSelector r.name] (r.elems.flatMap (scssElem o))
      (r.elems.flatMap (elemSelectors o r.name)) :=
    Reads.flatMap fun e he =>
      reads_scssElem ho fun s hs => helems s (List.mem_flatMap.2 ⟨e, he, hs⟩)
  have hrule := Reads.rule hblock.solid rfl (hmodRules.append helemRules)
  unfold scssBlock
  rwa [← List.append_assoc] at hrule

theorem reads_cssRule (hclean : Clean (classSelector s)) : Reads [] (cssRule s) [s] := by
  have htext : classSelector s ++ " \x7b\n".toList ++ [] ++ "\x7d\n".toList = cssRule s := by
    unfold cssRule classSelector
    simp
  rw [← htext]
  exact Reads.rule hclean.solid rfl reads_nil

@[mk_iff]
structure CleanHead (h : Head) : Prop where
  block : ∀ b ∈ h.block, Clean b.toList
  elem : ∀ e ∈ h.elem, Clean e.toList
  mods : ∀ m ∈ modifierSuffixes h.mods, Clean m.toList
  elemMods : ∀ m ∈ modifierSuffixes h.elemMods, Clean m.toList

@[mk_iff]
structure CleanOptions (o : Options) : Prop where
  modSeparator : Clean o.modSeparator.toList
  elemSeparator : Clean o.elemSeparator.toList
  indent : o.indent.toList ⊆ [' ', '\t']

instance : DecidablePred Clean := List.decidableBAll _

instance (h : Head) : Decidable (CleanHead h) :=
  decidable_of_iff _ (cleanHead_iff h).symm

instance (o : Options) : Decidable (CleanOptions o) :=
  decidable_of_iff _ (cleanOptions_iff o).symm

theorem CleanOptions.isBlank_indent (ho : CleanOptions o) : ∀ c ∈ o.indent.toList, isBlank c := by
  have hlayout : ∀ c ∈ [' ', '\t'], isBlank c :=
    List.forall_mem_cons.2 ⟨rfl, List.forall_mem_singleton.2 rfl⟩
  intro c hc
  exact hlayout c (ho.indent hc)

theorem clean_classSelector (hs : Clean s.toList) : Clean (classSelector s) :=
  List.forall_mem_cons.2 ⟨by decide, hs⟩

theorem clean_entityClass (ho : CleanOptions o) (hb : Clean b.toList) {e : String}
    (he : Clean e.toList) : Clean (classSelector (o.entityClass b (some e))) := by
  rw [classSelector_entityClass, String.toList_append, clean_append, clean_append]
  exact ⟨clean_classSelector hb, ho.elemSeparator, he⟩

theorem clean_modifierClass (ho : CleanOptions o) (hs : Clean (classSelector s))
    (hsuffix : Clean suffix.toList) : Clean (classSelector (o.modifierClass s suffix)) := by
  rw [classSelector_modifierClass, String.toList_append, clean_append, clean_append]
  exact ⟨hs, ho.modSeparator, hsuffix⟩

theorem clean_of_mem_entityClasses {h : Head} (ho : CleanOptions o) (hh : CleanHead h)
    (hb : Clean b.toList) (hs : s ∈ Html.entityClasses o h (some b)) :
    Clean (classSelector s) := by
  cases he : h.elem with
  | some e =>
    have hentity := clean_entityClass ho hb (hh.elem e he)
    rcases (mem_entityClasses_elem he).1 hs with rfl | ⟨m, hm, rfl⟩
    · exact hentity
    · exact clean_modifierClass ho hentity (hh.elemMods m hm)
  | none =>
    by_cases hblock : h.block.isSome
    · rcases (mem_entityClasses_block he hblock).1 hs with rfl | ⟨m, hm, rfl⟩
      · exact clean_classSelector hb
      · exact clean_modifierClass ho (clean_classSelector hb) (hh.mods m hm)
    · rw [entityClasses_of_none _ he (Option.not_isSome_iff_eq_none.1 hblock)] at hs
      cases hs

theorem clean_of_mem_selectors (ho : CleanOptions o) (hn : ∀ p ∈ n.scoped none, CleanHead p.1)
    (hs : s ∈ selectors o (rulesOf n)) : Clean (classSelector s) := by
  obtain ⟨p, hp, b, hb, hs⟩ := mem_selectors_rulesOf.1 hs
  obtain ⟨q, hq, hown⟩ := exists_block_of_mem_scoped_none hp hb
  have hblock : Clean b.toList := (hn q hq).block b hown
  rcases hs with rfl | hs
  · exact clean_classSelector hblock
  · rw [hb] at hs
    exact clean_of_mem_entityClasses ho (hn p hp) hblock hs

/-- The nested stylesheet of a tree has balanced braces and reads as the rules of the flat one. -/
theorem readRules_renderScss (o : Options) (n : Node) (ho : CleanOptions o)
    (hn : ∀ p ∈ n.scoped none, CleanHead p.1) :
    closes 0 (renderScss o n).toList ∧
      readRules [] [] (renderScss o n).toList =
        some ((selectors o (rulesOf n)).map classSelector) ∧
      readRules [] [] (renderCss o n).toList =
        some ((selectors o (rulesOf n)).map classSelector) := by
  have hclean : ∀ s ∈ selectors o (rulesOf n), Clean (classSelector s) :=
    fun s hs => clean_of_mem_selectors ho hn hs
  have hscss : Reads [] (scssChars o (rulesOf n)) (selectors o (rulesOf n)) :=
    Reads.intercalate fun r hr => reads_scssBlock ho.isBlank_indent
      fun s hs => hclean s (List.mem_flatMap.2 ⟨r, hr, hs⟩)
  have hcss : Reads [] (cssChars o (rulesOf n)) (selectors o (rulesOf n)) := by
    have hrules := Reads.intercalate fun s hs => reads_cssRule (hclean s hs)
    rwa [List.flatMap_singleton'] at hrules
  unfold renderScss renderCss
  rw [String.toList_ofList, String.toList_ofList]
  exact ⟨closes_of_readRules hscss.readRules_eq, hscss.readRules_eq, hcss.readRules_eq⟩

/-- A block that comes up again below another one, with an element that is there twice. -/
theorem readRules_renderScss_page :
    let o : Options := { modSeparator := "_", indent := "\t " }
    let title (mods : List (String × Json)) : Item :=
      .node (.mk { elem := some "title", elemMods := mods } (.text "\x7b & \x7d"))
    let n : Node := .mk { block := some "page", mods := [("wide", .bool true)] }
      (.items [title [("level", .int 2)],
        .node (.mk { block := some "menu", cls := some "&" } (.items [title []])),
        title [("level", .int 2), ("size", .str "s")]])
    let read := some ([".page", ".page_wide", ".page__title", ".page__title_level_2",
      ".page__title_size_s", ".menu", ".menu__title"].map String.toList)
    CleanOptions o ∧ (∀ p ∈ n.scoped none, CleanHead p.1) ∧
      closes 0 (renderScss o n).toList ∧
      readRules [] [] (renderScss o n).toList = read ∧
      readRules [] [] (renderCss o n).toList = read := by
  intro o title n read
  have ho : CleanOptions o := by decide
  have hn : ∀ p ∈ n.scoped none, CleanHead p.1 := by decide
  have hread : some ((selectors o (rulesOf n)).map classSelector) = read := by decide
  have hrules := readRules_renderScss o n ho hn
  rw [hread] at hrules
  exact ⟨ho, hn, hrules⟩

end BemOutline.Render.Style

import BemOutline.Proofs.Render.Repetition
import Mathlib.Data.List.Basic
import Mathlib.Data.List.Induction

/-! The rules of a tree by the order in which its names appear. A rule is found again whenever its
block comes up, so that the order of the rules is that of the first nodes which need them. -/

namespace BemOutline

theorem eraseDups_concat (l : List String) (s : String) :
    (l ++ [s]).eraseDups = if s ∈ l then l.eraseDups else l.eraseDups ++ [s] := by
  rw [List.eraseDups_append, List.removeAll]
  by_cases hs : s ∈ l
  · simp [hs]
  · simp [hs, List.eraseDups_cons]

theorem nodup_eraseDups (l : List String) : l.eraseDups.Nodup := by
  induction l using List.reverseRecOn with
  | nil => simp
  | append_singleton l s ih =>
    rw [eraseDups_concat]
    split
    · exact ih
    · next hs =>
      refine List.nodup_append.2 ⟨ih, List.nodup_singleton s, fun t ht u hu => ?_⟩
      rw [List.mem_singleton.1 hu]
      rintro rfl
      exact hs (List.mem_eraseDups.1 ht)

namespace Render.Style

open Bem

variable {n : Node} {o : Options} {b : String} {names : List String}

theorem pushNew_nil (items : List String) : pushNew [] items = items.eraseDups := by
  induction items using List.reverseRecOn with
  | nil => simp [pushNew]
  | append_singleton items s ih =>
    unfold pushNew at ih ⊢
    rw [List.foldl_append, ih, eraseDups_concat]
    simp only [List.foldl_cons, List.foldl_nil, List.mem_eraseDups]

section Named
variable {α β γ : Type} {key : α → String} {new : String → α}

theorem atName_map (name : String) (f : α → α) {g : String → α} (hnames : names.Nodup)
    (hg : ∀ m ∈ names, key (g m) = m) :
    atName key (new name) name f (names.map g) =
      if name ∈ names then names.map fun m => if m = name then f (g m) else g m
      else names.map g ++ [f (new name)] := by
  induction names with
  | nil => simp [atName]
  | cons m names ih =>
    obtain ⟨hm, hnames⟩ := List.nodup_cons.1 hnames
    obtain ⟨hkey, hg⟩ := List.forall_mem_cons.1 hg
    rw [List.map_cons, atName, hkey]
    by_cases hname : m = name
    · -- the entry is the first one, and none of the others has its name
      subst hname
      have hrest : ∀ k ∈ names, (if k = m then f (g k) else g k) = g k := by
        intro k hk
        refine if_neg ?_
        rintro rfl
        exact hm hk
      simp [List.map_congr_left hrest]
    · rw [if_neg hname, ih hnames hg]
      by_cases hmem : name ∈ names
      · simp [hname, hmem]
      · simp [hmem, Ne.symm hname]

theorem key_foldl (key : α → String) (new : String → α) (add : β → α → α)
    (hadd : ∀ b x, key (add b x) = key x) (hnew : ∀ m, key (new m) = m) (bs : List β) (m : String) :
    key (bs.foldl (fun x b => add b x) (new m)) = m := by
  induction bs using List.reverseRecOn with
  | nil => exact hnew m
  | append_singleton bs b ih =>
    rw [List.foldl_append]
    exact (hadd ..).trans ih

/-- Additions to entries that are found by their names, or else appended: the entries stand in the
order in which the names first appear, and each holds all that was added under its name. -/
theorem foldl_atName_eq (key : α → String) (new : String → α) (add : β → α → α)
    (hadd : ∀ b x, key (add b x) = key x) (hnew : ∀ m, key (new m) = m)
    (name? : γ → Option String) (value : γ → β) (cs : List γ) :
    cs.foldl (fun l c => (name? c).elim l fun m => atName key (new m) m (add (value c)) l) [] =
      (cs.filterMap name?).eraseDups.map fun m =>
        ((cs.filter (name? · = some m)).map value).foldl (fun x b => add b x) (new m) := by
  induction cs using List.reverseRecOn with
  | nil => simp
  | append_singleton cs c ih =>
    rw [List.foldl_append, ih, List.foldl_cons, List.foldl_nil, List.filterMap_append]
    cases hc : name? c with
    | none => simp [hc]
    | some name =>
      have hkeys : ∀ m ∈ (cs.filterMap name?).eraseDups, key (((cs.filter (name? · = some m)).map
          value).foldl (fun x b => add b x) (new m)) = m :=
        fun m _ => key_foldl key new add hadd hnew _ m
      rw [Option.elim_some, atName_map _ _ (nodup_eraseDups _) hkeys, List.filterMap_cons_some hc,
        List.filterMap_nil, eraseDups_concat]
      simp only [List.mem_eraseDups]
      split
      · apply List.map_congr_left
        intro m _
        by_cases hm : m = name
        · simp [hm, hc]
        · simp [hm, Ne.symm hm, hc]
      · next hnew =>
        -- nothing was added under the name before
        have hnone : ∀ d ∈ cs, ¬ name? d = some name := fun d hd hname =>
          hnew (List.mem_filterMap.2 ⟨d, hd, hname⟩)
        rw [List.map_append]
        congr 1
        · apply List.map_congr_left
          intro m hm
          have hne : name ≠ m := by
            rintro rfl
            exact hnew (List.mem_eraseDups.1 hm)
          simp [hne, hc]
        · have hempty : cs.filter (name? · = some name) = [] :=
            List.filter_eq_nil_iff.2 fun d hd => by simpa using hnone d hd
          simp [hempty, hc]

end Named

section Scoped
variable (ps : List (Head × Option String)) (b e : String)

def blockNames : List String := (ps.filterMap (·.2)).eraseDups

def blockModifiers : List String :=
  ((ps.filter fun p => p.1.block = some b ∧ p.1.elem = none).flatMap fun p =>
    modifierSuffixes p.1.mods).eraseDups

def elemNames : List String := ((ps.filter (·.2 = some b)).filterMap (·.1.elem)).eraseDups

def elemModifiers : List String :=
  ((ps.filter fun p => p.2 = some b ∧ p.1.elem = some e).flatMap fun p =>
    modifierSuffixes p.1.elemMods).eraseDups

variable {ps b e} {m : String}

theorem mem_blockNames : b ∈ blockNames ps ↔ ∃ p ∈ ps, p.2 = some b := by
  rw [blockNames, List.mem_eraseDups, List.mem_filterMap]

theorem mem_blockModifiers : m ∈ blockModifiers ps b ↔
    ∃ p ∈ ps, p.1.block = some b ∧ p.1.elem = none ∧ m ∈ modifierSuffixes p.1.mods := by
  rw [blockModifiers, List.mem_eraseDups, List.mem_flatMap]
  simp only [List.mem_filter, decide_eq_true_eq, and_assoc]

theorem mem_elemNames : e ∈ elemNames ps b ↔ ∃ p ∈ ps, p.2 = some b ∧ p.1.elem = some e := by
  rw [elemNames, List.mem_eraseDups, List.mem_filterMap]
  simp only [List.mem_filter, decide_eq_true_eq, and_assoc]

theorem mem_elemModifiers : m ∈ elemModifiers ps b e ↔
    ∃ p ∈ ps, p.2 = some b ∧ p.1.elem = some e ∧ m ∈ modifierSuffixes p.1.elemMods := by
  rw [elemModifiers, List.mem_eraseDups, List.mem_flatMap]
  simp only [List.mem_filter, decide_eq_true_eq, and_assoc]

variable (ps) in
/-- The rules for nodes with the blocks in their scope, by the order in which the names appear. -/
def rulesInOrder : List BlockRule :=
  (blockNames ps).map fun b =>
    ⟨b, blockModifiers ps b, (elemNames ps b).map fun e => ⟨e, elemModifiers ps b e⟩⟩

end Scoped

theorem foldl_addHead (hs : List Head) (r : BlockRule) :
    hs.foldl (fun r h => addHead h r) r =
      ⟨r.name, pushNew r.mods (hs.flatMap blockSuffixes),
        hs.foldl (fun es h => addElem h es) r.elems⟩ := by
  induction hs generalizing r with
  | nil => simp [pushNew]
  | cons h hs ih =>
    rw [List.foldl_cons, ih, addHead_eq, List.flatMap_cons, List.foldl_cons]
    unfold pushNew
    rw [List.foldl_append]

theorem foldl_mods (itemss : List (List String)) (r : ElemRule) :
    itemss.foldl (fun r items => { r with mods := pushNew r.mods items }) r =
      ⟨r.name, pushNew r.mods itemss.flatten⟩ := by
  induction itemss generalizing r with
  | nil => simp [pushNew]
  | cons items itemss ih =>
    rw [List.foldl_cons, ih, List.flatten_cons]
    unfold pushNew
    rw [List.foldl_append]

theorem foldl_addElem (hs : List Head) :
    hs.foldl (fun es h => addElem h es) [] =
      (hs.filterMap (·.elem)).eraseDups.map fun e =>
        ⟨e, ((hs.filter (·.elem = some e)).flatMap fun h =>
          modifierSuffixes h.elemMods).eraseDups⟩ := by
  have hgather := foldl_atName_eq ElemRule.name (fun e => ⟨e, []⟩)
    (fun items r => { r with mods := pushNew r.mods items }) (fun _ _ => rfl) (fun _ => rfl)
    Head.elem (fun h => modifierSuffixes h.elemMods) hs
  have hstep : (fun es h => addElem h es) = fun es h => h.elem.elim es fun e =>
      atName ElemRule.name ⟨e, []⟩ e
        (fun r => { r with mods := pushNew r.mods (modifierSuffixes h.elemMods) }) es := by
    funext es h
    unfold addElem elemSuffixes?
    cases h.elem <;> rfl
  rw [hstep, hgather]
  apply List.map_congr_left
  intro e _
  rw [foldl_mods, pushNew_nil, List.flatMap_def]

theorem flatMap_blockSuffixes {ps : List (Head × Option String)}
    (hown : ∀ p ∈ ps, ∀ b', p.1.block = some b' → p.2 = some b') :
    ((ps.filter (·.2 = some b)).map Prod.fst).flatMap blockSuffixes =
      (ps.filter fun p => p.1.block = some b ∧ p.1.elem = none).flatMap fun p =>
        modifierSuffixes p.1.mods := by
  induction ps with
  | nil => rfl
  | cons p ps ih =>
    obtain ⟨hp, hps⟩ := List.forall_mem_cons.1 hown
    rw [List.filter_cons, List.filter_cons]
    by_cases hblock : p.1.block = some b ∧ p.1.elem = none
    · have hscope : p.2 = some b := hp b hblock.1
      have hsuffixes : blockSuffixes p.1 = modifierSuffixes p.1.mods := by
        simp [blockSuffixes, hblock]
      rw [if_pos (decide_eq_true hscope), if_pos (decide_eq_true hblock), List.map_cons,
        List.flatMap_cons, List.flatMap_cons, hsuffixes, ih hps]
    · rw [if_neg (mt of_decide_eq_true hblock)]
      by_cases hscope : p.2 = some b
      · have hsuffixes : blockSuffixes p.1 = [] := by
          refine if_neg ?_
          rintro ⟨helem, hown⟩
          obtain ⟨b', hb'⟩ := Option.isSome_iff_exists.1 hown
          obtain rfl : b' = b := Option.some.inj ((hp b' hb').symm.trans hscope)
          exact hblock ⟨hb', helem⟩
        rw [if_pos (decide_eq_true hscope), List.map_cons, List.flatMap_cons, hsuffixes, ih hps,
          List.nil_append]
      · rw [if_neg (mt of_decide_eq_true hscope), ih hps]

theorem rulesOf_eq (n : Node) : rulesOf n = rulesInOrder (n.scoped none) := by
  have hgather := foldl_atName_eq BlockRule.name (fun b => ⟨b, [], []⟩) addHead
    (fun h r => by rw [addHead_eq]) (fun _ => rfl) Prod.snd Prod.fst (n.scoped none)
  have hstep : (fun rules (p : Head × Option String) => addNode p.1 p.2 rules) =
      fun rules p => p.2.elim rules fun b =>
        atName BlockRule.name ⟨b, [], []⟩ b (addHead p.1) rules := by
    funext rules p
    obtain ⟨h, _ | b⟩ := p
    · rfl
    · exact atBlock_eq b (addHead h) rules
  rw [rulesOf, collect_eq_foldl, hstep, hgather]
  apply List.map_congr_left
  intro b _
  rw [foldl_addHead, foldl_addElem, pushNew_nil,
    flatMap_blockSuffixes fun p hp b => snd_of_mem_scoped hp, List.filterMap_map]
  have helem : ∀ e, (((n.scoped none).filter (·.2 = some b)).map Prod.fst).filter
      (·.elem = some e) = ((n.scoped none).filter fun p =>
        p.2 = some b ∧ p.1.elem = some e).map Prod.fst := by
    intro e
    rw [List.filter_map, List.filter_filter]
    simp only [Function.comp_def, Bool.decide_and, Bool.and_comm]
  simp only [helem, List.flatMap_map]
  rfl

structure Distinct (rules : List BlockRule) : Prop where
  blocks : (rules.map (·.name)).Nodup
  mods : ∀ r ∈ rules, r.mods.Nodup
  elems : ∀ r ∈ rules, (r.elems.map (·.name)).Nodup
  elemMods : ∀ r ∈ rules, ∀ e ∈ r.elems, e.mods.Nodup

theorem distinct_rulesOf (n : Node) : Distinct (rulesOf n) := by
  rw [rulesOf_eq]
  unfold rulesInOrder
  constructor
  · rw [List.map_map]
    exact (List.map_id _).symm ▸ nodup_eraseDups _
  · rintro r hr
    obtain ⟨b, -, rfl⟩ := List.mem_map.1 hr
    exact nodup_eraseDups _
  · rintro r hr
    obtain ⟨b, -, rfl⟩ := List.mem_map.1 hr
    rw [List.map_map]
    exact (List.map_id _).symm ▸ nodup_eraseDups _
  · rintro r hr e he
    obtain ⟨b, -, rfl⟩ := List.mem_map.1 hr
    obtain ⟨e, -, rfl⟩ := List.mem_map.1 he
    exact nodup_eraseDups _

theorem rulesOf_eq_nil_iff : rulesOf n = [] ↔ ∀ p ∈ n.scoped none, p.1.block = none := by
  rw [rulesOf_eq, rulesInOrder, List.map_eq_nil_iff, List.eq_nil_iff_forall_not_mem]
  simp only [mem_blockNames]
  constructor
  · intro h p hp
    refine Option.eq_none_iff_forall_ne_some.2 fun b hb => ?_
    exact h b ⟨p, hp, snd_of_mem_scoped hp hb⟩
  · rintro h b ⟨p, hp, hb⟩
    obtain ⟨q, hq, hown⟩ := exists_block_of_mem_scoped_none hp hb
    rw [h q hq] at hown
    cases hown

theorem intercalate_map_eq_nil_iff {α : Type} {f : α → List Char} (hf : ∀ a, f a ≠ [])
    (l : List α) : ['\n'].intercalate (l.map f) = [] ↔ l = [] := by
  cases l with
  | nil => simp
  | cons a l =>
    cases l with
    | nil => simp [hf]
    | cons a' l => simp [List.intercalate_cons_cons, hf]

theorem renderScss_eq_empty_iff (o : Options) : renderScss o n = "" ↔ rulesOf n = [] := by
  have hblock : ∀ r, scssBlock o r ≠ [] := by
    intro r
    simp [scssBlock]
  rw [renderScss, ← String.toList_inj, String.toList_ofList]
  exact intercalate_map_eq_nil_iff hblock _

theorem renderCss_eq_empty_iff (o : Options) : renderCss o n = "" ↔ rulesOf n = [] := by
  have hrule : ∀ s, cssRule s ≠ [] := by
    intro s
    simp [cssRule]
  have hselectors : selectors o (rulesOf n) = [] ↔ rulesOf n = [] := by
    cases rulesOf n <;> simp [selectors, blockSelectors]
  rw [renderCss, ← String.toList_inj, String.toList_ofList, ← hselectors]
  exact intercalate_map_eq_nil_iff hrule _

/-- The rules of a tree are for its blocks, each with its modifiers and elements in the order in
which they first appear, and no name stands twice. A stylesheet is empty exactly if no node of the
tree names a block. -/
theorem rulesOf_first_appearances (n : Node) :
    rulesOf n = rulesInOrder (n.scoped none) ∧ Distinct (rulesOf n) ∧
      ∀ o, (renderScss o n = "" ↔ ∀ p ∈ n.scoped none, p.1.block = none) ∧
        (renderCss o n = "" ↔ ∀ p ∈ n.scoped none, p.1.block = none) := by
  refine ⟨rulesOf_eq n, distinct_rulesOf n, fun o => ⟨?_, ?_⟩⟩
  · rw [renderScss_eq_empty_iff, rulesOf_eq_nil_iff]
  · rw [renderCss_eq_empty_iff, rulesOf_eq_nil_iff]

/-- A block that is left and entered again, below an element of another one. -/
theorem rulesOf_first_appearances_left_block :
    let link (mods : List (String × Json)) : Item :=
      .node (.mk { elem := some "link", elemMods := mods } .none)
    let n : Node := .mk { block := some "page" } (.items [link [],
      .node (.mk { block := some "menu", elem := some "item" } (.items [link [("on", .bool true)],
        .node (.mk { block := some "page", mods := [("wide", .bool true)] }
          (.items [link [("size", .str "l")]]))]))])
    rulesInOrder (n.scoped none) = [⟨"page", ["wide"], [⟨"link", ["size_l"]⟩]⟩,
        ⟨"menu", [], [⟨"item", []⟩, ⟨"link", ["on"]⟩]⟩] ∧
      Distinct (rulesOf n) ∧ renderCss {} n ≠ "" := by
  intro link n
  obtain ⟨heq, hdistinct, hempty⟩ := rulesOf_first_appearances n
  refine ⟨?_, hdistinct, fun h => ?_⟩
  · rw [← heq]
    decide
  · have hblock := ((hempty {}).2.1 h) ({ block := some "page" }, some "page")
      List.mem_cons_self
    cases hblock

end Render.Style

end BemOutline

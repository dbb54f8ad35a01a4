import BemOutline.Proofs.Conversion.FedBack
import BemOutline.Proofs.Render.Repetition

/-! Outlines converted to stylesheets. Nothing in them tells how often a line was repeated, so that
neither the counts nor the way they are expanded make a difference. -/

namespace BemOutline

open Arena Bem Expansion Outline Render.Style

/-- What a line says about its node alone. -/
def Line.bare (l : Line) : Line := { l with source := "", count := 1 }

namespace Line

variable {l : Line}

theorem count_moved (l : Line) : l.moved.count = l.count := by
  obtain ⟨ms, hmoved, -⟩ := l.exists_moved
  rw [hmoved]

theorem moved_single (l : Line) : l.single.moved = l.moved.single := by
  rw [moved, moved, apply_ite Line.single]
  rfl

theorem depth_bare (l : Line) : l.bare.depth = l.depth := rfl

theorem ownNesting_bare (l : Line) : l.bare.ownNesting = l.ownNesting := rfl

theorem moved_bare (l : Line) : l.bare.moved = l.moved.bare := by
  rw [moved, moved, apply_ite Line.bare]
  rfl

end Line

namespace Tree

variable {t u : Tree} {f : Line → Line}

theorem full_map (hsingle : ∀ l, f l.single = (f l).single) (hcount : ∀ l, (f l).count = l.count)
    (t : Tree) : (t.map f).full = t.full.map f := by
  induction t using Tree.induction with
  | step data children ih =>
    rw [map_mk, full_mk, full_mk, map_mk, hsingle, List.flatMap_map, List.map_flatMap]
    congr 1
    apply List.flatMap_congr
    intro t ht
    have hdata : (t.map f).data.count = t.data.count := by
      cases t
      rw [map_mk]
      exact hcount _
    rw [spread, spread, ih t ht, hdata, List.map_replicate]

theorem toBem_map_bare (t : Tree) : (t.map Line.bare).toBem = t.toBem := by
  induction t using Tree.induction with
  | step data children ih =>
    have hchildren := List.map_congr_left ih
    rw [map_mk, toBem, toBem, toBems_eq, toBems_eq, List.map_map]
    exact congrArg (fun ns => Node.mk data.toHead (data.toContent ns)) hchildren

theorem toBem_moved_bare (t : Tree) :
    ((t.map Line.bare).map Line.moved).toBem = (t.map Line.moved).toBem := by
  rw [← toBem_map_bare (t.map Line.moved), map_map, map_map]
  exact congrArg (fun f => (t.map f).toBem) (funext Line.moved_bare)

theorem rulesOf_moved_of_full_eq (ht : ∀ l ∈ t.preorder, 1 ≤ l.count)
    (hu : ∀ l ∈ u.preorder, 1 ≤ l.count) (h : u.full = t.full) :
    rulesOf (u.map Line.moved).toBem = rulesOf (t.map Line.moved).toBem := by
  have hmoved : ∀ {v : Tree}, (∀ l ∈ v.preorder, 1 ≤ l.count) →
      rulesOf (v.map Line.moved).toBem = rulesOf (v.full.map Line.moved).toBem := by
    intro v hv
    rw [← full_map Line.moved_single Line.count_moved, rulesOf_full]
    intro l hl
    obtain ⟨m, hm, rfl⟩ := mem_preorder_map_iff.1 hl
    rw [Line.count_moved]
    exact hv m hm
  rw [hmoved hu, hmoved ht, h]

end Tree

namespace Arena

theorem subtree_map {a b : Arena} {rank rank' : Nat → Nat} (ha : a.Ranked rank)
    (hb : b.Ranked rank') {f : Line → Line}
    (same : ∀ i, b.node? i = (a.node? i).map fun n => { n with data := f n.data }) (i : Nat) :
    b.subtree i = (a.subtree i).map (Tree.map f) := by
  induction i using ha.induction with
  | step i ih =>
    rw [ha.subtree_eq, hb.subtree_eq, same i]
    cases hn : a.node? i with
    | none => rfl
    | some n =>
      have hchildren : n.children.filterMap b.subtree =
          (n.children.filterMap a.subtree).map (Tree.map f) := by
        rw [List.map_filterMap]
        exact List.filterMap_congr fun c hc => ih n hn c hc
      rw [Option.map_some, Option.map_some, Option.map_some, Option.map_some, Tree.map_mk,
        ← hchildren]

end Arena

namespace Outline

variable {f : Line → Line} {ls : List Line}

theorem depthIn_map (hf : ∀ l, (f l).depth = l.depth) (ls : List Line) :
    depthIn (ls.map f) = depthIn ls := by
  funext i
  rw [depthIn, depthIn, List.map_map]
  exact congrArg (fun ds => List.getD ds i 0) (List.map_congr_left fun l _ => hf l)

theorem node?_arenaOf_map (hf : ∀ l, (f l).depth = l.depth) (i : Nat) :
    (arenaOf (ls.map f)).node? i =
      ((arenaOf ls).node? i).map fun n => { n with data := f n.data } := by
  by_cases hi : i < ls.length
  · have hi' : i < (ls.map f).length := by rwa [List.length_map]
    rw [node?_arenaOf hi, node?_arenaOf hi', Option.map_some, nodeAt, nodeAt]
    simp only [Fin.getElem_fin, List.getElem_map, List.length_map, depthIn_map hf]
  · have hlen : (arenaOf ls).size ≤ i := Nat.le_of_not_lt (by rwa [size_arenaOf])
    have hlen' : (arenaOf (ls.map f)).size ≤ i := by
      rwa [size_arenaOf, List.length_map, ← size_arenaOf]
    rw [node?_eq_none_iff.2 hlen, node?_eq_none_iff.2 hlen']
    rfl

theorem document_arenaOf_map (hf : ∀ l, (f l).depth = l.depth) (ls : List Line) :
    (arenaOf (ls.map f)).document = (arenaOf ls).document.map (Tree.map f) := by
  cases ls with
  | nil => rfl
  | cons l ls =>
    have hroot : (arenaOf ((l :: ls).map f)).root = some 0 := root_arenaOf (List.cons_ne_nil _ _)
    have hroot' : (arenaOf (l :: ls)).root = some 0 := root_arenaOf (List.cons_ne_nil _ _)
    rw [document, document, hroot, hroot', Option.bind_some, Option.bind_some]
    exact subtree_map (ascending_arenaOf _).ranked (ascending_arenaOf _).ranked
      (node?_arenaOf_map hf) 0

end Outline

namespace Conversion

variable {s : Settings} {text text' : String} {limit limit' : Nat} {a a' : Arena} {t t' : Tree}
  {n n' : Bem.Node} {target : Format}

theorem render_eq_of_rulesOf_eq (htarget : target ∈ [.scss, .css]) (h : rulesOf n = rulesOf n') :
    render s n target = render s n' target := by
  have htext : renderText s n target = renderText s n' target := by
    simp only [List.mem_cons, List.not_mem_nil, or_false] at htarget
    rcases htarget with rfl | rfl
    · rw [renderText, renderText, renderScss, renderScss, h]
    · rw [renderText, renderText, renderCss, renderCss, h]
  rw [render, render, htext]

theorem result_fromOutline_of_build (htarget : target ∈ [.scss, .css])
    (h : build s.defaultTag limit text = .ok a) (ht : a.document = some t) :
    (fromOutline s text target).result =
      if nesting t.raw ≤ s.maxDepth then render s (t.map Line.moved).toBem target
      else .error (.outline (.nestingTooDeep s.maxDepth)) := by
  have hs := sound_of_build h
  obtain ⟨u, hu, hfull, hresult⟩ := result_nodeOfOutline_eq h ht
  have hrules := Tree.rulesOf_moved_of_full_eq (fun l hl => hs.count_of_mem_preorder ht hl)
    (fun l hl => (hs.expandAll [s.expander]).count_of_mem_preorder hu hl) hfull
  rw [fromOutline, Outcome.result_andThen, hresult]
  split_ifs
  · exact render_eq_of_rulesOf_eq htarget hrules
  · rfl

theorem result_fromOutline_expander (htarget : target ∈ [.scss, .css]) (s : Settings)
    (mode : Mode) (loopLimit : Nat) (maxNodes : Option Nat) (text : String) :
    (fromOutline { s with expansion := mode, loopLimit, maxNodes } text target).result =
      (fromOutline s text target).result := by
  cases hbuild : build s.defaultTag s.maxDepth text with
  | error e =>
    have herror : ∀ s' : Settings, build s'.defaultTag s'.maxDepth text = .error e →
        (fromOutline s' text target).result = .error (.outline e) := by
      intro s' h
      rw [fromOutline, Outcome.result_andThen, result_nodeOfOutline, h]
      rfl
    rw [herror s hbuild]
    exact herror _ hbuild
  | ok a =>
    obtain ⟨t, ht⟩ := (sound_of_build hbuild).exists_document
    rw [result_fromOutline_of_build htarget hbuild ht]
    exact result_fromOutline_of_build htarget hbuild ht

theorem map_bare_of_acceptedLines (h : build s.defaultTag limit text = .ok a)
    (h' : build s.defaultTag limit' text' = .ok a')
    (hlines : (acceptedLines s.defaultTag text).map Line.bare =
      (acceptedLines s.defaultTag text').map Line.bare) :
    a.document.map (Tree.map Line.bare) = a'.document.map (Tree.map Line.bare) := by
  obtain ⟨-, rfl⟩ := build_eq_ok h
  obtain ⟨-, rfl⟩ := build_eq_ok h'
  rw [← document_arenaOf_map Line.depth_bare, hlines, document_arenaOf_map Line.depth_bare]

theorem result_fromOutline_bare (htarget : target ∈ [.scss, .css])
    (h : build s.defaultTag limit text = .ok a) (h' : build s.defaultTag limit' text' = .ok a')
    (hlines : (acceptedLines s.defaultTag text).map Line.bare =
      (acceptedLines s.defaultTag text').map Line.bare) :
    (fromOutline s text target).result = (fromOutline s text' target).result := by
  obtain ⟨t, ht⟩ := (sound_of_build h).exists_document
  obtain ⟨t', ht'⟩ := (sound_of_build h').exists_document
  have hbare := map_bare_of_acceptedLines h h' hlines
  rw [ht, ht', Option.map_some, Option.map_some, Option.some.injEq] at hbare
  have hnesting : nesting t.raw = nesting t'.raw := by
    rw [← Tree.nesting_raw_map Line.ownNesting_bare t, hbare,
      Tree.nesting_raw_map Line.ownNesting_bare]
  have hnode : (t.map Line.moved).toBem = (t'.map Line.moved).toBem := by
    rw [← t.toBem_moved_bare, hbare, t'.toBem_moved_bare]
  rw [result_fromOutline_of_build htarget h ht, result_fromOutline_of_build htarget h' ht',
    hnesting, hnode]

/-- An outline has one stylesheet, or one error, for all ways to expand its counts, and so have two
outlines whose lines differ in no more than their counts and how they are written. -/
theorem result_stylesheet (htarget : target ∈ [.scss, .css]) (s : Settings) (mode : Mode)
    (loopLimit : Nat) (maxNodes : Option Nat) :
    (∀ text, (tryConvert { s with expansion := mode, loopLimit, maxNodes } text
        ⟨some .pseudocode, some target⟩).result =
      (tryConvert s text ⟨some .pseudocode, some target⟩).result) ∧
    ∀ text text' limit limit' a a', build s.defaultTag limit text = .ok a →
      build s.defaultTag limit' text' = .ok a' →
      (acceptedLines s.defaultTag text).map Line.bare =
        (acceptedLines s.defaultTag text').map Line.bare →
      (tryConvert { s with expansion := mode, loopLimit, maxNodes } text'
          ⟨some .pseudocode, some target⟩).result =
        (tryConvert s text ⟨some .pseudocode, some target⟩).result := by
  have hstandard : standard.get? .pseudocode target = some fromOutline :=
    (standard_get?_of_mem (List.mem_cons_of_mem _ htarget)).2
  have hresult : ∀ s text, (tryConvert s text ⟨some .pseudocode, some target⟩).result =
      (fromOutline s text target).result.map fun out => ⟨.pseudocode, target, out⟩ :=
    fun s text => result_convertFrom hstandard s text
  constructor
  · intro text
    rw [hresult, hresult, result_fromOutline_expander htarget]
  · intro text text' limit limit' a a' h h' hlines
    rw [hresult, hresult, result_fromOutline_expander htarget,
      result_fromOutline_bare htarget h h' hlines]

/-- Lists within lists, expanded in full from one text, and given up early from the other. -/
theorem result_stylesheet_list :
    (tryConvert { expansion := .aliased, loopLimit := 1, maxNodes := some 4 }
        "ul*5\n  li--x*3 Home\n    a*4" ⟨some .pseudocode, some .css⟩).result =
      (tryConvert {} "ul\n\n  li--x  Home\r\n    a*2" ⟨some .pseudocode, some .css⟩).result := by
  let a : Arena :=
    ⟨#[⟨⟨"ul", 0, "div", .block "ul", [], 1, none⟩, none, [1]⟩,
      ⟨⟨"  li--x  Home", 2, "div", .elem "li", ["x"], 1, some "Home"⟩, some 0, [2]⟩,
      ⟨⟨"    a*2", 4, "div", .elem "a", [], 2, none⟩, some 1, []⟩], some 0⟩
  let a' : Arena :=
    ⟨#[⟨⟨"ul*5", 0, "div", .block "ul", [], 5, none⟩, none, [1]⟩,
      ⟨⟨"  li--x*3 Home", 2, "div", .elem "li", ["x"], 3, some "Home"⟩, some 0, [2]⟩,
      ⟨⟨"    a*4", 4, "div", .elem "a", [], 4, none⟩, some 1, []⟩], some 0⟩
  have hbuild : build "div" 256 "ul\n\n  li--x  Home\r\n    a*2" = .ok a := rfl
  have hbuild' : build "div" 256 "ul*5\n  li--x*3 Home\n    a*4" = .ok a' := rfl
  have hlines : (acceptedLines "div" "ul\n\n  li--x  Home\r\n    a*2").map Line.bare =
      (acceptedLines "div" "ul*5\n  li--x*3 Home\n    a*4").map Line.bare := by decide +kernel
  have hcss : Format.css ∈ [.scss, .css] := by decide
  exact (result_stylesheet hcss {} .aliased 1 (some 4)).2 _ _ 256 256 a a' hbuild hbuild' hlines

end Conversion

end BemOutline

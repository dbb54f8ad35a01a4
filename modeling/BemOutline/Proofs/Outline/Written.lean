import BemOutline.Proofs.Line.Canonical
import BemOutline.Proofs.Outline.Limit
import BemOutline.Proofs.Outline.Unambiguous

/-! Documents as they are written: one line for each node, and one more indentation for each level.
Building them gives them back. -/

namespace BemOutline

/-- A document before it is written down. -/
structure Draft where
  data : Line.Shorthand
  children : List Draft

namespace Draft

structure Entry where
  level : Nat
  data : Line.Shorthand

mutual

/-- The nodes in document order, given the level of the first. -/
def entries : Nat → Draft → List Entry
  | level, ⟨data, children⟩ => ⟨level, data⟩ :: entriesAll (level + 1) children

def entriesAll : Nat → List Draft → List Entry
  | _, [] => []
  | level, t :: ts => entries level t ++ entriesAll level ts

end

def indent (unit : List Char) (level : Nat) : List Char := (List.replicate level unit).flatten

def Entry.written (unit : List Char) (e : Entry) : List Char :=
  indent unit e.level ++ e.data.print

def Entry.line (unit : List Char) (e : Entry) : Line where
  source := String.ofList (e.written unit)
  depth := e.level * unit.length
  tag := e.data.tag
  name := if e.level = 0 then .block e.data.name else .elem e.data.name
  modifiers := e.data.modifiers
  count := e.data.count
  text := e.data.text

def write (unit : List Char) (t : Draft) : String :=
  String.ofList (['\n'].intercalate ((t.entries 0).map (·.written unit)))

mutual

def toTree (unit : List Char) : Nat → Draft → Tree
  | level, ⟨data, children⟩ => ⟨Entry.line unit ⟨level, data⟩, toTrees unit (level + 1) children⟩

def toTrees (unit : List Char) : Nat → List Draft → List Tree
  | _, [] => []
  | level, t :: ts => toTree unit level t :: toTrees unit level ts

end

variable {unit : List Char} {defaultTag : String} {e : Entry} {es : List Entry} {t : Draft}
  {ts : List Draft} {level : Nat}

mutual

theorem preorder_toTree : ∀ (level : Nat) (t : Draft),
    (t.toTree unit level).preorder = (t.entries level).map (·.line unit)
  | level, ⟨data, children⟩ => by
    rw [toTree, entries, Tree.preorder, List.map_cons, preorders_toTrees]

theorem preorders_toTrees : ∀ (level : Nat) (ts : List Draft),
    Tree.preorders (toTrees unit level ts) = (entriesAll level ts).map (·.line unit)
  | _, [] => rfl
  | level, t :: ts => by
    rw [toTrees, entriesAll, Tree.preorders, List.map_append, preorder_toTree, preorders_toTrees]

end

theorem depth_toTree (level : Nat) (t : Draft) :
    (t.toTree unit level).data.depth = level * unit.length := by
  cases t
  rfl

mutual

theorem laidOut_toTree (hunit : unit ≠ []) : ∀ (level : Nat) (t : Draft),
    (t.toTree unit level).LaidOut
  | level, ⟨_, children⟩ => .mk (laidOut_toTrees hunit level children)

theorem laidOut_toTrees (hunit : unit ≠ []) : ∀ (level : Nat) (ts : List Draft),
    Tree.LaidOutBelow (level * unit.length) (toTrees unit (level + 1) ts)
  | _, [] => .nil
  | level, t :: ts => by
    refine .cons ?_ (fun u hu => ?_) (laidOut_toTree hunit (level + 1) t)
      (laidOut_toTrees hunit level ts)
    · rw [depth_toTree]
      exact Nat.mul_lt_mul_of_pos_right (Nat.lt_succ_self level) (List.length_pos_iff.2 hunit)
    · cases ts with
      | nil => cases hu
      | cons t' ts =>
        cases hu
        rw [depth_toTree, depth_toTree]

end

mutual

theorem le_level : ∀ (level : Nat) (t : Draft), ∀ e ∈ t.entries level, level ≤ e.level
  | level, ⟨_, children⟩ => by
    rw [entries, List.forall_mem_cons]
    exact ⟨le_rfl, fun e he => (Nat.le_succ level).trans (le_level_all (level + 1) children e he)⟩

theorem le_level_all : ∀ (level : Nat) (ts : List Draft), ∀ e ∈ entriesAll level ts, level ≤ e.level
  | _, [] => nofun
  | level, t :: ts => by
    rw [entriesAll, List.forall_mem_append]
    exact ⟨le_level level t, le_level_all level ts⟩

end

theorem subset_indent (unit : List Char) (level : Nat) : indent unit level ⊆ unit := by
  intro c hc
  obtain ⟨piece, hpiece, hc⟩ := List.mem_flatten.1 hc
  rwa [List.eq_of_mem_replicate hpiece] at hc

theorem length_indent (unit : List Char) (level : Nat) :
    (indent unit level).length = level * unit.length := by
  simp [indent]

theorem parseChars_written (hunit : ∀ c ∈ unit, Text.isBlank c)
    (he : e.data.Canonical defaultTag) (number : Nat) :
    Line.parseChars defaultTag.toList number (decide (0 < e.level)) (e.written unit) =
      .ok (some (e.line unit)) := by
  rw [Entry.written, he.parseChars_print fun c hc => hunit c (subset_indent unit _ hc),
    length_indent, Entry.line, Entry.written]
  rcases Nat.eq_zero_or_pos e.level with h0 | hpos
  · simp [h0]
  · simp [hpos, Nat.ne_of_gt hpos]

theorem not_allBlank_written (unit : List Char) (e : Entry) : ¬ Text.allBlank (e.written unit) := by
  rw [Text.allBlank, Entry.written, List.all_append, Bool.and_eq_true, not_and_or]
  exact .inr (Line.Shorthand.Canonical.not_allBlank_print e.data)

theorem not_mem_written (hunit : '\n' ∉ unit) (he : e.data.Canonical defaultTag) :
    '\n' ∉ e.written unit := by
  rw [Entry.written, List.mem_append, not_or]
  exact ⟨fun hmem => hunit (subset_indent unit _ hmem), he.not_mem_print⟩

theorem dropReturn_written (he : e.data.Canonical defaultTag) :
    Outline.dropReturn (e.written unit) = e.written unit := by
  refine Outline.dropReturn_of_getLast?_ne fun hlast => ?_
  have hne : e.data.print ≠ [] := by
    rintro hnil
    exact Line.Shorthand.Canonical.not_allBlank_print e.data (by rw [hnil]; rfl)
  rw [Entry.written, List.getLast?_append_of_ne_nil _ hne] at hlast
  exact he.not_isBlank_getLast?_print _ hlast (by decide)

theorem textLines_write (hunit : '\n' ∉ unit)
    (ht : ∀ e ∈ t.entries 0, e.data.Canonical defaultTag) :
    Outline.textLines (t.write unit) = (t.entries 0).map (·.written unit) := by
  have hne : (t.entries 0).map (·.written unit) ≠ [] := by
    cases t
    exact List.cons_ne_nil _ _
  have hbreak : ∀ line ∈ (t.entries 0).map (·.written unit), '\n' ∉ line :=
    List.forall_mem_map.2 fun e he => not_mem_written hunit (ht e he)
  rw [← Outline.linesOf_eq, Outline.linesOf, write, String.toList_ofList,
    Text.splitAtChar_eq_splitOn, List.splitOn_intercalate _ hbreak hne, List.map_map]
  exact List.map_congr_left fun e he => dropReturn_written (ht e he)

theorem accept_written (hunit : ∀ c ∈ unit, Text.isBlank c) (he : e.data.Canonical defaultTag)
    (hes : ∀ e ∈ es, e.data.Canonical defaultTag ∧ 0 < e.level) (number : Nat) :
    ∃ accepted, Outline.accept defaultTag.toList number (decide (0 < e.level))
      ((e :: es).map (·.written unit)) = (accepted, none) ∧
      accepted.map (·.line) = (e :: es).map (·.line unit) := by
  induction es generalizing e number with
  | nil =>
    refine ⟨[⟨number, e.line unit⟩], ?_, rfl⟩
    rw [List.map_singleton, Outline.accept, if_neg (not_allBlank_written unit e),
      parseChars_written hunit he]
    rfl
  | cons e' es ih =>
    obtain ⟨⟨he', hlevel⟩, hes⟩ := List.forall_mem_cons.1 hes
    obtain ⟨accepted, haccept, hlines⟩ := ih he' hes (number + 1)
    rw [decide_eq_true hlevel] at haccept
    refine ⟨⟨number, e.line unit⟩ :: accepted, ?_, congrArg (_ :: ·) hlines⟩
    rw [List.map_cons, Outline.accept, if_neg (not_allBlank_written unit e),
      parseChars_written hunit he]
    simp only [haccept]

end Draft

/-- Building undoes writing, as long as the document has at most two levels more than the limit. -/
theorem Outline.build_write {defaultTag : String} {unit : List Char} {limit : Nat} {t : Draft}
    (hne : unit ≠ []) (hunit : ∀ c ∈ unit, Text.isBlank c ∧ c ≠ '\n')
    (ht : ∀ e ∈ t.entries 0, e.data.Canonical defaultTag)
    (hlimit : (t.toTree unit 0).height ≤ limit + 2) :
    ∃ a, build defaultTag limit (t.write unit) = .ok a ∧
      a.document = some (t.toTree unit 0) := by
  have hblank : ∀ c ∈ unit, Text.isBlank c := fun c hc => (hunit c hc).1
  have hlines := Draft.textLines_write (fun hmem => (hunit _ hmem).2 rfl) ht
  obtain ⟨data, children⟩ := t
  obtain ⟨hdata, hchildren⟩ := List.forall_mem_cons.1 ht
  obtain ⟨accepted, haccept, hnodes⟩ := Draft.accept_written (e := ⟨0, data⟩) hblank hdata
    (fun e he => ⟨hchildren e he, Draft.le_level_all 1 children e he⟩) 1
  refine build_of_laidOut (Draft.laidOut_toTree hne 0 _)
    (hnodes.trans (Draft.preorder_toTree 0 ⟨data, children⟩).symm) ?_ hlimit
  rw [hlines]
  exact haccept

/-- Behind the third level comes a line on the first. -/
theorem Outline.build_write_page :
    ∃ a, build "div" 2 ("div.page--wide*1\n  ul.menu--big--open-*2\n    li.item*1 Two words\n" ++
        "      a*b.link*1\n  div.foot*3") = .ok a ∧
      a.document = some
        ⟨⟨"div.page--wide*1", 0, "div", .block "page", ["wide"], 1, none⟩,
          [⟨⟨"  ul.menu--big--open-*2", 2, "ul", .elem "menu", ["big", "open-"], 2, none⟩,
            [⟨⟨"    li.item*1 Two words", 4, "li", .elem "item", [], 1, some "Two words"⟩,
              [⟨⟨"      a*b.link*1", 6, "a*b", .elem "link", [], 1, none⟩, []⟩]⟩]⟩,
          ⟨⟨"  div.foot*3", 2, "div", .elem "foot", [], 3, none⟩, []⟩]⟩ := by
  let t : Draft :=
    ⟨⟨"div", "page", ["wide"], 1, none⟩,
      [⟨⟨"ul", "menu", ["big", "open-"], 2, none⟩,
        [⟨⟨"li", "item", [], 1, some "Two words"⟩,
          [⟨⟨"a*b", "link", [], 1, none⟩, []⟩]⟩]⟩,
      ⟨⟨"div", "foot", [], 3, none⟩, []⟩]⟩
  have hwrite : t.write [' ', ' '] = "div.page--wide*1\n  ul.menu--big--open-*2\n" ++
      "    li.item*1 Two words\n      a*b.link*1\n  div.foot*3" := by
    decide +kernel
  have hunit : ∀ c ∈ List.replicate 2 ' ', Text.isBlank c ∧ c ≠ '\n' := by
    intro c hc
    rw [List.eq_of_mem_replicate hc]
    decide
  have hentries : ∀ e ∈ t.entries 0, e.data.Canonical "div" := by decide +kernel
  have hbuild := build_write (List.cons_ne_nil ' ' [' ']) hunit hentries
    (show _ ≤ 2 + 2 by decide +kernel)
  rwa [hwrite] at hbuild

end BemOutline

import BemOutline.Outline
import BemOutline.Proofs.Outline.Nesting
import BemOutline.Proofs.Text.Pieces
import Mathlib.Data.List.Basic

/-! What an outline stands for, said without an arena under construction: which lines name nodes,
which line is the parent of which by depth alone, and which line is at fault. -/

namespace BemOutline.Outline

structure Accepted where
  number : Nat
  line : Line
deriving DecidableEq, Repr

/-- The lines that name nodes, up to the first line that cannot be read, and the fault of that
line. Before the first of them nothing has been `seen`. -/
def accept (defaultTag : List Char) :
    Nat → Bool → List (List Char) → List Accepted × Option OutlineError
  | _, _, [] => ([], none)
  | number, seen, line :: lines =>
    if Text.allBlank line then accept defaultTag (number + 1) seen lines
    else
      match Line.parseChars defaultTag number seen line with
      | .error e => ([], some e)
      | .ok none => accept defaultTag (number + 1) seen lines
      | .ok (some l) =>
        let (es, rejected) := accept defaultTag (number + 1) true lines
        (⟨number, l⟩ :: es, rejected)

def textLines (text : String) : List (List Char) :=
  (text.toList.splitOn '\n').map fun l => (l.dropSuffix? ['\r']).getD l

def acceptedLines (defaultTag text : String) : List Line :=
  (accept defaultTag.toList 1 false (textLines text)).1.map (·.line)

def depthIn (ls : List Line) (i : Nat) : Nat := (ls.map (·.depth)).getD i 0

/-- What is wrong with a line among those that name nodes. Only the second can stand beside the
root. A line that is less deep than the one before must find its parent within `limit + 1` links
above it, and within `limit` links when its depth is 0. -/
def faultAt (limit : Nat) (es : List Accepted) (j : Nat) : Option OutlineError :=
  let d := depthIn (es.map (·.line))
  match es[j]? with
  | none => none
  | some e =>
    if j = 1 ∧ e.line.depth = 0 then some (.multipleRoots e.number e.line.source)
    else if d j < d (j - 1) ∧
        ¬ Within d (if d j = 0 then limit else limit + 1) (j - 1) (parentIndex d j) then
      some (.nestingTooDeep limit)
    else none

/-- The node of a line: its children are the lines whose parent it is, in their order. -/
def nodeAt (ls : List Line) (i : Fin ls.length) : Arena.Node where
  data := ls[i]
  parent := if i.1 = 0 then none else some (parentIndex (depthIn ls) i)
  children := (List.range ls.length).filter fun j => j ≠ 0 ∧ parentIndex (depthIn ls) j = i

def arenaOf (ls : List Line) : Arena where
  nodes := Array.ofFn (nodeAt ls)
  root := if ls = [] then none else some 0

/-- The document of a text, or the fault of the first line at fault. -/
def reference (defaultTag : String) (limit : Nat) (text : String) : Except OutlineError Arena :=
  let (es, rejected) := accept defaultTag.toList 1 false (textLines text)
  match ((List.range es.length).findSome? (faultAt limit es)).or rejected with
  | some e => .error e
  | none => if es = [] then .error .emptyInput else .ok (arenaOf (es.map (·.line)))

theorem dropSuffix?_return_eq_some {line rest : List Char} :
    line.dropSuffix? ['\r'] = some rest ↔ line = rest ++ ['\r'] := by
  simp [List.dropSuffix?_eq_some_iff]

theorem dropReturn_eq (line : List Char) :
    dropReturn line = (line.dropSuffix? ['\r']).getD line := by
  cases hs : line.dropSuffix? ['\r'] with
  | some rest =>
    rw [dropSuffix?_return_eq_some.1 hs]
    simp [dropReturn]
  | none =>
    unfold dropReturn
    split
    · next hlast =>
      obtain ⟨rest, rfl⟩ := List.getLast?_eq_some_iff.1 hlast
      rw [dropSuffix?_return_eq_some.2 rfl] at hs
      cases hs
    · rfl

theorem dropReturn_of_getLast?_ne {line : List Char} (h : line.getLast? ≠ some '\r') :
    dropReturn line = line := by
  unfold dropReturn
  split
  · next hlast => exact absurd hlast h
  · rfl

theorem linesOf_eq (text : String) : linesOf text.toList = textLines text := by
  rw [linesOf, textLines, Text.splitAtChar_eq_splitOn]
  exact List.map_congr_left fun line _ => dropReturn_eq line

theorem exists_parseChars_of_accept {tag : List Char} {number : Nat} {seen : Bool}
    {lines : List (List Char)} {i : Nat} {e : Accepted}
    (h : (accept tag number seen lines).1[i]? = some e) :
    ∃ line, Line.parseChars tag e.number (seen || decide (0 < i)) line = .ok (some e.line) := by
  induction lines generalizing number seen i with
  | nil => simp [accept] at h
  | cons line lines ih =>
    rw [accept] at h
    by_cases hb : Text.allBlank line
    · rw [if_pos hb] at h
      exact ih h
    · rw [if_neg hb] at h
      cases hread : Line.parseChars tag number seen line with
      | error err => simp [hread] at h
      | ok read =>
        rw [hread] at h
        cases read with
        | none => exact ih h
        | some l =>
          cases i with
          | zero =>
            simp only [List.getElem?_cons_zero, Option.some.injEq] at h
            subst h
            exact ⟨line, by simpa using hread⟩
          | succ i =>
            obtain ⟨line', hread'⟩ := ih (by simpa using h)
            exact ⟨line', by simpa using hread'⟩

theorem exists_parseChars_of_accepted {defaultTag text : String} {i : Nat} {l : Line}
    (h : (acceptedLines defaultTag text)[i]? = some l) :
    ∃ number line,
      Line.parseChars defaultTag.toList number (decide (0 < i)) line = .ok (some l) := by
  rw [acceptedLines, List.getElem?_map, Option.map_eq_some_iff] at h
  obtain ⟨e, he, rfl⟩ := h
  obtain ⟨line, hline⟩ := exists_parseChars_of_accept he
  exact ⟨e.number, line, by simpa using hline⟩

theorem depthIn_append_left {ls : List Line} (ms : List Line) {i : Nat} (hi : i < ls.length) :
    depthIn (ls ++ ms) i = depthIn ls i := by
  simp [depthIn, List.getElem?_append_left, hi]

theorem depthIn_append_length (ls : List Line) (l : Line) (ms : List Line) :
    depthIn (ls ++ l :: ms) ls.length = l.depth := by
  simp [depthIn]

theorem depthIn_append_first {ls : List Line} {l : Line} (h0 : depthIn ls 0 = 0)
    (hl : ls = [] → l.depth = 0) : depthIn (ls ++ [l]) 0 = 0 := by
  cases ls with
  | nil => exact hl rfl
  | cons x ls => exact h0

theorem depthIn_eq {ls : List Line} {i : Nat} (hi : i < ls.length) :
    depthIn ls i = ls[i].depth := by
  simp [depthIn, hi]

theorem faultAt_append_length (limit : Nat) (es : List Accepted) (e : Accepted) :
    faultAt limit (es ++ [e]) es.length =
      let d := depthIn (es.map (·.line) ++ [e.line])
      if es.length = 1 ∧ d es.length = 0 then some (.multipleRoots e.number e.line.source)
      else if d es.length < d (es.length - 1) ∧
          ¬ Within d (if d es.length = 0 then limit else limit + 1) (es.length - 1)
            (parentIndex d es.length) then
        some (.nestingTooDeep limit)
      else none := by
  have hd : depthIn (es.map (·.line) ++ [e.line]) es.length = e.line.depth := by
    simpa using depthIn_append_length (es.map (·.line)) e.line []
  simp only [faultAt, List.getElem?_concat_length, List.map_append, List.map_cons, List.map_nil, hd]

theorem faultAt_append {limit : Nat} {es fs : List Accepted} {j : Nat} (hj : j < es.length) :
    faultAt limit (es ++ fs) j = faultAt limit es j := by
  have hd : ∀ i ≤ j, depthIn ((es ++ fs).map (·.line)) i = depthIn (es.map (·.line)) i := by
    intro i hi
    rw [List.map_append]
    exact depthIn_append_left _ (by simpa using Nat.lt_of_le_of_lt hi hj)
  simp only [faultAt, List.getElem?_append_left hj, hd j le_rfl, hd (j - 1) (by omega),
    parentIndex_congr hd, within_congr hd (show j - 1 ≤ j by omega)]

end BemOutline.Outline

import BemOutline.Arena.Basic
import BemOutline.Line.Parser

/-! Building a document from an outline. Each line is placed by its depth relative to the line
before. -/

namespace BemOutline

namespace Outline

def defaultTag : String := "div"

def defaultLimit : Nat := 256

def dropReturn (line : List Char) : List Char :=
  match line.getLast? with
  | some '\r' => line.dropLast
  | _ => line

def linesOf (text : List Char) : List (List Char) := (Text.splitAtChar '\n' text).map dropReturn

def climb (a : Arena) (depth limit : Nat) : Nat → NodeId → Except OutlineError NodeId
  | 0, _ => .error (.nestingTooDeep limit)
  | steps + 1, id =>
    match a.parentOf id with
    | none => .ok id
    | some p => if a.depthOf p < depth then .ok p else climb a depth limit steps p

/-- The node under which a line of a given depth belongs, sought upwards from a node: the first
parent that is less deep, or the node without a parent where the way ends. -/
def closestParent (a : Arena) (id : NodeId) (depth limit : Nat) : Except OutlineError NodeId :=
  climb a depth limit (limit + 1) id

/-- The parent of the next node, given the node placed last: deeper lines go below it, equally deep
ones beside it, the others to the closest ancestor that is less deep. -/
def parentFor (a : Arena) (last : NodeId) (limit number : Nat) (l : Line) :
    Except OutlineError NodeId :=
  if a.depthOf last < l.depth then .ok last
  else if l.depth = a.depthOf last then
    match a.parentOf last with
    | some p => .ok p
    | none => .error (.multipleRoots number l.source)
  else closestParent a last l.depth limit

structure Progress where
  arena : Arena
  last : Option NodeId

def place (defaultTag : List Char) (limit number : Nat) (p : Progress) (line : List Char) :
    Except OutlineError Progress :=
  if Text.allBlank line then .ok p
  else do
    let parsed ← Line.parseChars defaultTag number p.last.isSome line
    match parsed, p.last with
    | none, _ => .ok p
    | some l, none =>
      let (arena, id) := p.arena.insert l none
      .ok ⟨arena, some id⟩
    | some l, some last => do
      let parent ← parentFor p.arena last limit number l
      let (arena, id) := p.arena.insert l (some parent)
      .ok ⟨arena, some id⟩

def placeAll (defaultTag : List Char) (limit : Nat) :
    Nat → Progress → List (List Char) → Except OutlineError Progress
  | _, p, [] => .ok p
  | number, p, line :: lines => do
    let p ← place defaultTag limit number p line
    placeAll defaultTag limit (number + 1) p lines

def buildChars (defaultTag : List Char) (limit : Nat) (text : List Char) :
    Except OutlineError Arena := do
  let p ← placeAll defaultTag limit 1 ⟨Arena.empty, none⟩ (linesOf text)
  match p.arena.root with
  | none => .error .emptyInput
  | some _ => .ok p.arena

/-- The document of an outline. Its first line is the root; only a line beside the root is
refused. -/
def build (defaultTag : String) (limit : Nat) (text : String) : Except OutlineError Arena :=
  buildChars defaultTag.toList limit text.toList

end Outline

end BemOutline

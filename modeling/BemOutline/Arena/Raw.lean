import BemOutline.Arena.Basic
import BemOutline.Json.Basic
import BemOutline.OutlineError

/-! The document as a JSON value, with the bookkeeping of the outline under keys that start with an
underscore. -/

namespace BemOutline

namespace Line

def leafContent (l : Line) : Json :=
  match l.text with
  | some t => .str t
  | none => .arr []

def modifierMap (l : Line) : List (String × Json) := l.modifiers.map fun m => (m, .bool true)

def modifierField (l : Line) (key : String) : List (String × Json) :=
  if l.modifiers = [] then [] else [(key, .obj l.modifierMap)]

def namedFields (l : Line) (content : Json) : List (String × Json) :=
  match l.name with
  | .block s => [("block", .str s), ("content", content)] ++ l.modifierField "mods"
  | .elem s => [("content", content), ("elem", .str s)] ++ l.modifierField "elemMods"

def rawFields (l : Line) (content : Json) : List (String × Json) :=
  [("_depth", .int l.depth), ("_line", .str l.source), ("_number", .int l.count)] ++
    l.namedFields content ++ [("tag", .str l.tag)]

end Line

namespace Arena

/-- The value of a node when so many levels are left of the limit. Children replace the text. -/
def rawAt (a : Arena) (limit : Nat) : Nat → NodeId → Except OutlineError Json
  | 0, _ => .error (.nestingTooDeep limit)
  | levels + 1, id =>
    match a.node? id with
    | none => .ok .null
    | some n =>
      match n.children with
      | [] => .ok (.obj (n.data.rawFields n.data.leafContent))
      | c :: cs => do
        let items ← (c :: cs).mapM (a.rawAt limit levels)
        .ok (.obj (n.data.rawFields (.arr items)))

def toRaw (a : Arena) (limit : Nat) : Except OutlineError Json :=
  match a.root with
  | none => .ok .null
  | some r => a.rawAt limit (limit + 1) r

end Arena

end BemOutline

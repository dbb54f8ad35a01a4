import BemOutline.Bem.Node
import BemOutline.Text.Quoted

/-! Reading BEM nodes from JSON values. -/

namespace BemOutline.Bem

inductive DecodeError where
  | notObject
  | expectedText (found : Json)
  | expectedMap (found : Json)
  | badContent

def describe : Json → String
  | .null => "null"
  | .bool b => "boolean `" ++ (if b then "true" else "false") ++ "`"
  | .int n => "integer `" ++ String.ofList (Json.intChars n) ++ "`"
  | .float x => "floating point `" ++ Json.floatText x ++ "`"
  | .str s => "string " ++ Text.quoted s
  | .arr _ => "sequence"
  | .obj _ => "map"

def DecodeError.message : DecodeError → String
  | notObject => "top level must be an object"
  | expectedText v => "invalid type: " ++ describe v ++ ", expected a string"
  | expectedMap v => "invalid type: " ++ describe v ++ ", expected a map"
  | badContent => "data did not match any variant of untagged enum Content"

/-- A text under a key; null counts as missing. -/
def textAt (key : String) (fields : List (String × Json)) : Except DecodeError (Option String) :=
  match Json.field? key fields with
  | none => .ok none
  | some .null => .ok none
  | some (.str s) => .ok (some s)
  | some v => .error (.expectedText v)

/-- An object under a key; null does not count as missing. -/
def mapAt (key : String) (fields : List (String × Json)) :
    Except DecodeError (List (String × Json)) :=
  match Json.field? key fields with
  | none => .ok []
  | some (.obj fs) => .ok fs
  | some v => .error (.expectedMap v)

/-- A node from its fields and its content. The fields are looked at in the order of their keys, and
the first bad one is reported. -/
def Node.ofFields (fields : List (String × Json)) (content : Except DecodeError Content) :
    Except DecodeError Node := do
  let attrs ← mapAt "attrs" fields
  let block ← textAt "block" fields
  let cls ← textAt "cls" fields
  let content ← content
  let elem ← textAt "elem" fields
  let elemMods ← mapAt "elemMods" fields
  let mods ← mapAt "mods" fields
  let tag ← textAt "tag" fields
  .ok (.mk { block, elem, tag, mods, elemMods, cls, attrs } content)

/-- The keys of a node that is written as a list of its fields, the content last. -/
def headKeys : List String := ["block", "elem", "tag", "mods", "elemMods", "cls", "attrs"]

/-- What a value stands for inside of a node: as the whole content of the node, and as one item in a
list of them. An entry of a list may be needed as both, so that they are read together, and each
value once. -/
structure Reading where
  content : Except DecodeError Content
  item : Except DecodeError Item

namespace Reading

def text (s : String) : Reading := ⟨.ok (.text s), .ok (.text s)⟩

def node (n : Except DecodeError Node) : Reading :=
  match n with
  | .ok n => ⟨.ok (.node n), .ok (.node n)⟩
  | .error _ => ⟨.error .badContent, .error .badContent⟩

def items : List Reading → Except DecodeError (List Item)
  | [] => .ok []
  | r :: l => do
    let item ← r.item
    let rest ← items l
    .ok (item :: rest)

/-- The content of a node that is written as a list, behind so many other entries; nothing may
follow it. -/
def contentBehind : Nat → List Reading → Except DecodeError Content
  | _, [] => .ok .none
  | 0, [r] => r.content
  | 0, _ => .error .badContent
  | n + 1, _ :: l => contentBehind n l

/-- A list is a list of items, or else a node that is written as the list of its fields. As an item
it can only be the node. -/
def list (l : List Json) (entries : List Reading) : Reading :=
  let asNode := node (Node.ofFields (headKeys.zip l) (contentBehind headKeys.length entries))
  match items entries with
  | .ok items => { asNode with content := .ok (.items items) }
  | .error _ => asNode

mutual

def ofJson : Json → Reading
  | .null => ⟨.ok .none, .error .badContent⟩
  | .str s => text s
  | .arr l => list l (ofEntries l)
  | .obj fields => node (Node.ofFields fields (contentAmong fields))
  | .bool _ => ⟨.error .badContent, .error .badContent⟩
  | .int _ => ⟨.error .badContent, .error .badContent⟩
  | .float _ => ⟨.error .badContent, .error .badContent⟩

def ofEntries : List Json → List Reading
  | [] => []
  | v :: l => ofJson v :: ofEntries l

def contentAmong : List (String × Json) → Except DecodeError Content
  | [] => .ok .none
  | (k, v) :: rest => if k = "content" then (ofJson v).content else contentAmong rest

end

end Reading

/-- The node that a value stands for. At the top it has to be an object. -/
def Node.ofJson : Json → Except DecodeError Node
  | .obj fields => Node.ofFields fields (Reading.contentAmong fields)
  | _ => .error .notObject

end BemOutline.Bem

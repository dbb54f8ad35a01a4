import BemOutline.Bem.Node

/-! Writing BEM nodes as JSON. Fields that say nothing are left out. -/

namespace BemOutline.Bem

def textField (key : String) : Option String → List (String × Json)
  | none => []
  | some s => [(key, .str s)]

def mapField (key : String) : List (String × Json) → List (String × Json)
  | [] => []
  | f :: fs => [(key, .obj (f :: fs))]

def Head.toFields (h : Head) : List (String × Json) :=
  textField "block" h.block ++ textField "elem" h.elem ++ textField "tag" h.tag ++
    mapField "mods" h.mods ++ mapField "elemMods" h.elemMods ++ textField "cls" h.cls ++
    mapField "attrs" h.attrs

mutual

def Node.toJson : Node → Json
  | .mk h c => .obj (h.toFields ++ c.toFields)

def Content.toFields : Content → List (String × Json)
  | .none => []
  | .text s => [("content", .str s)]
  | .items l => [("content", .arr (itemsToJson l))]
  | .node n => [("content", n.toJson)]

def itemsToJson : List Item → List Json
  | [] => []
  | .text s :: l => .str s :: itemsToJson l
  | .node n :: l => n.toJson :: itemsToJson l

end

def Node.pretty (n : Node) : String := n.toJson.pretty

end BemOutline.Bem

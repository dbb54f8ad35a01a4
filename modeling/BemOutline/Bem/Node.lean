import BemOutline.Json.Printer

/-! BEM nodes: blocks, elements of blocks, and the content below them. -/

namespace BemOutline.Bem

/-- What a node says about itself. With an element name it is an element of its block, or of the
nearest block around it; with a block name alone it is a block. -/
structure Head where
  block : Option String := none
  elem : Option String := none
  tag : Option String := none
  mods : List (String × Json) := []
  elemMods : List (String × Json) := []
  cls : Option String := none
  attrs : List (String × Json) := []

mutual

inductive Node where
  | mk (head : Head) (content : Content)

/-- Content is missing, a text, a list, or a single node. -/
inductive Content where
  | none
  | text (s : String)
  | items (l : List Item)
  | node (n : Node)

inductive Item where
  | text (s : String)
  | node (n : Node)

end

namespace Node

def head : Node → Head
  | mk h _ => h

def content : Node → Content
  | mk _ c => c

end Node

def itemNodes : List Item → List Node
  | [] => []
  | .text _ :: l => itemNodes l
  | .node n :: l => n :: itemNodes l

def Node.children (n : Node) : List Node :=
  match n.content with
  | .none => []
  | .text _ => []
  | .items l => itemNodes l
  | .node m => [m]

def Head.block? (h : Head) (context : Option String) : Option String := h.block.or context

/-- What a modifier adds to a class name. A modifier that is on adds its name, one with a value
both; one that is off or has no simple value adds nothing. -/
def modifierSuffix? (name : String) (value : Json) : Option String :=
  match value with
  | .bool true => some name
  | .str s => if s = "" then none else some (name ++ "_" ++ s)
  | .int n => some (name ++ "_" ++ String.ofList (Json.intChars n))
  | .float x => some (name ++ "_" ++ Json.floatText x)
  | _ => none

def modifierSuffixes (mods : List (String × Json)) : List String :=
  mods.filterMap fun m => modifierSuffix? m.1 m.2

end BemOutline.Bem

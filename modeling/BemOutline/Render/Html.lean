import BemOutline.Bem.Node
import BemOutline.Render.Options
import BemOutline.Text.Blank

/-! BEM nodes as indented HTML. -/

namespace BemOutline.Render.Html

open Bem

def defaultTag : String := "div"

def voidTags : List String :=
  ["area", "base", "br", "col", "embed", "hr", "img", "input", "link", "meta", "source", "track",
   "wbr"]

def escapedTextChar (c : Char) : List Char :=
  if c = '&' then "&amp;".toList
  else if c = '<' then "&lt;".toList
  else if c = '>' then "&gt;".toList
  else [c]

def escapeText (cs : List Char) : List Char := cs.flatMap escapedTextChar

def escapedAttrChar (c : Char) : List Char :=
  if c = '"' then "&quot;".toList else escapedTextChar c

def escapeAttr (cs : List Char) : List Char := cs.flatMap escapedAttrChar

def entityClasses (o : Options) (h : Head) (block : Option String) : List String :=
  match block, h.elem with
  | some b, some e =>
    let entity := o.entityClass b (some e)
    entity :: (modifierSuffixes h.elemMods).map (o.modifierClass entity)
  | none, some e => [e]
  | some b, none =>
    -- a block around the node is no class of the node
    if h.block.isSome then b :: (modifierSuffixes h.mods).map (o.modifierClass b) else []
  | none, none => []

def extraClasses (h : Head) : List String :=
  match h.cls with
  | none => []
  | some s =>
    let t := Text.trim s.toList
    if t = [] then [] else [String.ofList t]

def classes (o : Options) (h : Head) (block : Option String) : List String :=
  entityClasses o h block ++ extraClasses h

/-- An attribute with a blank in front; one that is off or has no simple value is left out. -/
def attrChars (name : String) (value : Json) : List Char :=
  match value with
  | .bool true => ' ' :: name.toList
  | .str s => ' ' :: name.toList ++ "=\"".toList ++ escapeAttr s.toList ++ ['"']
  | .int n => ' ' :: name.toList ++ "=\"".toList ++ Json.intChars n ++ ['"']
  | .float x => ' ' :: name.toList ++ "=\"".toList ++ Json.floatChars x ++ ['"']
  | _ => []

def classAttribute (cs : List String) : List Char :=
  if cs = [] then [] else attrChars "class" (.str (" ".intercalate cs))

def attributes (o : Options) (h : Head) (block : Option String) : List Char :=
  classAttribute (classes o h block) ++ h.attrs.flatMap fun a => attrChars a.1 a.2

def tagOf (h : Head) : String := h.tag.getD defaultTag

def openTag (o : Options) (h : Head) (block : Option String) : List Char :=
  '<' :: (tagOf h).toList ++ attributes o h block ++ ['>']

def closeTag (h : Head) : List Char := '<' :: '/' :: (tagOf h).toList ++ ['>']

def inlineNode (o : Options) (h : Head) (block : Option String) (level : Nat) (text : List Char) :
    List (List Char) :=
  [o.pad level ++ openTag o h block ++ escapeText text ++ closeTag h]

def wrapLines (o : Options) (h : Head) (block : Option String) (level : Nat)
    (inner : List (List Char)) : List (List Char) :=
  (o.pad level ++ openTag o h block) :: inner ++ [o.pad level ++ closeTag h]

mutual

def nodeLines (o : Options) (context : Option String) (level : Nat) : Node → List (List Char)
  | .mk h c =>
    if tagOf h ∈ voidTags then [o.pad level ++ openTag o h (h.block? context)]
    else contentLines o h (h.block? context) level c

def contentLines (o : Options) (h : Head) (block : Option String) (level : Nat) :
    Content → List (List Char)
  | .none => inlineNode o h block level []
  | .text s => inlineNode o h block level s.toList
  | .items [] => inlineNode o h block level []
  | .items (i :: l) => wrapLines o h block level (itemLines o block (level + 1) (i :: l))
  | .node n => wrapLines o h block level (nodeLines o block (level + 1) n)

def itemLines (o : Options) (block : Option String) (level : Nat) : List Item → List (List Char)
  | [] => []
  | .text s :: l => (o.pad level ++ escapeText s.toList) :: itemLines o block level l
  | .node n :: l => nodeLines o block level n ++ itemLines o block level l

end

def render (o : Options) (n : Node) : String :=
  String.ofList ((nodeLines o none 0 n).flatMap fun l => l ++ ['\n'])

end BemOutline.Render.Html

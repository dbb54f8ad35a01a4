import BemOutline.Bem.Node
import BemOutline.Render.Options

/-! Stylesheets with one empty rule for each block, element and modifier of a tree. -/

namespace BemOutline.Render.Style

open Bem

structure ElemRule where
  name : String
  mods : List String
deriving DecidableEq, Repr

structure BlockRule where
  name : String
  mods : List String
  elems : List ElemRule
deriving DecidableEq, Repr

def pushNew (l : List String) (items : List String) : List String :=
  items.foldl (fun l s => if s ∈ l then l else l ++ [s]) l

def atElem (name : String) (f : ElemRule → ElemRule) : List ElemRule → List ElemRule
  | [] => [f ⟨name, []⟩]
  | e :: es => if e.name = name then f e :: es else e :: atElem name f es

def atBlock (name : String) (f : BlockRule → BlockRule) : List BlockRule → List BlockRule
  | [] => [f ⟨name, [], []⟩]
  | b :: bs => if b.name = name then f b :: bs else b :: atBlock name f bs

def addHead (h : Head) (rule : BlockRule) : BlockRule :=
  match h.elem with
  | some e =>
    let add := fun r : ElemRule => { r with mods := pushNew r.mods (modifierSuffixes h.elemMods) }
    { rule with elems := atElem e add rule.elems }
  | none =>
    if h.block.isSome then { rule with mods := pushNew rule.mods (modifierSuffixes h.mods) }
    else rule

/-- The rules with what one node adds to them; a node outside of all blocks adds nothing. -/
def addNode (h : Head) (block : Option String) (rules : List BlockRule) : List BlockRule :=
  match block with
  | none => rules
  | some b => atBlock b (addHead h) rules

mutual

/-- Gathers rules in the order in which their names first appear. -/
def collect (context : Option String) (rules : List BlockRule) : Node → List BlockRule
  | .mk h c => collectContent (h.block? context) (addNode h (h.block? context) rules) c

def collectContent (block : Option String) (rules : List BlockRule) : Content → List BlockRule
  | .none => rules
  | .text _ => rules
  | .items l => collectItems block rules l
  | .node n => collect block rules n

def collectItems (block : Option String) (rules : List BlockRule) : List Item → List BlockRule
  | [] => rules
  | .text _ :: l => collectItems block rules l
  | .node n :: l => collectItems block (collect block rules n) l

end

def rulesOf (n : Node) : List BlockRule := collect none [] n

def nestedRule (pad : List Char) (selector : List Char) : List Char :=
  pad ++ '&' :: selector ++ " \x7b\n".toList ++ pad ++ "\x7d\n".toList

def scssModifier (o : Options) (pad : List Char) (suffix : String) : List Char :=
  nestedRule pad (o.modSeparator ++ suffix).toList

def scssElem (o : Options) (e : ElemRule) : List Char :=
  o.pad 1 ++ '&' :: (o.elemSeparator ++ e.name).toList ++ " \x7b\n".toList ++
    e.mods.flatMap (scssModifier o (o.pad 2)) ++ o.pad 1 ++ "\x7d\n".toList

def scssBlock (o : Options) (r : BlockRule) : List Char :=
  '.' :: r.name.toList ++ " \x7b\n".toList ++ r.mods.flatMap (scssModifier o (o.pad 1)) ++
    r.elems.flatMap (scssElem o) ++ "\x7d\n".toList

def scssChars (o : Options) (rules : List BlockRule) : List Char :=
  ['\n'].intercalate (rules.map (scssBlock o))

def elemSelectors (o : Options) (block : String) (e : ElemRule) : List String :=
  let entity := o.entityClass block (some e.name)
  entity :: e.mods.map (o.modifierClass entity)

def blockSelectors (o : Options) (r : BlockRule) : List String :=
  r.name :: r.mods.map (o.modifierClass r.name) ++ r.elems.flatMap (elemSelectors o r.name)

def selectors (o : Options) (rules : List BlockRule) : List String :=
  rules.flatMap (blockSelectors o)

def cssRule (selector : String) : List Char := '.' :: selector.toList ++ " \x7b\n\x7d\n".toList

def cssChars (o : Options) (rules : List BlockRule) : List Char :=
  ['\n'].intercalate ((selectors o rules).map cssRule)

def renderScss (o : Options) (n : Node) : String := String.ofList (scssChars o (rulesOf n))

def renderCss (o : Options) (n : Node) : String := String.ofList (cssChars o (rulesOf n))

end BemOutline.Render.Style

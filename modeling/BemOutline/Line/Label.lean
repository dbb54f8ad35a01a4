import BemOutline.Line.Basic
import BemOutline.Text.Quoted

/-! The short form in which a node is shown in a diagram: `tag.name--mod*count "text"`. -/

namespace BemOutline.Line

def label (l : Line) : String :=
  let name :=
    match l.name with
    | .block s => l.tag ++ "." ++ s
    | .elem s => l.tag ++ ".__" ++ s
  let mods := String.join (l.modifiers.map ("--" ++ ·))
  let count := if 1 < l.count then "*" ++ toString l.count else ""
  let text :=
    match l.text with
    | some t => " " ++ Text.quoted t
    | none => ""
  name ++ mods ++ count ++ text

end BemOutline.Line

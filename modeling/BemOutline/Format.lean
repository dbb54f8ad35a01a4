import BemOutline.Text.Blank

/-! The formats a text can be in, their names, and the guess by the first character. -/

namespace BemOutline

inductive Format where
  | pseudocode
  | json
  | html
  | scss
  | css
deriving DecidableEq, Repr

namespace Format

def all : List Format := [pseudocode, json, html, scss, css]

def name : Format → String
  | pseudocode => "pseudocode"
  | json => "json"
  | html => "html"
  | scss => "scss"
  | css => "css"

def displayName (f : Format) : String := String.ofList (f.name.toList.map Char.toUpper)

def rank : Format → Nat
  | pseudocode => 0
  | json => 1
  | html => 2
  | scss => 3
  | css => 4

def defaultTarget? : Format → Option Format
  | pseudocode => some html
  | json => some html
  | html => some scss
  | scss => none
  | css => none

def canonicalName (s : String) : String :=
  String.ofList (Text.lowerAscii (Text.trim s.toList))

def ofName? (s : String) : Option Format :=
  if s = "pseudocode" ∨ s = "pseudo" then some pseudocode
  else if s = "json" ∨ s = "bemjson" then some json
  else if s = "html" then some html
  else if s = "scss" then some scss
  else if s = "css" then some css
  else none

/-- The format that the first character that is not blank speaks for; blank text has none. -/
def detectChars (cs : List Char) : Option Format :=
  match cs.dropWhile Text.isBlank with
  | [] => none
  | c :: _ => some (if c = '<' then html else if c = '\x7b' then json else pseudocode)

def detect (text : String) : Option Format := detectChars text.toList

end Format

end BemOutline

import BemOutline.Settings.Layer
import BemOutline.Settings.Path

/-! The layer of settings that environment variables stand for. -/

namespace BemOutline.Settings

abbrev Environment := List (String × String)

namespace Environment

def nameStart : List Char := "bemtools__".toList

/-- Two underscores in a name stand for the point of a path; they are looked for from the left. -/
def pointed : List Char → List Char
  | [] => []
  | [c] => [c]
  | c :: d :: cs =>
    if c = '_' ∧ d = '_' then '.' :: pointed cs else c :: pointed (d :: cs)

/-- A character of a name in lower case. Apart from the capital letters only the Kelvin sign has an
ASCII lower case; what the other characters become has no place in a path either. -/
def lowerNameChar (c : Char) : Char := if c = '\u212a' then 'k' else c.toLower

def pathOf? (name : String) : Option String :=
  let name := name.toList.map lowerNameChar
  if name.take nameStart.length = nameStart then
    some (String.ofList (pointed (name.drop nameStart.length)))
  else none

def value? (env : Environment) (path : String) : Option String :=
  (env.reverse.find? fun v => pathOf? v.1 = some path).map Prod.snd

/-- The only name that variables give within a table, whatever they say about it. -/
def onlyName? (env : Environment) (table : String) : Option String :=
  match env.filterMap fun v => (pathOf? v.1).bind (nameWithin? table) with
  | [] => none
  | name :: names => if names.all (· = name) then some name else none

def lower (s : String) : String := String.ofList (Text.lowerAscii s.toList)

def isYes (word : String) : Bool := word = "true" || word = "on" || word = "yes"

def isNo (word : String) : Bool := word = "false" || word = "off" || word = "no"

def maxNat : Nat := Nat.pow 2 64 - 1

def digitsNat? (s : String) : Option Nat :=
  let ds :=
    match s.toList with
    | [] => []
    | c :: cs => if c = '+' then cs else c :: cs
  if ds ≠ [] ∧ ds.all Text.isDigit ∧ Text.digitsValue ds ≤ maxNat then some (Text.digitsValue ds)
  else none

/-- A number, or a word of assent for one and of denial for zero. -/
def nat? (s : String) : Option Nat :=
  if isYes (lower s) then some 1 else if isNo (lower s) then some 0 else digitsNat? s

def bool? (s : String) : Option Bool :=
  if isYes (lower s) ∨ s = "1" then some true
  else if isNo (lower s) ∨ s = "0" then some false
  else none

def mode? (env : Environment) : Option Expansion.Mode :=
  match env.value? "expansion" with
  | some s => Layer.modeOfName? (lower s)
  | none => (env.onlyName? "expansion").bind Layer.modeOfName?

end Environment

/-- What the environment says; values that do not fit say nothing. -/
def Layer.ofEnvironment (env : Environment) : Layer :=
  { defaultTag := env.value? "default_tag"
    modSeparator := env.value? "mod_separator"
    elemSeparator := env.value? "elem_separator"
    indent := env.value? "indent"
    expansion := env.mode?
    loopLimit := (env.value? "loop_limit").bind Environment.nat?
    maxNodes := (env.value? "max_nodes").bind Environment.nat?
    maxDepth := (env.value? "max_depth").bind Environment.nat?
    showErrors := (env.value? "notifications.show_errors").bind Environment.bool?
    showInfo := (env.value? "notifications.show_info").bind Environment.bool? }

end BemOutline.Settings

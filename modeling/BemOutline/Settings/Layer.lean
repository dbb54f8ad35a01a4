import BemOutline.Settings.Basic
import BemOutline.Toml.Reader

/-! A layer of settings: what one source says about each of them, if anything. -/

namespace BemOutline

namespace Settings

structure Layer where
  defaultTag : Option String := none
  modSeparator : Option String := none
  elemSeparator : Option String := none
  indent : Option String := none
  expansion : Option Expansion.Mode := none
  loopLimit : Option Nat := none
  maxNodes : Option Nat := none
  maxDepth : Option Nat := none
  showErrors : Option Bool := none
  showInfo : Option Bool := none
deriving DecidableEq, Repr

/-- The settings with a layer on top: what the layer says counts, what it leaves open stays. -/
def overlay (s : Settings) (l : Layer) : Settings :=
  { defaultTag := l.defaultTag.getD s.defaultTag
    modSeparator := l.modSeparator.getD s.modSeparator
    elemSeparator := l.elemSeparator.getD s.elemSeparator
    indent := l.indent.getD s.indent
    expansion := l.expansion.getD s.expansion
    loopLimit := l.loopLimit.getD s.loopLimit
    maxNodes := l.maxNodes.or s.maxNodes
    maxDepth := l.maxDepth.getD s.maxDepth
    notifications :=
      { showErrors := l.showErrors.getD s.notifications.showErrors
        showInfo := l.showInfo.getD s.notifications.showInfo } }

namespace Layer

def text? : Toml → Option String
  | .str s => some s
  | _ => none

def bool? : Toml → Option Bool
  | .bool b => some b
  | _ => none

def nat? : Toml → Option Nat
  | .int n => if 0 ≤ n then some n.toNat else none
  | _ => none

def modeOfName? (name : String) : Option Expansion.Mode :=
  if name = Expansion.Mode.copy.name then some .copy
  else if name = Expansion.Mode.aliased.name then some .aliased
  else none

/-- A mode is named by a text, or by the only key of a table that holds nothing under it. -/
def mode? : Toml → Option Expansion.Mode
  | .str s => modeOfName? s
  | .table [(name, .table [])] => modeOfName? name
  | .table [(name, .arr [])] => modeOfName? name
  | _ => none

def field {α : Type} (fits? : Toml → Option α) (key : String) (fields : List (String × Toml)) :
    Option (Option α) :=
  match Toml.field? key fields with
  | none => some none
  | some v => (fits? v).map some

def item (i : Nat) (items : List Toml) : Option (Option Bool) :=
  match items[i]? with
  | none => some none
  | some v => (bool? v).map some

/-- The two flags of the notifications, for errors and for information: by name in a table, or by
position in a list. A date counts as a table that names neither. -/
def flags? : Toml → Option (Option Bool × Option Bool)
  | .table fields =>
    match field bool? "show_errors" fields, field bool? "show_info" fields with
    | some errors, some info => some (errors, info)
    | _, _ => none
  | .arr items =>
    match item 0 items, item 1 items with
    | some errors, some info => some (errors, info)
    | _, _ => none
  | .dateTime _ => some (none, none)
  | _ => none

def ofFields? (fields : List (String × Toml)) : Option Layer := do
  let defaultTag ← field text? "default_tag" fields
  let modSeparator ← field text? "mod_separator" fields
  let elemSeparator ← field text? "elem_separator" fields
  let indent ← field text? "indent" fields
  let expansion ← field mode? "expansion" fields
  let loopLimit ← field nat? "loop_limit" fields
  let maxNodes ← field nat? "max_nodes" fields
  let maxDepth ← field nat? "max_depth" fields
  let flags ← field flags? "notifications" fields
  let (showErrors, showInfo) := flags.getD (none, none)
  some
    { defaultTag, modSeparator, elemSeparator, indent, expansion, loopLimit, maxNodes, maxDepth,
      showErrors, showInfo }

def read? (text : String) : Option Layer := (Toml.read text).bind ofFields?

end Layer

end Settings

end BemOutline

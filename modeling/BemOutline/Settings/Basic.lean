import BemOutline.Expansion
import BemOutline.Outline
import BemOutline.Render.Options

/-! The settings of a run, and which of them are refused. -/

namespace BemOutline

/-- Which notices the user sees; warnings are always shown. -/
structure Notifications where
  showErrors : Bool := true
  showInfo : Bool := true
deriving DecidableEq, Repr

structure Settings where
  defaultTag : String := Outline.defaultTag
  modSeparator : String := "--"
  elemSeparator : String := "__"
  indent : String := "  "
  expansion : Expansion.Mode := .copy
  loopLimit : Nat := 2000
  maxNodes : Option Nat := none
  maxDepth : Nat := Outline.defaultLimit
  notifications : Notifications := {}
deriving DecidableEq, Repr

namespace Settings

inductive Invalid where
  | blankTag
  | emptySeparator
  | zeroDepth
deriving DecidableEq, Repr

def Invalid.message : Invalid → String
  | blankTag => "default_tag must not be empty"
  | emptySeparator => "separators must not be empty"
  | zeroDepth => "max_depth must be at least 1"

def validate (s : Settings) : Option Invalid :=
  if Text.allBlank s.defaultTag.toList then some .blankTag
  else if s.modSeparator = "" ∨ s.elemSeparator = "" then some .emptySeparator
  else if s.maxDepth = 0 then some .zeroDepth
  else none

def renderOptions (s : Settings) : Render.Options :=
  { modSeparator := s.modSeparator, elemSeparator := s.elemSeparator, indent := s.indent }

def expander (s : Settings) : Expansion.Expander :=
  { mode := s.expansion, stepLimit := s.loopLimit, nodeLimit := s.maxNodes }

end Settings

end BemOutline

import BemOutline.Settings.Load
import BemOutline.Toml.Quotation

/-! Writing settings as a TOML document, which reads back as a layer that says the same. -/

namespace BemOutline.Settings

def maxWritten : Nat := Nat.pow 2 63 - 1

def fitsDocument (s : Settings) : Bool :=
  s.loopLimit ≤ maxWritten && s.maxNodes.all (· ≤ maxWritten) && s.maxDepth ≤ maxWritten

def pairLine (key : String) (value : List Char) : List Char :=
  key.toList ++ [' ', '=', ' '] ++ value ++ ['\n']

def textLine (key : String) (s : String) : List Char := pairLine key (Toml.writeText s)

def natLine (key : String) (n : Nat) : List Char := pairLine key (Nat.toDigits 10 n)

def boolLine (key : String) (b : Bool) : List Char :=
  pairLine key (if b then "true" else "false").toList

/-- The fields in order; a number of nodes without a bound is left out. -/
def documentChars (s : Settings) : List Char :=
  textLine "default_tag" s.defaultTag ++ textLine "mod_separator" s.modSeparator ++
    textLine "elem_separator" s.elemSeparator ++ textLine "indent" s.indent ++
    textLine "expansion" s.expansion.name ++ natLine "loop_limit" s.loopLimit ++
    (match s.maxNodes with
      | none => []
      | some n => natLine "max_nodes" n) ++
    natLine "max_depth" s.maxDepth ++ "\n[notifications]\n".toList ++
    boolLine "show_errors" s.notifications.showErrors ++
    boolLine "show_info" s.notifications.showInfo

def document (s : Settings) : Except LoadError String :=
  if s.fitsDocument then .ok (String.ofList s.documentChars) else .error .tooLarge

end BemOutline.Settings

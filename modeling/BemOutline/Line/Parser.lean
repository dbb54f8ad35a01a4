import BemOutline.OutlineError
import BemOutline.Line.Basic
import BemOutline.Text.Digit

/-! Reading one line: blanks, then a token `tag.name--mod--mod*count`, then free text. -/

namespace BemOutline.Line

def isTokenChar (c : Char) : Bool :=
  c.isAlphanum || c = '*' || c = '.' || c = '-'

def splitAtDashes : List Char → List (List Char)
  | [] => [[]]
  | [c] => [[c]]
  | c :: d :: cs =>
    if c = '-' ∧ d = '-' then [] :: splitAtDashes cs
    else
      match splitAtDashes (d :: cs) with
      | [] => [[c]]
      | piece :: pieces => (c :: piece) :: pieces

def maxCount : Nat := Nat.pow 2 32 - 1

/-- A written count; one that is missing, no number, zero or too large stands for 1. -/
def countOf (cs : List Char) : Nat :=
  if cs ≠ [] ∧ cs.all Text.isDigit ∧ 1 ≤ Text.digitsValue cs ∧ Text.digitsValue cs ≤ maxCount then
    Text.digitsValue cs
  else 1

/-- The tag and the class part of a token; a token that starts with a point has none. -/
def tagAndClass? (defaultTag : List Char) (token : List Char) : Option (List Char × List Char) :=
  match Text.splitAtChar '.' token with
  | [] :: _ => none
  | first :: (c :: second) :: _ => some (first, c :: second)
  | first :: _ => some (defaultTag, first)
  | [] => none

def classParts (cs : List Char) : List Char × List (List Char) × Nat :=
  match Text.splitAtChar '*' cs with
  | [] => ([], [], 1)
  | left :: rest =>
    match splitAtDashes left with
    | [] => ([], [], 1)
    | name :: mods => (name, mods.filter (· ≠ []), countOf (rest.headD []))

/-- Reads one line. The first node of a document is its block and has depth 0; the others are
elements. A token without a name is no fault, and gives no node. -/
def parseChars (defaultTag : List Char) (number : Nat) (hasPrevious : Bool) (cs : List Char) :
    Except OutlineError (Option Line) :=
  let malformed := OutlineError.malformedLine number (String.ofList cs)
  let body := cs.dropWhile Text.isBlank
  let token := body.takeWhile isTokenChar
  let rest := body.dropWhile isTokenChar
  if token = [] ∨ '\n' ∈ rest then .error malformed
  else
    match tagAndClass? defaultTag token with
    | none => .error malformed
    | some (tag, cls) =>
      let (name, mods, count) := classParts cls
      let text := Text.trim rest
      if name = [] then .ok none
      else
        .ok (some
          { source := String.ofList cs
            depth := if hasPrevious then (cs.takeWhile Text.isBlank).length else 0
            tag := String.ofList tag
            name :=
              if hasPrevious then .elem (String.ofList name) else .block (String.ofList name)
            modifiers := modifiersOf (mods.map String.ofList)
            count := count
            text := if text = [] then none else some (String.ofList text) })

def parse (defaultTag : String) (number : Nat) (hasPrevious : Bool) (line : String) :
    Except OutlineError (Option Line) :=
  parseChars defaultTag.toList number hasPrevious line.toList

end BemOutline.Line

import BemOutline.Text.Blank
import BemOutline.Text.Digit

/-! Paths to settings: names with points between them, each one within the table that the names
before it lead to. Behind a name the positions in a list may stand, in square brackets. -/

namespace BemOutline.Settings

/-- A name on a path, and whether it stands there without positions. -/
structure PathStep where
  name : String
  isPlain : Bool
deriving DecidableEq, Repr

namespace PathStep

def isNameChar (c : Char) : Bool := c.isAlphanum || c = ' ' || c = '_' || c = '-'

def isSpace (c : Char) : Bool := c = ' ' || c = '\t'

/-- A whole number of sixty-four bits, with blanks around it; a minus may stand in front. -/
def isPosition (cs : List Char) : Bool :=
  let (isNegative, ds) :=
    match cs.dropWhile isSpace with
    | [] => (false, [])
    | c :: rest => if c = '-' then (true, rest) else (false, c :: rest)
  let digits := ds.takeWhile Text.isDigit
  let bound := if isNegative then Nat.pow 2 63 else Nat.pow 2 63 - 1
  digits ≠ [] && Text.digitsValue digits ≤ bound && (ds.dropWhile Text.isDigit).all isSpace

def isOpenedPosition : List Char → Bool
  | [] => false
  | c :: cs => c = '[' && isPosition cs

def arePositions (cs : List Char) : Bool :=
  let pieces := Text.splitAtChar ']' cs
  pieces.getLastD [] = [] && pieces.dropLast.all isOpenedPosition

def ofChars? (cs : List Char) : Option PathStep :=
  let name := cs.takeWhile isNameChar
  let rest := cs.dropWhile isNameChar
  if name ≠ [] ∧ arePositions rest then some ⟨String.ofList name, rest = []⟩ else none

end PathStep

def pathSteps? (path : String) : Option (List PathStep) :=
  (Text.splitAtChar '.' path.toList).mapM PathStep.ofChars?

def nameWithin? (table : String) (path : String) : Option String :=
  match pathSteps? path with
  | some (outer :: inner :: _) => if outer = ⟨table, true⟩ then some inner.name else none
  | _ => none

end BemOutline.Settings

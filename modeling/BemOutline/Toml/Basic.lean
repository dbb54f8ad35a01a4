/-! TOML values, and the characters of TOML text. -/

namespace BemOutline

inductive Toml where
  | str (s : String)
  | int (n : Int)
  | float (text : String)
  | dateTime (text : String)
  | bool (b : Bool)
  | arr (items : List Toml)
  | table (fields : List (String × Toml))
deriving Inhabited

namespace Toml

/-- Takes a value off the front of a text and gives the rest of it. -/
abbrev Reader (α : Type) := List Char → Option (α × List Char)

def isControl (c : Char) : Bool := c.toNat < 0x20 || c.toNat = 0x7F

def isLineChar (c : Char) : Bool := c = '\t' || !isControl c

def isSpace (c : Char) : Bool := c = ' ' || c = '\t'

def skipSpace (cs : List Char) : List Char := cs.dropWhile isSpace

def dropWord? : List Char → List Char → Option (List Char)
  | [], cs => some cs
  | _ :: _, [] => none
  | w :: ws, c :: cs => if c = w then dropWord? ws cs else none

def field? {α : Type} (key : String) : List (String × α) → Option α
  | [] => none
  | (k, v) :: rest => if k = key then some v else field? key rest

end Toml

end BemOutline

import BemOutline.Text.Digit
import BemOutline.Toml.Basic

/-! TOML dates and times: a date, a time of day, or both with or without an offset. -/

namespace BemOutline.Toml
open Text (isDigit digitsValue)

def readField (width low high : Nat) : Reader Nat := fun cs =>
  let ds := cs.take width
  if ds.length = width ∧ ds.all isDigit ∧ low ≤ digitsValue ds ∧ digitsValue ds ≤ high then
    some (digitsValue ds, cs.drop width)
  else none

def isLeapYear (year : Nat) : Bool := year % 4 = 0 && (year % 100 ≠ 0 || year % 400 = 0)

def daysIn (year month : Nat) : Nat :=
  if month = 2 then if isLeapYear year then 29 else 28
  else if month = 4 ∨ month = 6 ∨ month = 9 ∨ month = 11 then 30
  else 31

def dropDate? (cs : List Char) : Option (List Char) := do
  let (year, cs) ← readField 4 0 9999 cs
  let cs ← dropWord? ['-'] cs
  let (month, cs) ← readField 2 1 12 cs
  let cs ← dropWord? ['-'] cs
  let (_, cs) ← readField 2 1 (daysIn year month) cs
  some cs

def dropFraction : List Char → List Char
  | point :: c :: cs =>
    if point = '.' ∧ isDigit c then cs.dropWhile isDigit else point :: c :: cs
  | cs => cs

/-- The rest behind a time of day; a minute may have a leap second. -/
def dropTime? (cs : List Char) : Option (List Char) := do
  let (_, cs) ← readField 2 0 23 cs
  let cs ← dropWord? [':'] cs
  let (_, cs) ← readField 2 0 59 cs
  let cs ← dropWord? [':'] cs
  let (_, cs) ← readField 2 0 60 cs
  some (dropFraction cs)

def dropOffset? : List Char → Option (List Char)
  | [] => none
  | c :: cs =>
    if c = 'Z' ∨ c = 'z' then some cs
    else if c = '+' ∨ c = '-' then do
      let (_, cs) ← readField 2 0 23 cs
      let cs ← dropWord? [':'] cs
      let (_, cs) ← readField 2 0 59 cs
      some cs
    else none

def dropTimeOfDate : List Char → List Char
  | [] => []
  | c :: cs =>
    if c = 'T' ∨ c = 't' ∨ c = ' ' then
      match dropTime? cs with
      | none => c :: cs
      | some rest => (dropOffset? rest).getD rest
    else c :: cs

def readMoment : Reader Toml := fun cs =>
  match ((dropDate? cs).map dropTimeOfDate).or (dropTime? cs) with
  | none => none
  | some rest => some (.dateTime (String.ofList (cs.take (cs.length - rest.length))), rest)

end BemOutline.Toml

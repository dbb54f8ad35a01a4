import BemOutline.Text.Blank
import BemOutline.Text.Digit
import BemOutline.Toml.Basic

/-! TOML numbers. Integers have sixty-four bits, in four bases; between two digits a single
underscore may stand. -/

namespace BemOutline.Toml
open Text (isDigit hexValue? baseValue)

def readDigits (ok : Char → Bool) : Reader (List Char) := fun cs =>
  let run := cs.takeWhile fun c => ok c || c = '_'
  let pieces := Text.splitAtChar '_' run
  if pieces.all (· ≠ []) then some (pieces.flatten, cs.drop run.length) else none

def readWhole : Reader (List Char) := fun cs =>
  match readDigits isDigit cs with
  | none => none
  | some (ds, rest) => if ds.head? = some '0' ∧ 1 < ds.length then none else some (ds, rest)

def readSign : List Char → Option Bool × List Char
  | [] => (none, [])
  | c :: cs =>
    if c = '+' then (some false, cs) else if c = '-' then (some true, cs) else (none, c :: cs)

def readExponent : Reader Int := fun cs =>
  let (sign, cs) := readSign cs
  match readDigits isDigit cs with
  | none => none
  | some (ds, rest) =>
    let n : Int := baseValue 10 ds
    some (if sign = some true then -n else n, rest)

def floatCeiling : Nat := Nat.pow 2 1024 - Nat.pow 2 970

/-- Whether the number with these digits, times a power of ten, is rounded to infinity. One of at
most 308 places is not, one of more than 310 places is. -/
def overflows (digits : List Char) (exponent : Int) : Bool :=
  let ds := digits.dropWhile (· = '0')
  let places : Int := ds.length + exponent
  if ds = [] ∨ places ≤ 308 then false
  else if 310 < places then true
  else if 0 ≤ exponent then floatCeiling ≤ baseValue 10 ds * Nat.pow 10 exponent.toNat
  else floatCeiling * Nat.pow 10 (-exponent).toNat ≤ baseValue 10 ds

/-- What follows the whole digits of a number: a fraction, an exponent, or neither. The number is an
integer only in the last case. -/
inductive Tail where
  | none
  | float (fraction : List Char) (exponent : Int)

def readExponentTail (fraction : List Char) : Reader Tail
  | [] => some (.float fraction 0, [])
  | c :: cs =>
    if c = 'e' ∨ c = 'E' then (readExponent cs).map fun r => (.float fraction r.1, r.2)
    else some (.float fraction 0, c :: cs)

def readTail : Reader Tail
  | [] => some (.none, [])
  | c :: cs =>
    if c = '.' then
      match readDigits isDigit cs with
      | none => none
      | some (fraction, rest) => readExponentTail fraction rest
    else if c = 'e' ∨ c = 'E' then readExponentTail [] (c :: cs)
    else some (.none, c :: cs)

def minMagnitude : Nat := Nat.pow 2 63

def maxMagnitude : Nat := Nat.pow 2 63 - 1

def readDecimal (negative : Bool) (text : List Char → String) : Reader Toml := fun cs =>
  match readWhole cs with
  | none => none
  | some (ds, rest) =>
    match readTail rest with
    | none => none
    | some (.none, rest) =>
      let n := baseValue 10 ds
      if negative then if n ≤ minMagnitude then some (.int (-n), rest) else none
      else if n ≤ maxMagnitude then some (.int n, rest)
      else none
    | some (.float fraction exponent, rest) =>
      if negative = false ∧ overflows (ds ++ fraction) (exponent - fraction.length)
      then none
      else some (.float (text rest), rest)

def readRadix (base : Nat) : Reader Toml := fun cs =>
  match readDigits (fun c => (hexValue? c).any (· < base)) cs with
  | none => none
  | some (ds, rest) =>
    if baseValue base ds ≤ maxMagnitude then some (.int (baseValue base ds), rest) else none

def base? (c : Char) : Option Nat :=
  if c = 'x' then some 16 else if c = 'o' then some 8 else if c = 'b' then some 2 else none

def radix? : List Char → Option (Nat × List Char)
  | zero :: c :: rest => if zero = '0' then (base? c).map fun b => (b, rest) else none
  | _ => none

def readNumber : Reader Toml := fun cs =>
  let text (rest : List Char) := String.ofList (cs.take (cs.length - rest.length))
  let (sign, body) := readSign cs
  match (dropWord? ['i', 'n', 'f'] body).or (dropWord? ['n', 'a', 'n'] body) with
  | some rest => some (.float (text rest), rest)
  | none =>
    match if sign.isNone then radix? body else none with
    | some (base, digits) => readRadix base digits
    | none => readDecimal (sign = some true) text body

end BemOutline.Toml

import BemOutline.Json.Basic
import BemOutline.Decimal.Layout

/-! Writing JSON: on one line, or indented by two spaces. -/

namespace BemOutline.Json

def unitHex (n : Nat) : Char := Nat.digitChar (n % 16)

def escapedChar (c : Char) : List Char :=
  if c = '"' then ['\\', '"']
  else if c = '\\' then ['\\', '\\']
  else if c = '\x08' then ['\\', 'b']
  else if c = '\x0c' then ['\\', 'f']
  else if c = '\n' then ['\\', 'n']
  else if c = '\r' then ['\\', 'r']
  else if c = '\t' then ['\\', 't']
  else if c.toNat < 0x20 then ['\\', 'u', '0', '0', unitHex (c.toNat / 16), unitHex c.toNat]
  else [c]

def stringChars (cs : List Char) : List Char := '"' :: cs.flatMap escapedChar ++ ['"']

/-- Floats are positional from a hundred-thousandth up to sixteen digits, and keep a point. -/
def floatLayout : Decimal.Layout :=
  { plainFrom := -5, plainTo := 15, pointZero := true, expPlus := true }

def intChars (n : Int) : List Char :=
  if n < 0 then '-' :: Nat.toDigits 10 n.natAbs else Nat.toDigits 10 n.natAbs

def floatChars (x : Float) : List Char := floatLayout.renderChars x.toBits

def floatText (x : Float) : String := String.ofList (floatChars x)

def boolChars (b : Bool) : List Char :=
  if b then ['t', 'r', 'u', 'e'] else ['f', 'a', 'l', 's', 'e']

mutual

def compactOnto : Json → List Char → List Char
  | null, rest => 'n' :: 'u' :: 'l' :: 'l' :: rest
  | bool b, rest => boolChars b ++ rest
  | int n, rest => intChars n ++ rest
  | float x, rest => floatChars x ++ rest
  | str s, rest => stringChars s.toList ++ rest
  | arr items, rest => '[' :: compactItems items (']' :: rest)
  | obj fields, rest => '\x7b' :: compactFields fields ('\x7d' :: rest)

def compactItems : List Json → List Char → List Char
  | [], rest => rest
  | [v], rest => compactOnto v rest
  | v :: vs, rest => compactOnto v (',' :: compactItems vs rest)

def compactFields : List (String × Json) → List Char → List Char
  | [], rest => rest
  | [(k, v)], rest => stringChars k.toList ++ ':' :: compactOnto v rest
  | (k, v) :: fs, rest =>
    stringChars k.toList ++ ':' :: compactOnto v (',' :: compactFields fs rest)

end

def breakTo (level : Nat) : List Char := '\n' :: List.replicate (2 * level) ' '

mutual

/-- Puts a value over several lines in front of a text; `level` is the nesting of the place where it
stands. -/
def prettyOnto (level : Nat) : Json → List Char → List Char
  | null, rest => 'n' :: 'u' :: 'l' :: 'l' :: rest
  | bool b, rest => boolChars b ++ rest
  | int n, rest => intChars n ++ rest
  | float x, rest => floatChars x ++ rest
  | str s, rest => stringChars s.toList ++ rest
  | arr [], rest => '[' :: ']' :: rest
  | arr (v :: vs), rest =>
    '[' :: prettyItems (level + 1) (v :: vs) (breakTo level ++ ']' :: rest)
  | obj [], rest => '\x7b' :: '\x7d' :: rest
  | obj (f :: fs), rest =>
    '\x7b' :: prettyFields (level + 1) (f :: fs) (breakTo level ++ '\x7d' :: rest)

def prettyItems (level : Nat) : List Json → List Char → List Char
  | [], rest => rest
  | [v], rest => breakTo level ++ prettyOnto level v rest
  | v :: vs, rest => breakTo level ++ prettyOnto level v (',' :: prettyItems level vs rest)

def prettyFields (level : Nat) : List (String × Json) → List Char → List Char
  | [], rest => rest
  | [(k, v)], rest =>
    breakTo level ++ stringChars k.toList ++ ':' :: ' ' :: prettyOnto level v rest
  | (k, v) :: fs, rest =>
    breakTo level ++ stringChars k.toList ++
      ':' :: ' ' :: prettyOnto level v (',' :: prettyFields level fs rest)

end

def compact (v : Json) : String := String.ofList (compactOnto v [])

def pretty (v : Json) : String := String.ofList (prettyOnto 0 v [])

end BemOutline.Json

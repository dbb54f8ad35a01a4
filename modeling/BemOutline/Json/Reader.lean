import BemOutline.Json.Basic
import BemOutline.Text.Digit

/-! Reading JSON text, with faults that name the place where the text stops being JSON. -/

namespace BemOutline.Json
open Text (isDigit digitValue hexValue?)

inductive FaultKind where
  | eofValue
  | eofObject
  | eofList
  | eofString
  | expectedValue
  | expectedIdent
  | expectedColon
  | expectedFieldEnd
  | expectedItemEnd
  | keyNotString
  | trailingComma
  | trailingCharacters
  | invalidNumber
  | numberOutOfRange
  | invalidEscape
  | loneSurrogate
  | unfinishedEscape
  | controlCharacter
  | tooDeep
deriving DecidableEq, Repr

def FaultKind.message : FaultKind → String
  | eofValue => "EOF while parsing a value"
  | eofObject => "EOF while parsing an object"
  | eofList => "EOF while parsing a list"
  | eofString => "EOF while parsing a string"
  | expectedValue => "expected value"
  | expectedIdent => "expected ident"
  | expectedColon => "expected `:`"
  | expectedFieldEnd => "expected `,` or `\x7d`"
  | expectedItemEnd => "expected `,` or `]`"
  | keyNotString => "key must be a string"
  | trailingComma => "trailing comma"
  | trailingCharacters => "trailing characters"
  | invalidNumber => "invalid number"
  | numberOutOfRange => "number out of range"
  | invalidEscape => "invalid escape"
  | loneSurrogate => "lone leading surrogate in hex escape"
  | unfinishedEscape => "unexpected end of hex escape"
  | controlCharacter => "control character (\\u0000-\\u001F) found while parsing a string"
  | tooDeep => "recursion limit exceeded"

/-- A fault and the number of bytes of the text that lie behind it. -/
structure Fault where
  kind : FaultKind
  left : Nat
deriving DecidableEq, Repr

abbrev Reader (α : Type) := List Char → Except Fault (α × List Char)

def byteLength : List Char → Nat
  | [] => 0
  | c :: cs => c.utf8Size + byteLength cs

def faultBefore (kind : FaultKind) (rest : List Char) : Fault := ⟨kind, byteLength rest⟩

def faultAt (kind : FaultKind) (rest : List Char) : Fault := ⟨kind, byteLength rest - 1⟩

def isSpace (c : Char) : Bool := c = ' ' || c = '\n' || c = '\t' || c = '\r'

def skipSpace (cs : List Char) : List Char := cs.dropWhile isSpace

/-- Four hexadecimal digits. The four bytes in front count as taken even when they are no digits. -/
def readHex4 (cs : List Char) : Except Fault (Nat × List Char) :=
  if byteLength (cs.take 4) < 4 then .error ⟨.eofString, 0⟩
  else
    match cs with
    | a :: b :: c :: d :: rest =>
      match hexValue? a, hexValue? b, hexValue? c, hexValue? d with
      | some p, some q, some r, some s => .ok (((p * 16 + q) * 16 + r) * 16 + s, rest)
      | _, _, _, _ => .error ⟨.invalidEscape, byteLength cs - 4⟩
    | _ => .error ⟨.invalidEscape, byteLength cs - 4⟩

/-- The character of an escape behind its `u`: one unit of sixteen bits, or two that form a pair. -/
def readUnicodeEscape (cs : List Char) : Except Fault (Char × List Char) := do
  let (high, rest) ← readHex4 cs
  if 0xDC00 ≤ high ∧ high ≤ 0xDFFF then .error (faultBefore .loneSurrogate rest)
  else if high < 0xD800 ∨ 0xDBFF < high then .ok (Char.ofNat high, rest)
  else
    match rest with
    | [] => .error ⟨.eofString, 0⟩
    | '\\' :: rest =>
      match rest with
      | [] => .error ⟨.eofString, 0⟩
      | 'u' :: rest => do
        let (low, rest) ← readHex4 rest
        if low < 0xDC00 ∨ 0xDFFF < low then .error (faultBefore .loneSurrogate rest)
        else .ok (Char.ofNat ((high - 0xD800) * 0x400 + (low - 0xDC00) + 0x10000), rest)
      | _ :: _ => .error (faultAt .unfinishedEscape rest)
    | _ :: _ => .error (faultAt .unfinishedEscape rest)

def readEscape (cs : List Char) : Except Fault (Char × List Char) :=
  match cs with
  | [] => .error ⟨.eofString, 0⟩
  | c :: rest =>
    match c with
    | '"' => .ok ('"', rest)
    | '\\' => .ok ('\\', rest)
    | '/' => .ok ('/', rest)
    | 'b' => .ok ('\x08', rest)
    | 'f' => .ok ('\x0c', rest)
    | 'n' => .ok ('\n', rest)
    | 'r' => .ok ('\r', rest)
    | 't' => .ok ('\t', rest)
    | 'u' => readUnicodeEscape rest
    | _ => .error (faultAt .invalidEscape cs)

def readChars (bound : Nat) (cs : List Char) : Except Fault (List Char × List Char) :=
  match bound, cs with
  | _, [] => .error ⟨.eofString, 0⟩
  | 0, _ => .error ⟨.eofString, 0⟩
  | bound + 1, c :: rest =>
    if c = '"' then .ok ([], rest)
    else if c = '\\' then do
      let (e, rest) ← readEscape rest
      let (es, rest) ← readChars bound rest
      .ok (e :: es, rest)
    else if c.toNat < 0x20 then .error (faultBefore .controlCharacter rest)
    else do
      let (es, rest) ← readChars bound rest
      .ok (c :: es, rest)

def maxSignificand : Nat := Nat.pow 2 64 - 1

/-- Gathers digits while the number stays within a bound: the number, how many digits were taken,
and the rest, which starts with a digit only if that digit would have led beyond the bound. -/
def gatherDigits (bound : Nat) (n : Nat) (taken : Nat) : List Char → Nat × Nat × List Char
  | [] => (n, taken, [])
  | c :: rest =>
    if isDigit c && n * 10 + digitValue c ≤ bound then
      gatherDigits bound (n * 10 + digitValue c) (taken + 1) rest
    else (n, taken, c :: rest)

def pow10 (k : Nat) : Float := Float.ofScientific 1 false k

/-- The float `significand * 10 ^ exponent`, computed by one multiplication or by divisions, each of
them rounded; none when it is too large. A significand has at most sixty-four bits, so two divisions
by `10 ^ 308` leave zero. -/
def floatOfParts? (significand : Nat) (exponent : Int) : Option Float :=
  let f := Float.ofNat significand
  if significand = 0 then some f
  else if 308 < exponent then none
  else if 0 ≤ exponent then
    let g := f * pow10 exponent.toNat
    if g.isInf then none else some g
  else if -308 ≤ exponent then some (f / pow10 (-exponent).toNat)
  else if -616 ≤ exponent then some (f / pow10 308 / pow10 (-exponent - 308).toNat)
  else some 0

def signed (negative : Bool) (f : Float) : Float := if negative then -f else f

def finishFloat (negative : Bool) (significand : Nat) (exponent : Int) (rest : List Char) :
    Except Fault (Json × List Char) :=
  match floatOfParts? significand exponent with
  | some f => .ok (.float (signed negative f), rest)
  | none => .error (faultBefore .numberOutOfRange rest)

def maxExponent : Nat := Nat.pow 2 31 - 1

def readExponent (negative : Bool) (significand : Nat) (exponent : Int) (cs : List Char) :
    Except Fault (Json × List Char) :=
  let (negativeExp, cs) :=
    match cs with
    | '+' :: rest => (false, rest)
    | '-' :: rest => (true, rest)
    | _ => (false, cs)
  match cs with
  | [] => .error ⟨.eofValue, 0⟩
  | c :: rest =>
    if isDigit c then
      let (e, _, rest) := gatherDigits maxExponent (digitValue c) 0 rest
      -- a digit that is left over leads beyond every exponent that is told apart
      if rest.head?.any isDigit then
        if significand ≠ 0 ∧ negativeExp = false then
          .error (faultBefore .numberOutOfRange (rest.drop 1))
        else .ok (.float (signed negative 0), rest.dropWhile isDigit)
      else
        finishFloat negative significand (if negativeExp then exponent - e else exponent + e) rest
    else .error (faultAt .invalidNumber cs)

def readExponent? (negative : Bool) (significand : Nat) (exponent : Int) (cs : List Char) :
    Except Fault (Json × List Char) :=
  match cs with
  | 'e' :: rest => readExponent negative significand exponent rest
  | 'E' :: rest => readExponent negative significand exponent rest
  | _ => finishFloat negative significand exponent cs

def readFraction (negative : Bool) (significand : Nat) (exponent : Int) (cs : List Char) :
    Except Fault (Json × List Char) :=
  match cs with
  | [] => .error ⟨.eofValue, 0⟩
  | c :: _ =>
    if isDigit c then
      let (n, taken, rest) := gatherDigits maxSignificand significand 0 cs
      readExponent? negative n (exponent - taken) (rest.dropWhile isDigit)
    else .error (faultAt .invalidNumber cs)

/-- A number behind its sign, if it has one. Without point and exponent it is an integer as long as
it fits sixty-four bits, and minus zero is a float. -/
def readNumber (negative : Bool) (cs : List Char) : Except Fault (Json × List Char) :=
  match cs with
  | [] => .error ⟨.eofValue, 0⟩
  | c :: rest =>
    if c = '0' ∧ (rest.head?.any isDigit) then .error (faultAt .invalidNumber rest)
    else if isDigit c then
      let (n, _, rest) := gatherDigits maxSignificand (digitValue c) 0 rest
      let extra := (rest.takeWhile isDigit).length
      let rest := rest.drop extra
      match rest with
      | '.' :: rest => readFraction negative n extra rest
      | 'e' :: rest => readExponent negative n extra rest
      | 'E' :: rest => readExponent negative n extra rest
      | _ =>
        if extra ≠ 0 then finishFloat negative n extra rest
        else if negative = false then .ok (.int n, rest)
        else if n = 0 ∨ Nat.pow 2 63 < n then .ok (.float (-Float.ofNat n), rest)
        else .ok (.int (-n), rest)
    else .error (faultAt .invalidNumber cs)

def readWord (value : Json) : List Char → List Char → Except Fault (Json × List Char)
  | [], cs => .ok (value, cs)
  | _ :: _, [] => .error ⟨.eofValue, 0⟩
  | w :: ws, c :: cs =>
    if c = w then readWord value ws cs else .error (faultAt .expectedIdent (c :: cs))

/-- Where the next entry of a list or object starts, or the rest behind its closing bracket. Between
two entries stands a comma, which may not come last. -/
def entryStart (close : Char) (eof missing : FaultKind) (first : Bool) (cs : List Char) :
    Except Fault (Bool × List Char) :=
  match skipSpace cs with
  | [] => .error ⟨eof, 0⟩
  | c :: rest =>
    if c = close then .ok (false, rest)
    else if first then .ok (true, c :: rest)
    else if c = ',' then
      match skipSpace rest with
      | [] => .error ⟨.eofValue, 0⟩
      | d :: rest =>
        if d = close then .error (faultAt .trailingComma (d :: rest)) else .ok (true, d :: rest)
    else .error (faultAt missing (c :: rest))

def readItems (item : Reader Json) (bound : Nat) (first : Bool) (cs : List Char) :
    Except Fault (List Json × List Char) :=
  match bound with
  | 0 => .error ⟨.eofList, 0⟩
  | bound + 1 => do
    let (more, rest) ← entryStart ']' .eofList .expectedItemEnd first cs
    if more then
      let (value, rest) ← item rest
      let (values, rest) ← readItems item bound false rest
      .ok (value :: values, rest)
    else .ok ([], rest)

def readKey (size : Nat) (cs : List Char) : Except Fault (String × List Char) :=
  match cs with
  | '"' :: rest => do
    let (key, rest) ← readChars size rest
    match skipSpace rest with
    | [] => .error ⟨.eofObject, 0⟩
    | c :: rest =>
      if c = ':' then .ok (String.ofList key, rest) else .error (faultAt .expectedColon (c :: rest))
  | _ => .error (faultAt .keyNotString cs)

def readFields (item : Reader Json) (size bound : Nat) (first : Bool) (cs : List Char) :
    Except Fault (List (String × Json) × List Char) :=
  match bound with
  | 0 => .error ⟨.eofObject, 0⟩
  | bound + 1 => do
    let (more, rest) ← entryStart '\x7d' .eofObject .expectedFieldEnd first cs
    if more then
      let (key, rest) ← readKey size rest
      let (value, rest) ← item rest
      let (fields, rest) ← readFields item size bound false rest
      .ok ((key, value) :: fields, rest)
    else .ok ([], rest)

/-- One value off the front of a text of fewer than `size` characters, in which `depth` more
brackets may open. -/
def readValue (size : Nat) (depth : Nat) (cs : List Char) : Except Fault (Json × List Char) :=
  match skipSpace cs with
  | [] => .error ⟨.eofValue, 0⟩
  | c :: rest =>
    if c = 'n' then readWord .null ['u', 'l', 'l'] rest
    else if c = 't' then readWord (.bool true) ['r', 'u', 'e'] rest
    else if c = 'f' then readWord (.bool false) ['a', 'l', 's', 'e'] rest
    else if c = '-' then readNumber true rest
    else if isDigit c then readNumber false (c :: rest)
    else if c = '"' then do
      let (s, rest) ← readChars size rest
      .ok (.str (String.ofList s), rest)
    else if c = '[' then
      match depth with
      | 0 => .error (faultAt .tooDeep (c :: rest))
      | depth + 1 => do
        let (items, rest) ← readItems (readValue size depth) size true rest
        .ok (.arr items, rest)
    else if c = '\x7b' then
      match depth with
      | 0 => .error (faultAt .tooDeep (c :: rest))
      | depth + 1 => do
        let (fields, rest) ← readFields (readValue size depth) size size true rest
        .ok (mkObj fields, rest)
    else .error (faultAt .expectedValue (c :: rest))

def maxOpen : Nat := 127

def readChars? (cs : List Char) : Except Fault Json := do
  let (value, rest) ← readValue (cs.length + 1) maxOpen cs
  match skipSpace rest with
  | [] => .ok value
  | rest => .error (faultAt .trailingCharacters rest)

def position (bytes : Nat) (line column : Nat) : List Char → Nat × Nat
  | [] => (line, column)
  | c :: cs =>
    if bytes = 0 then (line, column)
    else if c = '\n' then position (bytes - 1) (line + 1) 0 cs
    else position (bytes - c.utf8Size) line (column + min bytes c.utf8Size) cs

structure SyntaxError where
  kind : FaultKind
  line : Nat
  column : Nat
deriving DecidableEq, Repr

def SyntaxError.message (e : SyntaxError) : String :=
  e.kind.message ++ " at line " ++ toString e.line ++ " column " ++ toString e.column

def read (text : String) : Except SyntaxError Json :=
  let cs := text.toList
  match readChars? cs with
  | .ok value => .ok value
  | .error fault =>
    let (line, column) := position (byteLength cs - fault.left) 1 0 cs
    .error ⟨fault.kind, line, column⟩

end BemOutline.Json

import BemOutline.Text.Digit
import BemOutline.Toml.Basic

/-! The four ways to quote a text in TOML: in quotes or in apostrophes, on one line or on several.
Between quotes a backslash starts an escape, between apostrophes all stands for itself. -/

namespace BemOutline.Toml

inductive Quotation where
  | basic
  | literal
  | multiBasic
  | multiLiteral
deriving DecidableEq, Repr

namespace Quotation

def mark : Quotation → Char
  | basic => '"'
  | literal => '\''
  | multiBasic => '"'
  | multiLiteral => '\''

def isMulti : Quotation → Bool
  | basic => false
  | literal => false
  | multiBasic => true
  | multiLiteral => true

def hasEscapes (q : Quotation) : Bool := q.mark = '"'

def delimiter (q : Quotation) : List Char := List.replicate (if q.isMulti then 3 else 1) q.mark

inductive Place where
  | text
  | escape
  | code (left : Nat) (value : Nat)
  /-- In the blanks that an escaped line break leaves out, before or behind its first break. -/
  | fold (broken : Bool)
deriving DecidableEq, Repr

def plainStep (q : Quotation) (c : Char) : Option (Option Char × Place) :=
  if c = '\\' ∧ q.hasEscapes then some (none, .escape)
  else if isLineChar c ∨ (c = '\n' ∧ q.isMulti) then some (some c, .text)
  else none

def escapeStep (q : Quotation) (c : Char) : Option (Option Char × Place) :=
  if c = '"' ∨ c = '\\' then some (some c, .text)
  else if c = 'b' then some (some '\x08', .text)
  else if c = 't' then some (some '\t', .text)
  else if c = 'n' then some (some '\n', .text)
  else if c = 'f' then some (some '\x0c', .text)
  else if c = 'r' then some (some '\r', .text)
  else if c = 'u' then some (none, .code 4 0)
  else if c = 'U' then some (none, .code 8 0)
  else if q.isMulti ∧ c = '\n' then some (none, .fold true)
  else if q.isMulti ∧ isSpace c then some (none, .fold false)
  else none

def codeStep (left value : Nat) (c : Char) : Option (Option Char × Place) :=
  match Text.hexValue? c with
  | none => none
  | some d =>
    let value := value * 16 + d
    if 1 < left then some (none, .code (left - 1) value)
    else if value.isValidChar then some (some (Char.ofNat value), .text)
    else none

def step (q : Quotation) : Place → Char → Option (Option Char × Place)
  | .text, c => q.plainStep c
  | .escape, c => q.escapeStep c
  | .code left value, c => codeStep left value c
  | .fold false, c =>
    if c = '\n' then some (none, .fold true)
    else if isSpace c then some (none, .fold false)
    else none
  | .fold true, c => if c = '\n' ∨ isSpace c then some (none, .fold true) else q.plainStep c

def Place.isOpen : Place → Bool
  | text => true
  | fold broken => broken
  | _ => false

/-- The rest behind the closing delimiter. Of more marks than it needs, up to two belong to the text
of a quotation on several lines. -/
def closing? (q : Quotation) (cs : List Char) : Option (List Char × List Char) :=
  match dropWord? q.delimiter cs with
  | none => none
  | some rest =>
    let more := if q.isMulti then (rest.take 2).takeWhile (· = q.mark) else []
    some (more, rest.drop more.length)

def readBody (q : Quotation) : Place → Reader (List Char)
  | _, [] => none
  | p, c :: cs =>
    match if p.isOpen then q.closing? (c :: cs) else none with
    | some closed => some closed
    | none =>
      match q.step p c with
      | none => none
      | some (out, p) => (readBody q p cs).map fun r => (out.toList ++ r.1, r.2)

def single? : List Char → Option Quotation
  | [] => none
  | c :: _ => if c = '"' then some basic else if c = '\'' then some literal else none

def any? (cs : List Char) : Option Quotation :=
  if cs.take 3 = multiBasic.delimiter then some multiBasic
  else if cs.take 3 = multiLiteral.delimiter then some multiLiteral
  else single? cs

def dropBreak (q : Quotation) : List Char → List Char
  | [] => []
  | c :: cs => if c = '\n' ∧ q.isMulti then cs else c :: cs

def read (q : Quotation) : Reader (List Char) := fun cs =>
  match dropWord? q.delimiter cs with
  | none => none
  | some body => q.readBody .text (q.dropBreak body)

def longestRun (mark : Char) : Nat → List Char → Nat
  | run, [] => run
  | run, c :: cs =>
    if c = mark then longestRun mark (run + 1) cs else max run (longestRun mark 0 cs)

/-- Whether a text can be written without the escape of a control character. A tab needs none. -/
def needsNoCode (cs : List Char) : Bool := cs.all fun c => c = '\n' || isLineChar c

/-- The quotation in which a text is written: the plainest one that needs no escapes, and one with
escapes if there is none. -/
def chosenFor (cs : List Char) : Quotation :=
  if needsNoCode cs ∧ '\n' ∉ cs ∧ '"' ∉ cs ∧ '\\' ∉ cs then basic
  else if needsNoCode cs ∧ '\n' ∉ cs ∧ '\'' ∉ cs then literal
  else if needsNoCode cs ∧ '\\' ∉ cs ∧ longestRun '"' 0 cs ≤ 2 then multiBasic
  else if needsNoCode cs ∧ longestRun '\'' 0 cs ≤ 2 then multiLiteral
  else if '\n' ∈ cs then multiBasic
  else basic

def upperHex (n : Nat) : Char := (Nat.digitChar (n % 16)).toUpper

def escapedChar (q : Quotation) (c : Char) : List Char :=
  if c = '\x08' then ['\\', 'b']
  else if c = '\t' then ['\\', 't']
  else if c = '\n' then if q.isMulti then ['\n'] else ['\\', 'n']
  else if c = '\x0c' then ['\\', 'f']
  else if c = '\r' then ['\\', 'r']
  else if c = '\\' then ['\\', '\\']
  else if isControl c then ['\\', 'u', '0', '0', upperHex (c.toNat / 16), upperHex c.toNat]
  else [c]

def maxRun (q : Quotation) : Nat := if q.isMulti then 2 else 0

def escapedBody (q : Quotation) : Nat → List Char → List Char
  | _, [] => []
  | run, c :: cs =>
    if c = '"' then
      if run < q.maxRun then '"' :: escapedBody q (run + 1) cs
      else '\\' :: '"' :: escapedBody q 0 cs
    else q.escapedChar c ++ escapedBody q 0 cs

/-- A text between its delimiters. On several lines the text starts on a line of its own. -/
def write (q : Quotation) (cs : List Char) : List Char :=
  q.delimiter ++ (if q.isMulti ∧ '\n' ∈ cs then ['\n'] else []) ++
    (if q.hasEscapes then q.escapedBody 0 cs else cs) ++ q.delimiter

end Quotation

def readText : Reader String := fun cs =>
  match Quotation.any? cs with
  | none => none
  | some q => (q.read cs).map fun r => (String.ofList r.1, r.2)

def writeText (s : String) : List Char :=
  (Quotation.chosenFor s.toList).write s.toList

end BemOutline.Toml

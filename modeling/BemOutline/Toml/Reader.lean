import BemOutline.Toml.Moment
import BemOutline.Toml.Number
import BemOutline.Toml.Quotation
import BemOutline.Toml.Section

/-! Reading a TOML document. -/

namespace BemOutline.Toml

def isBareChar (c : Char) : Bool := c.isAlphanum || c = '_' || c = '-'

def readName : Reader String := fun cs =>
  match Quotation.single? cs with
  | some q => (q.read cs).map fun r => (String.ofList r.1, r.2)
  | none =>
    let name := cs.takeWhile isBareChar
    if name = [] then none else some (String.ofList name, cs.drop name.length)

def maxDepth : Nat := 79

/-- The names of a key behind its first one, and the blanks behind the key. -/
def readNames : Nat → Reader (List String)
  | 0, _ => none
  | bound + 1, cs =>
    match dropWord? ['.'] (skipSpace cs) with
    | none => some ([], skipSpace cs)
    | some cs =>
      match readName (skipSpace cs) with
      | none => none
      | some (name, cs) => (readNames bound cs).map fun r => (name :: r.1, r.2)

def readKey : Reader Key := fun cs =>
  match readName (skipSpace cs) with
  | none => none
  | some (first, cs) =>
    (readNames maxDepth cs).map fun r =>
      (⟨(first :: r.1).dropLast, (first :: r.1).getLastD ""⟩, r.2)

def skipFill (inComment : Bool) : List Char → Option (List Char)
  | [] => some []
  | c :: cs =>
    if c = '\n' then skipFill false cs
    else if inComment then if isLineChar c then skipFill true cs else none
    else if isSpace c then skipFill false cs
    else if c = '#' then skipFill true cs
    else some (c :: cs)

def readItems (item : Reader Toml) : Nat → Reader (List Toml)
  | 0, _ => none
  | bound + 1, cs =>
    match skipFill false cs with
    | none => none
    | some cs =>
      match dropWord? [']'] cs with
      | some rest => some ([], rest)
      | none =>
        match item cs with
        | none => none
        | some (v, cs) =>
          match skipFill false cs with
          | none => none
          | some cs =>
            match dropWord? [','] cs with
            | some cs => (readItems item bound cs).map fun r => (v :: r.1, r.2)
            | none => (dropWord? [']'] cs).map fun rest => ([v], rest)

def readPair (item : Reader Toml) : Reader (Key × Toml) := fun cs =>
  match readKey cs with
  | none => none
  | some (key, cs) =>
    match dropWord? ['='] cs with
    | none => none
    | some cs => (item (skipSpace cs)).map fun r => ((key, r.1), skipSpace r.2)

def readPairs (item : Reader Toml) : Nat → Reader (List (Key × Toml))
  | 0, _ => none
  | bound + 1, cs =>
    match readPair item cs with
    | none => none
    | some (p, cs) =>
      match dropWord? [','] cs with
      | some cs => (readPairs item bound cs).map fun r => (p :: r.1, r.2)
      | none => (dropWord? ['\x7d'] cs).map fun rest => ([p], rest)

def readInlineTable (item : Reader Toml) (bound : Nat) : Reader Toml := fun cs =>
  match dropWord? ['\x7d'] (skipSpace cs) with
  | some rest => some (.table [], rest)
  | none =>
    match readPairs item bound cs with
    | none => none
    | some (pairs, rest) => (inlineTable pairs).map fun t => (t, rest)

def readBool : Reader Toml := fun cs =>
  match dropWord? ['t', 'r', 'u', 'e'] cs with
  | some rest => some (.bool true, rest)
  | none => (dropWord? ['f', 'a', 'l', 's', 'e'] cs).map fun rest => (.bool false, rest)

def readScalar : Reader Toml := fun cs =>
  match Quotation.single? cs with
  | some _ => (readText cs).map fun r => (.str r.1, r.2)
  | none => ((readMoment cs).or (readNumber cs)).or (readBool cs)

/-- A value in a text of fewer than `size` characters, in which `depth` more brackets may open. -/
def readValue (size : Nat) (depth : Nat) : Reader Toml := fun cs =>
  match depth, dropWord? ['['] cs, dropWord? ['\x7b'] cs with
  | _, none, none => readScalar cs
  | 0, _, _ => none
  | depth + 1, some inner, _ =>
    (readItems (readValue size depth) size inner).map fun r => (.arr r.1, r.2)
  | depth + 1, none, some inner => readInlineTable (readValue size depth) size inner

def dropLineEnd (cs : List Char) : Option (List Char) :=
  match skipSpace cs with
  | [] => some []
  | c :: cs =>
    if c = '\n' then some cs
    else if c = '#' then
      match cs.dropWhile isLineChar with
      | [] => some []
      | d :: cs => if d = '\n' then some cs else none
    else none

def readHeader (closing : List Char) : Reader Key := fun cs =>
  match readKey cs with
  | none => none
  | some (key, cs) => (dropWord? closing cs).map fun rest => (key, rest)

def readStatement (size : Nat) : Reader Statement := fun cs =>
  match dropWord? ['[', '['] cs, dropWord? ['['] cs with
  | some inner, _ => (readHeader [']', ']'] inner).map fun r => (.itemHeader r.1, r.2)
  | none, some inner => (readHeader [']'] inner).map fun r => (.header r.1, r.2)
  | none, none => (readPair (readValue size maxDepth) cs).map fun r => (.pair r.1.1 r.1.2, r.2)

def readStatements (size : Nat) : Nat → List Char → Option (List Statement)
  | 0, _ => none
  | bound + 1, cs =>
    match skipFill false cs with
    | none => none
    | some [] => some []
    | some (c :: cs) =>
      match readStatement size (c :: cs) with
      | none => none
      | some (s, rest) =>
        match dropLineEnd rest with
        | none => none
        | some rest => (readStatements size bound rest).map (s :: ·)

def unifyBreaks : List Char → List Char
  | [] => []
  | [c] => [c]
  | c :: d :: cs =>
    if c = '\r' ∧ d = '\n' then unifyBreaks (d :: cs) else c :: unifyBreaks (d :: cs)

def dropMark : List Char → List Char
  | [] => []
  | c :: cs => if c = '\uFEFF' then cs else c :: cs

def readChars (cs : List Char) : Option (List (String × Toml)) :=
  let cs := unifyBreaks (dropMark cs)
  match readStatements (cs.length + 1) (cs.length + 1) cs with
  | none => none
  | some statements => assemble statements

def read (text : String) : Option (List (String × Toml)) := readChars text.toList

end BemOutline.Toml

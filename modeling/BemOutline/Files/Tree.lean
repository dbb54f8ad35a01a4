import BemOutline.Files.Basic
import BemOutline.Text.Blank

/-! A tree of files held in memory, and what is found under a path in it. -/

namespace BemOutline.Files

abbrev Location := List String

/-- The files of a tree; of two at one location the first one counts. The top is a directory. -/
structure Tree where
  entries : List (Location × File) := []

namespace Tree

def lookup : Location → List (Location × File) → Option File
  | _, [] => none
  | l, (k, f) :: rest => if k = l then some f else lookup l rest

def at? (t : Tree) (l : Location) : Option File :=
  if l = [] then some .directory else lookup l t.entries

def put (t : Tree) (l : Location) (f : File) : Tree := ⟨(l, f) :: t.entries⟩

def ensureDirs (t : Tree) (l : Location) : List String → Tree
  | [] => t
  | name :: rest =>
    let d := l ++ [name]
    ensureDirs (if (t.at? d).isSome then t else t.put d .directory) d rest

def insert (t : Tree) (l : Location) (f : File) : Tree := (t.ensureDirs [] l.dropLast).put l f

def partsOf (path : String) : List String :=
  (Text.splitAtChar '/' path.toList).map String.ofList

/-- Follows the parts of a path. Only a directory leads on, an empty part and a single point to
itself, two points to the directory above. -/
def follow (t : Tree) : Location → List String → Option Location
  | l, [] => some l
  | l, part :: parts =>
    if t.at? l = some .directory then
      let next :=
        if part = "" ∨ part = "." then l else if part = ".." then l.dropLast else l ++ [part]
      follow t next parts
    else none

def maxPathSize : Nat := 4095

def maxNameSize : Nat := 255

def isPath (path : String) : Bool :=
  path ≠ "" && path.utf8ByteSize ≤ maxPathSize && !path.toList.contains '\x00' &&
    (partsOf path).all fun part => part.utf8ByteSize ≤ maxNameSize

def locate (t : Tree) (dir : Location) (path : String) : Option Location :=
  if isPath path then
    t.follow (if path.toList.head? = some '/' then [] else dir) (partsOf path)
  else none

def find? (t : Tree) (dir : Location) (path : String) : Option File :=
  (t.locate dir path).bind t.at?

/-- Whether a file can be written at a path: its directory is there, and it is none itself. -/
def accepts (t : Tree) (dir : Location) (path : String) : Bool :=
  match t.locate dir path with
  | none => false
  | some l => t.at? l ≠ some .directory

end Tree

end BemOutline.Files

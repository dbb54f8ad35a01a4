import BemOutline.Arena.Tree
import BemOutline.Line.Label

/-! The document drawn with lines, one node a line. -/

namespace BemOutline

namespace Tree

/-- The lines of trees that are siblings, behind the marks that their ancestors need. -/
def branchLines (lead : String) : List Tree → List String
  | [] => []
  | ⟨data, children⟩ :: ts =>
    let (mark, lead') := if ts.isEmpty then ("└── ", lead ++ "    ") else ("├── ", lead ++ "│   ")
    (lead ++ mark ++ data.label) :: (branchLines lead' children ++ branchLines lead ts)

def diagramLines (t : Tree) : List String := t.data.label :: branchLines "" t.children

end Tree

def endLines (ls : List String) : String := String.join (ls.map (· ++ "\n"))

def Arena.diagram (a : Arena) : String :=
  match a.document with
  | some t => endLines t.diagramLines
  | none => "Empty tree\n"

end BemOutline

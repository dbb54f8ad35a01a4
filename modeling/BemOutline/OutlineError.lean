import BemOutline.Text.Quoted

/-! What can be wrong with an outline. -/

namespace BemOutline

inductive OutlineError where
  | emptyInput
  | malformedLine (number : Nat) (line : String)
  /-- A line that stands beside the root. -/
  | multipleRoots (number : Nat) (line : String)
  | nestingTooDeep (limit : Nat)
deriving DecidableEq, Repr

def OutlineError.message : OutlineError → String
  | emptyInput => "Please select some lines"
  | malformedLine number line =>
    "cannot parse line " ++ toString number ++ ": " ++ Text.quoted line
  | multipleRoots number line =>
    "line " ++ toString number ++ " starts a second root node: " ++ Text.quoted line
  | nestingTooDeep limit => "tree nesting exceeds limit of " ++ toString limit

end BemOutline

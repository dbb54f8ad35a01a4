/-! What one line of an outline says about its node. -/

namespace BemOutline

/-- The name of a node: the root is a block, all nodes below it are elements. -/
inductive Name where
  | block (text : String)
  | elem (text : String)
deriving DecidableEq, Repr

namespace Name

def text : Name → String
  | block s => s
  | elem s => s

def isBlock : Name → Bool
  | block _ => true
  | elem _ => false

end Name

def insertModifier (m : String) : List String → List String
  | [] => [m]
  | x :: xs =>
    if m < x then m :: x :: xs
    else if m = x then x :: xs
    else x :: insertModifier m xs

def modifiersOf (ms : List String) : List String := ms.foldr insertModifier []

structure Line where
  source : String
  depth : Nat
  tag : String
  name : Name
  modifiers : List String
  /-- How many siblings the line stands for. -/
  count : Nat
  text : Option String
deriving DecidableEq, Repr

end BemOutline

/-! JSON values. The fields of an object are kept in ascending order of their keys, each key
once. -/

namespace BemOutline

inductive Json where
  | null
  | bool (b : Bool)
  | int (n : Int)
  | float (x : Float)
  | str (s : String)
  | arr (items : List Json)
  | obj (fields : List (String × Json))
deriving Inhabited

namespace Json

def insertField {α : Type} (key : String) (value : α) : List (String × α) → List (String × α)
  | [] => [(key, value)]
  | (k, v) :: rest =>
    if key < k then (key, value) :: (k, v) :: rest
    else if key = k then (k, value) :: rest
    else (k, v) :: insertField key value rest

/-- The fields in key order; of two values under one key the later one stays. -/
def fieldsOf {α : Type} (fields : List (String × α)) : List (String × α) :=
  fields.foldl (fun acc f => insertField f.1 f.2 acc) []

def field? (key : String) : List (String × Json) → Option Json
  | [] => none
  | (k, v) :: rest => if k = key then some v else field? key rest

def eraseField (key : String) (fields : List (String × Json)) : List (String × Json) :=
  fields.filter fun f => f.1 ≠ key

def mkObj (fields : List (String × Json)) : Json := obj (fieldsOf fields)

end Json

end BemOutline

import BemOutline.Json.Basic
import BemOutline.OutlineError

/-! Cleaning a raw value: bookkeeping goes, and the modifiers of an element move to where they
belong. -/

namespace BemOutline.Bem

def isInternal (key : String) : Bool := key.toList.head? = some '_'

def namesElement : Json → Bool
  | .null => false
  | .bool b => b
  | .str s => s ≠ ""
  | _ => true

/-- An element that has `mods` and no `elemMods` gets the former as the latter. -/
def moveModifiers (fields : List (String × Json)) : List (String × Json) :=
  match Json.field? "elem" fields, Json.field? "elemMods" fields, Json.field? "mods" fields with
  | some e, none, some mods =>
    if namesElement e then Json.insertField "elemMods" mods (Json.eraseField "mods" fields)
    else fields
  | _, _, _ => fields

mutual

/-- The cleaned value at a level of nested objects; lists are no level of their own. -/
def cleanAt (limit level : Nat) : Json → Except OutlineError Json
  | .arr items => do
    let items ← cleanItems limit level items
    .ok (.arr items)
  | .obj fields =>
    if limit ≤ level then .error (.nestingTooDeep limit)
    else do
      let fields ← cleanFields limit (level + 1) fields
      .ok (.obj (moveModifiers fields))
  | .null => .ok .null
  | .bool b => .ok (.bool b)
  | .int n => .ok (.int n)
  | .float x => .ok (.float x)
  | .str s => .ok (.str s)

def cleanItems (limit level : Nat) : List Json → Except OutlineError (List Json)
  | [] => .ok []
  | v :: vs => do
    let v ← cleanAt limit level v
    let vs ← cleanItems limit level vs
    .ok (v :: vs)

/-- The fields that stay, each cleaned. What is dropped is not looked into. -/
def cleanFields (limit level : Nat) :
    List (String × Json) → Except OutlineError (List (String × Json))
  | [] => .ok []
  | (k, v) :: fs =>
    if isInternal k then cleanFields limit level fs
    else do
      let v ← cleanAt limit level v
      let fs ← cleanFields limit level fs
      .ok ((k, v) :: fs)

end

def clean (limit : Nat) (v : Json) : Except OutlineError Json := cleanAt limit 0 v

end BemOutline.Bem

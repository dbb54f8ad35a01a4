import BemOutline.Toml.Basic

/-! Putting the statements of a TOML document together. A table can be opened by a header, passed by
a longer header, or made by a dotted key, and that decides what may still be added to it. -/

namespace BemOutline.Toml

/-- A dotted key: the tables it leads through, and the name in the last of them. -/
structure Key where
  path : List String
  name : String
deriving DecidableEq, Repr

inductive Origin where
  | opened
  | passed
  | dotted
deriving DecidableEq, Repr

inductive Entry where
  | value (v : Toml)
  | table (origin : Origin) (fields : List (String × Entry))
  | tables (items : List (List (String × Entry)))

abbrev Section := List (String × Entry)

namespace Section

def set (name : String) (e : Entry) : Section → Section
  | [] => [(name, e)]
  | (k, old) :: rest => if k = name then (k, e) :: rest else (k, old) :: set name e rest

/-- Whether a path of a given kind may lead into a table; `atEnd` when it ends there. A header
passes any table. A dotted key passes none that was opened, and ends only in one that such a key
made. -/
def admits (walk : Origin) (atEnd : Bool) (target : Origin) : Bool :=
  match walk with
  | .dotted => target = .dotted || (target = .passed && !atEnd)
  | _ => true

/-- Changes the section that a path leads to. Tables that are missing on the way are made. -/
def alter (walk : Origin) (f : Section → Option Section) : List String → Section → Option Section
  | [], s => f s
  | k :: ks, s =>
    match field? k s with
    | none => (alter walk f ks []).map fun inner => s.set k (.table walk inner)
    | some (.value _) => none
    | some (.table origin inner) =>
      if admits walk ks.isEmpty origin then
        (alter walk f ks inner).map fun inner => s.set k (.table origin inner)
      else none
    | some (.tables items) =>
      if admits walk ks.isEmpty .passed then
        (alter walk f ks (items.getLastD [])).map fun inner =>
          s.set k (.tables (items.dropLast ++ [inner]))
      else none

def addNew (name : String) (e : Entry) (s : Section) : Option Section :=
  match field? name s with
  | none => some (s.set name e)
  | some _ => none

def addPair (key : Key) (v : Toml) (s : Section) : Option Section :=
  alter .dotted (addNew key.name (.value v)) key.path s

/-- Opens the table of a header, which no statement may have made before. -/
def openTable (name : String) (s : Section) : Option Section :=
  match field? name s with
  | none => some (s.set name (.table .opened []))
  | some (.table .passed inner) => some (s.set name (.table .opened inner))
  | some _ => none

def openItem (name : String) (s : Section) : Option Section :=
  match field? name s with
  | none => some (s.set name (.tables [[]]))
  | some (.tables items) => some (s.set name (.tables (items ++ [[]])))
  | some _ => none

end Section

mutual

def Entry.toToml : Entry → Toml
  | .value v => v
  | .table _ fields => .table (fieldsToToml fields)
  | .tables items => .arr (itemsToToml items)

def fieldsToToml : List (String × Entry) → List (String × Toml)
  | [] => []
  | (k, e) :: rest => (k, e.toToml) :: fieldsToToml rest

def itemsToToml : List (List (String × Entry)) → List Toml
  | [] => []
  | fields :: rest => .table (fieldsToToml fields) :: itemsToToml rest

end

def inlineTable (pairs : List (Key × Toml)) : Option Toml :=
  (pairs.foldlM (fun s p => Section.addPair p.1 p.2 s) []).map fun s => .table (fieldsToToml s)

inductive Statement where
  | pair (key : Key) (value : Toml)
  | header (key : Key)
  | itemHeader (key : Key)

/-- A document being put together: its sections so far, and the path of the last header. -/
structure Draft where
  root : Section := []
  current : List String := []

def Draft.add (d : Draft) : Statement → Option Draft
  | .pair key v =>
    (Section.alter .passed (Section.addPair key v) d.current d.root).map fun s =>
      { d with root := s }
  | .header key =>
    (Section.alter .passed (Section.openTable key.name) key.path d.root).map fun s =>
      ⟨s, key.path ++ [key.name]⟩
  | .itemHeader key =>
    (Section.alter .passed (Section.openItem key.name) key.path d.root).map fun s =>
      ⟨s, key.path ++ [key.name]⟩

def assemble (statements : List Statement) : Option (List (String × Toml)) :=
  (statements.foldlM Draft.add {}).map fun d => fieldsToToml d.root

end BemOutline.Toml

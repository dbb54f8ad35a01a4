import BemOutline.Format

/-! The conversions that are on offer: a converter for each registered pair of formats. -/

namespace BemOutline.Conversion

structure Table (γ : Type) where
  get? : Format → Format → Option γ

inductive TableError where
  | duplicate (source target : Format)
  | missingDefault (source target : Format)
  | outputOnly (source : Format)
deriving DecidableEq, Repr

def TableError.message (e : TableError) : String :=
  "invalid converter table: " ++
    match e with
    | duplicate s t => s.name ++ " -> " ++ t.name ++ " registered twice"
    | missingDefault s t => s.name ++ " has converters but none for its default " ++ t.name
    | outputOnly s => s.name ++ " is an output-only format"

namespace Table

variable {γ : Type}

def empty : Table γ := ⟨fun _ _ => none⟩

/-- The table with a converter for a pair, whatever it held for that pair. -/
def insert (t : Table γ) (source target : Format) (c : γ) : Table γ :=
  ⟨fun s d => if s = source ∧ d = target then some c else t.get? s d⟩

def contains (t : Table γ) (source target : Format) : Bool := (t.get? source target).isSome

/-- Registers a converter. A pair that has one already is an objection, and gets the new one. -/
def register (t : Table γ) (source target : Format) (c : γ) : Table γ × Option TableError :=
  (t.insert source target c,
    if t.contains source target then some (.duplicate source target) else none)

/-- The objection to one source: if it has converters, one of them must be for its default
target. -/
def objection? (t : Table γ) (source : Format) : Option TableError :=
  if Format.all.any (t.contains source) then
    match source.defaultTarget? with
    | none => some (.outputOnly source)
    | some target =>
      if t.contains source target then none else some (.missingDefault source target)
  else none

def validate (t : Table γ) : Option TableError := Format.all.findSome? t.objection?

def pairs (t : Table γ) : List (Format × Format) :=
  Format.all.flatMap fun s => (Format.all.filter (t.contains s)).map fun d => (s, d)

def insertAll (t : Table γ) (source : Format) (targets : List Format) (c : γ) : Table γ :=
  targets.foldl (fun t d => t.insert source d c) t

end Table

end BemOutline.Conversion

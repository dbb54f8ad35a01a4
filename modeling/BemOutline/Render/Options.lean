/-! How class names are put together and how lines are indented. -/

namespace BemOutline.Render

structure Options where
  modSeparator : String := "--"
  elemSeparator : String := "__"
  indent : String := "  "
deriving DecidableEq, Repr

namespace Options

def entityClass (o : Options) (block : String) : Option String → String
  | none => block
  | some elem => block ++ o.elemSeparator ++ elem

def modifierClass (o : Options) (entity suffix : String) : String :=
  entity ++ o.modSeparator ++ suffix

end Options

def Options.pad (o : Options) (level : Nat) : List Char :=
  (List.replicate level o.indent.toList).flatten

end BemOutline.Render

/-! Files as a run sees them: what stands at a path. -/

namespace BemOutline

inductive File where
  | directory
  | text (s : String)
  | binary
deriving DecidableEq, Repr

namespace File

inductive Unreadable where
  | isDirectory
  | noText
deriving DecidableEq, Repr

def Unreadable.message : Unreadable → String
  | isDirectory => "Is a directory (os error 21)"
  | noText => "stream did not contain valid UTF-8"

def read : File → Except Unreadable String
  | directory => .error .isDirectory
  | text s => .ok s
  | binary => .error .noText

end File

def joinPath (dir name : String) : String :=
  if dir.toList.getLast? = some '/' then dir ++ name else dir ++ "/" ++ name

end BemOutline

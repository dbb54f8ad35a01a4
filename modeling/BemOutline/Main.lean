import BemOutline.Command.Run

/-! The program: looks at what a run may need, lets it run, and writes what it has to say. -/

namespace BemOutline.Program
open Command

def fileAt (path : String) : IO (Option File) := do
  try
    let bytes ← IO.FS.readBinFile path
    return some (match String.fromUTF8? bytes with
      | some s => .text s
      | none => .binary)
  catch
    | .inappropriateType _ code _ => return if code = 21 then some .directory else none
    | .permissionDenied .. => return some .binary
    | _ => return none

def environment : IO Settings.Environment := do
  try
    let text := (String.fromUTF8? (← IO.FS.readBinFile "/proc/self/environ")).getD ""
    return (Text.splitAtChar '\x00' text.toList).map fun cs =>
      (String.ofList (cs.takeWhile (· ≠ '=')), String.ofList ((cs.dropWhile (· ≠ '=')).drop 1))
  catch _ => return []

def inputOf : Task → Option (Option String)
  | .convert _ input _ => some input
  | .tree input => some input
  | .detect input => some input
  | _ => none

def workDirFor (i : Invocation) : IO (Option String) := do
  if i.projectDir.isSome then return none
  try return some (← IO.currentDir).toString
  catch _ => return none

def streamAt (path : String) : Option Stream :=
  if path = "/dev/stdout" then some .stdout
  else if path = "/dev/stderr" then some .stderr
  else if path = "/dev/null" then some .sink
  else none

def lookAround (i : Invocation) : IO Surroundings := do
  let env ← environment
  let workDir ← workDirFor i
  let globalFile := Settings.globalPath? env none
  let paths := globalFile.toList ++ ((i.projectDir.or workDir).map Settings.localPath).toList ++
    ((inputOf i.task).bind id).toList
  let files ← paths.mapM fun path => return (path, ← fileAt path)
  let input ←
    if inputOf i.task = some none then
      (fun bytes => String.fromUTF8? bytes) <$> (← IO.getStdin).readBinToEnd
    else pure (some "")
  return {
    environment := env, input, workDir, globalFile
    find := fun path => (files.lookup path).getD none
    accepts := fun _ => true
    stream? := streamAt }

/-- Writes the file of a run; a run whose file cannot be written is repeated without it. -/
def perform (w : Surroundings) (i : Invocation) : IO Outcome := do
  let o := run w i
  match o.written with
  | none => return o
  | some (path, text) =>
    try
      IO.FS.writeFile path text
      return o
    catch _ => return run { w with accepts := fun _ => false } i

end BemOutline.Program

open BemOutline Command Program in
def main (args : List String) : IO UInt32 := do
  match readArguments args with
  | .error .help => IO.print overview; return 0
  | .error .version => IO.print versionLine; return 0
  | .error .misuse => IO.eprint misuse; return 2
  | .ok i =>
    IO.eprint (verbosityText i.debug)
    let o ← perform (← lookAround i) i
    for line in (logHead? i.debug).toList ++ o.log do
      IO.eprintln line
    IO.eprint o.stderr
    IO.print o.stdout
    return UInt32.ofNat o.exitCode

import BemOutline.Command.Texts
import BemOutline.Arena.Diagram
import BemOutline.Settings.Document

/-! What a run writes and how it ends. A run reads its settings, then its input, then does its task;
the first failure ends it, and nothing is written to the standard output or a file after one. Of the
log there are the warnings, which every run shows; what more of it can be asked for is left out. -/

namespace BemOutline.Command

/-- What a path may lead to besides a file. -/
inductive Stream where
  | stdout
  | stderr
  | sink
deriving DecidableEq, Repr

structure Surroundings where
  environment : Settings.Environment := []
  input : Option String := some ""
  /-- The working directory; none if the system cannot tell it. -/
  workDir : Option String
  globalFile : Option String
  find : String → Option File
  accepts : String → Bool
  /-- The stream that a path leads to, if it leads to no file. -/
  stream? : String → Option Stream := fun _ => none

inductive Failure where
  | settings (e : Settings.LoadError)
  | noInput (path : String)
  | unreadable (context : String)
  | conversion (e : ConversionError)
  /-- A conversion that failed and has said why. -/
  | noOutput
  | cannotWrite (path : String)

namespace Failure

def message : Failure → String
  | settings e => e.message
  | noInput path => "input file not found: " ++ path
  | unreadable context => "I/O error: " ++ context
  | conversion e => e.message
  | noOutput => "no output produced"
  | cannotWrite path => "cannot write " ++ path

def conversionExitCode : ConversionError → Nat
  | .unsupported .. => 64
  | .nothingToRender _ => 70
  | _ => 65

def exitCode : Failure → Nat
  | settings _ => 78
  | noInput _ => 66
  | unreadable _ => 74
  | conversion e => conversionExitCode e
  | noOutput => 1
  | cannotWrite _ => 73

def report : Failure → String
  | noOutput => ""
  | f => "error: " ++ f.message ++ "\n"

end Failure

structure Outcome where
  stdout : String := ""
  /-- The messages of the run. The lines of the log come in between, each with its time. -/
  stderr : String := ""
  /-- The warnings in the log. -/
  log : List String := []
  written : Option (String × String) := none
  failure : Option Failure := none

namespace Outcome

def exitCode (o : Outcome) : Nat := (o.failure.map Failure.exitCode).getD 0

def failed (notices : String) (log : List String) (f : Failure) : Outcome :=
  { stderr := notices ++ f.report, log, failure := some f }

end Outcome

def noticeText (n : Notifications) (notice : Conversion.Notice) : String :=
  match notice.level with
  | .info => if n.showInfo then "✓ " ++ notice.message ++ "\n" else ""
  | .warning => "Warning: " ++ notice.message ++ "\n"
  | .error => if n.showErrors then "error: " ++ notice.message ++ "\n" else ""

def noticesText (n : Notifications) (notices : List Conversion.Notice) : String :=
  String.join (notices.map (noticeText n))

namespace Surroundings

def projectDir? (w : Surroundings) (i : Invocation) : Option String := i.projectDir.or w.workDir

def projectDir (w : Surroundings) (i : Invocation) : Except Failure String :=
  match w.projectDir? i with
  | none => .error (.unreadable "resolve current directory")
  | some dir => .ok dir

def settings (w : Surroundings) (i : Invocation) : Except Failure Settings :=
  match w.projectDir i with
  | .error f => .error f
  | .ok dir =>
    (Settings.load w.find w.environment w.globalFile (some (Settings.localPath dir))).mapError
      .settings

def inputText (w : Surroundings) : Option String → Except Failure String
  | none =>
    match w.input with
    | none => .error (.unreadable "read stdin")
    | some text => .ok text
  | some path =>
    match w.find path with
    | none => .error (.noInput path)
    | some file => file.read.mapError fun _ => .unreadable ("read " ++ path)

end Surroundings

def withInput (w : Surroundings) (i : Invocation) (input : Option String)
    (work : Settings → String → Outcome) : Outcome :=
  match w.settings i with
  | .error f => .failed "" [] f
  | .ok s =>
    match w.inputText input with
    | .error f => .failed "" [] f
    | .ok text => work s text

def deliver (w : Surroundings) (notices : String) (log : List String) (text : String) :
    Option String → Outcome
  | none => { stdout := text, stderr := notices, log }
  | some path =>
    if w.accepts path then
      let done := "✓ wrote " ++ path ++ "\n"
      match w.stream? path with
      | none => { stderr := notices ++ done, log, written := some (path, text) }
      | some .stdout => { stdout := text, stderr := notices ++ done, log }
      | some .stderr => { stderr := notices ++ text ++ done, log }
      | some .sink => { stderr := notices ++ done, log }
    else .failed notices log (.cannotWrite path)

def convertText (w : Surroundings) (request : Conversion.Request) (output : Option String)
    (s : Settings) (text : String) : Outcome :=
  let o := Conversion.report s text request
  let notices := noticesText s.notifications o.notices
  match o.result with
  | .error _ => .failed notices o.log .noOutput
  | .ok c => deliver w notices o.log c.output output

def drawTree (s : Settings) (text : String) : Outcome :=
  let parsed := Conversion.parseTree s text
  let notices := noticesText s.notifications parsed.notices
  match parsed.result with
  | .error e => .failed notices parsed.log (.conversion e)
  | .ok (a, _) => { stdout := a.diagram ++ "\n", stderr := notices, log := parsed.log }

def detectFormat (_ : Settings) (text : String) : Outcome :=
  match Format.detect text with
  | none => .failed "" [] (.conversion .noSelection)
  | some f => { stdout := f.name ++ "\n" }

def pairLine (p : Format × Format) : String :=
  "  " ++ p.1.name ++ " -> " ++ p.2.name ++
    (if p.1.defaultTarget? = some p.2 then " (default)" else "")

def formatsText : String :=
  unlines ("Supported conversions:" :: Conversion.standard.pairs.map pairLine)

def listFormats (w : Surroundings) (i : Invocation) : Outcome :=
  match w.settings i with
  | .error f => .failed "" [] f
  | .ok _ => { stdout := formatsText }

def showSettings (w : Surroundings) (i : Invocation) : Outcome :=
  match w.settings i with
  | .error f => .failed "" [] f
  | .ok s =>
    match s.document with
    | .error e => .failed "" [] (.settings e)
    | .ok text => { stdout := text }

def pathText (w : Surroundings) (path : String) : String :=
  path ++ (if (w.find path).isSome then " (found)" else " (not found)")

def settingsPaths (w : Surroundings) (i : Invocation) : Outcome :=
  match w.projectDir i with
  | .error f => .failed "" [] f
  | .ok dir =>
    let globalText := (w.globalFile.map (pathText w)).getD "unavailable"
    { stdout :=
        unlines
          ["global: " ++ globalText, "local:  " ++ pathText w (Settings.localPath dir)] }

def run (w : Surroundings) (i : Invocation) : Outcome :=
  match i.task with
  | .overview => { stdout := overview }
  | .convert request input output => withInput w i input (convertText w request output)
  | .tree input => withInput w i input drawTree
  | .detect input => withInput w i input detectFormat
  | .formats => listFormats w i
  | .showSettings => showSettings w i
  | .settingsPaths => settingsPaths w i
  | .completion shell => { stdout := shell.script }

end BemOutline.Command

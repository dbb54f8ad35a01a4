import BemOutline.Command.Arguments

/-! The fixed texts of the command line: its overview, its version and its completion scripts. -/

namespace BemOutline.Command

def programName : String := "bemtools"

def version : String := "0.3.0"

def unwords (words : List String) : String := String.intercalate " " words

def unlines (lines : List String) : String := String.join (lines.map (· ++ "\n"))

def commandWords : List String := Level.top.commands.map Prod.fst ++ ["help"]

def optionLine (o : Char × String × Opt) : String :=
  "  -" ++ o.1.toString ++ ", --" ++ o.2.1

def overview : String :=
  unlines
    (["Turns outlines into BEM trees, HTML and style sheets", "",
        "Usage: " ++ programName ++ " [OPTIONS] [COMMAND]", "", "Commands:"] ++
      commandWords.map (fun w => "  " ++ w) ++ ["", "Options:"] ++
      commonOptions.map optionLine)

def versionLine : String := programName ++ " " ++ version ++ "\n"

def verbosityText (debug : Nat) : String :=
  if 3 < debug then "Don't be crazy, max is -d -d -d\n" else ""

/-- The line with which the log begins, unless it holds warnings alone. -/
def logHead? : Nat → Option String
  | 0 => none
  | 1 => some "Debug mode: info"
  | 2 => some "Debug mode: debug"
  | _ => some "Debug mode: trace"

def misuse : String :=
  unlines ["error: the arguments are not understood", "",
    "For more information, try '--help'."]

def Shell.script : Shell → String
  | bash => "complete -W \"" ++ unwords commandWords ++ "\" " ++ programName ++ "\n"
  | elvish =>
    "set edit:completion:arg-completer[" ++ programName ++ "] = \x7b|@words| put " ++
      unwords commandWords ++ " \x7d\n"
  | fish => "complete -c " ++ programName ++ " -f -a \"" ++ unwords commandWords ++ "\"\n"
  | powershell =>
    "Register-ArgumentCompleter -Native -CommandName " ++ programName ++
      " -ScriptBlock \x7b '" ++ unwords commandWords ++ "' -split ' ' \x7d\n"
  | zsh => "#compdef " ++ programName ++ "\ncompadd " ++ unwords commandWords ++ "\n"

end BemOutline.Command

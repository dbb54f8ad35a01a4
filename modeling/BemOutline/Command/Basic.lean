import BemOutline.Conversion.Basic

/-! The commands, and what a run is asked to do. -/

namespace BemOutline.Command

inductive Shell where
  | bash
  | elvish
  | fish
  | powershell
  | zsh
deriving DecidableEq, Repr

namespace Shell

def all : List Shell := [bash, elvish, fish, powershell, zsh]

def name : Shell → String
  | bash => "bash"
  | elvish => "elvish"
  | fish => "fish"
  | powershell => "powershell"
  | zsh => "zsh"

def ofName? (s : String) : Option Shell := all.find? fun shell => shell.name = s

end Shell

/-- What a run is to do. Where no input is named the standard input is read, and where no output is
named the standard output is written. -/
inductive Task where
  | overview
  | convert (request : Conversion.Request) (input output : Option String)
  | tree (input : Option String)
  | detect (input : Option String)
  | formats
  | showSettings
  | settingsPaths
  | completion (shell : Shell)
deriving DecidableEq, Repr

structure Invocation where
  task : Task
  projectDir : Option String := none
  debug : Nat := 0
deriving DecidableEq, Repr

end BemOutline.Command

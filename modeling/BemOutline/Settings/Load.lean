import BemOutline.Files.Basic
import BemOutline.Settings.Environment

/-! Loading the settings of a run: the defaults, then a global file, a local file and the
environment, each laid over what came before. -/

namespace BemOutline.Settings

inductive LoadError where
  | unreadable (path : String) (reason : File.Unreadable)
  | malformed (path : String)
  | invalid (e : Invalid)
  | tooLarge
deriving DecidableEq, Repr

def LoadError.message (e : LoadError) : String :=
  "config error: " ++
    match e with
    | unreadable path reason => "read " ++ path ++ ": " ++ reason.message
    | malformed path => "parse " ++ path
    | invalid e => e.message
    | tooLarge => "out-of-range value for u64 type"

def localPath (dir : String) : String := joinPath dir ".bemtools.toml"

def globalPath (dir : String) : String := joinPath (joinPath dir "bemtools") "bemtools.toml"

def homeDir? (env : Environment) (systemHome : Option String) : Option String :=
  match env.lookup "HOME" with
  | some home => if home = "" then systemHome else some home
  | none => systemHome

/-- The directory for the settings of all programs: the one that the environment names, if it starts
from the top, or else a directory at home. Without a home there is no such directory. -/
def configDir? (env : Environment) (systemHome : Option String) : Option String :=
  (homeDir? env systemHome).map fun home =>
    match env.lookup "XDG_CONFIG_HOME" with
    | some dir => if dir.toList.head? = some '/' then dir else joinPath home ".config"
    | none => joinPath home ".config"

def globalPath? (env : Environment) (systemHome : Option String) : Option String :=
  (configDir? env systemHome).map globalPath

/-- The layer of a settings file. One that is not there says nothing. -/
def layerAt (find : String → Option File) (path : String) : Except LoadError Layer :=
  match find path with
  | none => .ok {}
  | some file =>
    match file.read with
    | .error reason => .error (.unreadable path reason)
    | .ok text =>
      match Layer.read? text with
      | none => .error (.malformed path)
      | some l => .ok l

def layerAt? (find : String → Option File) : Option String → Except LoadError Layer
  | none => .ok {}
  | some path => layerAt find path

def validated (s : Settings) : Except LoadError Settings :=
  match s.validate with
  | some e => .error (.invalid e)
  | none => .ok s

/-- The settings of a run. Only the outcome of all layers has to be valid. -/
def load (find : String → Option File) (env : Environment) (globalFile localFile : Option String) :
    Except LoadError Settings := do
  let globalLayer ← layerAt? find globalFile
  let localLayer ← layerAt? find localFile
  let s : Settings := {}
  validated (((s.overlay globalLayer).overlay localLayer).overlay (Layer.ofEnvironment env))

end BemOutline.Settings

import BemOutline.Command.Basic

/-! Reading the arguments of a run. They are read from the left, each command taking over those
behind its name, and the first thing that is wrong or asks for help ends the reading. -/

namespace BemOutline.Command

inductive Reply where
  | help
  | version
  | misuse
deriving DecidableEq, Repr

inductive Level where
  | top
  | convert
  | tree
  | detect
  | formats
  | config
  | configShow
  | configPath
  | completion
deriving DecidableEq, Repr

namespace Level

def commands : Level → List (String × Level)
  | top =>
    [("convert", convert), ("tree", tree), ("detect", detect), ("formats", formats),
      ("config", config), ("completion", completion)]
  | config => [("show", configShow), ("path", configPath)]
  | _ => []

def command? (l : Level) (name : String) : Option Level :=
  (l.commands.find? fun c => c.1 = name).map Prod.snd

end Level

inductive Switch where
  | debug
  | help
  | version
deriving DecidableEq, Repr

inductive Setting where
  | projectDir
  | source
  | target
  | input
  | output
  | shell
deriving DecidableEq, Repr

inductive Opt where
  | switch (s : Switch)
  | setting (s : Setting)
deriving DecidableEq, Repr

def commonOptions : List (Char × String × Opt) :=
  [('d', "debug", .switch .debug), ('C', "project-dir", .setting .projectDir),
    ('h', "help", .switch .help), ('V', "version", .switch .version)]

def inputOption : Char × String × Opt := ('i', "input", .setting .input)

def Level.options : Level → List (Char × String × Opt)
  | convert =>
    [('f', "from", .setting .source), ('t', "to", .setting .target), inputOption,
      ('o', "output", .setting .output)] ++ commonOptions
  | tree => inputOption :: commonOptions
  | detect => inputOption :: commonOptions
  | _ => commonOptions

def Level.byLetter? (l : Level) (c : Char) : Option Opt :=
  (l.options.find? fun o => o.1 = c).map fun o => o.2.2

def Level.byName? (l : Level) (name : String) : Option Opt :=
  (l.options.find? fun o => o.2.1 = name).map fun o => o.2.2

structure Given where
  debug : Nat := 0
  projectDir : Option String := none
  source : Option Format := none
  target : Option Format := none
  input : Option String := none
  output : Option String := none
  shell : Option Shell := none
deriving DecidableEq, Repr

def fresh {α : Type} (old new : Option α) : Except Reply (Option α) :=
  match old, new with
  | none, some x => .ok (some x)
  | _, _ => .error .misuse

def path? (s : String) : Option String := if s = "" then none else some s

def format? (s : String) : Option Format := Format.ofName? (Format.canonicalName s)

def Given.set (g : Given) (value : String) : Setting → Except Reply Given
  | .projectDir => (fresh g.projectDir (path? value)).map fun v => { g with projectDir := v }
  | .source => (fresh g.source (format? value)).map fun v => { g with source := v }
  | .target => (fresh g.target (format? value)).map fun v => { g with target := v }
  | .input => (fresh g.input (path? value)).map fun v => { g with input := v }
  | .output => (fresh g.output (path? value)).map fun v => { g with output := v }
  | .shell => (fresh g.shell (Shell.ofName? value)).map fun v => { g with shell := v }

structure Progress where
  given : Given := {}
  /-- The setting named last, with the argument that follows it. It is checked later. -/
  pending : Option (Setting × Option String) := none
  optionsEnded : Bool := false

namespace Progress

def settle (p : Progress) : Except Reply Progress :=
  match p.pending with
  | none => .ok p
  | some (_, none) => .error .misuse
  | some (s, some value) =>
    (p.given.set value s).map fun g => { p with given := g, pending := none }

def awaited? (p : Progress) : Option Setting :=
  match p.pending with
  | some (s, none) => some s
  | _ => none

def switch (p : Progress) (s : Switch) : Except Reply Progress := do
  let p ← p.settle
  match s with
  | .debug => .ok { p with given := { p.given with debug := p.given.debug + 1 } }
  | .help => .error .help
  | .version => .error .version

def await (p : Progress) (s : Setting) : Except Reply Progress :=
  p.settle.map fun p => { p with pending := some (s, none) }

def attach (p : Progress) (s : Setting) (value : String) : Except Reply Progress := do
  let p ← p.settle
  settle { p with pending := some (s, some value) }

def long (level : Level) (p : Progress) (name : String) (value : Option String) :
    Except Reply Progress :=
  match level.byName? name, value with
  | none, _ => .error .misuse
  | some (.switch s), none => p.switch s
  | some (.switch _), some _ => .error .misuse
  | some (.setting s), none => p.await s
  | some (.setting s), some value => p.attach s value

/-- Options by their letters, behind one dash. The first setting takes the rest as its value,
without the equals sign that may stand between. -/
def letters (level : Level) (p : Progress) : List Char → Except Reply Progress
  | [] => .ok p
  | c :: cs =>
    match level.byLetter? c with
    | none => .error .misuse
    | some (.switch s) => do
      let p ← p.switch s
      letters level p cs
    | some (.setting s) =>
      match cs with
      | [] => p.await s
      | d :: ds => p.attach s (String.ofList (if d = '=' then ds else d :: ds))

def positional (level : Level) (p : Progress) (arg : String) : Except Reply Progress :=
  match level with
  | .completion => do
    let p ← p.settle
    if p.given.shell.isSome then .error .misuse
    else .ok { p with pending := some (.shell, some arg) }
  | _ => .error .misuse

def splitLong (cs : List Char) : String × Option String :=
  let name := cs.takeWhile (· ≠ '=')
  (String.ofList name,
    if name.length = cs.length then none else some (String.ofList (cs.drop (name.length + 1))))

def argument (level : Level) (p : Progress) (arg : String) : Except Reply Progress :=
  if p.optionsEnded then p.positional level arg
  else
    match arg.toList with
    | ['-', '-'] => .ok { p with optionsEnded := true }
    | '-' :: '-' :: cs =>
      let (name, value) := splitLong cs
      p.long level name value
    | '-' :: c :: cs => p.letters level (c :: cs)
    | _ =>
      match p.awaited? with
      | some s => .ok { p with pending := some (s, some arg) }
      | none => p.positional level arg

def takesCommand (p : Progress) : Bool := !p.optionsEnded && p.awaited?.isNone

end Progress

/-- What the arguments behind `help` lead to; the level is missing behind a second `help`. -/
def helpFor : Option Level → List String → Reply
  | _, [] => .help
  | none, _ :: _ => .misuse
  | some level, arg :: args =>
    match level.command? arg with
    | some next => helpFor (some next) args
    | none => if arg = "help" ∧ level.commands ≠ [] then helpFor none args else .misuse

/-- The level that was reached, with what was given there, and what was given on the way. The
project directory of a deeper level counts. -/
structure Reached where
  level : Level
  given : Given

def Reached.below (outer : Given) (r : Reached) : Reached :=
  { r with
    given := { r.given with
      projectDir := r.given.projectDir.or outer.projectDir
      debug := if r.given.debug = 0 then outer.debug else r.given.debug } }

def Level.satisfied (l : Level) (g : Given) : Bool :=
  match l with
  | config => false
  | completion => g.shell.isSome
  | _ => true

/-- Reads the arguments of a level. The last setting before the name of a command is checked when
those behind that name have been read. -/
def readLevel (level : Level) (p : Progress) : List String → Except Reply Reached
  | [] => do
    let p ← p.settle
    if level.satisfied p.given then .ok ⟨level, p.given⟩ else .error .misuse
  | arg :: args =>
    match if p.takesCommand then level.command? arg else none with
    | some next => do
      let r ← readLevel next {} args
      let p ← p.settle
      .ok (r.below p.given)
    | none =>
      if p.takesCommand ∧ arg = "help" ∧ level.commands ≠ [] then
        .error (helpFor (some level) args)
      else do
        let p ← p.argument level arg
        readLevel level p args

def Reached.task? (r : Reached) : Option Task :=
  match r.level with
  | .top => some .overview
  | .convert => some (.convert ⟨r.given.source, r.given.target⟩ r.given.input r.given.output)
  | .tree => some (.tree r.given.input)
  | .detect => some (.detect r.given.input)
  | .formats => some .formats
  | .config => none
  | .configShow => some .showSettings
  | .configPath => some .settingsPaths
  | .completion => r.given.shell.map .completion

def readArguments (args : List String) : Except Reply Invocation := do
  let r ← readLevel .top {} args
  match r.task? with
  | some task => .ok { task, projectDir := r.given.projectDir, debug := r.given.debug }
  | none => .error .misuse

end BemOutline.Command

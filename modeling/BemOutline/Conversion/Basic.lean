import BemOutline.Arena.Raw
import BemOutline.Bem.Clean
import BemOutline.Bem.Decode
import BemOutline.Bem.Encode
import BemOutline.Conversion.Table
import BemOutline.Json.Reader
import BemOutline.Render.Html
import BemOutline.Render.Style
import BemOutline.Settings.Basic

/-! Converting a text from one format to another, with notices about how it went. -/

namespace BemOutline

inductive ConversionError where
  | outline (e : OutlineError)
  | syntaxError (e : Json.SyntaxError)
  | decode (e : Bem.DecodeError)
  | noSelection
  | unsupported (source target : Format)
  | nothingToRender (target : Format)

def ConversionError.message : ConversionError → String
  | outline e => e.message
  | syntaxError e => "Cannot convert these lines to a JS Object: " ++ e.message
  | decode e => "Cannot convert these lines to a JS Object: " ++ e.message
  | noSelection => "Please select a valid code."
  | unsupported s t => "Cannot convert " ++ s.displayName ++ " to " ++ t.displayName
  | nothingToRender t => "Cannot convert this code to " ++ t.displayName ++ ": nothing to render"

namespace Conversion

inductive Level where
  | info
  | warning
  | error
deriving DecidableEq, Repr

structure Notice where
  level : Level
  message : String
deriving DecidableEq, Repr

/-- The end of a piece of work, with the notices given on the way to it and the warnings in the
log. -/
structure Outcome (α : Type) where
  notices : List Notice
  log : List String
  result : Except ConversionError α

namespace Outcome

variable {α β : Type}

def silent (r : Except ConversionError α) : Outcome α := ⟨[], [], r⟩

def andThen (o : Outcome α) (f : α → Outcome β) : Outcome β :=
  match o.result with
  | .error e => ⟨o.notices, o.log, .error e⟩
  | .ok x => ⟨o.notices ++ (f x).notices, o.log ++ (f x).log, (f x).result⟩

end Outcome

def tooManyNodes : Notice := ⟨.warning, "Too many nodes! Try to simplify your code."⟩

def generated (target : Format) : Notice :=
  ⟨.info, target.displayName ++ " code has been generated."⟩

def parseTree (s : Settings) (text : String) : Outcome (Arena × Expansion.Report) :=
  match Outline.build s.defaultTag s.maxDepth text with
  | .error e => .silent (.error (.outline e))
  | .ok a =>
    let expanded := Expansion.expand s.expander a
    ⟨if expanded.2.isComplete then [] else [tooManyNodes],
      (Expansion.warning? expanded.1 expanded.2).toList, .ok expanded⟩

def nodeOfRaw (s : Settings) (raw : Json) : Except ConversionError Bem.Node :=
  match Bem.clean s.maxDepth raw with
  | .error e => .error (.outline e)
  | .ok v => (Bem.Node.ofJson v).mapError .decode

def nodeOfArena (s : Settings) (a : Arena) : Except ConversionError Bem.Node :=
  match a.toRaw s.maxDepth with
  | .error e => .error (.outline e)
  | .ok raw => nodeOfRaw s raw

def nodeOfOutline (s : Settings) (text : String) : Outcome Bem.Node :=
  (parseTree s text).andThen fun r => .silent (nodeOfArena s r.1)

def nodeOfJson (s : Settings) (text : String) : Except ConversionError Bem.Node :=
  match Json.read text with
  | .error e => .error (.syntaxError e)
  | .ok raw => nodeOfRaw s raw

def renderText (s : Settings) (n : Bem.Node) : Format → Except ConversionError String
  | .html => .ok (Render.Html.render s.renderOptions n)
  | .scss => .ok (Render.Style.renderScss s.renderOptions n)
  | .css => .ok (Render.Style.renderCss s.renderOptions n)
  | .json => .ok n.pretty
  | .pseudocode => .error (.unsupported .json .pseudocode)

/-- The text of a node; a blank one counts as none. -/
def render (s : Settings) (n : Bem.Node) (target : Format) : Except ConversionError String :=
  match renderText s n target with
  | .error e => .error e
  | .ok out => if Text.allBlank out.toList then .error (.nothingToRender target) else .ok out

abbrev Converter := Settings → String → Format → Outcome String

def fromOutline : Converter := fun s text target =>
  (nodeOfOutline s text).andThen fun n => .silent (render s n target)

def fromJson : Converter := fun s text target =>
  (Outcome.silent (nodeOfJson s text)).andThen fun n => .silent (render s n target)

def standard : Table Converter :=
  (Table.empty.insertAll .pseudocode [.json, .html, .scss, .css] fromOutline).insertAll
    .json [.html, .scss, .css] fromJson

/-- What to convert; a source that is not named is detected, a target that is not named is the
source's default. -/
structure Request where
  source : Option Format := none
  target : Option Format := none
deriving DecidableEq, Repr

structure Converted where
  source : Format
  target : Format
  output : String
deriving DecidableEq, Repr

def convertFrom (s : Settings) (text : String) (source target : Format) : Outcome Converted :=
  match standard.get? source target with
  | none => .silent (.error (.unsupported source target))
  | some converter =>
    (converter s text target).andThen fun out =>
      ⟨[generated target], [], .ok ⟨source, target, out⟩⟩

def tryConvert (s : Settings) (text : String) (r : Request) : Outcome Converted :=
  match r.source.or (Format.detect text) with
  | none => .silent (.error .noSelection)
  | some source => convertFrom s text source ((r.target.or source.defaultTarget?).getD source)

/-- Converts a text and says how it ended: a failure becomes a notice and a warning in the log. -/
def report (s : Settings) (text : String) (r : Request) : Outcome Converted :=
  let o := tryConvert s text r
  match o.result with
  | .ok _ => o
  | .error e =>
    { o with
      notices := o.notices ++ [⟨.error, e.message⟩]
      log := o.log ++ ["conversion failed: " ++ e.message] }

def convert (s : Settings) (text : String) (r : Request) : List Notice × Option Converted :=
  let o := report s text r
  (o.notices, o.result.toOption)

end Conversion

end BemOutline

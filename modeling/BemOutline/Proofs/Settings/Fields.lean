import BemOutline.Settings.Environment
import Mathlib.Tactic.SplitIfs

/-! The ten settings one by one: what a file and the environment say about a setting hangs on no
other one, and a layer on top replaces just those that it speaks about. -/

namespace BemOutline.Settings

inductive Kind where
  | text
  | mode
  | number
  | flag
deriving DecidableEq, Repr

namespace Kind

abbrev Value : Kind → Type
  | text => String
  | mode => Expansion.Mode
  | number => Nat
  | flag => Bool

def ofToml? : (k : Kind) → Toml → Option k.Value
  | text => Layer.text?
  | mode => Layer.mode?
  | number => Layer.nat?
  | flag => Layer.bool?

/-- The value of a variable, as far as it can be converted. A mode may also be the only name that
variables give within its path. -/
def ofEnvironment? : (k : Kind) → Environment → String → Option k.Value
  | text, env, path => env.value? path
  | mode, env, path =>
    match env.value? path with
    | some s => Layer.modeOfName? (Environment.lower s)
    | none => (env.onlyName? path).bind Layer.modeOfName?
  | number, env, path => (env.value? path).bind Environment.nat?
  | flag, env, path => (env.value? path).bind Environment.bool?

end Kind

inductive Field where
  | defaultTag
  | modSeparator
  | elemSeparator
  | indent
  | expansion
  | loopLimit
  | maxNodes
  | maxDepth
  | showErrors
  | showInfo
deriving DecidableEq, Repr

namespace Field

def kind : Field → Kind
  | defaultTag => .text
  | modSeparator => .text
  | elemSeparator => .text
  | indent => .text
  | expansion => .mode
  | loopLimit => .number
  | maxNodes => .number
  | maxDepth => .number
  | showErrors => .flag
  | showInfo => .flag

abbrev Value (f : Field) : Type := f.kind.Value

def name : Field → String
  | defaultTag => "default_tag"
  | modSeparator => "mod_separator"
  | elemSeparator => "elem_separator"
  | indent => "indent"
  | expansion => "expansion"
  | loopLimit => "loop_limit"
  | maxNodes => "max_nodes"
  | maxDepth => "max_depth"
  | showErrors => "show_errors"
  | showInfo => "show_info"

def position? : Field → Option Nat
  | showErrors => some 0
  | showInfo => some 1
  | _ => none

def path (f : Field) : String :=
  match f.position? with
  | none => f.name
  | some _ => "notifications." ++ f.name

def flagIn? (name : String) (i : Nat) : Toml → Option Toml
  | .table fields => Toml.field? name fields
  | .arr items => items[i]?
  | _ => none

def written? (f : Field) (fields : List (String × Toml)) : Option Toml :=
  match f.position? with
  | none => Toml.field? f.name fields
  | some i => (Toml.field? "notifications" fields).bind (flagIn? f.name i)

def inFile? (f : Field) (fields : List (String × Toml)) : Option f.Value :=
  (f.written? fields).bind f.kind.ofToml?

def inEnvironment? (f : Field) (env : Environment) : Option f.Value :=
  f.kind.ofEnvironment? env f.path

end Field

def get (s : Settings) : (f : Field) → Option f.Value
  | .defaultTag => some s.defaultTag
  | .modSeparator => some s.modSeparator
  | .elemSeparator => some s.elemSeparator
  | .indent => some s.indent
  | .expansion => some s.expansion
  | .loopLimit => some s.loopLimit
  | .maxNodes => s.maxNodes
  | .maxDepth => some s.maxDepth
  | .showErrors => some s.notifications.showErrors
  | .showInfo => some s.notifications.showInfo

def Layer.get (l : Layer) : (f : Field) → Option f.Value
  | .defaultTag => l.defaultTag
  | .modSeparator => l.modSeparator
  | .elemSeparator => l.elemSeparator
  | .indent => l.indent
  | .expansion => l.expansion
  | .loopLimit => l.loopLimit
  | .maxNodes => l.maxNodes
  | .maxDepth => l.maxDepth
  | .showErrors => l.showErrors
  | .showInfo => l.showInfo

theorem ext_get {s s' : Settings} (h : ∀ f, s.get f = s'.get f) : s = s' := by
  obtain ⟨_, _, _, _, _, _, _, _, ⟨_, _⟩⟩ := s
  obtain ⟨_, _, _, _, _, _, _, _, ⟨_, _⟩⟩ := s'
  cases h .defaultTag
  cases h .modSeparator
  cases h .elemSeparator
  cases h .indent
  cases h .expansion
  cases h .loopLimit
  cases h .maxNodes
  cases h .maxDepth
  cases h .showErrors
  cases h .showInfo
  rfl

theorem Layer.ext_get {l l' : Layer} (h : ∀ f, l.get f = l'.get f) : l = l' := by
  obtain ⟨_, _, _, _, _, _, _, _, _, _⟩ := l
  obtain ⟨_, _, _, _, _, _, _, _, _, _⟩ := l'
  cases h .defaultTag
  cases h .modSeparator
  cases h .elemSeparator
  cases h .indent
  cases h .expansion
  cases h .loopLimit
  cases h .maxNodes
  cases h .maxDepth
  cases h .showErrors
  cases h .showInfo
  rfl

theorem get_overlay (s : Settings) (l : Layer) (f : Field) :
    (s.overlay l).get f = (l.get f).or (s.get f) := by
  cases f with
  | maxNodes => rfl
  | _ => exact Option.or_some.symm

theorem Layer.get_empty (f : Field) : ({} : Layer).get f = f.inFile? [] := by
  cases f <;> rfl

theorem Layer.get_ofEnvironment (env : Environment) (f : Field) :
    (Layer.ofEnvironment env).get f = f.inEnvironment? env := by
  cases f <;> rfl

namespace Layer

variable {α : Type} {fields : List (String × Toml)} {l : Layer} {v : Toml}

def optional (fits? : Toml → Option α) : Option Toml → Option (Option α)
  | none => some none
  | some v => (fits? v).map some

theorem optional_eq_some_iff {fits? : Toml → Option α} {x : Option Toml} {o : Option α} :
    optional fits? x = some o ↔ (∀ v, x = some v → fits? v ≠ none) ∧ o = x.bind fits? := by
  cases x with
  | none => simp [optional, eq_comm]
  | some v =>
    cases hv : fits? v with
    | none => simp [optional, hv]
    | some y => simp [optional, hv, eq_comm]

theorem field_eq_optional (fits? : Toml → Option α) (key : String) (fields : List (String × Toml)) :
    field fits? key fields = optional fits? (Toml.field? key fields) := by
  rw [field]
  cases Toml.field? key fields <;> rfl

theorem item_eq_optional (i : Nat) (items : List Toml) :
    item i items = optional bool? items[i]? := by
  rw [item]
  cases items[i]? <;> rfl

def holdsFlags : Toml → Bool
  | .table _ => true
  | .arr _ => true
  | .dateTime _ => true
  | _ => false

theorem flags?_eq (v : Toml) : flags? v =
    if holdsFlags v then
      (optional bool? (Field.flagIn? "show_errors" 0 v)).bind fun errors =>
        (optional bool? (Field.flagIn? "show_info" 1 v)).map fun info => (errors, info)
    else none := by
  cases v with
  | table fields =>
    have hholds : holdsFlags (.table fields) = true := rfl
    rw [flags?, field_eq_optional, field_eq_optional, if_pos hholds]
    simp only [Field.flagIn?]
    cases optional bool? (Toml.field? "show_errors" fields) with
    | none => rfl
    | some errors => cases optional bool? (Toml.field? "show_info" fields) <;> rfl
  | arr items =>
    have hholds : holdsFlags (.arr items) = true := rfl
    rw [flags?, item_eq_optional, item_eq_optional, if_pos hholds]
    simp only [Field.flagIn?]
    cases optional bool? items[0]? with
    | none => rfl
    | some errors => cases optional bool? items[1]? <;> rfl
  | _ => rfl

/-- Whether all that stands in a file for the settings fits them. -/
structure Fits (fields : List (String × Toml)) : Prop where
  value : ∀ (f : Field) v, f.written? fields = some v → f.kind.ofToml? v ≠ none
  notifications : ∀ v, Toml.field? "notifications" fields = some v → holdsFlags v = true

theorem field_of_fits (h : Fits fields) {f : Field} (hf : f.position? = none) :
    field f.kind.ofToml? f.name fields = some (f.inFile? fields) := by
  have hwritten : f.written? fields = Toml.field? f.name fields := by rw [Field.written?, hf]
  rw [field_eq_optional, Field.inFile?, ← hwritten]
  exact optional_eq_some_iff.2 ⟨h.value f, rfl⟩

theorem field_flags_of_fits (h : Fits fields) :
    (field flags? "notifications" fields).map (·.getD (none, none)) =
      some (Field.showErrors.inFile? fields, Field.showInfo.inFile? fields) := by
  have herrors := h.value .showErrors
  have hinfo := h.value .showInfo
  rw [field_eq_optional]
  simp only [Field.inFile?, Field.written?, Field.position?, Field.name] at herrors hinfo ⊢
  cases hv : Toml.field? "notifications" fields with
  | none => rfl
  | some v =>
    rw [hv] at herrors hinfo
    have herrors' : optional bool? (Field.flagIn? "show_errors" 0 v) = some _ :=
      optional_eq_some_iff.2 ⟨herrors, rfl⟩
    have hinfo' : optional bool? (Field.flagIn? "show_info" 1 v) = some _ :=
      optional_eq_some_iff.2 ⟨hinfo, rfl⟩
    have hflags := flags?_eq v
    rw [if_pos (h.notifications v hv), herrors', hinfo'] at hflags
    rw [optional, hflags]
    rfl

theorem ofFields?_of_fits (h : Fits fields) :
    ∃ l, ofFields? fields = some l ∧ ∀ f, l.get f = f.inFile? fields := by
  obtain ⟨flags, hflags, hpair⟩ := Option.map_eq_some_iff.1 (field_flags_of_fits h)
  have htop := fun (f : Field) (hf : f.position? = none) => field_of_fits h hf
  have hdefaultTag : field text? "default_tag" fields = _ := htop .defaultTag rfl
  have hmodSeparator : field text? "mod_separator" fields = _ := htop .modSeparator rfl
  have helemSeparator : field text? "elem_separator" fields = _ := htop .elemSeparator rfl
  have hindent : field text? "indent" fields = _ := htop .indent rfl
  have hexpansion : field mode? "expansion" fields = _ := htop .expansion rfl
  have hloopLimit : field nat? "loop_limit" fields = _ := htop .loopLimit rfl
  have hmaxNodes : field nat? "max_nodes" fields = _ := htop .maxNodes rfl
  have hmaxDepth : field nat? "max_depth" fields = _ := htop .maxDepth rfl
  rw [ofFields?, hdefaultTag, hmodSeparator, helemSeparator, hindent, hexpansion, hloopLimit,
    hmaxNodes, hmaxDepth, hflags]
  simp only [Option.bind_eq_bind, Option.bind_some, hpair]
  refine ⟨_, rfl, fun f => ?_⟩
  cases f <;> rfl

theorem fits_of_ofFields? (h : ofFields? fields = some l) : Fits fields := by
  simp only [ofFields?, Option.bind_eq_bind, Option.bind_eq_some_iff, field_eq_optional,
    optional_eq_some_iff] at h
  obtain ⟨_, ⟨hdefaultTag, -⟩, _, ⟨hmodSeparator, -⟩, _, ⟨helemSeparator, -⟩, _, ⟨hindent, -⟩, _,
    ⟨hexpansion, -⟩, _, ⟨hloopLimit, -⟩, _, ⟨hmaxNodes, -⟩, _, ⟨hmaxDepth, -⟩, _, ⟨hflags, -⟩, -⟩ := h
  have hholds : ∀ v, Toml.field? "notifications" fields = some v → holdsFlags v = true ∧
      (∀ w, Field.flagIn? "show_errors" 0 v = some w → bool? w ≠ none) ∧
      ∀ w, Field.flagIn? "show_info" 1 v = some w → bool? w ≠ none := by
    intro v hv
    obtain ⟨p, hp⟩ := Option.ne_none_iff_exists'.1 (hflags v hv)
    rw [flags?_eq] at hp
    split_ifs at hp with hholds
    obtain ⟨errors, herrors, hp⟩ := Option.bind_eq_some_iff.1 hp
    obtain ⟨info, hinfo, -⟩ := Option.map_eq_some_iff.1 hp
    exact ⟨hholds, (optional_eq_some_iff.1 herrors).1, (optional_eq_some_iff.1 hinfo).1⟩
  refine ⟨fun f v hv => ?_, fun v hv => (hholds v hv).1⟩
  cases f with
  | defaultTag => exact hdefaultTag v hv
  | modSeparator => exact hmodSeparator v hv
  | elemSeparator => exact helemSeparator v hv
  | indent => exact hindent v hv
  | expansion => exact hexpansion v hv
  | loopLimit => exact hloopLimit v hv
  | maxNodes => exact hmaxNodes v hv
  | maxDepth => exact hmaxDepth v hv
  | showErrors =>
    obtain ⟨w, hw, hv⟩ := Option.bind_eq_some_iff.1 hv
    exact (hholds w hw).2.1 v hv
  | showInfo =>
    obtain ⟨w, hw, hv⟩ := Option.bind_eq_some_iff.1 hv
    exact (hholds w hw).2.2 v hv

theorem ofFields?_eq_some_iff :
    ofFields? fields = some l ↔ Fits fields ∧ ∀ f, l.get f = f.inFile? fields := by
  constructor
  · intro h
    obtain ⟨l', hl', hget⟩ := ofFields?_of_fits (fits_of_ofFields? h)
    rw [h] at hl'
    cases hl'
    exact ⟨fits_of_ofFields? h, hget⟩
  · rintro ⟨hfits, hget⟩
    obtain ⟨l', hl', hget'⟩ := ofFields?_of_fits hfits
    rw [hl', Layer.ext_get fun f => (hget f).trans (hget' f).symm]

end Layer

end BemOutline.Settings

import BemOutline.Proofs.Results
import BemOutline.Proofs.Settings.Fields
import BemOutline.Settings.Load
import Mathlib.Tactic.SplitIfs

/-! Loading settings: which of the layers a field gets its value from, and what makes a run refuse
its settings. -/

namespace BemOutline.Settings

variable {find : String → Option File} {file? : Option String}
  {fields globalFields localFields : List (String × Toml)} {s s' : Settings} {l : Layer}
  {e : LoadError} {i : Invalid}

/-- A settings file holds certain fields, which all fit. One that is not there holds none. -/
inductive FileHolds (find : String → Option File) :
    Option String → List (String × Toml) → Prop where
  | unnamed : FileHolds find none []
  | missing {path : String} : find path = none → FileHolds find (some path) []
  | present {path text : String} {file : File} {fields : List (String × Toml)} :
    find path = some file → file.read = .ok text → Toml.read text = some fields →
      Layer.Fits fields → FileHolds find (some path) fields

/-- What is wrong with a settings file that is there. -/
inductive FileFault (find : String → Option File) : Option String → LoadError → Prop where
  | unreadable {path : String} {file : File} {reason : File.Unreadable} :
    find path = some file → file.read = .error reason →
      FileFault find (some path) (.unreadable path reason)
  | malformed {path text : String} {file : File} :
    find path = some file → file.read = .ok text →
      (∀ fields, Toml.read text = some fields → ¬ Layer.Fits fields) →
      FileFault find (some path) (.malformed path)

theorem Layer.read?_eq_some_iff {text : String} : Layer.read? text = some l ↔
    ∃ fields, Toml.read text = some fields ∧ Fits fields ∧ ∀ f, l.get f = f.inFile? fields := by
  simp only [Layer.read?, Option.bind_eq_some_iff, ofFields?_eq_some_iff]

theorem Layer.read?_eq_none_iff {text : String} : Layer.read? text = none ↔
    ∀ fields, Toml.read text = some fields → ¬ Fits fields := by
  constructor
  · intro h fields hread hfits
    obtain ⟨l, hl, -⟩ := ofFields?_of_fits hfits
    rw [Layer.read?, hread, Option.bind_some, hl] at h
    cases h
  · intro h
    rw [Option.eq_none_iff_forall_ne_some]
    intro l hl
    obtain ⟨fields, hread, hfits, -⟩ := Layer.read?_eq_some_iff.1 hl
    exact h fields hread hfits

theorem exists_layerAt?_of_fileHolds (h : FileHolds find file? fields) :
    ∃ l, layerAt? find file? = .ok l ∧ ∀ f, l.get f = f.inFile? fields := by
  cases h with
  | unnamed => exact ⟨{}, rfl, Layer.get_empty⟩
  | missing hfind =>
    refine ⟨{}, ?_, Layer.get_empty⟩
    rw [layerAt?, layerAt, hfind]
  | present hfind htext hread hfits =>
    obtain ⟨l, hl, hget⟩ := Layer.ofFields?_of_fits hfits
    refine ⟨l, ?_, hget⟩
    rw [layerAt?, layerAt, hfind]
    simp only [htext, Layer.read?, hread, Option.bind_some, hl]

theorem layerAt?_eq_ok_iff : layerAt? find file? = .ok l ↔
    ∃ fields, FileHolds find file? fields ∧ ∀ f, l.get f = f.inFile? fields := by
  constructor
  · intro h
    cases file? with
    | none =>
      cases h
      exact ⟨[], .unnamed, Layer.get_empty⟩
    | some path =>
      rw [layerAt?, layerAt] at h
      split at h
      · next hfind =>
        cases h
        exact ⟨[], .missing hfind, Layer.get_empty⟩
      · next file hfind =>
        split at h
        · cases h
        · next text htext =>
          split at h
          · cases h
          · next l' hl' =>
            cases h
            obtain ⟨fields, hread, hfits, hget⟩ := Layer.read?_eq_some_iff.1 hl'
            exact ⟨fields, .present hfind htext hread hfits, hget⟩
  · rintro ⟨fields, hfile, hget⟩
    obtain ⟨l', hl', hget'⟩ := exists_layerAt?_of_fileHolds hfile
    rw [hl', Layer.ext_get fun f => (hget f).trans (hget' f).symm]

theorem layerAt?_eq_error_iff : layerAt? find file? = .error e ↔ FileFault find file? e := by
  constructor
  · intro h
    cases file? with
    | none => cases h
    | some path =>
      rw [layerAt?, layerAt] at h
      split at h
      · cases h
      · next file hfind =>
        split at h
        · next reason htext =>
          cases h
          exact .unreadable hfind htext
        · next text htext =>
          split at h
          · next hnone =>
            cases h
            exact .malformed hfind htext (Layer.read?_eq_none_iff.1 hnone)
          · cases h
  · intro hfault
    cases hfault with
    | unreadable hfind htext =>
      rw [layerAt?, layerAt, hfind]
      simp only [htext]
    | malformed hfind htext hread =>
      have hnone := Layer.read?_eq_none_iff.2 hread
      rw [layerAt?, layerAt, hfind]
      simp only [htext, hnone]

structure Workable (s : Settings) : Prop where
  defaultTag : ¬ Text.allBlank s.defaultTag.toList
  modSeparator : s.modSeparator ≠ ""
  elemSeparator : s.elemSeparator ≠ ""
  maxDepth : s.maxDepth ≠ 0

/-- The first objection to settings. -/
inductive Refused (s : Settings) : Invalid → Prop where
  | blankTag : Text.allBlank s.defaultTag.toList → Refused s .blankTag
  | emptySeparator : ¬ Text.allBlank s.defaultTag.toList →
    s.modSeparator = "" ∨ s.elemSeparator = "" → Refused s .emptySeparator
  | zeroDepth : ¬ Text.allBlank s.defaultTag.toList → s.modSeparator ≠ "" →
    s.elemSeparator ≠ "" → s.maxDepth = 0 → Refused s .zeroDepth

theorem validate_eq_some_iff : s.validate = some i ↔ s.Refused i := by
  rw [validate]
  constructor
  · intro h
    split_ifs at h with htag hseparators hdepth
    · cases h
      exact .blankTag htag
    · cases h
      exact .emptySeparator htag hseparators
    · cases h
      obtain ⟨hmod, helem⟩ := not_or.1 hseparators
      exact .zeroDepth htag hmod helem hdepth
  · intro h
    cases h with
    | blankTag htag => rw [if_pos htag]
    | emptySeparator htag hseparators => rw [if_neg htag, if_pos hseparators]
    | zeroDepth htag hmod helem hdepth =>
      rw [if_neg htag, if_neg (not_or.2 ⟨hmod, helem⟩), if_pos hdepth]

theorem validate_eq_none_iff : s.validate = none ↔ s.Workable := by
  rw [Option.eq_none_iff_forall_ne_some]
  simp only [ne_eq, validate_eq_some_iff]
  constructor
  · intro h
    have htag : ¬ Text.allBlank s.defaultTag.toList := fun htag => h _ (.blankTag htag)
    have hmod : s.modSeparator ≠ "" := fun hmod => h _ (.emptySeparator htag (.inl hmod))
    have helem : s.elemSeparator ≠ "" := fun helem => h _ (.emptySeparator htag (.inr helem))
    exact ⟨htag, hmod, helem, fun hdepth => h _ (.zeroDepth htag hmod helem hdepth)⟩
  · intro hs i hi
    cases hi with
    | blankTag htag => exact hs.defaultTag htag
    | emptySeparator _ hseparators => exact hseparators.elim hs.modSeparator hs.elemSeparator
    | zeroDepth _ _ _ hdepth => exact hs.maxDepth hdepth

theorem validated_eq_ok_iff : validated s = .ok s' ↔ s = s' ∧ s.Workable := by
  rw [validated, ← validate_eq_none_iff]
  cases s.validate <;> simp

theorem validated_eq_error_iff : validated s = .error e ↔ ∃ i, s.Refused i ∧ e = .invalid i := by
  simp only [validated, ← validate_eq_some_iff]
  cases s.validate <;> simp [eq_comm]

/-- Settings in which every field has its value from the first source that has one for it: the
environment, the local file, the global file, the defaults. -/
def Resolved (env : Environment) (globalFields localFields : List (String × Toml))
    (s : Settings) : Prop :=
  ∀ f : Field, s.get f = (f.inEnvironment? env).or
    ((f.inFile? localFields).or ((f.inFile? globalFields).or (({} : Settings).get f)))

theorem resolved_iff_eq {globalLayer localLayer : Layer} (env : Environment)
    (hglobal : ∀ f, globalLayer.get f = f.inFile? globalFields)
    (hlocal : ∀ f, localLayer.get f = f.inFile? localFields) :
    Resolved env globalFields localFields s ↔
      ((({} : Settings).overlay globalLayer).overlay localLayer).overlay
        (Layer.ofEnvironment env) = s := by
  have hmerged : Resolved env globalFields localFields
      (((({} : Settings).overlay globalLayer).overlay localLayer).overlay
        (Layer.ofEnvironment env)) := by
    intro f
    rw [get_overlay, get_overlay, get_overlay, Layer.get_ofEnvironment, hglobal, hlocal]
  constructor
  · intro h
    exact ext_get fun f => (hmerged f).trans (h f).symm
  · rintro rfl
    exact hmerged

/-- Loading gives every field the value of the first source that has one for it, whatever the
sources say about other fields. It fails for a file that is there and cannot be read or holds
something unfit, the global one first, or else for the outcome alone. -/
theorem load_resolves (find : String → Option File) (env : Environment)
    (globalFile localFile : Option String) :
    (∀ s, load find env globalFile localFile = .ok s ↔
      ∃ globalFields localFields, FileHolds find globalFile globalFields ∧
        FileHolds find localFile localFields ∧ Resolved env globalFields localFields s ∧
        Workable s) ∧
    ∀ e, load find env globalFile localFile = .error e ↔
      FileFault find globalFile e ∨
      (∃ globalFields, FileHolds find globalFile globalFields) ∧ FileFault find localFile e ∨
      ∃ globalFields localFields s i, FileHolds find globalFile globalFields ∧
        FileHolds find localFile localFields ∧ Resolved env globalFields localFields s ∧
        Refused s i ∧ e = .invalid i := by
  constructor
  · intro s
    rw [load]
    simp only [bind_eq_ok_iff, layerAt?_eq_ok_iff, validated_eq_ok_iff]
    constructor
    · rintro ⟨globalLayer, ⟨globalFields, hglobal, hget⟩, localLayer, ⟨localFields, hlocal, hget'⟩,
        rfl, hworkable⟩
      have hresolved := (resolved_iff_eq env hget hget').2 rfl
      exact ⟨globalFields, localFields, hglobal, hlocal, hresolved, hworkable⟩
    · rintro ⟨globalFields, localFields, hglobal, hlocal, hresolved, hworkable⟩
      obtain ⟨globalLayer, -, hget⟩ := exists_layerAt?_of_fileHolds hglobal
      obtain ⟨localLayer, -, hget'⟩ := exists_layerAt?_of_fileHolds hlocal
      obtain rfl := (resolved_iff_eq env hget hget').1 hresolved
      exact ⟨globalLayer, ⟨globalFields, hglobal, hget⟩, localLayer, ⟨localFields, hlocal, hget'⟩,
        rfl, hworkable⟩
  · intro e
    rw [load]
    simp only [bind_eq_error_iff, layerAt?_eq_ok_iff, layerAt?_eq_error_iff,
      validated_eq_error_iff]
    constructor
    · rintro (hfault | ⟨globalLayer, ⟨globalFields, hglobal, hget⟩, hfault |
        ⟨localLayer, ⟨localFields, hlocal, hget'⟩, i, hi, rfl⟩⟩)
      · exact .inl hfault
      · exact .inr (.inl ⟨⟨globalFields, hglobal⟩, hfault⟩)
      · have hresolved := (resolved_iff_eq env hget hget').2 rfl
        exact .inr (.inr ⟨globalFields, localFields, _, i, hglobal, hlocal, hresolved, hi, rfl⟩)
    · rintro (hfault | ⟨⟨globalFields, hglobal⟩, hfault⟩ |
        ⟨globalFields, localFields, s, i, hglobal, hlocal, hresolved, hi, rfl⟩)
      · exact .inl hfault
      · obtain ⟨globalLayer, -, hget⟩ := exists_layerAt?_of_fileHolds hglobal
        exact .inr ⟨globalLayer, ⟨globalFields, hglobal, hget⟩, .inl hfault⟩
      · obtain ⟨globalLayer, -, hget⟩ := exists_layerAt?_of_fileHolds hglobal
        obtain ⟨localLayer, -, hget'⟩ := exists_layerAt?_of_fileHolds hlocal
        obtain rfl := (resolved_iff_eq env hget hget').1 hresolved
        exact .inr ⟨globalLayer, ⟨globalFields, hglobal, hget⟩, .inr
          ⟨localLayer, ⟨localFields, hlocal, hget'⟩, i, hi, rfl⟩⟩

/-- An unfit variable gives way to the files, and a depth of 0 below another one does no harm. -/
theorem load_resolves_layers :
    let find : String → Option File := fun path =>
      if path = "global" then some (.text "max_depth = 0\nloop_limit = 7")
      else some (.text "max_depth = 9\n[notifications]\nshow_info = false")
    let env : Environment :=
      [("BEMTOOLS__LOOP_LIMIT", "many"), ("BEMTOOLS__NOTIFICATIONS__SHOW_ERRORS", "off")]
    let s : Settings := { loopLimit := 7, maxDepth := 9, notifications := ⟨false, false⟩ }
    load find env (some "global") (some "local") = .ok s ∧
      ∃ globalFields localFields, FileHolds find (some "global") globalFields ∧
        FileHolds find (some "local") localFields ∧ Resolved env globalFields localFields s ∧
        Workable s := by
  intro find env s
  have hsome : (load find env (some "global") (some "local")).toOption = some s := by
    decide +kernel
  have hload : load find env (some "global") (some "local") = .ok s := by
    cases h : load find env (some "global") (some "local") with
    | error e =>
      rw [h] at hsome
      cases hsome
    | ok s' =>
      rw [h] at hsome
      exact congrArg Except.ok (Option.some.inj hsome)
  exact ⟨hload, ((load_resolves find env (some "global") (some "local")).1 s).1 hload⟩

end BemOutline.Settings

import BemOutline.Proofs.Conversion.Detection

/-! The notices of a conversion. The last one says how it ended, and the only one in front of it is
the warning about counts that were not all expanded. -/

namespace BemOutline.Conversion

open Expansion

variable {s : Settings} {text : String} {source target : Format} {converter : Converter}

/-- The formats that a request is about, as far as the text tells those that it does not name. -/
def Request.formats? (r : Request) (text : String) : Option (Format × Format) :=
  (r.source.or (Format.detect text)).map fun source =>
    (source, (r.target.or source.defaultTarget?).getD source)

theorem tryConvert_eq (s : Settings) (text : String) (r : Request) :
    tryConvert s text r =
      (r.formats? text).elim (.silent (.error .noSelection))
        fun p => convertFrom s text p.1 p.2 := by
  unfold tryConvert Request.formats?
  cases r.source.or (Format.detect text) <;> rfl

def Unfinished (s : Settings) (text : String) : Prop :=
  ∃ a, Outline.build s.defaultTag s.maxDepth text = .ok a ∧
    (expand s.expander a).2.isComplete = false

/-- Whether a request is about a conversion on offer that reads such an outline. -/
def Warned (s : Settings) (text : String) (r : Request) : Prop :=
  ∃ target, r.formats? text = some (.pseudocode, target) ∧
    (standard.get? .pseudocode target).isSome ∧ Unfinished s text

inductive Warns : List Notice → Prop → Prop
  | warning {P : Prop} (h : P) : Warns [tooManyNodes] P
  | nothing {P : Prop} (h : ¬ P) : Warns [] P

variable {w : List Notice} {P Q : Prop}

theorem Warns.congr (h : Warns w P) (heq : P ↔ Q) : Warns w Q := propext heq ▸ h

theorem warns_iff : Warns w P ↔ (w = [tooManyNodes] ∨ w = []) ∧ (tooManyNodes ∈ w ↔ P) := by
  constructor
  · rintro (h | h)
    · exact ⟨.inl rfl, iff_of_true (List.mem_singleton_self _) h⟩
    · exact ⟨.inr rfl, iff_of_false List.not_mem_nil h⟩
  · rintro ⟨rfl | rfl, h⟩
    · exact .warning (h.1 (List.mem_singleton_self _))
    · exact .nothing (h.not.1 List.not_mem_nil)

theorem warns_parseTree (s : Settings) (text : String) :
    Warns (parseTree s text).notices (Unfinished s text) := by
  unfold parseTree Unfinished
  cases Outline.build s.defaultTag s.maxDepth text with
  | error e => exact .nothing (by simp)
  | ok a =>
    cases hcomplete : (expand s.expander a).2.isComplete with
    | true => simpa [hcomplete] using Warns.nothing (P := False) not_false
    | false => simpa [hcomplete] using Warns.warning (P := True) trivial

namespace Outcome

variable {α β : Type} {o : Outcome α}

theorem andThen_ok {x : α} (h : o.result = .ok x) (f : α → Outcome β) :
    o.andThen f = ⟨o.notices ++ (f x).notices, o.log ++ (f x).log, (f x).result⟩ := by
  unfold andThen
  rw [h]

theorem andThen_error {e : ConversionError} (h : o.result = .error e) (f : α → Outcome β) :
    o.andThen f = ⟨o.notices, o.log, .error e⟩ := by
  unfold andThen
  rw [h]

theorem notices_andThen_silent (o : Outcome α) (f : α → Except ConversionError β) :
    (o.andThen fun x => .silent (f x)).notices = o.notices := by
  cases h : o.result with
  | error e => rw [andThen_error h]
  | ok x =>
    rw [andThen_ok h]
    exact List.append_nil _

end Outcome

theorem notices_fromOutline (s : Settings) (text : String) (target : Format) :
    (fromOutline s text target).notices = (parseTree s text).notices := by
  unfold fromOutline nodeOfOutline
  rw [Outcome.notices_andThen_silent, Outcome.notices_andThen_silent]

theorem notices_fromJson (s : Settings) (text : String) (target : Format) :
    (fromJson s text target).notices = [] := by
  unfold fromJson
  rw [Outcome.notices_andThen_silent]
  rfl

theorem warns_converter (h : standard.get? source target = some converter) (s : Settings)
    (text : String) :
    Warns (converter s text target).notices (source = .pseudocode ∧ Unfinished s text) := by
  obtain ⟨rfl, rfl⟩ | ⟨rfl, rfl⟩ := converter_of_standard h
  · rw [notices_fromOutline]
    exact (warns_parseTree s text).congr (by simp)
  · rw [notices_fromJson]
    exact .nothing (by simp)

theorem convertFrom_cases (s : Settings) (text : String) (source target : Format) :
    ∃ w, Warns w (source = .pseudocode ∧ (standard.get? source target).isSome ∧
        Unfinished s text) ∧
      ((∃ out log, convertFrom s text source target =
          ⟨w ++ [generated target], log, .ok ⟨source, target, out⟩⟩) ∨
        ∃ e log, convertFrom s text source target = ⟨w, log, .error e⟩) := by
  unfold convertFrom
  cases hconverter : standard.get? source target with
  | none => exact ⟨[], .nothing (by simp), .inr ⟨.unsupported source target, [], rfl⟩⟩
  | some converter =>
    refine ⟨_, (warns_converter hconverter s text).congr (by simp), ?_⟩
    dsimp only
    cases hresult : (converter s text target).result with
    | error e => exact .inr ⟨e, _, Outcome.andThen_error hresult _⟩
    | ok out => exact .inl ⟨out, _, Outcome.andThen_ok hresult _⟩

theorem tryConvert_cases (s : Settings) (text : String) (r : Request) :
    ∃ w, Warns w (Warned s text r) ∧
      ((∃ c log, tryConvert s text r = ⟨w ++ [generated c.target], log, .ok c⟩ ∧
          r.formats? text = some (c.source, c.target)) ∨
        ∃ e log, tryConvert s text r = ⟨w, log, .error e⟩) := by
  unfold Warned
  rw [tryConvert_eq]
  cases r.formats? text with
  | none => exact ⟨[], .nothing (by simp), .inr ⟨.noSelection, [], rfl⟩⟩
  | some p =>
    obtain ⟨source, target⟩ := p
    obtain ⟨w, hw, h⟩ := convertFrom_cases s text source target
    refine ⟨w, hw.congr ⟨?_, ?_⟩, ?_⟩
    · rintro ⟨rfl, hoffer, htext⟩
      exact ⟨target, rfl, hoffer, htext⟩
    · rintro ⟨target', heq, hoffer, htext⟩
      cases heq
      exact ⟨rfl, hoffer, htext⟩
    · rw [Option.elim_some]
      obtain ⟨out, log, h⟩ | h := h
      · exact .inl ⟨⟨source, target, out⟩, log, h, rfl⟩
      · exact .inr h

theorem displayName_eq (f : Format) : f.displayName = f.name.toUpper := by
  cases f <;> decide +kernel

/-- Every conversion gives one notice about its end, at most the warning in front of it, and no
other. Where a text is returned the notice names its format, else it is the error. -/
theorem notices_convert (s : Settings) (text : String) (r : Request) :
    ∃ w last, (convert s text r).1 = w ++ [last] ∧
      (w = [⟨.warning, "Too many nodes! Try to simplify your code."⟩] ∨ w = []) ∧
      (w ≠ [] ↔ Warned s text r) ∧
      (last.level = .info ↔ (convert s text r).2.isSome) ∧
      (last.level = .error ↔ (convert s text r).2 = none) ∧
      ((∃ c, (tryConvert s text r).result = .ok c ∧ (convert s text r).2 = some c ∧
          (tryConvert s text r).notices = w ++ [last] ∧
          r.formats? text = some (c.source, c.target) ∧
          last = ⟨.info, c.target.name.toUpper ++ " code has been generated."⟩) ∨
        ∃ e, (tryConvert s text r).result = .error e ∧ (convert s text r).2 = none ∧
          (tryConvert s text r).notices = w ∧ last = ⟨.error, e.message⟩) := by
  obtain ⟨w, hw, h⟩ := tryConvert_cases s text r
  obtain ⟨hform, hmem⟩ := warns_iff.1 hw
  have hwarned : w ≠ [] ↔ Warned s text r := by
    rw [← hmem]
    obtain rfl | rfl := hform <;> simp
  unfold convert report
  obtain ⟨c, log, h, hformats⟩ | ⟨e, log, h⟩ := h
  · rw [h]
    refine ⟨w, _, rfl, hform, hwarned, ?_, ?_, .inl ⟨c, rfl, rfl, rfl, hformats, ?_⟩⟩
    · simp [generated, Except.toOption]
    · simp [generated, Except.toOption]
    · rw [generated, displayName_eq]
  · rw [h]
    exact ⟨w, _, rfl, hform, hwarned, by simp [Except.toOption], by simp [Except.toOption],
      .inr ⟨e, rfl, rfl, rfl, rfl⟩⟩

/-- The warning in front of a text, and in front of an error. -/
theorem notices_convert_unfinished :
    let s : Settings := { maxNodes := some 2 }
    let flat : Settings := { maxNodes := some 2, maxDepth := 2 }
    let text := "ul\n  li--x*3"
    let r : Request := ⟨none, some .css⟩
    let warning : Notice := ⟨.warning, "Too many nodes! Try to simplify your code."⟩
    (Warned s text r ∧ (convert s text r).2.isSome ∧
      (convert s text r).1 = [warning, ⟨.info, "CSS code has been generated."⟩]) ∧
    Warned flat text r ∧ ∃ e, (tryConvert flat text r).result = .error e ∧
      (tryConvert flat text r).notices = [warning] ∧
      (convert flat text r).1 = [warning, ⟨.error, e.message⟩] := by
  intro s flat text r warning
  have hrequest : r.formats? text = some (.pseudocode, .css) := by decide +kernel
  have hsome : (convert s text r).2.isSome := by decide +kernel
  have hlength : (convert s text r).1.length = 2 := by decide +kernel
  have hnone : (convert flat text r).2 = none := by decide +kernel
  have hlength' : (convert flat text r).1.length = 2 := by decide +kernel
  constructor
  · obtain ⟨w, last, heq, rfl | rfl, hwarned, -, -, hend⟩ := notices_convert s text r
    · obtain ⟨c, -, -, -, hformats, rfl⟩ | ⟨e, -, h, -⟩ := hend
      · have htarget : Format.css = c.target :=
          congrArg Prod.snd (Option.some.inj (hrequest.symm.trans hformats))
        refine ⟨hwarned.1 (List.cons_ne_nil _ _), hsome, ?_⟩
        rw [heq, ← htarget]
        decide +kernel
      · rw [h] at hsome
        cases hsome
    · rw [heq] at hlength
      cases hlength
  · obtain ⟨w, last, heq, rfl | rfl, hwarned, -, -, hend⟩ := notices_convert flat text r
    · obtain ⟨c, -, h, -⟩ | ⟨e, hresult, -, hnotices, rfl⟩ := hend
      · rw [hnone] at h
        cases h
      · exact ⟨hwarned.1 (List.cons_ne_nil _ _), e, hresult, hnotices, heq⟩
    · rw [heq] at hlength'
      cases hlength'

end BemOutline.Conversion

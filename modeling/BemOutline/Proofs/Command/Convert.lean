import BemOutline.Command.Arguments
import BemOutline.Command.Run
import BemOutline.Files.Tree

/-! A run that converts either delivers its whole output or leaves the files and the standard output
alone, and its exit code names the first of its stages that failed. An output path that leads to a
stream instead of a file is a delivery too, with no file changed. -/

namespace BemOutline.Command

open Conversion (Converted Request tryConvert)

variable {w : Surroundings} {i : Invocation} {request : Request} {input output : Option String}
  {s : Settings} {text : String} {c : Converted} {e : ConversionError} {code : Nat}
  {t : Files.Tree} {dir : Files.Location}

/-- Where a run can write a file there is a place for it in a tree, seen from a directory. A path
that leads to a stream is outside the tree. -/
def Surroundings.Within (w : Surroundings) (t : Files.Tree) (dir : Files.Location) : Prop :=
  ∀ path, w.stream? path = none → w.accepts path = true → t.accepts dir path = true

def Outcome.filesAfter (o : Outcome) (t : Files.Tree) (dir : Files.Location) : Files.Tree :=
  match o.written.bind fun f => (t.locate dir f.1).map fun l => (l, f.2) with
  | none => t
  | some (l, text) => t.put l (.text text)

/-- A text has been printed with all files as they were, or it is all that one file holds, with
nothing printed and all other files as they were. A text for a stream comes out there. -/
def Outcome.Delivered (o : Outcome) (w : Surroundings) (t : Files.Tree) (dir : Files.Location)
    (text : String) : Option String → Prop
  | none => o.stdout = text ∧ o.filesAfter t dir = t
  | some path =>
    match w.stream? path with
    | none => o.stdout = "" ∧ ∃ l, t.locate dir path = some l ∧
        (o.filesAfter t dir).at? l = some (.text text) ∧
        ∀ l', l' ≠ l → (o.filesAfter t dir).at? l' = t.at? l'
    | some .stdout => o.stdout = text ∧ o.filesAfter t dir = t
    | some .stderr => o.stdout = "" ∧ (∃ x y, o.stderr = x ++ text ++ y) ∧ o.filesAfter t dir = t
    | some .sink => o.stdout = "" ∧ o.filesAfter t dir = t

theorem Outcome.filesAfter_failed (notices : String) (log : List String) (f : Failure) :
    (failed notices log f).filesAfter t dir = t := rfl

theorem exists_locate_of_accepts {path : String} (h : t.accepts dir path = true) :
    ∃ l, t.locate dir path = some l ∧ l ≠ [] := by
  rw [Files.Tree.accepts] at h
  cases hl : t.locate dir path with
  | none =>
    rw [hl] at h
    cases h
  | some l =>
    rw [hl] at h
    refine ⟨l, rfl, ?_⟩
    rintro rfl
    exact absurd rfl (of_decide_eq_true h)

theorem at?_put_self {l : Files.Location} (hl : l ≠ []) (f : File) :
    (t.put l f).at? l = some f := by
  rw [Files.Tree.at?, if_neg hl, Files.Tree.put, Files.Tree.lookup, if_pos rfl]

theorem at?_put_of_ne {l l' : Files.Location} (h : l' ≠ l) (f : File) :
    (t.put l f).at? l' = t.at? l' := by
  rw [Files.Tree.at?, Files.Tree.at?, Files.Tree.put, Files.Tree.lookup, if_neg (Ne.symm h)]

theorem delivered_deliver_file {path : String} (hw : w.Within t dir)
    (hstream : w.stream? path = none) (hpath : w.accepts path = true) (notices : String)
    (log : List String) (text : String) :
    (deliver w notices log text (some path)).exitCode = 0 ∧
      (deliver w notices log text (some path)).Delivered w t dir text (some path) := by
  have heq : deliver w notices log text (some path) =
      { stderr := notices ++ ("✓ wrote " ++ path ++ "\n"), log, written := some (path, text) } := by
    rw [deliver, if_pos hpath]
    simp only [hstream]
  obtain ⟨l, hl, hne⟩ := exists_locate_of_accepts (hw path hstream hpath)
  have hfiles : (deliver w notices log text (some path)).filesAfter t dir =
      t.put l (.text text) := by
    rw [heq, Outcome.filesAfter, Option.bind_some, hl]
    rfl
  unfold Outcome.Delivered
  simp only [hstream]
  refine ⟨?_, ?_, l, hl, ?_⟩
  · rw [heq]
    rfl
  · rw [heq]
  · rw [hfiles]
    exact ⟨at?_put_self hne _, fun l' hl' => at?_put_of_ne hl' _⟩

theorem delivered_deliver (hw : w.Within t dir) (notices : String) (log : List String)
    (text : String) (haccepts : ∀ path, output = some path → w.accepts path = true) :
    (deliver w notices log text output).exitCode = 0 ∧
      (deliver w notices log text output).Delivered w t dir text output := by
  cases output with
  | none => exact ⟨rfl, rfl, rfl⟩
  | some path =>
    have hpath := haccepts path rfl
    cases hstream : w.stream? path with
    | none => exact delivered_deliver_file hw hstream hpath notices log text
    | some stream =>
      unfold Outcome.Delivered
      rw [deliver, if_pos hpath]
      simp only [hstream]
      cases stream with
      | stdout => exact ⟨rfl, rfl, rfl⟩
      | stderr => exact ⟨rfl, rfl, ⟨_, _, rfl⟩, rfl⟩
      | sink => exact ⟨rfl, rfl, rfl⟩

def Surroundings.loadedAt (w : Surroundings) (dir : String) : Except Settings.LoadError Settings :=
  Settings.load w.find w.environment w.globalFile (some (Settings.localPath dir))

def Settled (w : Surroundings) (i : Invocation) (s : Settings) : Prop :=
  ∃ dir, w.projectDir? i = some dir ∧ w.loadedAt dir = .ok s

inductive InputHolds (w : Surroundings) : Option String → String → Prop where
  | stdin {text : String} : w.input = some text → InputHolds w none text
  | file {path text : String} {file : File} :
    w.find path = some file → file.read = .ok text → InputHolds w (some path) text

inductive InputMissing (w : Surroundings) : Option String → Prop where
  | file {path : String} : w.find path = none → InputMissing w (some path)

inductive InputUnreadable (w : Surroundings) : Option String → Prop where
  | stdin : w.input = none → InputUnreadable w none
  | file {path : String} {file : File} {reason : File.Unreadable} :
    w.find path = some file → file.read = .error reason → InputUnreadable w (some path)

structure Converts (w : Surroundings) (i : Invocation) (request : Request)
    (input output : Option String) (c : Converted) : Prop where
  stages : ∃ s text, Settled w i s ∧ InputHolds w input text ∧
    (tryConvert s text request).result = .ok c
  accepts : ∀ path, output = some path → w.accepts path = true

/-- The exit code for the first stage of a conversion that fails. -/
inductive Fault (w : Surroundings) (i : Invocation) (request : Request) :
    Option String → Option String → Nat → Prop where
  | noDirectory {input output : Option String} :
    w.projectDir? i = none → Fault w i request input output 74
  | settings {dir : String} {e : Settings.LoadError} {input output : Option String} :
    w.projectDir? i = some dir → w.loadedAt dir = .error e → Fault w i request input output 78
  | missing {s : Settings} {input output : Option String} :
    Settled w i s → InputMissing w input → Fault w i request input output 66
  | unreadable {s : Settings} {input output : Option String} :
    Settled w i s → InputUnreadable w input → Fault w i request input output 74
  | conversion {s : Settings} {text : String} {e : ConversionError} {input output : Option String} :
    Settled w i s → InputHolds w input text → (tryConvert s text request).result = .error e →
      Fault w i request input output 1
  | unwritable {s : Settings} {text path : String} {c : Converted} {input : Option String} :
    Settled w i s → InputHolds w input text → (tryConvert s text request).result = .ok c →
      w.accepts path = false → Fault w i request input (some path) 73

theorem inputText_of_holds (h : InputHolds w input text) : w.inputText input = .ok text := by
  cases h with
  | stdin hin => simp only [Surroundings.inputText, hin]
  | file hfind hread =>
    simp only [Surroundings.inputText, hfind, hread]
    rfl

theorem inputText_of_missing (h : InputMissing w input) :
    ∃ path, w.inputText input = .error (.noInput path) := by
  cases h with
  | @file path hfind =>
    refine ⟨path, ?_⟩
    simp only [Surroundings.inputText, hfind]

theorem inputText_of_unreadable (h : InputUnreadable w input) :
    ∃ context, w.inputText input = .error (.unreadable context) := by
  cases h with
  | stdin hin =>
    refine ⟨"read stdin", ?_⟩
    simp only [Surroundings.inputText, hin]
  | @file path _ _ hfind hread =>
    refine ⟨"read " ++ path, ?_⟩
    simp only [Surroundings.inputText, hfind, hread]
    rfl

theorem holds_missing_or_unreadable (w : Surroundings) (input : Option String) :
    (∃ text, InputHolds w input text) ∨ InputMissing w input ∨ InputUnreadable w input := by
  cases input with
  | none =>
    cases hin : w.input with
    | none => exact .inr (.inr (.stdin hin))
    | some text => exact .inl ⟨text, .stdin hin⟩
  | some path =>
    cases hfind : w.find path with
    | none => exact .inr (.inl (.file hfind))
    | some file =>
      cases hread : file.read with
      | error reason => exact .inr (.inr (.file hfind hread))
      | ok text => exact .inl ⟨text, .file hfind hread⟩

theorem settled_or_fault (w : Surroundings) (i : Invocation) (request : Request)
    (input output : Option String) :
    (∃ s, Settled w i s) ∨ ∃ code, Fault w i request input output code := by
  cases hdir : w.projectDir? i with
  | none => exact .inr ⟨74, .noDirectory hdir⟩
  | some dir =>
    cases hload : w.loadedAt dir with
    | error e => exact .inr ⟨78, .settings hdir hload⟩
    | ok s => exact .inl ⟨s, dir, hdir, hload⟩

theorem exists_converts_or_fault (w : Surroundings) (i : Invocation) (request : Request)
    (input output : Option String) :
    (∃ c, Converts w i request input output c) ∨ ∃ code, Fault w i request input output code := by
  obtain ⟨s, hset⟩ | hfault := settled_or_fault w i request input output
  · obtain ⟨text, hin⟩ | hmissing | hunreadable := holds_missing_or_unreadable w input
    · cases hresult : (tryConvert s text request).result with
      | error e => exact .inr ⟨1, .conversion hset hin hresult⟩
      | ok c =>
        cases output with
        | none => exact .inl ⟨c, ⟨s, text, hset, hin, hresult⟩, nofun⟩
        | some path =>
          cases hpath : w.accepts path with
          | false => exact .inr ⟨73, .unwritable hset hin hresult hpath⟩
          | true =>
            refine .inl ⟨c, ⟨s, text, hset, hin, hresult⟩, ?_⟩
            rintro _ ⟨⟩
            exact hpath
    · exact .inr ⟨66, .missing hset hmissing⟩
    · exact .inr ⟨74, .unreadable hset hunreadable⟩
  · exact .inr hfault

theorem settings_of_projectDir {dir : String} (h : w.projectDir? i = some dir) :
    w.settings i = (w.loadedAt dir).mapError .settings := by
  simp only [Surroundings.settings, Surroundings.projectDir, h, Surroundings.loadedAt]

theorem settings_of_settled (h : Settled w i s) : w.settings i = .ok s := by
  obtain ⟨dir, hdir, hload⟩ := h
  rw [settings_of_projectDir hdir, hload]
  rfl

theorem run_of_settings_error {f : Failure} (htask : i.task = .convert request input output)
    (h : w.settings i = .error f) : run w i = .failed "" [] f := by
  rw [run, htask]
  simp only [withInput, h]

theorem run_of_inputText_error {f : Failure} (htask : i.task = .convert request input output)
    (hset : Settled w i s) (hin : w.inputText input = .error f) :
    run w i = .failed "" [] f := by
  rw [run, htask]
  simp only [withInput, settings_of_settled hset, hin]

theorem run_of_holds (htask : i.task = .convert request input output)
    (hset : Settled w i s) (hin : InputHolds w input text) :
    run w i = convertText w request output s text := by
  rw [run, htask]
  simp only [withInput, settings_of_settled hset, inputText_of_holds hin]

theorem convertText_of_ok (h : (tryConvert s text request).result = .ok c) :
    convertText w request output s text =
      deliver w (noticesText s.notifications (tryConvert s text request).notices)
        (tryConvert s text request).log c.output output := by
  simp only [convertText, Conversion.report, h]

theorem convertText_of_error (h : (tryConvert s text request).result = .error e) :
    convertText w request output s text =
      .failed (noticesText s.notifications
          ((tryConvert s text request).notices ++ [⟨.error, e.message⟩]))
        ((tryConvert s text request).log ++ ["conversion failed: " ++ e.message]) .noOutput := by
  simp only [convertText, Conversion.report, h]

theorem failed_of_fault (htask : i.task = .convert request input output)
    (h : Fault w i request input output code) :
    ∃ notices log f, run w i = .failed notices log f ∧ f.exitCode = code := by
  cases h with
  | noDirectory hdir =>
    refine ⟨"", [], .unreadable "resolve current directory", ?_, rfl⟩
    refine run_of_settings_error htask ?_
    simp only [Surroundings.settings, Surroundings.projectDir, hdir]
  | @settings dir e _ _ hdir hload =>
    refine ⟨"", [], .settings e, run_of_settings_error htask ?_, rfl⟩
    rw [settings_of_projectDir hdir, hload]
    rfl
  | missing hset hmissing =>
    obtain ⟨path, hin⟩ := inputText_of_missing hmissing
    exact ⟨"", [], .noInput path, run_of_inputText_error htask hset hin, rfl⟩
  | unreadable hset hunreadable =>
    obtain ⟨context, hin⟩ := inputText_of_unreadable hunreadable
    exact ⟨"", [], .unreadable context, run_of_inputText_error htask hset hin, rfl⟩
  | conversion hset hin hresult =>
    have hrun := (run_of_holds htask hset hin).trans (convertText_of_error hresult)
    exact ⟨_, _, .noOutput, hrun, rfl⟩
  | @unwritable s text path c _ hset hin hresult hpath =>
    have hdeliver : ∀ notices log,
        deliver w notices log c.output (some path) = .failed notices log (.cannotWrite path) :=
      fun _ _ => if_neg (by simp [hpath])
    have hrun := (run_of_holds htask hset hin).trans (convertText_of_ok hresult)
    exact ⟨_, _, .cannotWrite path, hrun.trans (hdeliver _ _), rfl⟩

theorem delivered_of_converts (hw : w.Within t dir) (htask : i.task = .convert request input output)
    (h : Converts w i request input output c) :
    (run w i).exitCode = 0 ∧ (run w i).Delivered w t dir c.output output := by
  obtain ⟨⟨s, text, hset, hin, hresult⟩, haccepts⟩ := h
  rw [run_of_holds htask hset hin, convertText_of_ok hresult]
  exact delivered_deliver hw _ _ _ haccepts

theorem Fault.code_ne_zero (h : Fault w i request input output code) : code ≠ 0 := by
  cases h <;> decide

/-- A conversion ends well just when all its stages succeed, and then its output is delivered. Or
else the exit code is that of the first stage that fails, nothing is printed, and the files stay as
they were; about a failed conversion there is no message but the notices, and a warning in the
log. -/
theorem run_convert (hw : w.Within t dir) (htask : i.task = .convert request input output) :
    ((run w i).exitCode = 0 ↔ ∃ c, Converts w i request input output c) ∧
    (∀ c, Converts w i request input output c → (run w i).Delivered w t dir c.output output) ∧
    (∀ code, code ≠ 0 → ((run w i).exitCode = code ↔ Fault w i request input output code)) ∧
    ((run w i).exitCode ≠ 0 → (run w i).stdout = "" ∧ (run w i).filesAfter t dir = t) ∧
    ∀ s text e, Settled w i s → InputHolds w input text →
      (tryConvert s text request).result = .error e →
      (run w i).stderr = noticesText s.notifications
          ((tryConvert s text request).notices ++ [⟨.error, e.message⟩]) ∧
        (run w i).log =
          (tryConvert s text request).log ++ ["conversion failed: " ++ e.message] := by
  have hends := exists_converts_or_fault w i request input output
  have hfault : ∀ {code}, Fault w i request input output code → (run w i).exitCode = code := by
    intro code h
    obtain ⟨notices, log, f, hrun, hcode⟩ := failed_of_fault htask h
    rw [hrun]
    exact hcode
  refine ⟨⟨fun hzero => ?_, ?_⟩, fun c h => (delivered_of_converts hw htask h).2,
    fun code hcode => ⟨fun hrun => ?_, hfault⟩, fun hrun => ?_, ?_⟩
  · obtain hconverts | ⟨code, h⟩ := hends
    · exact hconverts
    · exact absurd ((hfault h).symm.trans hzero) h.code_ne_zero
  · rintro ⟨c, h⟩
    exact (delivered_of_converts hw htask h).1
  · obtain ⟨c, h⟩ | ⟨code', h⟩ := hends
    · exact absurd (hrun.symm.trans (delivered_of_converts hw htask h).1) hcode
    · rwa [← hrun, hfault h]
  · obtain ⟨c, h⟩ | ⟨code, h⟩ := hends
    · exact absurd (delivered_of_converts hw htask h).1 hrun
    · obtain ⟨notices, log, f, hfailed, -⟩ := failed_of_fault htask h
      rw [hfailed]
      exact ⟨rfl, Outcome.filesAfter_failed notices log f⟩
  · intro s text e hset hin hresult
    rw [run_of_holds htask hset hin, convertText_of_error hresult]
    refine ⟨?_, rfl⟩
    rw [Outcome.failed, Failure.report, String.append_empty]

/-- A page is written to a new file. Of a picture that should be converted to a file in a directory
that is missing, the first fault counts. -/
theorem run_convert_page :
    let t : Files.Tree := ⟨[(["page"], .text "menu\n item*2"), (["picture"], .binary)]⟩
    let w : Surroundings :=
      { workDir := some "", globalFile := none, find := t.find? [], accepts := t.accepts [] }
    let i : Invocation := ⟨.convert {} (some "page") (some "page.html"), none, 0⟩
    let i' : Invocation := ⟨.convert {} (some "picture") (some "no/page.html"), none, 0⟩
    w.Within t [] ∧
    (readArguments ["convert", "-i", "page", "-o", "page.html"]).toOption = some i ∧
    (run w i).exitCode = 0 ∧
    (∃ c, Converts w i {} (some "page") (some "page.html") c ∧
      (run w i).Delivered w t [] c.output (some "page.html")) ∧
    (readArguments ["convert", "-i", "picture", "-o", "no/page.html"]).toOption = some i' ∧
    (run w i').exitCode = 74 ∧ Fault w i' {} (some "picture") (some "no/page.html") 74 ∧
    (run w i').stdout = "" ∧ (run w i').filesAfter t [] = t := by
  intro t w i i'
  have hw : w.Within t [] := fun _ _ h => h
  have hzero : (run w i).exitCode = 0 := by decide +kernel
  have hcode : (run w i').exitCode = 74 := by decide +kernel
  obtain ⟨hends, hdelivers, -⟩ := run_convert hw (i := i) rfl
  obtain ⟨-, -, hfaults, hfails, -⟩ := run_convert hw (i := i') rfl
  obtain ⟨c, hconverts⟩ := hends.1 hzero
  have hsilent := hfails (by rw [hcode]; decide)
  exact ⟨hw, by decide +kernel, hzero, ⟨c, hconverts, hdelivers c hconverts⟩, by decide +kernel,
    hcode, (hfaults 74 (by decide)).1 hcode, hsilent.1, hsilent.2⟩

/-- Three ends of a run besides: a text for a path that leads to the standard output is printed, a
run that has no directory to look for settings in ends with 74 although its input is readable, and
the log tells of a failed conversion. -/
theorem run_convert_elsewhere :
    let t : Files.Tree := ⟨[]⟩
    let w : Surroundings :=
      { workDir := some "", globalFile := none, input := some "menu", find := t.find? []
        accepts := fun path => path = "/dev/stdout"
        stream? := fun path => if path = "/dev/stdout" then some .stdout else none }
    let i : Invocation := ⟨.convert {} none (some "/dev/stdout"), none, 0⟩
    w.Within t [] ∧
    (readArguments ["convert", "-o", "/dev/stdout"]).toOption = some i ∧
    (run w i).exitCode = 0 ∧ (run w i).stdout = "<div class=\"menu\"></div>\n" ∧
    InputHolds { w with workDir := none } none "menu" ∧
    (run { w with workDir := none } i).exitCode = 74 ∧
    (run { w with input := some "" } i).exitCode = 1 ∧
    (run { w with input := some "" } i).log =
      ["conversion failed: Please select a valid code."] := by
  refine ⟨fun path hstream hpath => ?_, by decide +kernel, by decide +kernel, by decide +kernel,
    .stdin rfl, by decide +kernel, by decide +kernel, by decide +kernel⟩
  rw [of_decide_eq_true hpath] at hstream
  cases hstream

end BemOutline.Command

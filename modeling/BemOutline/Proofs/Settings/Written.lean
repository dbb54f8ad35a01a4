import BemOutline.Proofs.Settings.Resolution
import BemOutline.Proofs.Toml.Documents
import BemOutline.Settings.Document

/-! The document that settings are written as is read back as a layer that gives each field its
value again. -/

namespace BemOutline.Settings

open Toml (PairLine Value IsBare writeText maxMagnitude)

variable {s : Settings}

structure Writable (s : Settings) : Prop where
  loopLimit : s.loopLimit ≤ Nat.pow 2 63 - 1
  maxNodes : ∀ n, s.maxNodes = some n → n ≤ Nat.pow 2 63 - 1
  maxDepth : s.maxDepth ≤ Nat.pow 2 63 - 1

theorem fitsDocument_iff : s.fitsDocument = true ↔ Writable s := by
  have hmax : maxWritten = Nat.pow 2 63 - 1 := rfl
  have hnodes : s.maxNodes.all (· ≤ maxWritten) = true ↔
      ∀ n, s.maxNodes = some n → n ≤ Nat.pow 2 63 - 1 := by
    cases s.maxNodes <;> simp [hmax]
  rw [fitsDocument, Bool.and_eq_true, Bool.and_eq_true, decide_eq_true_eq, decide_eq_true_eq,
    hnodes, hmax]
  exact ⟨fun ⟨⟨hloop, hnodes⟩, hdepth⟩ => ⟨hloop, hnodes, hdepth⟩,
    fun h => ⟨⟨h.loopLimit, h.maxNodes⟩, h.maxDepth⟩⟩

def textPair (key s : String) : PairLine := ⟨key, writeText s, .str s⟩

def natPair (key : String) (n : Nat) : PairLine := ⟨key, Nat.toDigits 10 n, .int n⟩

def boolPair (key : String) (b : Bool) : PairLine :=
  ⟨key, (if b then "true" else "false").toList, .bool b⟩

theorem sound_textPair {key : String} (hkey : IsBare key.toList) (s : String) :
    (textPair key s).Sound where
  bare := hkey
  value := Toml.value_writeText s
  noReturn h := by
    rcases Toml.isLineChar_of_mem_writeText h with hline | hbreak
    · cases hline
    · cases hbreak

theorem sound_natPair {key : String} {n : Nat} (hkey : IsBare key.toList) (hn : n ≤ maxMagnitude) :
    (natPair key n).Sound where
  bare := hkey
  value := Toml.value_toDigits hn
  noReturn h := Bool.false_ne_true (Text.isDigit_of_mem_toDigits h)

theorem sound_boolPair {key : String} (hkey : IsBare key.toList) (b : Bool) :
    (boolPair key b).Sound where
  bare := hkey
  value := Toml.value_bool b
  noReturn := by
    cases b <;> simp [boolPair]

def pairs (s : Settings) : List PairLine :=
  [textPair "default_tag" s.defaultTag, textPair "mod_separator" s.modSeparator,
    textPair "elem_separator" s.elemSeparator, textPair "indent" s.indent,
    textPair "expansion" s.expansion.name, natPair "loop_limit" s.loopLimit] ++
  (s.maxNodes.map (natPair "max_nodes")).toList ++ [natPair "max_depth" s.maxDepth]

def flagPairs (n : Notifications) : List PairLine :=
  [boolPair "show_errors" n.showErrors, boolPair "show_info" n.showInfo]

theorem documentChars_eq (s : Settings) :
    s.documentChars = s.pairs.flatMap PairLine.chars ++
      '\n' :: '[' :: ("notifications".toList ++ [']', '\n']) ++
        (flagPairs s.notifications).flatMap PairLine.chars := by
  have htable : "\n[notifications]\n".toList =
      '\n' :: '[' :: ("notifications".toList ++ [']', '\n']) := by decide
  rw [documentChars, htable]
  cases hnodes : s.maxNodes <;>
    simp [pairs, flagPairs, hnodes, textLine, natLine, boolLine, pairLine, PairLine.chars, textPair,
      natPair, boolPair]

/-- The fields that the document has for its reader. -/
def writtenFields (s : Settings) : List (String × Toml) :=
  s.pairs.map PairLine.field ++
    [("notifications", .table ((flagPairs s.notifications).map PairLine.field))]

theorem read_documentChars (h : Writable s) :
    Toml.read (String.ofList s.documentChars) = some s.writtenFields := by
  have hkeys : (s.pairs.map PairLine.key ++ ["notifications"]).Nodup := by
    rw [pairs]
    cases s.maxNodes <;> simp [textPair, natPair]
  have hflagKeys : ((flagPairs s.notifications).map PairLine.key).Nodup := by
    simp [flagPairs, boolPair]
  have hpairs : ∀ p ∈ s.pairs, p.Sound := by
    simp only [pairs, List.mem_append, List.mem_cons, List.not_mem_nil, or_false,
      Option.mem_toList, Option.map_eq_some_iff]
    rintro p (((rfl | rfl | rfl | rfl | rfl | rfl) | ⟨n, hn, rfl⟩) | rfl)
    · exact sound_textPair (by decide) _
    · exact sound_textPair (by decide) _
    · exact sound_textPair (by decide) _
    · exact sound_textPair (by decide) _
    · exact sound_textPair (by decide) _
    · exact sound_natPair (by decide) h.loopLimit
    · exact sound_natPair (by decide) (h.maxNodes n hn)
    · exact sound_natPair (by decide) h.maxDepth
  have hflags : ∀ p ∈ flagPairs s.notifications, p.Sound := by
    simp only [flagPairs, List.mem_cons, List.not_mem_nil, or_false]
    rintro p (rfl | rfl)
    · exact sound_boolPair (by decide) _
    · exact sound_boolPair (by decide) _
  rw [Toml.read, String.toList_ofList, documentChars_eq]
  exact PairLine.readChars_pairs hpairs (by decide) hflags hkeys hflagKeys

def toLayer (s : Settings) : Layer :=
  { defaultTag := s.defaultTag
    modSeparator := s.modSeparator
    elemSeparator := s.elemSeparator
    indent := s.indent
    expansion := s.expansion
    loopLimit := s.loopLimit
    maxNodes := s.maxNodes
    maxDepth := s.maxDepth
    showErrors := s.notifications.showErrors
    showInfo := s.notifications.showInfo }

theorem get_toLayer (s : Settings) (f : Field) : s.toLayer.get f = s.get f := by
  cases f <;> rfl

def Kind.toToml : (k : Kind) → k.Value → Toml
  | .text, s => .str s
  | .mode, m => .str m.name
  | .number, n => .int n
  | .flag, b => .bool b

theorem Kind.ofToml?_toToml (k : Kind) (x : k.Value) : k.ofToml? (k.toToml x) = some x := by
  cases k with
  | text => rfl
  | mode => cases x <;> rfl
  | number => exact if_pos (e := none) (Int.natCast_nonneg x)
  | flag => rfl

theorem written?_writtenFields (s : Settings) (f : Field) :
    f.written? s.writtenFields = (s.get f).map f.kind.toToml := by
  obtain ⟨_, _, _, _, _, _, maxNodes, _, _⟩ := s
  cases maxNodes <;> cases f <;> rfl

theorem fits_writtenFields (s : Settings) : Layer.Fits s.writtenFields where
  value f v hv := by
    rw [written?_writtenFields] at hv
    obtain ⟨x, -, rfl⟩ := Option.map_eq_some_iff.1 hv
    rw [Kind.ofToml?_toToml]
    exact Option.some_ne_none x
  notifications v hv := by
    have hlast : Toml.field? "notifications" s.writtenFields =
        some (.table ((flagPairs s.notifications).map PairLine.field)) := by
      obtain ⟨_, _, _, _, _, _, maxNodes, _, _⟩ := s
      cases maxNodes <;> rfl
    rw [hlast] at hv
    cases hv
    rfl

theorem inFile?_writtenFields (s : Settings) (f : Field) :
    f.inFile? s.writtenFields = s.get f := by
  rw [Field.inFile?, written?_writtenFields]
  cases s.get f with
  | none => rfl
  | some x => exact Kind.ofToml?_toToml f.kind x

theorem overlay_toLayer (s b : Settings) :
    b.overlay s.toLayer = { s with maxNodes := s.maxNodes.or b.maxNodes } := rfl

/-- Settings are written as a document that gives them back on top of any others, but for a bound on
the nodes that they leave open; a number too great for the format is refused. -/
theorem document_overlay (s : Settings) :
    (Writable s → ∃ text l, s.document = .ok text ∧ Layer.read? text = some l ∧
      ∀ b : Settings, b.overlay l = { s with maxNodes := s.maxNodes.or b.maxNodes }) ∧
    (¬ Writable s → s.document = .error .tooLarge) := by
  constructor
  · intro h
    refine ⟨String.ofList s.documentChars, s.toLayer, ?_, ?_, s.overlay_toLayer⟩
    · rw [document, if_pos (fitsDocument_iff.2 h)]
    · rw [Layer.read?_eq_some_iff]
      refine ⟨s.writtenFields, read_documentChars h, s.fits_writtenFields, fun f => ?_⟩
      rw [get_toLayer, inFile?_writtenFields]
  · intro h
    rw [document, if_neg fun hfits => h (fitsDocument_iff.1 hfits)]

/-- Texts with quotes, breaks and control characters, a bound on the nodes that is left open, and a
number of steps just too great. -/
theorem document_overlay_quoted :
    let s : Settings :=
      { defaultTag := "it's a \"\"\"tag\"", modSeparator := "\\n", elemSeparator := "a\r\n\u0001",
        indent := "\t'''\n" }
    Writable s ∧
    (∃ text l, s.document = .ok text ∧ Layer.read? text = some l ∧
      ∀ b : Settings, b.overlay l = { s with maxNodes := none.or b.maxNodes }) ∧
    ¬ Writable { s with loopLimit := Nat.pow 2 63 } ∧
    document { s with loopLimit := Nat.pow 2 63 } = .error .tooLarge := by
  intro s
  have hwritable : Writable s := ⟨by decide, by simp [s], by decide⟩
  have hlarge : ¬ Writable { s with loopLimit := Nat.pow 2 63 } :=
    fun h => absurd h.loopLimit (by decide)
  exact ⟨hwritable, (document_overlay s).1 hwritable, hlarge, (document_overlay _).2 hlarge⟩

end BemOutline.Settings

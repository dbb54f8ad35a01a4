import BemOutline.Proofs.Line.Grammar
import BemOutline.Proofs.Outline.Reference
import BemOutline.Proofs.Results

/-! What leaves no trace in a document: the ends of the lines, and lines that name nothing. Among
other lines the latter only move the numbers of those behind them. -/

namespace BemOutline

def OutlineError.renumbered (f : Nat → Nat) : OutlineError → OutlineError
  | malformedLine number line => malformedLine (f number) line
  | multipleRoots number line => multipleRoots (f number) line
  | e => e

namespace Outline

variable {defaultTag : List Char} {limit number : Nat} {extra : Nat → List (List Char)}

/-- A line that names nothing: it is blank, or its token starts with a star or a double dash where
the name should be. -/
def IsNoise (line : List Char) : Prop :=
  Text.allBlank line ∨ ¬ Line.Malformed line ∧ Line.AtMark (Line.classPart line)

instance : DecidablePred IsNoise := fun _ => inferInstanceAs (Decidable (_ ∨ _))

/-- Lines with others put in front of them, and behind the last. -/
def interleave (extra : Nat → List (List Char)) : Nat → List (List Char) → List (List Char)
  | k, [] => extra k
  | k, line :: lines => extra k ++ line :: interleave extra (k + 1) lines

def withLines (extra : Nat → List (List Char)) (text : String) : String :=
  String.ofList (['\n'].intercalate (interleave extra 0 (text.toList.splitOn '\n')))

def moved (extra : Nat → List (List Char)) (number : Nat) : Nat :=
  number + ((List.range number).flatMap extra).length

/-- A text with a carriage return in front of each of its line feeds. -/
def withReturns (text : String) : String :=
  String.ofList (text.toList.flatMap fun c => if c = '\n' then ['\r', '\n'] else [c])

section Renumbered

variable (f : Nat → Nat)

theorem parseChars_renumbered (seen : Bool) (line : List Char) :
    Line.parseChars defaultTag (f number) seen line =
      (Line.parseChars defaultTag number seen line).mapError (·.renumbered f) := by
  rw [Line.parseChars_eq, Line.parseChars_eq]
  split
  · rfl
  · split
    · rfl
    · split <;> rfl

theorem climb_renumbered (a : Arena) (depth steps : Nat) (id : NodeId) :
    (climb a depth limit steps id).mapError (·.renumbered f) = climb a depth limit steps id := by
  induction steps generalizing id with
  | zero => rfl
  | succ steps ih =>
    rw [climb]
    split
    · rfl
    · split
      · rfl
      · exact ih _

theorem parentFor_renumbered (a : Arena) (last : NodeId) (l : Line) :
    parentFor a last limit (f number) l =
      (parentFor a last limit number l).mapError (·.renumbered f) := by
  rw [parentFor, parentFor]
  split
  · rfl
  · split
    · split <;> rfl
    · exact (climb_renumbered f ..).symm

theorem place_renumbered (p : Progress) (line : List Char) :
    place defaultTag limit (f number) p line =
      (place defaultTag limit number p line).mapError (·.renumbered f) := by
  rw [place, place]
  split
  · rfl
  · rw [mapError_bind, parseChars_renumbered f]
    cases Line.parseChars defaultTag number p.last.isSome line with
    | error e => rfl
    | ok parsed =>
      cases parsed with
      | none => rfl
      | some l =>
        cases hlast : p.last with
        | none => rfl
        | some last =>
          change (parentFor p.arena last limit (f number) l >>= _) =
            Except.mapError _ (parentFor p.arena last limit number l >>= _)
          rw [mapError_bind, parentFor_renumbered f]
          rfl

end Renumbered

theorem place_of_isNoise {line : List Char} (h : IsNoise line) (p : Progress) :
    place defaultTag limit number p line = .ok p := by
  rw [place]
  rcases h with h | ⟨hfault, hmark⟩
  · rw [if_pos h]
  · rw [Line.parseChars_of_not_malformed hfault, if_pos hmark]
    exact ite_self _

variable (defaultTag limit) in
theorem placeAll_of_isNoise {ns : List (List Char)} (h : ∀ line ∈ ns, IsNoise line)
    (p : Progress) (lines : List (List Char)) :
    placeAll defaultTag limit number p (ns ++ lines) =
      placeAll defaultTag limit (number + ns.length) p lines := by
  induction ns generalizing number with
  | nil => rfl
  | cons line ns ih =>
    rw [List.forall_mem_cons] at h
    have hrest : placeAll defaultTag limit (number + 1) p (ns ++ lines) = _ := ih h.2
    rw [List.cons_append, placeAll, place_of_isNoise h.1, List.length_cons, ← Nat.add_assoc,
      Nat.add_right_comm, ← hrest]
    rfl

theorem moved_succ (extra : Nat → List (List Char)) (k : Nat) :
    moved extra (k + 1) = moved extra k + 1 + (extra k).length := by
  rw [moved, moved, List.range_succ, List.flatMap_append, List.length_append,
    List.flatMap_singleton]
  omega

variable (defaultTag limit) in
theorem placeAll_interleave (h : ∀ k, ∀ line ∈ extra k, IsNoise line) (p : Progress)
    (lines : List (List Char)) (k : Nat) :
    placeAll defaultTag limit (moved extra k + 1) p (interleave extra k lines) =
      (placeAll defaultTag limit (k + 1) p lines).mapError (·.renumbered (moved extra)) := by
  induction lines generalizing p k with
  | nil =>
    rw [interleave, ← List.append_nil (extra k), placeAll_of_isNoise _ _ (h k)]
    rfl
  | cons line lines ih =>
    rw [interleave, placeAll_of_isNoise _ _ (h k), ← moved_succ, placeAll, placeAll, mapError_bind,
      place_renumbered (moved extra)]
    exact congrArg _ (funext fun p => ih p (k + 1))

theorem interleave_ne_nil {lines : List (List Char)} (h : lines ≠ []) (k : Nat) :
    interleave extra k lines ≠ [] := by
  cases lines with
  | nil => exact absurd rfl h
  | cons line lines => simp [interleave]

theorem mem_interleave {lines : List (List Char)} {line : List Char} {k : Nat}
    (hline : line ∈ interleave extra k lines) : line ∈ lines ∨ ∃ i, line ∈ extra i := by
  induction lines generalizing k with
  | nil => exact .inr ⟨k, hline⟩
  | cons l lines ih =>
    rcases List.mem_append.1 hline with hline | hline
    · exact .inr ⟨k, hline⟩
    · rcases List.mem_cons.1 hline with rfl | hline
      · exact .inl List.mem_cons_self
      · exact (ih hline).imp_left (List.mem_cons_of_mem _)

theorem map_interleave (g : List Char → List Char) (lines : List (List Char)) (k : Nat) :
    (interleave extra k lines).map g = interleave (fun i => (extra i).map g) k (lines.map g) := by
  induction lines generalizing k with
  | nil => rfl
  | cons line lines ih => simp [interleave, ih]

theorem moved_map (g : List Char → List Char) (extra : Nat → List (List Char)) :
    moved (fun i => (extra i).map g) = moved extra := by
  funext number
  rw [moved, moved, ← List.map_flatMap, List.length_map]

theorem linesOf_withLines (h : ∀ k, ∀ line ∈ extra k, '\n' ∉ line) (text : String) :
    linesOf (withLines extra text).toList =
      interleave (fun k => (extra k).map dropReturn) 0 (linesOf text.toList) := by
  have hbreak : ∀ line ∈ interleave extra 0 (text.toList.splitOn '\n'), '\n' ∉ line := by
    intro line hline hmem
    rcases mem_interleave hline with hline | ⟨k, hline⟩
    · exact (Text.mem_of_mem_splitOn hline hmem).2 rfl
    · exact h k line hline hmem
  rw [linesOf, linesOf, withLines, String.toList_ofList, Text.splitAtChar_eq_splitOn,
    Text.splitAtChar_eq_splitOn,
    List.splitOn_intercalate _ hbreak (interleave_ne_nil (List.splitOn_ne_nil _ _) 0),
    map_interleave]

theorem dropReturn_of_not_mem {line : List Char} (h : '\r' ∉ line) : dropReturn line = line :=
  dropReturn_of_getLast?_ne (mt List.mem_of_getLast? h)

theorem dropReturn_cons {c : Char} (hc : c ≠ '\r') (line : List Char) :
    dropReturn (c :: line) = c :: dropReturn line := by
  cases line with
  | nil => exact dropReturn_of_not_mem (by simpa using hc.symm)
  | cons d line =>
    rw [dropReturn, dropReturn, List.getLast?_cons_cons, List.dropLast_cons_cons]
    split <;> rfl

theorem linesOf_withReturns {text : String} (h : '\r' ∉ text.toList) :
    linesOf (withReturns text).toList = linesOf text.toList := by
  rw [linesOf, linesOf, withReturns, String.toList_ofList, Text.splitAtChar_eq_splitOn,
    Text.splitAtChar_eq_splitOn]
  generalize text.toList = cs at h
  induction cs with
  | nil => rfl
  | cons c cs ih =>
    rw [List.mem_cons, not_or] at h
    have hcs := ih h.2
    obtain ⟨piece, pieces, hs⟩ := List.exists_cons_of_ne_nil (List.splitOn_ne_nil '\n' cs)
    obtain ⟨piece', pieces', hs'⟩ := List.exists_cons_of_ne_nil (List.splitOn_ne_nil '\n'
      (cs.flatMap fun c => if c = '\n' then ['\r', '\n'] else [c]))
    rw [hs, hs', List.map_cons, List.map_cons, List.cons.injEq] at hcs
    by_cases hc : c = '\n'
    · subst hc
      rw [List.flatMap_cons, if_pos rfl, List.cons_append, List.singleton_append,
        Text.splitOn_cons_of_ne (by decide), Text.splitOn_cons_self, Text.splitOn_cons_self, hs, hs']
      simp only [List.modifyHead_cons, List.map_cons, hcs]
      rfl
    · rw [List.flatMap_cons, if_neg hc, List.singleton_append, Text.splitOn_cons_of_ne hc,
        Text.splitOn_cons_of_ne hc, hs, hs']
      simp [hcs, dropReturn_cons (Ne.symm h.1)]

/-- Carriage returns at the ends of the lines and lines that name nothing change neither the
document nor the fault of a text, up to the number of the line at fault. -/
theorem build_noise (defaultTag : String) (limit : Nat) (text : String) :
    ('\r' ∉ text.toList →
      build defaultTag limit (withReturns text) = build defaultTag limit text) ∧
    ∀ extra : Nat → List (List Char),
      (∀ k, ∀ line ∈ extra k, '\n' ∉ line ∧ IsNoise (dropReturn line)) →
      build defaultTag limit (withLines extra text) =
        (build defaultTag limit text).mapError (·.renumbered (moved extra)) := by
  constructor
  · intro h
    rw [build, build, buildChars, buildChars, linesOf_withReturns h]
  · intro extra h
    have hnoise : ∀ k, ∀ line ∈ (extra k).map dropReturn, IsNoise line :=
      fun k => List.forall_mem_map.2 fun line hline => (h k line hline).2
    have hall := placeAll_interleave defaultTag.toList limit hnoise ⟨Arena.empty, none⟩
      (linesOf text.toList) 0
    rw [moved_map] at hall
    rw [build, build, buildChars, buildChars, linesOf_withLines fun k line hline => (h k line hline).1,
      mapError_bind]
    change (placeAll _ _ (moved extra 0 + 1) _ _ >>= _) = _
    rw [hall]
    refine congrArg _ (funext fun p => ?_)
    cases p.arena.root <;> rfl

/-- Of three lines that name nothing two stand in front of the root. -/
theorem build_noise_page :
    withReturns "page\n  item" = "page\r\n  item" ∧
      build "div" 2 "page\r\n  item" = build "div" 2 "page\n  item" ∧
    ∃ extra, withLines extra "page\n  !!" = "\n*3\r\npage\n  --wide\n  !!" ∧
      build "div" 2 "\n*3\r\npage\n  --wide\n  !!" = .error (.malformedLine 5 "  !!") := by
  let extra : Nat → List (List Char)
    | 0 => [[], ['*', '3', '\r']]
    | 1 => [[' ', ' ', '-', '-', 'w', 'i', 'd', 'e']]
    | _ => []
  have hreturns : withReturns "page\n  item" = "page\r\n  item" := by decide +kernel
  have hlines : withLines extra "page\n  !!" = "\n*3\r\npage\n  --wide\n  !!" := by decide +kernel
  have hnoise : ∀ k, ∀ line ∈ extra k, '\n' ∉ line ∧ IsNoise (dropReturn line) := by
    rintro (_ | _ | k)
    · decide +kernel
    · decide +kernel
    · exact fun line hline => nomatch hline
  have hbuild := (build_noise "div" 2 "page\n  item").1 (by decide +kernel)
  have hfault := (build_noise "div" 2 "page\n  !!").2 extra hnoise
  rw [hreturns] at hbuild
  rw [hlines] at hfault
  exact ⟨hreturns, hbuild, extra, hlines, hfault.trans rfl⟩

end Outline

end BemOutline

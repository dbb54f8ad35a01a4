import BemOutline.Proofs.Arena.Lookup
import BemOutline.Proofs.Line.Parsed
import BemOutline.Proofs.Outline.Reference

/-! Placing lines one after the other gives the document that their depths alone determine. The
arena under construction is at every moment the document of the lines placed so far, and the way
up from the node placed last meets the nearest line that is less deep. -/

namespace BemOutline.Outline

open Arena

variable {ls : List Line} {limit i j p t : Nat}

theorem size_arenaOf (ls : List Line) : (arenaOf ls).size = ls.length :=
  Array.size_ofFn

theorem root_arenaOf (hne : ls ≠ []) : (arenaOf ls).root = some 0 := if_neg hne

theorem node?_arenaOf (hi : i < ls.length) :
    (arenaOf ls).node? i = some (nodeAt ls ⟨i, hi⟩) := by
  simp [node?, arenaOf, hi]

theorem node?_arenaOf_eq_some {n : Arena.Node} (h : (arenaOf ls).node? i = some n) :
    ∃ hi : i < ls.length, n = nodeAt ls ⟨i, hi⟩ := by
  have hi : i < ls.length := by
    rw [← size_arenaOf ls]
    exact (Array.getElem?_eq_some_iff.1 h).1
  rw [node?_arenaOf hi] at h
  exact ⟨hi, (Option.some.inj h).symm⟩

theorem depthOf_arenaOf (hi : i < ls.length) : (arenaOf ls).depthOf i = depthIn ls i := by
  rw [depthOf, node?_arenaOf hi, depthIn_eq hi]
  rfl

theorem parentOf_arenaOf (hi : i < ls.length) :
    (arenaOf ls).parentOf i = if i = 0 then none else some (parentIndex (depthIn ls) i) := by
  rw [parentOf, node?_arenaOf hi]
  rfl

theorem parentIndex_append_left (ms : List Line) (hi : i < ls.length) :
    parentIndex (depthIn (ls ++ ms)) i = parentIndex (depthIn ls) i :=
  parentIndex_congr fun _ hk => depthIn_append_left _ (by omega)

theorem lt_length_append (l : Line) (hi : i < ls.length) : i < (ls ++ [l]).length := by
  rw [List.length_append]
  exact Nat.lt_add_right _ hi

theorem length_lt_append (ls : List Line) (l : Line) : ls.length < (ls ++ [l]).length := by
  rw [List.length_append]
  exact Nat.lt_succ_self _

theorem children_nodeAt_append (l : Line) (hi : i < ls.length) :
    (nodeAt (ls ++ [l]) ⟨i, lt_length_append l hi⟩).children =
      (nodeAt ls ⟨i, hi⟩).children ++
        if parentIndex (depthIn (ls ++ [l])) ls.length = i then [ls.length] else [] := by
  have hold : ∀ k ∈ List.range ls.length,
      decide (k ≠ 0 ∧ parentIndex (depthIn (ls ++ [l])) k = i) =
        decide (k ≠ 0 ∧ parentIndex (depthIn ls) k = i) := by
    intro k hk
    rw [parentIndex_append_left [l] (List.mem_range.1 hk)]
  have hlen : ls.length ≠ 0 := by omega
  simp only [nodeAt, List.length_append, List.length_singleton, List.range_succ,
    List.filter_append, List.filter_congr hold]
  by_cases h : parentIndex (depthIn (ls ++ [l])) ls.length = i <;> simp [h, hlen]

theorem nodeAt_append (l : Line) (hi : i < ls.length) :
    nodeAt (ls ++ [l]) ⟨i, lt_length_append l hi⟩ =
      { nodeAt ls ⟨i, hi⟩ with
        children := (nodeAt ls ⟨i, hi⟩).children ++
          if parentIndex (depthIn (ls ++ [l])) ls.length = i then [ls.length] else [] } := by
  have hc := children_nodeAt_append l hi
  simp only [nodeAt] at hc ⊢
  rw [hc, parentIndex_append_left [l] hi]
  simp [hi]

theorem nodeAt_append_length (hne : ls ≠ []) (l : Line) :
    nodeAt (ls ++ [l]) ⟨ls.length, length_lt_append ls l⟩ =
      ⟨l, some (parentIndex (depthIn (ls ++ [l])) ls.length), []⟩ := by
  have hlen : ls.length ≠ 0 := mt List.length_eq_zero_iff.1 hne
  have hnone : (List.range (ls.length + 1)).filter
      (fun k => k ≠ 0 ∧ parentIndex (depthIn (ls ++ [l])) k = ls.length) = [] := by
    rw [List.filter_eq_nil_iff]
    intro k hk
    have hk := List.mem_range.1 hk
    simp only [decide_eq_true_eq, not_and]
    intro hk0 hp
    have := parentIndex_lt (d := depthIn (ls ++ [l])) (Nat.pos_of_ne_zero hk0)
    omega
  simp only [nodeAt, List.length_append, List.length_singleton]
  rw [hnone]
  simp [hlen]

theorem insert_arenaOf (hne : ls ≠ []) (l : Line) :
    (arenaOf ls).insert l (some (parentIndex (depthIn (ls ++ [l])) ls.length)) =
      (arenaOf (ls ++ [l]), ls.length) := by
  have hsize := size_arenaOf ls
  have hlast := parentIndex_lt (d := depthIn (ls ++ [l])) (List.length_pos_iff.2 hne)
  refine Prod.ext (ext_node? ?_ fun i => ?_) hsize
  · simp [Arena.insert, arenaOf, root_modify, hne]
  · rw [node?_insert, hsize]
    rcases Nat.lt_trichotomy i ls.length with hi | rfl | hi
    · have hi' := lt_length_append l hi
      rw [node?_arenaOf hi', node?_arenaOf hi, nodeAt_append l hi, if_neg (Nat.ne_of_lt hi)]
      by_cases hp : parentIndex (depthIn (ls ++ [l])) ls.length = i <;> simp [hp]
    · have hlen := length_lt_append ls l
      rw [node?_arenaOf hlen, nodeAt_append_length hne, if_pos rfl, if_neg (Nat.ne_of_lt hlast)]
    · have hnone : (arenaOf ls).node? i = none := node?_eq_none_iff.2 (by omega)
      have hnone' : (arenaOf (ls ++ [l])).node? i = none :=
        node?_eq_none_iff.2 (by rw [size_arenaOf]; simp; omega)
      rw [hnone, hnone', if_neg (Nat.ne_of_gt hi), if_neg (by omega)]

theorem arenaOf_nil : arenaOf [] = Arena.empty := by simp [arenaOf, Arena.empty]

theorem insert_empty (l : Line) : Arena.empty.insert l none = (arenaOf [l], 0) := by
  refine Prod.ext (ext_node? rfl fun i => ?_) rfl
  cases i with
  | zero => rfl
  | succ i => simp [Arena.insert, Arena.empty, arenaOf, node?]

section Climb

variable {a : Arena} {d : Nat → Nat}

/-- From a line behind which nothing is less deep than `t`, the way up meets the nearest line that
is less deep, as long as the steps suffice. -/
theorem climb_of_shallower
    (hpar : ∀ k ≤ i, a.parentOf k = if k = 0 then none else some (parentIndex d k))
    (hdep : ∀ k ≤ i, a.depthOf k = d k) (hp : p < i) (hpt : d p < t)
    (hle : ∀ k, p < k → k ≤ i → t ≤ d k) (steps : Nat) :
    climb a t limit steps i =
      if Within d steps i p then .ok p else .error (.nestingTooDeep limit) := by
  induction steps generalizing i with
  | zero =>
    have hne : ¬ Within d 0 i p := by
      rintro ⟨k, hk, hki⟩
      rw [Nat.le_zero.1 hk, Function.iterate_zero, id] at hki
      omega
    rw [climb, if_neg hne]
  | succ steps ih =>
    have hi : i ≠ 0 := by omega
    have hlt := parentIndex_lt (d := d) (Nat.pos_of_ne_zero hi)
    rw [climb, hpar i le_rfl, if_neg hi]
    simp only
    rw [hdep _ (Nat.le_of_lt hlt)]
    have hwithin : Within d (steps + 1) i p ↔ Within d steps (parentIndex d i) p := by
      rw [within_iff_lt, within_iff_lt, exists_lt_iterate_iff (by omega)]
    have hpd : d p < d i := Nat.lt_of_lt_of_le hpt (hle i hp le_rfl)
    have hpi := le_parentIndex hp hpd
    -- the parent is the line looked for, or it is still behind that line
    by_cases hd : d (parentIndex d i) < t
    · have heq : parentIndex d i = p := by
        by_contra hne
        have := hle (parentIndex d i) (by omega) (by omega)
        omega
      rw [if_pos hd, heq, if_pos (hwithin.2 ⟨0, Nat.zero_le _, heq⟩)]
    · have hpi : p < parentIndex d i := by
        refine Nat.lt_of_le_of_ne hpi fun heq => hd ?_
        rwa [← heq]
      rw [if_neg hd, ih (fun k hk => hpar k (by omega)) (fun k hk => hdep k (by omega)) hpi
        (fun k hk hki => hle k hk (by omega))]
      simp only [hwithin]

theorem climb_zero (hpar : ∀ k ≤ i, a.parentOf k = if k = 0 then none else some (parentIndex d k))
    (steps : Nat) :
    climb a 0 limit steps i =
      if ∃ k < steps, (parentIndex d)^[k] i = 0 then .ok 0 else .error (.nestingTooDeep limit) := by
  induction steps generalizing i with
  | zero => simp [climb]
  | succ steps ih =>
    rw [climb, hpar i le_rfl]
    by_cases hi : i = 0
    · rw [if_pos hi, if_pos ⟨0, by omega, hi⟩, hi]
    · have hlt := parentIndex_lt (d := d) (Nat.pos_of_ne_zero hi)
      rw [if_neg hi]
      simp only [Nat.not_lt_zero, if_false]
      rw [ih (fun k hk => hpar k (by omega))]
      simp only [exists_lt_iterate_iff hi]

end Climb

section Step

variable {tag line : List Char} {number : Nat} {es : List Accepted}

def progressOf (es : List Accepted) : Progress where
  arena := arenaOf (es.map (·.line))
  last := if es = [] then none else some (es.length - 1)

theorem isSome_last_progressOf (es : List Accepted) :
    (progressOf es).last.isSome = !es.isEmpty := by
  cases es <;> rfl

theorem progressOf_append {r : Arena × NodeId} {l : Line}
    (hr : r = (arenaOf (es.map (·.line) ++ [l]), es.length)) :
    Progress.mk r.1 (some r.2) = progressOf (es ++ [⟨number, l⟩]) := by
  subst hr
  simp [progressOf]

theorem parentFor_arenaOf (hne : es ≠ []) (h0 : depthIn (es.map (·.line)) 0 = 0)
    (e : Accepted) :
    parentFor (arenaOf (es.map (·.line))) (es.length - 1) limit e.number e.line =
      match faultAt limit (es ++ [e]) es.length with
      | some err => .error err
      | none => .ok (parentIndex (depthIn (es.map (·.line) ++ [e.line])) es.length) := by
  have hpos : 0 < es.length := List.length_pos_iff.2 hne
  have hlen : (es.map (·.line)).length = es.length := List.length_map _
  have hde : e.line.depth = depthIn (es.map (·.line) ++ [e.line]) es.length := by
    rw [← hlen, depthIn_append_length]
  have hdep : ∀ k ≤ es.length - 1, (arenaOf (es.map (·.line))).depthOf k =
      depthIn (es.map (·.line) ++ [e.line]) k := by
    intro k hk
    rw [depthOf_arenaOf (by omega), depthIn_append_left _ (by omega)]
  have hpar : ∀ k ≤ es.length - 1, (arenaOf (es.map (·.line))).parentOf k =
      if k = 0 then none else some (parentIndex (depthIn (es.map (·.line) ++ [e.line])) k) := by
    intro k hk
    rw [parentOf_arenaOf (by omega), parentIndex_append_left [e.line] (by omega)]
  rw [← depthIn_append_left [e.line] (by omega)] at h0
  rw [parentFor, faultAt_append_length, hdep _ le_rfl, hpar _ le_rfl, hde]
  generalize depthIn (es.map (·.line) ++ [e.line]) = d at *
  rcases Nat.lt_trichotomy (d (es.length - 1)) (d es.length) with hlt | heq | hgt
  · -- a deeper line stands below the last one
    have hp : parentIndex d es.length = es.length - 1 :=
      parentIndex_eq (by omega) hlt fun i hi hij => by omega
    rw [if_pos hlt, if_neg (by omega), if_neg (by omega), hp]
  · -- an equally deep line stands beside it
    rw [if_neg (by omega), if_pos heq.symm]
    by_cases h1 : es.length = 1
    · rw [if_pos (by omega), if_pos ⟨h1, by simpa [h1, h0] using heq.symm⟩]
    · rw [if_neg (by omega), if_neg (by omega), if_neg (by omega)]
      have hp := parentIndex_succ_of_eq (d := d) (j := es.length - 1)
        (by rw [Nat.sub_add_cancel hpos]; exact heq.symm) (by omega)
      rw [Nat.sub_add_cancel hpos] at hp
      rw [hp]
  · -- for a less deep line the way leads up
    rw [if_neg (by omega), if_neg (by omega), closestParent]
    have hfirst : ¬ (es.length = 1 ∧ d es.length = 0) := by
      rintro ⟨h1, -⟩
      rw [h1, Nat.sub_self, h0] at hgt
      omega
    rw [if_neg hfirst]
    by_cases hz : d es.length = 0
    · have hp : parentIndex d es.length = 0 := parentIndex_eq_zero fun i _ _ => by omega
      rw [hz] at hgt
      rw [hz, climb_zero hpar, hp]
      simp only [if_true, ← within_iff_lt]
      by_cases hw : Within d limit (es.length - 1) 0 <;> simp [hw, hgt]
    · have hlt := parentIndex_lt (d := d) hpos
      have hpd : d (parentIndex d es.length) < d es.length := by
        have := depth_parentIndex h0 es.length
        omega
      have hp : parentIndex d es.length < es.length - 1 := by
        refine Nat.lt_of_le_of_ne (by omega) fun hq => ?_
        rw [hq] at hpd
        omega
      rw [climb_of_shallower hpar hdep hp hpd
        fun k hk hki => le_of_parentIndex_lt hk (by omega)]
      by_cases hw : Within d (limit + 1) (es.length - 1) (parentIndex d es.length) <;>
        simp [hw, hz, hgt]

theorem place_progressOf (h0 : depthIn (es.map (·.line)) 0 = 0) :
    place tag limit number (progressOf es) line =
      if Text.allBlank line then .ok (progressOf es)
      else
        match Line.parseChars tag number (!es.isEmpty) line with
        | .error e => .error e
        | .ok none => .ok (progressOf es)
        | .ok (some l) =>
          (faultAt limit (es ++ [⟨number, l⟩]) es.length).elim
            (.ok (progressOf (es ++ [⟨number, l⟩]))) .error := by
  rw [place, isSome_last_progressOf]
  by_cases hb : Text.allBlank line
  · rw [if_pos hb, if_pos hb]
  · rw [if_neg hb, if_neg hb]
    cases Line.parseChars tag number (!es.isEmpty) line with
    | error e => rfl
    | ok read =>
      cases read with
      | none => rfl
      | some l =>
        by_cases hes : es = []
        · subst hes
          have hfault : faultAt limit [⟨number, l⟩] 0 = none := by simp [faultAt]
          change _ = (faultAt limit [⟨number, l⟩] 0).elim
            (Except.ok (progressOf [⟨number, l⟩])) Except.error
          rw [hfault]
          have hins : (arenaOf []).insert l none = (arenaOf [l], 0) := by
            rw [arenaOf_nil, insert_empty]
          have hplaced : _ = progressOf ([] ++ [⟨number, l⟩]) := progressOf_append hins
          exact congrArg Except.ok hplaced
        · have hlast : (progressOf es).last = some (es.length - 1) := if_neg hes
          have hne : es.map (·.line) ≠ [] := by simpa using hes
          have hins := insert_arenaOf hne l
          rw [List.length_map] at hins
          rw [hlast]
          change (parentFor (arenaOf (es.map (·.line))) (es.length - 1) limit number l >>= _) = _
          rw [parentFor_arenaOf hes h0 ⟨number, l⟩]
          dsimp only
          cases faultAt limit (es ++ [⟨number, l⟩]) es.length with
          | some e => rfl
          | none =>
            exact congrArg Except.ok (progressOf_append hins)

end Step

theorem placeAll_progressOf (tag : List Char) (limit : Nat) (lines : List (List Char))
    (number : Nat) (es : List Accepted) (h0 : depthIn (es.map (·.line)) 0 = 0) :
    placeAll tag limit number (progressOf es) lines =
      let r := accept tag number (!es.isEmpty) lines
      match ((List.range' es.length r.1.length).findSome? (faultAt limit (es ++ r.1))).or r.2 with
      | some e => .error e
      | none => .ok (progressOf (es ++ r.1)) := by
  induction lines generalizing number es with
  | nil => simp [placeAll, accept]
  | cons line lines ih =>
    rw [placeAll, place_progressOf h0, accept]
    by_cases hb : Text.allBlank line
    · rw [if_pos hb, if_pos hb]
      exact ih (number + 1) es h0
    · rw [if_neg hb, if_neg hb]
      cases hread : Line.parseChars tag number (!es.isEmpty) line with
      | error e => simp [bind, Except.bind]
      | ok read =>
        cases read with
        | none => exact ih (number + 1) es h0
        | some l =>
          simp only
          have h0' : depthIn ((es ++ [(⟨number, l⟩ : Accepted)]).map (·.line)) 0 = 0 := by
            rw [List.map_append]
            refine depthIn_append_first h0 fun hes => ?_
            rw [List.map_eq_nil_iff.1 hes] at hread
            exact Line.depth_of_first hread
          have hih := ih (number + 1) (es ++ [⟨number, l⟩]) h0'
          have hfault : ∀ rest, faultAt limit (es ++ ⟨number, l⟩ :: rest) es.length =
              faultAt limit (es ++ [⟨number, l⟩]) es.length := by
            intro rest
            rw [List.append_cons]
            exact faultAt_append (by simp)
          have hseen : (es ++ [(⟨number, l⟩ : Accepted)]).isEmpty = false := by simp
          rw [hseen, Bool.not_false] at hih
          simp only [List.length_cons, List.range'_succ, List.findSome?_cons, hfault]
          cases faultAt limit (es ++ [⟨number, l⟩]) es.length with
          | some e => rfl
          | none =>
            simp only [List.length_append, List.length_singleton, List.append_assoc,
              List.singleton_append] at hih
            exact hih

theorem build_of_accept {defaultTag text : String} {es : List Accepted}
    {rejected : Option OutlineError}
    (h : accept defaultTag.toList 1 false (textLines text) = (es, rejected)) (limit : Nat) :
    build defaultTag limit text =
      match ((List.range es.length).findSome? (faultAt limit es)).or rejected with
      | some e => .error e
      | none => if es = [] then .error .emptyInput else .ok (arenaOf (es.map (·.line))) := by
  have hall := placeAll_progressOf defaultTag.toList limit (textLines text) 1 [] rfl
  have hstart : progressOf [] = ⟨Arena.empty, none⟩ := by
    rw [progressOf, List.map_nil, arenaOf_nil]
    rfl
  rw [hstart] at hall
  rw [build, buildChars, linesOf_eq, hall]
  simp only [List.nil_append, List.length_nil, List.isEmpty_nil, Bool.not_true,
    List.range_eq_range', h]
  cases ((List.range' 0 es.length).findSome? (faultAt limit es)).or rejected with
  | some e => rfl
  | none =>
    cases es with
    | nil => rfl
    | cons e es => rfl

/-- Building a document is reading off which line is the parent of which, or which line is at
fault. -/
theorem build_eq_reference (defaultTag : String) (limit : Nat) (text : String) :
    build defaultTag limit text = reference defaultTag limit text := by
  rw [reference]
  cases h : accept defaultTag.toList 1 false (textLines text) with
  | mk es rejected => exact build_of_accept h limit

end BemOutline.Outline

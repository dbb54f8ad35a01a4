import BemOutline.Conversion.Basic
import Mathlib.Data.List.Induction

/-! Filling a table by calls one after another. The call for a pair that has a converter is refused,
but the pair gets the new converter all the same. So the last call for a pair decides, refused or
not, and refusals leave no trace just when no pair is registered with two different converters. -/

namespace BemOutline.Conversion

structure Registration (γ : Type) where
  source : Format
  target : Format
  converter : γ

def Registration.pair {γ : Type} (c : Registration γ) : Format × Format := (c.source, c.target)

def Precedes (p q : Format × Format) : Prop :=
  p.1.rank < q.1.rank ∨ p.1 = q.1 ∧ p.2.rank < q.2.rank

namespace Table

open Registration

variable {γ : Type} {t u : Table γ} {cs : List (Registration γ)} {c : Registration γ}
  {s d : Format}

def after (t : Table γ) (c : Registration γ) : Table γ :=
  (t.register c.source c.target c.converter).1

def refusal? (t : Table γ) (c : Registration γ) : Option TableError :=
  (t.register c.source c.target c.converter).2

def registered (cs : List (Registration γ)) : Table γ := cs.foldl after empty

def callsFor (cs : List (Registration γ)) (s d : Format) : List (Registration γ) :=
  cs.filter (·.pair = (s, d))

theorem eq_of_get? (h : ∀ s d, t.get? s d = u.get? s d) : t = u := by
  cases t
  cases u
  exact congrArg mk (funext fun s => funext (h s))

theorem get?_after (t : Table γ) (c : Registration γ) (s d : Format) :
    (t.after c).get? s d = if c.pair = (s, d) then some c.converter else t.get? s d := by
  simp only [pair, Prod.mk.injEq, eq_comm (b := s), eq_comm (b := d)]
  rfl

theorem get?_after_self (t : Table γ) (c : Registration γ) :
    (t.after c).get? c.source c.target = some c.converter :=
  (get?_after ..).trans (if_pos rfl)

theorem get?_after_of_ne (h : c.pair ≠ (s, d)) : (t.after c).get? s d = t.get? s d := by
  rw [get?_after, if_neg h]

theorem after_eq_self_iff :
    t.after c = t ↔ t.get? c.source c.target = some c.converter := by
  constructor
  · intro h
    rw [← get?_after_self t c, h]
  · intro h
    refine eq_of_get? fun s d => ?_
    by_cases hc : c.pair = (s, d)
    · obtain ⟨rfl, rfl⟩ := Prod.mk.inj hc
      rw [get?_after_self, h]
    · exact get?_after_of_ne hc

theorem pairs_congr (h : ∀ s d, t.contains s d = u.contains s d) : t.pairs = u.pairs := by
  have hcontains : t.contains = u.contains := funext fun s => funext (h s)
  rw [pairs, pairs, hcontains]

theorem pairs_after (h : t.contains c.source c.target) : (t.after c).pairs = t.pairs := by
  refine pairs_congr fun s d => ?_
  by_cases hc : c.pair = (s, d)
  · obtain ⟨rfl, rfl⟩ := Prod.mk.inj hc
    rw [h, contains, get?_after_self, Option.isSome_some]
  · rw [contains, contains, get?_after_of_ne hc]

theorem mem_pairs {p : Format × Format} : p ∈ t.pairs ↔ t.contains p.1 p.2 := by
  have hall : ∀ f : Format, f ∈ Format.all := fun f => by cases f <;> decide
  obtain ⟨s, d⟩ := p
  simp [pairs, hall]

theorem pairwise_pairs (t : Table γ) : t.pairs.Pairwise Precedes := by
  have hall : Format.all.Pairwise fun s d => s.rank < d.rank := by decide
  rw [pairs, List.pairwise_flatMap]
  refine ⟨fun s _ => ?_, hall.imp fun {s s'} hs p hp q hq => ?_⟩
  · rw [List.pairwise_map]
    exact (hall.filter _).imp fun hd => .inr ⟨rfl, hd⟩
  · obtain ⟨d, -, rfl⟩ := List.mem_map.1 hp
    obtain ⟨d', -, rfl⟩ := List.mem_map.1 hq
    exact .inl hs

theorem registered_concat (cs : List (Registration γ)) (c : Registration γ) :
    registered (cs ++ [c]) = (registered cs).after c := List.foldl_append

theorem callsFor_concat (cs : List (Registration γ)) (c : Registration γ) (s d : Format) :
    callsFor (cs ++ [c]) s d = callsFor cs s d ++ if c.pair = (s, d) then [c] else [] := by
  rw [callsFor, List.filter_append, callsFor]
  by_cases hc : c.pair = (s, d) <;> simp [hc]

theorem get?_registered (cs : List (Registration γ)) (s d : Format) :
    (registered cs).get? s d = (callsFor cs s d).getLast?.map (·.converter) := by
  induction cs using List.reverseRecOn with
  | nil => rfl
  | append_singleton cs c ih =>
    rw [registered_concat, get?_after, callsFor_concat, ih]
    split
    · rw [List.getLast?_concat, Option.map_some]
    · rw [List.append_nil]

theorem mem_callsFor : c ∈ callsFor cs s d ↔ c ∈ cs ∧ c.pair = (s, d) := by
  rw [callsFor, List.mem_filter, decide_eq_true_iff]

theorem contains_registered : (registered cs).contains s d ↔ (s, d) ∈ cs.map pair := by
  rw [contains, get?_registered, Option.isSome_map, List.getLast?_isSome,
    ← List.length_pos_iff, List.length_pos_iff_exists_mem, List.mem_map]
  exact exists_congr fun c => mem_callsFor

theorem refusal?_registered (cs : List (Registration γ)) (c : Registration γ) :
    (registered cs).refusal? c =
      if c.pair ∈ cs.map pair then some (.duplicate c.source c.target) else none := by
  simp only [refusal?, register, contains_registered]
  rfl

/-- Whether every refused call has left the table as it was. -/
def Atomic (cs : List (Registration γ)) : Prop :=
  ∀ earlier c later, cs = earlier ++ c :: later → ((registered earlier).refusal? c).isSome →
    (registered earlier).after c = registered earlier

/-- Whether the calls for a pair all bring the same converter. -/
def Consistent (cs : List (Registration γ)) : Prop :=
  ∀ b ∈ cs, ∀ c ∈ cs, b.pair = c.pair → b.converter = c.converter

theorem isSome_refusal?_iff :
    ((registered cs).refusal? c).isSome ↔ c.pair ∈ cs.map pair := by
  rw [refusal?_registered]
  split <;> simp_all

theorem Consistent.get?_registered (h : Consistent cs) (hc : c ∈ cs) :
    (registered cs).get? c.source c.target = some c.converter := by
  have hne : callsFor cs c.source c.target ≠ [] := List.ne_nil_of_mem (mem_callsFor.2 ⟨hc, rfl⟩)
  obtain ⟨hlast, hpair⟩ := mem_callsFor.1 (List.getLast_mem hne)
  rw [Table.get?_registered, List.getLast?_eq_some_getLast hne, Option.map_some,
    h _ hlast c hc hpair]

theorem Atomic.get?_registered (h : Atomic cs) (hc : c ∈ cs) :
    (registered cs).get? c.source c.target = some c.converter := by
  induction cs using List.reverseRecOn with
  | nil => cases hc
  | append_singleton cs b ih =>
    have hinit : Atomic cs := by
      intro earlier c later hcs
      exact h earlier c (later ++ [b]) (by rw [hcs, List.append_assoc, List.cons_append])
    rw [registered_concat]
    rcases List.mem_append.1 hc with hc | hc
    · by_cases hb : b.pair = c.pair
      · -- a pair that is registered again: the call is refused and so has no effect
        have hrefused : ((registered cs).refusal? b).isSome :=
          isSome_refusal?_iff.2 (hb ▸ List.mem_map_of_mem hc)
        rw [h cs b [] rfl hrefused]
        exact ih hinit hc
      · rw [get?_after_of_ne hb]
        exact ih hinit hc
    · obtain rfl := List.mem_singleton.1 hc
      exact get?_after_self ..

theorem atomic_iff_consistent : Atomic cs ↔ Consistent cs := by
  constructor
  · intro h b hb c hc hpair
    obtain ⟨hs, hd⟩ := Prod.mk.inj hpair
    have hget := h.get?_registered hb
    rw [hs, hd, h.get?_registered hc] at hget
    exact (Option.some.inj hget).symm
  · rintro h earlier c later rfl hrefused
    obtain ⟨b, hb, hpair⟩ := List.mem_map.1 (isSome_refusal?_iff.1 hrefused)
    obtain ⟨hs, hd⟩ := Prod.mk.inj hpair
    have hearlier : Consistent earlier := fun x hx y hy =>
      h x (List.mem_append_left _ hx) y (List.mem_append_left _ hy)
    have hsame : b.converter = c.converter :=
      h b (List.mem_append_left _ hb) c (List.mem_append_right _ List.mem_cons_self) hpair
    rw [after_eq_self_iff, ← hs, ← hd, hearlier.get?_registered hb, hsame]

theorem Consistent.get?_first (h : Consistent cs) (s d : Format) :
    (registered cs).get? s d = (callsFor cs s d).head?.map (·.converter) := by
  cases hcalls : callsFor cs s d with
  | nil => rw [Table.get?_registered, hcalls]; rfl
  | cons c calls =>
    have hmem : c ∈ callsFor cs s d := hcalls ▸ List.mem_cons_self
    obtain ⟨hc, hpair⟩ := mem_callsFor.1 hmem
    obtain ⟨rfl, rfl⟩ := Prod.mk.inj hpair
    exact h.get?_registered hc

/-- After any calls, the call for a pair is refused just when the pair has been registered. A
refused call leaves the pairs and the converters of all other pairs, but sets its own converter, so
that the table gives for a pair the converter of the last call. Hence all refused calls have left
the table as it was just when no pair was registered with two different converters; then the first
call for a pair stands. -/
theorem registered_calls (cs : List (Registration γ)) :
    (∀ c, (registered cs).refusal? c =
      if c.pair ∈ cs.map pair then some (.duplicate c.source c.target) else none) ∧
    (∀ c, c.pair ∈ cs.map pair →
      ((registered cs).after c).pairs = (registered cs).pairs ∧
      (∀ s d, c.pair ≠ (s, d) →
        ((registered cs).after c).get? s d = (registered cs).get? s d) ∧
      ((registered cs).after c = registered cs ↔
        (registered cs).get? c.source c.target = some c.converter)) ∧
    (∀ s d, (registered cs).get? s d = (callsFor cs s d).getLast?.map (·.converter)) ∧
    (registered cs).pairs.Pairwise Precedes ∧
    (∀ p, p ∈ (registered cs).pairs ↔ p ∈ cs.map pair) ∧
    (Atomic cs ↔ Consistent cs) ∧
    (Atomic cs → ∀ s d,
      (registered cs).get? s d = (callsFor cs s d).head?.map (·.converter)) := by
  refine ⟨refusal?_registered cs, fun c hc => ⟨pairs_after (contains_registered.2 hc),
    fun s d => get?_after_of_ne, after_eq_self_iff⟩, get?_registered cs, pairwise_pairs _,
    fun p => mem_pairs.trans contains_registered, atomic_iff_consistent, fun h => ?_⟩
  exact (atomic_iff_consistent.1 h).get?_first

/-- The second call for a pair is refused, and has replaced the converter of the first. -/
theorem registered_calls_replaced :
    (registered [⟨.json, .html, fromJson⟩]).refusal? ⟨.json, .html, fromOutline⟩ =
      some (.duplicate .json .html) ∧
    (registered [⟨.json, .html, fromJson⟩]).after ⟨.json, .html, fromOutline⟩ ≠
      registered [⟨.json, .html, fromJson⟩] ∧
    (registered [⟨.json, .html, fromJson⟩, ⟨.json, .html, fromOutline⟩]).get? .json .html ≠
      (registered [⟨.json, .html, fromJson⟩]).get? .json .html := by
  -- on the empty text one of them misses a line and the other one a value
  have houtline : (fromOutline {} "" .html).result = .error (.outline .emptyInput) := rfl
  have hjson : (fromJson {} "" .html).result ≠ .error (.outline .emptyInput) := nofun
  have hne : some fromOutline ≠ some fromJson := by
    intro heq
    rw [Option.some.inj heq] at houtline
    exact hjson houtline
  refine ⟨rfl, fun h => ?_, hne⟩
  exact hne (congrArg (·.get? .json .html) h)

end Table

end BemOutline.Conversion

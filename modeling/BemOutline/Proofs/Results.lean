import BemOutline.OutlineError

/-! Computations that fail with the first error of their steps. -/

namespace BemOutline

theorem bind_eq_ok_iff {ε α β : Type} {x : Except ε α} {f : α → Except ε β} {b : β} :
    x >>= f = .ok b ↔ ∃ a, x = .ok a ∧ f a = .ok b := by
  cases x with
  | error e => exact ⟨fun hb => (nomatch hb), fun ⟨_, ha, _⟩ => (nomatch ha)⟩
  | ok a =>
    refine ⟨fun hb => ⟨a, rfl, hb⟩, ?_⟩
    rintro ⟨_, ha, hb⟩
    cases ha
    exact hb

theorem bind_eq_error_iff {ε α β : Type} {x : Except ε α} {f : α → Except ε β} {e : ε} :
    x >>= f = .error e ↔ x = .error e ∨ ∃ a, x = .ok a ∧ f a = .error e := by
  cases x with
  | error e' =>
    constructor
    · rintro ⟨⟩
      exact .inl rfl
    · rintro (⟨⟨⟩⟩ | ⟨_, ⟨⟩, _⟩)
      rfl
  | ok a =>
    constructor
    · exact fun he => .inr ⟨a, rfl, he⟩
    · rintro (⟨⟨⟩⟩ | ⟨_, ⟨⟩, he⟩)
      exact he

/-- Steps that know only one error fail together just when one of them fails. -/
theorem mapM_eq_error_iff {ε α β : Type} {f : α → Except ε β} {fails : α → Prop} {only e : ε}
    {xs : List α} (hf : ∀ x ∈ xs, ∀ {e}, f x = .error e ↔ e = only ∧ fails x) :
    xs.mapM f = .error e ↔ e = only ∧ ∃ x ∈ xs, fails x := by
  induction xs with
  | nil => exact ⟨nofun, fun ⟨_, _, hx, _⟩ => (nomatch hx)⟩
  | cons x xs ih =>
    obtain ⟨hx, hxs⟩ := List.forall_mem_cons.1 hf
    rw [List.mapM_cons, bind_eq_error_iff]
    constructor
    · rintro (hfx | ⟨b, -, hrest⟩)
      · obtain ⟨he, hfails⟩ := hx.1 hfx
        exact ⟨he, x, List.mem_cons_self, hfails⟩
      · obtain hrest | ⟨bs, -, hpure⟩ := bind_eq_error_iff.1 hrest
        · obtain ⟨he, y, hy, hfails⟩ := (ih hxs).1 hrest
          exact ⟨he, y, List.mem_cons_of_mem x hy, hfails⟩
        · cases hpure
    · rintro ⟨rfl, y, hy, hfails⟩
      cases hfx : f x with
      | error e' =>
        obtain ⟨rfl, -⟩ := hx.1 hfx
        exact .inl rfl
      | ok b =>
        -- the first step has passed, so that another one fails
        have hlater : ∃ z ∈ xs, fails z := by
          rcases List.mem_cons.1 hy with rfl | hy
          · rw [hx.2 ⟨rfl, hfails⟩] at hfx
            cases hfx
          · exact ⟨y, hy, hfails⟩
        exact .inr ⟨b, rfl, bind_eq_error_iff.2 (.inl ((ih hxs).2 ⟨rfl, hlater⟩))⟩

theorem mapError_bind {ε ε' α β : Type} (g : ε → ε') (x : Except ε α) (f : α → Except ε β) :
    (x >>= f).mapError g = x.mapError g >>= fun a => (f a).mapError g := by
  cases x <;> rfl

theorem levels_bind {α β γ : Type} {levels m n : Nat} {e : OutlineError} (x : α) (y : β)
    (f : α → β → γ) :
    (do
      let x ← (if m ≤ levels then .ok x else .error e)
      let y ← (if n ≤ levels then .ok y else .error e)
      .ok (f x y)) =
      (if max m n ≤ levels then .ok (f x y) else .error e : Except OutlineError γ) := by
  by_cases hm : m ≤ levels
  · by_cases hn : n ≤ levels
    · rw [if_pos hm, if_pos hn, if_pos (Nat.max_le.2 ⟨hm, hn⟩)]
      rfl
    · rw [if_pos hm, if_neg hn, if_neg fun h => hn (Nat.max_le.1 h).2]
      rfl
  · rw [if_neg hm, if_neg fun h => hm (Nat.max_le.1 h).1]
    rfl

end BemOutline

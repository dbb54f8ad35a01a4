import BemOutline.Text.Digit
import Mathlib.Data.List.Basic
import Mathlib.Data.Nat.Init

/-! Runs of characters in front of others, and the decimal digits of a number. -/

namespace BemOutline.Text

variable {c : Char} {cs ds : List Char} {n : Nat}

theorem ne_of_holds {p : Char → Bool} (h : p c = true) (d : Char) (hd : p d = false) : c ≠ d := by
  rintro rfl
  rw [hd] at h
  cases h

theorem not_mem_of_holds {p : Char → Bool} {d : Char} (h : ∀ c ∈ cs, p c) (hd : p d = false) :
    d ∉ cs := fun hmem => ne_of_holds (h d hmem) d hd rfl

theorem takeWhile_append_eq {p : Char → Bool} (hds : ∀ c ∈ ds, p c) (hcs : ∀ c ∈ cs.head?, ¬ p c) :
    (ds ++ cs).takeWhile p = ds := by
  rw [List.takeWhile_append_of_pos hds]
  cases cs with
  | nil => exact List.append_nil _
  | cons c cs => rw [List.takeWhile_cons_of_neg (hcs c rfl), List.append_nil]

theorem dropWhile_append_eq {p : Char → Bool} (hds : ∀ c ∈ ds, p c) (hcs : ∀ c ∈ cs.head?, ¬ p c) :
    (ds ++ cs).dropWhile p = cs := by
  rw [List.dropWhile_append_of_pos hds]
  cases cs with
  | nil => rfl
  | cons c cs => exact List.dropWhile_cons_of_neg (hcs c rfl)

theorem isDigit_of_mem_toDigits (hc : c ∈ Nat.toDigits 10 n) : isDigit c = true :=
  Nat.isDigit_of_mem_toDigits (by decide) (by decide) hc

theorem head?_toDigits_ne_zero (hn : 0 < n) : (Nat.toDigits 10 n).head? ≠ some '0' := by
  induction n using Nat.strong_induction_on with
  | _ n ih =>
    rcases Nat.lt_or_ge n 10 with hlt | hge
    · have hone : ∀ d < 10, 0 < d → [Nat.digitChar d].head? ≠ some '0' := by decide
      rw [Nat.toDigits_of_lt_base hlt]
      exact hone n hlt hn
    · rw [Nat.toDigits_of_base_le (by decide) hge,
        List.head?_append_of_ne_nil _ Nat.toDigits_ne_nil]
      exact ih (n / 10) (by omega) (by omega)

theorem exists_toDigits_eq (n : Nat) :
    ∃ d ds, Nat.toDigits 10 n = d :: ds ∧ isDigit d ∧ (∀ c ∈ ds, isDigit c) ∧
      Nat.ofDigitChars 10 ds (digitValue d) = n ∧ (d = '0' → ds = []) := by
  cases h : Nat.toDigits 10 n with
  | nil => exact absurd h Nat.toDigits_ne_nil
  | cons d ds =>
    have hdigit : ∀ c ∈ d :: ds, isDigit c := fun c hc => isDigit_of_mem_toDigits (h ▸ hc)
    have hvalue : Nat.ofDigitChars 10 (Nat.toDigits 10 n) 0 = n := Nat.ofDigitChars_ten_toDigits
    rw [h, Nat.ofDigitChars_cons, Nat.mul_zero, Nat.zero_add] at hvalue
    refine ⟨d, ds, rfl, hdigit d List.mem_cons_self,
      fun c hc => hdigit c (List.mem_cons_of_mem _ hc), hvalue, fun hzero => ?_⟩
    rcases Nat.eq_zero_or_pos n with rfl | hn
    · rw [Nat.toDigits_zero] at h
      exact (List.cons.inj h).2.symm
    · have hne := head?_toDigits_ne_zero hn
      rw [h, hzero] at hne
      exact absurd rfl hne

end BemOutline.Text

import Mathlib.Data.Nat.Digits.Lemmas
import Mathlib.Tactic

/-! Positional numerals, the most significant digit first. A numeral has a digit and no leading zero;
`Significant` is what has been written of one while its leading zeros are left out. -/
namespace Numerals
set_option autoImplicit false
set_option maxHeartbeats 250000

/-- The digits `ds` write `n` in base `b`. -/
structure Numeral (b : ℕ) (ds : List ℕ) (n : ℕ) : Prop where
  nonempty : ds ≠ []
  digits : ∀ d ∈ ds, d < b
  leading : ds.head? = some 0 → ds = [0]
  value : Nat.ofDigits b ds.reverse = n

/-- The digits `ds` write `n` in base `b`, and 0 is written by none. -/
structure Significant (b : ℕ) (ds : List ℕ) (n : ℕ) : Prop where
  digits : ∀ d ∈ ds, d < b
  leading : ds.head? ≠ some 0
  value : Nat.ofDigits b ds.reverse = n

variable {b n d : ℕ} {ds : List ℕ}

theorem significant_nil (b : ℕ) : Significant b [] 0 := ⟨nofun, nofun, rfl⟩

theorem value_snoc (b : ℕ) (ds : List ℕ) (d : ℕ) :
    Nat.ofDigits b (ds ++ [d]).reverse = b * Nat.ofDigits b ds.reverse + d := by
  rw [List.reverse_append, List.reverse_singleton, List.singleton_append, Nat.ofDigits_cons, Nat.add_comm]

theorem digits_snoc (h : ∀ e ∈ ds, e < b) (hd : d < b) : ∀ e ∈ ds ++ [d], e < b := by
  intro e he
  rcases List.mem_append.mp he with hin | hlast
  · exact h e hin
  · rw [List.mem_singleton.mp hlast]
    exact hd

/-- One more digit, which is not a leading zero. -/
theorem Significant.snoc (h : Significant b ds n) (hd : d < b) (hne : ds ≠ [] ∨ d ≠ 0) :
    Significant b (ds ++ [d]) (b * n + d) := by
  refine ⟨digits_snoc h.digits hd, ?_, by rw [value_snoc, h.value]⟩
  cases ds with
  | nil => simpa using hne
  | cons e ds => exact h.leading

/-- The last digit is written in any case. -/
theorem Significant.numeral (h : Significant b ds n) (hd : d < b) : Numeral b (ds ++ [d]) (b * n + d) := by
  refine ⟨by simp, digits_snoc h.digits hd, ?_, by rw [value_snoc, h.value]⟩
  cases ds with
  | nil =>
    intro hzero
    simpa using hzero
  | cons e ds => exact fun hzero => absurd hzero h.leading

theorem numeral_digits (hb : 1 < b) (hn : n ≠ 0) : Numeral b (Nat.digits b n).reverse n := by
  refine ⟨?_, ?_, ?_, ?_⟩
  · rw [ne_eq, List.reverse_eq_nil_iff]
    exact Nat.digits_ne_nil_iff_ne_zero.mpr hn
  · intro d hd
    exact Nat.digits_lt_base hb (List.mem_reverse.mp hd)
  · intro hzero
    rw [List.head?_reverse] at hzero
    have hlast := Nat.getLast_digit_ne_zero b hn
    rw [List.getLast?_eq_some_getLast (Nat.digits_ne_nil_iff_ne_zero.mpr hn), Option.some.injEq] at hzero
    exact absurd hzero hlast
  · rw [List.reverse_reverse, Nat.ofDigits_digits]

end Numerals

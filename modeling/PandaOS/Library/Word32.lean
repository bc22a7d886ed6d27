import Mathlib.Tactic
import Mathlib.Data.Nat.Bitwise

/-! Unsigned 32-bit machine arithmetic on `ℕ`. A word is a number below `2^32`; the operations
reduce their result, and the `_of_le` and `_of_lt` forms remove the reduction where the exact
result fits. The page masks are turned into quotients and remainders, which is what linear
arithmetic can use. -/
namespace Word32
set_option autoImplicit false
set_option maxHeartbeats 250000

/-! ## Wrapping arithmetic -/

def add32 (a b : ℕ) : ℕ := (a + b) % 4294967296

/-- The difference of two words; the case split keeps it free of borrows. -/
def sub32 (a b : ℕ) : ℕ :=
  if b ≤ a then (a - b) % 4294967296 else (a + 4294967296 - b) % 4294967296

theorem add32_lt (a b : ℕ) : add32 a b < 4294967296 := Nat.mod_lt _ (by norm_num)

theorem sub32_lt (a b : ℕ) : sub32 a b < 4294967296 := by
  unfold sub32
  split <;> exact Nat.mod_lt _ (by norm_num)

theorem add32_of_lt {a b : ℕ} (h : a + b < 4294967296) : add32 a b = a + b := Nat.mod_eq_of_lt h

theorem sub32_of_le {a b : ℕ} (hb : b ≤ a) (ha : a < 4294967296) : sub32 a b = a - b := by
  rw [sub32, if_pos hb, Nat.mod_eq_of_lt (by omega)]

theorem sub32_of_lt {a b : ℕ} (hb : a < b) (_hlt : b < 4294967296) :
    sub32 a b = a + 4294967296 - b := by
  rw [sub32, if_neg (by omega), Nat.mod_eq_of_lt (by omega)]

theorem sub32_self {a : ℕ} (ha : a < 4294967296) : sub32 a a = 0 := by
  rw [sub32_of_le le_rfl ha, Nat.sub_self]

/-- A sum that wraps and a difference that wraps back. -/
theorem sub32_add32 {x s n : ℕ} (hn : n ≤ s) (hs : s < 4294967296) (hx : x + (s - n) < 4294967296) :
    sub32 (add32 x s) n = x + (s - n) := by
  unfold sub32 add32
  split <;> omega

/-! ## Masks -/

theorem and_low_page (x : ℕ) : x &&& 0xFFF = x % 4096 := Nat.and_two_pow_sub_one_eq_mod x 12

theorem testBit_high_page (i : ℕ) :
    Nat.testBit 0xFFFFF000 i = (decide (12 ≤ i) && decide (i < 32)) := by
  have h : (0xFFFFF000 : ℕ) = (2 ^ 20 - 1) <<< 12 := by decide
  rw [h, Nat.testBit_shiftLeft, Nat.testBit_two_pow_sub_one]
  by_cases hi : 12 ≤ i
  · have : (i - 12 < 20) ↔ (i < 32) := by omega
    simp [hi, this]
  · simp [hi]

theorem and_high_page {x : ℕ} (hx : x < 4294967296) : x &&& 0xFFFFF000 = x / 4096 * 4096 := by
  apply Nat.eq_of_testBit_eq
  intro i
  have hs : x / 4096 * 4096 = (x >>> 12) <<< 12 := by
    rw [Nat.shiftLeft_eq, Nat.shiftRight_eq_div_pow]
  rw [Nat.testBit_and, testBit_high_page, hs, Nat.testBit_shiftLeft, Nat.testBit_shiftRight]
  by_cases hi : 12 ≤ i
  · rw [Nat.add_sub_cancel' hi]
    by_cases hlt : i < 32
    · simp [hi, hlt]
    · have hpow : 2 ^ 32 ≤ 2 ^ i := Nat.pow_le_pow_right (by norm_num) (by omega)
      have hbit : x.testBit i = false := Nat.testBit_lt_two_pow (hx.trans_le hpow)
      simp [hbit]
  · simp [hi]

theorem and_page_bit (x : ℕ) : x &&& 0x1000 = 0 ∨ x &&& 0x1000 = 0x1000 := by
  have h := Nat.and_two_pow x 12
  norm_num at h
  rw [h]
  cases x.testBit 12
  · left; rfl
  · right; rfl

/-! ## Two's complement -/

/-- The value of a word read as a signed 32-bit number. -/
def toInt32 (x : ℕ) : ℤ := if x < 2147483648 then (x : ℤ) else (x : ℤ) - 4294967296

theorem toInt32_of_lt {x : ℕ} (h : x < 2147483648) : toInt32 x = x := if_pos h

end Word32

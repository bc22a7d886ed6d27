import PandaOS.Machine.State

/-! `mem.c`: the byte loops `memset` and `memcpy`, and what they leave in memory. -/
namespace PandaOS
open ByteMemory Word32
set_option autoImplicit false
set_option maxHeartbeats 250000

/-- `for (; len != 0; len--) *temp++ = val;` -/
def memset (m : Mem) (dest val : ℕ) : ℕ → Mem
  | 0 => m
  | len + 1 => memset (store8 m dest val) (dest + 1) val len

/-- `for (; len != 0; len--) *dp++ = *sp++;` -/
def memcpy (m : Mem) (dest src : ℕ) : ℕ → Mem
  | 0 => m
  | len + 1 => memcpy (store8 m dest (load8 m src)) (dest + 1) (src + 1) len

variable {m : Mem} {dest val len a : ℕ}

theorem memset_eq (m : Mem) (dest val len : ℕ) :
    memset m dest val len = fun x => if dest ≤ x ∧ x < dest + len then UInt8.ofNat val else m x := by
  induction len generalizing m dest with
  | zero =>
    funext x
    rw [memset, if_neg (by omega)]
  | succ len ih =>
    funext x
    rw [memset, ih]
    beta_reduce
    by_cases h0 : x = dest
    · subst h0
      simp [store8]
    · by_cases h1 : dest + 1 ≤ x ∧ x < dest + 1 + len
      · rw [if_pos h1, if_pos (by omega)]
      · rw [if_neg h1, if_neg (by omega), store8_of_ne h0]

theorem sameOff_memset (m : Mem) (dest val len : ℕ) :
    SameOff m (memset m dest val len) dest (dest + len) := by
  intro x hx
  rw [memset_eq]
  exact if_neg (by omega)

theorem load8_memset (hl : dest ≤ a) (hh : a < dest + len) :
    load8 (memset m dest val len) a = val % 256 := by
  simp [load8, memset_eq, hl, hh]

theorem load32_memset_zero (hl : dest ≤ a) (hh : a + 4 ≤ dest + len) :
    load32 (memset m dest 0 len) a = 0 := by
  unfold load32
  rw [load8_memset hl (by omega), load8_memset (by omega) (by omega),
    load8_memset (by omega) (by omega), load8_memset (by omega) (by omega)]

end PandaOS

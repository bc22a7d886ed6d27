import PandaOS.Library.ByteMemory
import Mathlib.Data.List.Nodup

/-! Regions of an address space, given by start and size. Regions that do not overlap do not affect
one another, and no more of them fit than their sizes allow. -/
namespace ByteMemory
set_option autoImplicit false
set_option maxHeartbeats 250000

/-- The regions do not overlap. -/
def Apart (r s : ℕ × ℕ) : Prop := r.1 + r.2 ≤ s.1 ∨ s.1 + s.2 ≤ r.1

variable {m m' : Mem} {r s : ℕ × ℕ} {size limit : ℕ} {l : List ℕ}

theorem Apart.symm (h : Apart r s) : Apart s r := Or.symm h

theorem Apart.sameOn (h : Apart r s) (hm : SameOff m m' r.1 (r.1 + r.2)) : SameOn m m' s.1 (s.1 + s.2) := by
  unfold Apart at h
  exact hm.sameOn (by omega)

/-- Blocks of one size that do not overlap are in different slots of that size. -/
theorem nodup_slots (hsize : 0 < size) (h : l.Pairwise fun a b => Apart (a, size) (b, size)) :
    (l.map (· / size)).Nodup := by
  rw [List.Nodup, List.pairwise_map]
  refine h.imp fun {a b} hab heq => ?_
  unfold Apart at hab
  dsimp only at hab
  have ha := Nat.div_add_mod a size
  have hb := Nat.div_add_mod b size
  have hra := Nat.mod_lt a hsize
  have hrb := Nat.mod_lt b hsize
  rw [heq] at ha
  omega

/-- So many blocks fit below `limit`. -/
theorem length_le_of_apart (hsize : 0 < size) (h : l.Pairwise fun a b => Apart (a, size) (b, size))
    (hlimit : ∀ a ∈ l, a < limit) : l.length ≤ limit / size + 1 := by
  have hsub : l.map (· / size) ⊆ List.range (limit / size + 1) := by
    intro q hq
    obtain ⟨a, ha, rfl⟩ := List.mem_map.mp hq
    rw [List.mem_range]
    exact Nat.lt_succ_of_le (Nat.div_le_div_right (hlimit a ha).le)
  have hle := ((nodup_slots hsize h).subperm hsub).length_le
  rwa [List.length_map, List.length_range] at hle

end ByteMemory

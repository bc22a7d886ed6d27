import Mathlib.Tactic

/-! A byte memory with 32-bit addresses that wrap, little-endian words, and stacks that grow down.
`Holds m sp vs` says that the words `vs` lie from `sp` upwards, the top of the stack first. -/
namespace WordStack
set_option autoImplicit false
set_option maxHeartbeats 250000

abbrev Memory := BitVec 32 → BitVec 8

def load (m : Memory) (a : BitVec 32) : BitVec 32 := (m (a + 3) ++ m (a + 2)) ++ (m (a + 1) ++ m a)

def store (m : Memory) (a v : BitVec 32) : Memory :=
  fun x => if (x - a).toNat < 4 then v.extractLsb' (8*(x - a).toNat) 8 else m x

def Holds (m : Memory) : BitVec 32 → List (BitVec 32) → Prop
  | _, [] => True
  | sp, v :: vs => load m sp = v ∧ Holds m (sp + 4) vs

variable {m m' : Memory} {a b sp v : BitVec 32} {vs : List (BitVec 32)}

theorem load_congr (h : ∀ i < 4, m' (a + BitVec.ofNat 32 i) = m (a + BitVec.ofNat 32 i)) :
    load m' a = load m a := by
  have h0 := h 0 (by omega)
  have h1 := h 1 (by omega)
  have h2 := h 2 (by omega)
  have h3 := h 3 (by omega)
  rw [BitVec.add_zero] at h0
  change (m' (a + 3#32) ++ m' (a + 2#32)) ++ (m' (a + 1#32) ++ m' a) = load m a
  rw [h0, h1, h2, h3]
  rfl

theorem load_store_self (m : Memory) (a v : BitVec 32) : load (store m a v) a = v := by
  have h0 : (a - a).toNat = 0 := by simp
  have h1 : (a + 1 - a).toNat = 1 := by bv_omega
  have h2 : (a + 2 - a).toNat = 2 := by bv_omega
  have h3 : (a + 3 - a).toNat = 3 := by bv_omega
  unfold load store
  rw [h0, h1, h2, h3, if_pos (by omega), if_pos (by omega), if_pos (by omega), if_pos (by omega)]
  ext i hi
  simp only [BitVec.getElem_append, BitVec.getElem_extractLsb']
  rw [← BitVec.getLsbD_eq_getElem]
  split_ifs <;> congr 1 <;> omega

theorem Holds.congr (h : Holds m sp vs)
    (hm : ∀ i < 4*vs.length, m' (sp + BitVec.ofNat 32 i) = m (sp + BitVec.ofNat 32 i)) :
    Holds m' sp vs := by
  induction vs generalizing sp with
  | nil => trivial
  | cons v vs ih =>
    obtain ⟨hv, hrest⟩ := h
    rw [List.length_cons] at hm
    refine ⟨(load_congr fun i hi => hm i (by omega)).trans hv, ih hrest fun i hi => ?_⟩
    have hshift : sp + 4 + BitVec.ofNat 32 i = sp + BitVec.ofNat 32 (i + 4) := by
      rw [BitVec.add_assoc, BitVec.add_comm 4, BitVec.ofNat_add]
      rfl
    rw [hshift]
    exact hm (i + 4) (by omega)

theorem Holds.store (h : Holds m sp vs) (hl : 4 ≤ (sp - a).toNat)
    (hh : (sp - a).toNat + 4*vs.length ≤ 4294967296) : Holds (store m a v) sp vs := by
  apply h.congr
  intro i hi
  have hdist : (sp + BitVec.ofNat 32 i - a).toNat = (sp - a).toNat + i := by bv_omega
  exact if_neg (by omega)

theorem Holds.push (h : Holds m sp vs) (hlen : 4*vs.length + 4 ≤ 4294967296) :
    Holds (WordStack.store m (sp - 4) v) (sp - 4) (v :: vs) := by
  have hback : sp - 4 + 4 = sp := by bv_omega
  have hdist : (sp - (sp - 4)).toNat = 4 := by bv_omega
  refine ⟨load_store_self _ _ _, ?_⟩
  rw [hback]
  exact h.store (by omega) (by omega)

theorem add_words (sp : BitVec 32) (n : ℕ) :
    sp + BitVec.ofNat 32 (4*(n + 1)) = sp + 4 + BitVec.ofNat 32 (4*n) := by
  rw [Nat.mul_add, BitVec.ofNat_add, BitVec.add_comm (BitVec.ofNat 32 (4*n)), BitVec.add_assoc]
  rfl

theorem Holds.get (h : Holds m sp vs) (i : ℕ) (hi : i < vs.length) :
    load m (sp + BitVec.ofNat 32 (4*i)) = vs[i] := by
  induction vs generalizing sp i with
  | nil => cases hi
  | cons v vs ih =>
    cases i with
    | zero =>
      rw [Nat.mul_zero, BitVec.add_zero]
      exact h.1
    | succ i =>
      rw [add_words, List.getElem_cons_succ]
      exact ih h.2 i (by simpa using hi)

theorem Holds.drop (h : Holds m sp vs) (n : ℕ) : Holds m (sp + BitVec.ofNat 32 (4*n)) (vs.drop n) := by
  induction n generalizing sp vs with
  | zero =>
    rw [Nat.mul_zero, BitVec.add_zero]
    exact h
  | succ n ih =>
    cases vs with
    | nil => trivial
    | cons v vs =>
      rw [add_words]
      exact ih h.2

end WordStack

import PandaOS.Utils.Mem

/-! `memmove` of `mem.c`. The ranges may overlap: the copy goes upwards where the destination does not begin
inside the source, and downwards from the last byte where it does, so that no byte is overwritten before it
has been read. -/
namespace PandaOS
open ByteMemory Word32
set_option autoImplicit false
set_option maxHeartbeats 250000

/-! ## The function -/

/-- The loop of the first branch. -/
def moveUp (m : Mem) (dest src : ℕ) : ℕ → Mem
  | 0 => m
  | len + 1 => moveUp (store8 m dest (load8 m src)) (add32 dest 1) (add32 src 1) len

/-- The loop of the second branch. -/
def moveDown (m : Mem) (dest src : ℕ) : ℕ → Mem
  | 0 => m
  | len + 1 => moveDown (store8 m dest (load8 m src)) (sub32 dest 1) (sub32 src 1) len

def memmove (m : Mem) (dest src len : ℕ) : Mem :=
  if dest ≤ src ∨ dest ≥ add32 src len then moveUp m dest src len
  else moveDown m (sub32 (add32 dest len) 1) (sub32 (add32 src len) 1) len

/-- The bytes at `src` are at `dest`, and everything else is as it was. -/
structure Moved (m m' : Mem) (dest src len : ℕ) : Prop where
  bytes : ∀ k < len, m' (dest + k) = m (src + k)
  rest : SameOff m m' dest (dest + len)

variable {m m1 m' : Mem} {dest src len x : ℕ}

/-! ## One byte -/

theorem store8_load8 (m : Mem) (dest src : ℕ) : store8 m dest (load8 m src) dest = m src := by
  simp [store8, load8]

theorem moved_zero (m : Mem) (dest src : ℕ) : Moved m m dest src 0 := ⟨nofun, SameOff.refl _ _ _⟩

/-- The first byte and then the others. -/
theorem Moved.cons (hup : dest ≤ src ∨ src + (len + 1) ≤ dest)
    (h : Moved (store8 m dest (load8 m src)) m' (dest + 1) (src + 1) len) : Moved m m' dest src (len + 1) := by
  have hfirst : SameOff m (store8 m dest (load8 m src)) dest (dest + 1) := sameOff_store8 le_rfl (Nat.lt_succ_self _)
  refine ⟨fun k hk => ?_, ?_⟩
  · cases k with
    | zero =>
      have hkept := h.rest dest (Or.inl (Nat.lt_succ_self _))
      rw [Nat.add_zero, Nat.add_zero, hkept]
      exact store8_load8 m dest src
    | succ k =>
      have hbyte := h.bytes k (by omega)
      have hsource := hfirst (src + 1 + k) (by omega)
      have hd : dest + 1 + k = dest + (k + 1) := by omega
      have hs : src + 1 + k = src + (k + 1) := by omega
      rwa [hsource, hd, hs] at hbyte
  · exact (hfirst.mono le_rfl (by omega)).trans (h.rest.mono (by omega) (by omega))

/-- The last byte and then the others. -/
theorem Moved.snoc (hdown : src < dest)
    (h : Moved (store8 m (dest + len) (load8 m (src + len))) m' dest src len) : Moved m m' dest src (len + 1) := by
  have hlast : SameOff m (store8 m (dest + len) (load8 m (src + len))) (dest + len) (dest + len + 1) :=
    sameOff_store8 le_rfl (Nat.lt_succ_self _)
  refine ⟨fun k hk => ?_, ?_⟩
  · rcases Nat.lt_succ_iff_lt_or_eq.mp hk with hlt | rfl
    · rw [h.bytes k hlt]
      exact hlast (src + k) (by omega)
    · rw [h.rest (dest + k) (Or.inr le_rfl)]
      exact store8_load8 m (dest + k) (src + k)
  · exact (hlast.mono (by omega) le_rfl).trans (h.rest.mono le_rfl (by omega))

/-! ## The loops -/

/-- Upwards, every byte is read before a write reaches it. -/
theorem moveUp_spec (m : Mem) (hs : src + len ≤ 4294967296) (hd : dest + len ≤ 4294967296)
    (hup : dest ≤ src ∨ src + len ≤ dest) : Moved m (moveUp m dest src len) dest src len := by
  induction len generalizing m dest src with
  | zero => exact moved_zero m dest src
  | succ len ih =>
    apply Moved.cons hup
    rw [moveUp]
    rcases Nat.eq_zero_or_pos len with rfl | hpos
    · exact moved_zero _ _ _
    · rw [add32_of_lt (by omega : dest + 1 < 4294967296), add32_of_lt (by omega : src + 1 < 4294967296)]
      exact ih _ (by omega) (by omega) (by omega)

/-- Downwards, too, where the destination begins behind the start of the source. -/
theorem moveDown_spec (m : Mem) (hd : dest + len ≤ 4294967296) (hdown : src < dest) :
    Moved m (moveDown m (dest + len - 1) (src + len - 1) len) dest src len := by
  induction len generalizing m with
  | zero => exact moved_zero m dest src
  | succ len ih =>
    have hdlast : dest + (len + 1) - 1 = dest + len := rfl
    have hslast : src + (len + 1) - 1 = src + len := rfl
    apply Moved.snoc hdown
    rw [moveDown, hdlast, hslast]
    rcases Nat.eq_zero_or_pos len with rfl | hpos
    · exact moved_zero _ _ _
    · rw [sub32_of_le (by omega) (by omega : dest + len < 4294967296),
        sub32_of_le (by omega) (by omega : src + len < 4294967296)]
      exact ih _ (by omega)

/-! ## The choice of the loop -/

/-- The pointer to the last byte, also where the range ends with the address space. -/
theorem last_pointer (hpos : 0 < len) (h : dest + len ≤ 4294967296) : sub32 (add32 dest len) 1 = dest + len - 1 := by
  unfold sub32 add32
  split <;> omega

/-- For ranges inside the address space, however they overlap. -/
theorem memmove_moves (m : Mem) (hs : src + len ≤ 4294967296) (hd : dest + len ≤ 4294967296) :
    Moved m (memmove m dest src len) dest src len := by
  unfold memmove
  by_cases hbelow : dest ≤ src
  · rw [if_pos (Or.inl hbelow)]
    exact moveUp_spec m hs hd (Or.inl hbelow)
  · -- behind the start of the source, the end of the source does not wrap
    rcases Nat.eq_zero_or_pos len with rfl | hpos
    · split <;> exact moved_zero m dest src
    · have hend : add32 src len = src + len := add32_of_lt (by omega)
      by_cases hbehind : dest ≥ src + len
      · rw [if_pos (Or.inr (by rwa [hend]))]
        exact moveUp_spec m hs hd (Or.inr hbehind)
      · rw [if_neg (by rw [hend]; omega), last_pointer hpos hd, last_pointer hpos hs]
        exact moveDown_spec m hd (by omega)

/-- Three bytes up by one. -/
theorem memmove_moves_overlap : Moved (store32 (fun _ => 0) 0x1000 0x030201)
    (memmove (store32 (fun _ => 0) 0x1000 0x030201) 0x1001 0x1000 3) 0x1001 0x1000 3 :=
  memmove_moves _ (by decide) (by decide)

end PandaOS

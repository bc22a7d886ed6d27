import PandaOS.Library.Word32

/-! Byte-addressed memory with little-endian 32-bit words. Every access is at an arbitrary
address, so overlapping accesses are represented as they happen; the lemmas state what a store
leaves alone and what it makes a later load return. `SameOn` and `SameOff` are the two frame
conditions: agreement inside an interval and agreement everywhere else. -/
namespace ByteMemory
set_option autoImplicit false
set_option maxHeartbeats 250000

abbrev Mem := ℕ → UInt8

def load8 (m : Mem) (a : ℕ) : ℕ := (m a).toNat

def store8 (m : Mem) (a v : ℕ) : Mem := fun x => if x = a then UInt8.ofNat v else m x

def load32 (m : Mem) (a : ℕ) : ℕ :=
  load8 m a + 256 * load8 m (a+1) + 65536 * load8 m (a+2) + 16777216 * load8 m (a+3)

def store32 (m : Mem) (a v : ℕ) : Mem := fun x =>
  if x = a then UInt8.ofNat v
  else if x = a+1 then UInt8.ofNat (v / 256)
  else if x = a+2 then UInt8.ofNat (v / 65536)
  else if x = a+3 then UInt8.ofNat (v / 16777216)
  else m x

variable {m m' m'' : Mem} {a b v lo hi : ℕ}

theorem load8_lt (m : Mem) (a : ℕ) : load8 m a < 256 := (m a).toNat_lt

theorem load32_lt (m : Mem) (a : ℕ) : load32 m a < 4294967296 := by
  have h0 := load8_lt m a
  have h1 := load8_lt m (a+1)
  have h2 := load8_lt m (a+2)
  have h3 := load8_lt m (a+3)
  unfold load32
  omega

/-! ## Stores seen by loads -/

theorem store8_of_ne (h : b ≠ a) : store8 m a v b = m b := if_neg h

theorem store32_of_off (h : b < a ∨ a + 4 ≤ b) : store32 m a v b = m b := by
  unfold store32
  rw [if_neg (by omega), if_neg (by omega), if_neg (by omega), if_neg (by omega)]

theorem load8_store8_self (m : Mem) (a v : ℕ) : load8 (store8 m a v) a = v % 256 := by
  simp [load8, store8]

theorem load8_store8_of_ne (h : b ≠ a) : load8 (store8 m a v) b = load8 m b := by
  rw [load8, store8_of_ne h, load8]

theorem load8_store32_of_off (h : b < a ∨ a + 4 ≤ b) : load8 (store32 m a v) b = load8 m b := by
  rw [load8, store32_of_off h, load8]

theorem load32_store8_of_off (h : a < b ∨ b + 4 ≤ a) : load32 (store8 m a v) b = load32 m b := by
  unfold load32
  rw [load8_store8_of_ne (by omega), load8_store8_of_ne (by omega), load8_store8_of_ne (by omega),
    load8_store8_of_ne (by omega)]

theorem load32_store32_of_off (h : b + 4 ≤ a ∨ a + 4 ≤ b) :
    load32 (store32 m a v) b = load32 m b := by
  unfold load32
  rw [load8_store32_of_off (by omega), load8_store32_of_off (by omega),
    load8_store32_of_off (by omega), load8_store32_of_off (by omega)]

theorem load32_store32_self (m : Mem) (a v : ℕ) :
    load32 (store32 m a v) a = v % 4294967296 := by
  have h0 : load8 (store32 m a v) a = v % 256 := by simp [load8, store32]
  have h1 : load8 (store32 m a v) (a+1) = v / 256 % 256 := by simp [load8, store32]
  have h2 : load8 (store32 m a v) (a+2) = v / 65536 % 256 := by simp [load8, store32]
  have h3 : load8 (store32 m a v) (a+3) = v / 16777216 % 256 := by simp [load8, store32]
  rw [load32, h0, h1, h2, h3]
  omega

theorem load32_store32_of_lt (h : v < 4294967296) : load32 (store32 m a v) a = v := by
  rw [load32_store32_self, Nat.mod_eq_of_lt h]

/-- A store puts the bytes that a load of the same word finds. -/
theorem store32_of_load32 (m : Mem) (h : load32 m' a = v) (hl : a ≤ b) (hh : b < a + 4) : store32 m a v b = m' b := by
  have hbytes : ∀ x q, q % 256 = load8 m' x → UInt8.ofNat q = m' x := by
    intro x q hq
    rw [← UInt8.toNat_inj, UInt8.toNat_ofNat']
    exact hq
  have h0 := load8_lt m' a
  have h1 := load8_lt m' (a+1)
  have h2 := load8_lt m' (a+2)
  have h3 := load8_lt m' (a+3)
  unfold load32 at h
  unfold store32
  split_ifs with e0 e1 e2 e3
  · rw [e0]
    exact hbytes _ _ (by omega)
  · rw [e1]
    exact hbytes _ _ (by omega)
  · rw [e2]
    exact hbytes _ _ (by omega)
  · rw [e3]
    exact hbytes _ _ (by omega)
  · omega

theorem store32_comm {w : ℕ} (h : a + 4 ≤ b ∨ b + 4 ≤ a) :
    store32 (store32 m a v) b w = store32 (store32 m b w) a v := by
  funext x
  by_cases hx : x < b ∨ b + 4 ≤ x
  · rw [store32_of_off hx]
    unfold store32
    rw [if_neg (by omega : ¬ x = b), if_neg (by omega : ¬ x = b+1), if_neg (by omega : ¬ x = b+2),
      if_neg (by omega : ¬ x = b+3)]
  · rw [store32_of_off (m := store32 m b w) (by omega : x < a ∨ a + 4 ≤ x)]
    unfold store32
    rw [if_neg (by omega : ¬ x = a), if_neg (by omega : ¬ x = a+1), if_neg (by omega : ¬ x = a+2),
      if_neg (by omega : ¬ x = a+3)]

theorem store8_store32_comm {w : ℕ} (h : a + 4 ≤ b ∨ b < a) :
    store8 (store32 m a v) b w = store32 (store8 m b w) a v := by
  funext x
  by_cases hx : x = b
  · rw [store32_of_off (by omega), hx]
    simp [store8]
  · rw [store8_of_ne hx]
    unfold store32
    rw [store8_of_ne hx]

/-! ## Frames -/

/-- The two memories agree on `[lo, hi)`. -/
def SameOn (m m' : Mem) (lo hi : ℕ) : Prop := ∀ x, lo ≤ x → x < hi → m' x = m x

/-- The two memories agree outside `[lo, hi)`. -/
def SameOff (m m' : Mem) (lo hi : ℕ) : Prop := ∀ x, x < lo ∨ hi ≤ x → m' x = m x

theorem SameOn.refl (m : Mem) (lo hi : ℕ) : SameOn m m lo hi := fun _ _ _ => rfl

theorem SameOn.trans (h : SameOn m m' lo hi) (h' : SameOn m' m'' lo hi) : SameOn m m'' lo hi :=
  fun x hl hh => (h' x hl hh).trans (h x hl hh)

theorem SameOn.symm (h : SameOn m m' lo hi) : SameOn m' m lo hi :=
  fun x hl hh => (h x hl hh).symm

theorem SameOn.mono {lo' hi' : ℕ} (h : SameOn m m' lo hi) (hl : lo ≤ lo') (hh : hi' ≤ hi) :
    SameOn m m' lo' hi' := fun x h1 h2 => h x (hl.trans h1) (h2.trans_le hh)

theorem SameOff.refl (m : Mem) (lo hi : ℕ) : SameOff m m lo hi := fun _ _ => rfl

theorem SameOff.trans (h : SameOff m m' lo hi) (h' : SameOff m' m'' lo hi) :
    SameOff m m'' lo hi := fun x hx => (h' x hx).trans (h x hx)

theorem SameOff.mono {lo' hi' : ℕ} (h : SameOff m m' lo hi) (hl : lo' ≤ lo) (hh : hi ≤ hi') :
    SameOff m m' lo' hi' := fun x hx => h x (by omega)

theorem SameOff.sameOn {lo' hi' : ℕ} (h : SameOff m m' lo hi) (hd : hi' ≤ lo ∨ hi ≤ lo') :
    SameOn m m' lo' hi' := fun x h1 h2 => h x (by omega)

theorem sameOff_store8 (hl : lo ≤ a) (hh : a < hi) : SameOff m (store8 m a v) lo hi :=
  fun _ hx => store8_of_ne (by omega)

theorem sameOff_store32 (hl : lo ≤ a) (hh : a + 4 ≤ hi) : SameOff m (store32 m a v) lo hi :=
  fun _ hx => store32_of_off (by omega)

theorem SameOn.load8_eq (h : SameOn m m' lo hi) (hl : lo ≤ a) (hh : a < hi) :
    load8 m' a = load8 m a := by
  rw [load8, h a hl hh, load8]

theorem SameOn.load32_eq (h : SameOn m m' lo hi) (hl : lo ≤ a) (hh : a + 4 ≤ hi) :
    load32 m' a = load32 m a := by
  unfold load32
  rw [h.load8_eq hl (by omega), h.load8_eq (by omega : lo ≤ a+1) (by omega),
    h.load8_eq (by omega : lo ≤ a+2) (by omega), h.load8_eq (by omega : lo ≤ a+3) (by omega)]

theorem SameOff.load8_eq (h : SameOff m m' lo hi) (hd : a < lo ∨ hi ≤ a) :
    load8 m' a = load8 m a := by
  rw [load8, h a hd, load8]

theorem SameOff.load32_eq (h : SameOff m m' lo hi) (hd : a + 4 ≤ lo ∨ hi ≤ a) :
    load32 m' a = load32 m a :=
  (h.sameOn hd).load32_eq le_rfl le_rfl

end ByteMemory

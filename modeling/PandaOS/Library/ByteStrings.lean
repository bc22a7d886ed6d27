import PandaOS.Library.ByteMemory

/-! Runs of bytes in byte memory, and the strings of C: bytes other than 0 with a 0 behind them.
A run is read into a list and written from one; a string at an address is determined by the
memory, so two readings of it agree. -/
namespace ByteMemory
set_option autoImplicit false
set_option maxHeartbeats 250000

/-- The `n` bytes from `a` on. -/
def readBytes (m : Mem) (a : ℕ) : ℕ → List UInt8
  | 0 => []
  | n + 1 => m a :: readBytes m (a + 1) n

def writeBytes (m : Mem) (a : ℕ) : List UInt8 → Mem
  | [] => m
  | c :: s => writeBytes (store8 m a c.toNat) (a + 1) s

/-- The bytes `s` lie in memory from `a` on. -/
def BytesAt (m : Mem) (a : ℕ) (s : List UInt8) : Prop := readBytes m a s.length = s

/-- The string at `a` is `s`. -/
def CString (m : Mem) (a : ℕ) (s : List UInt8) : Prop := BytesAt m a (s ++ [0]) ∧ 0 ∉ s

variable {m m' : Mem} {a b i n lo hi : ℕ} {s t : List UInt8}

/-! ## Reading -/

@[simp] theorem length_readBytes (m : Mem) (a n : ℕ) : (readBytes m a n).length = n := by
  induction n generalizing a with
  | zero => rfl
  | succ n ih => rw [readBytes, List.length_cons, ih]

theorem readBytes_add (m : Mem) (a n i : ℕ) : readBytes m a (n + i) = readBytes m a n ++ readBytes m (a + n) i := by
  induction n generalizing a with
  | zero => rw [Nat.zero_add, Nat.add_zero, readBytes, List.nil_append]
  | succ n ih =>
    have hnext : a + (n + 1) = a + 1 + n := by omega
    rw [Nat.succ_add, readBytes, ih, readBytes, List.cons_append, hnext]

theorem SameOn.readBytes_eq (h : SameOn m m' lo hi) (hl : lo ≤ a) (hh : a + n ≤ hi) :
    readBytes m' a n = readBytes m a n := by
  induction n generalizing a with
  | zero => rfl
  | succ n ih => rw [readBytes, h a hl (by omega), ih (by omega) (by omega), readBytes]

/-! ## The same bytes elsewhere -/

theorem load32_shift (h : ∀ x < 4, m' (b + x) = m (a + x)) : load32 m' b = load32 m a := by
  have h0 := h 0 (by norm_num)
  rw [Nat.add_zero, Nat.add_zero] at h0
  unfold load32 load8
  rw [h0, h 1 (by norm_num), h 2 (by norm_num), h 3 (by norm_num)]

theorem readBytes_shift (h : ∀ x < n, m' (b + x) = m (a + x)) : readBytes m' b n = readBytes m a n := by
  induction n generalizing a b with
  | zero => rfl
  | succ n ih =>
    have h0 := h 0 (Nat.succ_pos n)
    rw [Nat.add_zero, Nat.add_zero] at h0
    rw [readBytes, h0, ih (a := a + 1), readBytes]
    intro x hx
    have hx' := h (x + 1) (by omega)
    rwa [show b + (x + 1) = b + 1 + x by omega, show a + (x + 1) = a + 1 + x by omega] at hx'

/-! ## Runs -/

theorem bytesAt_append : BytesAt m a (s ++ t) ↔ BytesAt m a s ∧ BytesAt m (a + s.length) t := by
  unfold BytesAt
  rw [List.length_append, readBytes_add]
  constructor
  · intro h
    exact List.append_inj h (length_readBytes _ _ _)
  · rintro ⟨hs, ht⟩
    rw [hs, ht]

theorem bytesAt_cons {c : UInt8} : BytesAt m a (c :: s) ↔ m a = c ∧ BytesAt m (a + 1) s := by
  unfold BytesAt
  rw [List.length_cons, readBytes, List.cons.injEq]

theorem bytesAt_nil (m : Mem) (a : ℕ) : BytesAt m a [] := rfl

theorem BytesAt.congr (h : BytesAt m a s) (hm : SameOn m m' lo hi) (hl : lo ≤ a) (hh : a + s.length ≤ hi) :
    BytesAt m' a s := (hm.readBytes_eq hl hh).trans h

theorem BytesAt.drop (h : BytesAt m a s) (n : ℕ) (hn : n ≤ s.length) : BytesAt m (a + n) (s.drop n) := by
  have hsplit : BytesAt m a (s.take n ++ s.drop n) := by
    rw [List.take_append_drop]
    exact h
  have hlength : (s.take n).length = n := List.length_take_of_le hn
  rw [bytesAt_append, hlength] at hsplit
  exact hsplit.2

theorem BytesAt.read_take (h : BytesAt m a s) (hn : n ≤ s.length) : readBytes m a n = s.take n := by
  have hsplit : BytesAt m a (s.take n ++ s.drop n) := by
    rw [List.take_append_drop]
    exact h
  have hlength : (s.take n).length = n := List.length_take_of_le hn
  have htake := (bytesAt_append.mp hsplit).1
  unfold BytesAt at htake
  rwa [hlength] at htake

theorem readBytes_getElem (hi : i < n) : (readBytes m a n)[i]? = some (m (a + i)) := by
  induction n generalizing a i with
  | zero => omega
  | succ n ih =>
    cases i with
    | zero => rfl
    | succ i =>
      have hnext : a + 1 + i = a + (i + 1) := by omega
      rw [readBytes, List.getElem?_cons_succ, ih (by omega), hnext]

/-! ## Writing -/

theorem sameOff_writeBytes (m : Mem) (a : ℕ) (s : List UInt8) :
    SameOff m (writeBytes m a s) a (a + s.length) := by
  induction s generalizing m a with
  | nil => exact SameOff.refl _ _ _
  | cons c s ih =>
    intro x hx
    rw [List.length_cons] at hx
    rw [writeBytes, ih _ _ x (by omega), store8_of_ne (by omega)]

theorem bytesAt_writeBytes (m : Mem) (a : ℕ) (s : List UInt8) : BytesAt (writeBytes m a s) a s := by
  induction s generalizing m a with
  | nil => rfl
  | cons c s ih =>
    rw [bytesAt_cons]
    refine ⟨?_, ih _ _⟩
    rw [writeBytes, sameOff_writeBytes _ _ _ a (by omega)]
    simp [store8]

/-- A run copied from other memory. -/
theorem bytesAt_readBytes (h : BytesAt m a (readBytes m' b n)) (hi : i < n) : m (a + i) = m' (b + i) := by
  have hread : readBytes m a n = readBytes m' b n := by
    unfold BytesAt at h
    rwa [length_readBytes] at h
  have hget := readBytes_getElem (m := m) (a := a) hi
  rw [hread, readBytes_getElem hi] at hget
  exact (Option.some.inj hget).symm

/-! ## Strings -/

theorem CString.nonzero (h : CString m a s) (hi : i < s.length) : m (a + i) ≠ 0 := by
  have hread := readBytes_getElem (m := m) (a := a) (n := (s ++ [0]).length) (i := i)
    (by rw [List.length_append]; omega)
  have hbytes : readBytes m a (s ++ [0]).length = s ++ [0] := h.1
  rw [hbytes, List.getElem?_append_left hi, List.getElem?_eq_getElem hi] at hread
  intro hzero
  rw [hzero, Option.some.injEq] at hread
  exact h.2 (hread ▸ List.getElem_mem hi)

theorem CString.zero (h : CString m a s) : m (a + s.length) = 0 := by
  have hend := (bytesAt_append.mp h.1).2
  rw [bytesAt_cons] at hend
  exact hend.1

theorem CString.bytes (h : CString m a s) : BytesAt m a s := (bytesAt_append.mp h.1).1

theorem cstring_of_bytesAt (h : BytesAt m a s) (hzero : m (a + s.length) = 0) (hs : 0 ∉ s) : CString m a s :=
  ⟨bytesAt_append.mpr ⟨h, bytesAt_cons.mpr ⟨hzero, rfl⟩⟩, hs⟩

theorem CString.congr (h : CString m a s) (hm : SameOn m m' lo hi) (hl : lo ≤ a) (hh : a + s.length < hi) :
    CString m' a s :=
  ⟨h.1.congr hm hl (by rw [List.length_append, List.length_singleton]; omega), h.2⟩

theorem CString.shift (h : CString m a s) (hm : ∀ x ≤ s.length, m' (b + x) = m (a + x)) : CString m' b s := by
  refine ⟨?_, h.2⟩
  have hlength : (s ++ [0]).length = s.length + 1 := by rw [List.length_append, List.length_singleton]
  exact (readBytes_shift fun x hx => hm x (by omega)).trans h.1

theorem CString.length_eq (h : CString m a s) (h' : CString m a t) : s.length = t.length := by
  rcases lt_trichotomy s.length t.length with hlt | heq | hgt
  · exact absurd h.zero (h'.nonzero hlt)
  · exact heq
  · exact absurd h'.zero (h.nonzero hgt)

/-- The string at an address is unique. -/
theorem CString.unique (h : CString m a s) (h' : CString m a t) : s = t := by
  have hs : readBytes m a s.length = s := h.bytes
  have ht : readBytes m a t.length = t := h'.bytes
  rw [← hs, ← ht, h.length_eq h']

theorem CString.tail {c : UInt8} (h : CString m a (c :: s)) : CString m (a + 1) s :=
  ⟨(bytesAt_cons.mp h.1).2, fun hs => h.2 (List.mem_cons_of_mem _ hs)⟩

theorem cstring_nil (h : m a = 0) : CString m a [] := cstring_of_bytesAt (bytesAt_nil _ _) h List.not_mem_nil

/-- There is a string wherever there is a 0 not too far behind. -/
theorem cstring_of_zero (h : m (a + n) = 0) : ∃ s, CString m a s ∧ s.length ≤ n := by
  induction n generalizing a with
  | zero => exact ⟨[], cstring_nil h, le_rfl⟩
  | succ n ih =>
    by_cases hc : m a = 0
    · exact ⟨[], cstring_nil hc, Nat.zero_le _⟩
    · have hnext : a + 1 + n = a + (n + 1) := by omega
      obtain ⟨s, hs, hlength⟩ := ih (hnext ▸ h)
      refine ⟨m a :: s, ⟨bytesAt_cons.mpr ⟨rfl, hs.1⟩, ?_⟩, Nat.succ_le_succ hlength⟩
      rw [List.mem_cons]
      rintro (heq | hmem)
      · exact hc heq.symm
      · exact hs.2 hmem

end ByteMemory

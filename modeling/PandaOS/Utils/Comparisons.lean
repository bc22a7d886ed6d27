import PandaOS.Utils.Strings
import PandaOS.Library.Traced

/-! `memcmp` of `mem.c` and `strcmp` of `string.c` as decision procedures. Both walk along two ranges at one
index; each read is recorded with the pointer that the caller gave and the index behind it. -/
namespace PandaOS
open ByteMemory Word32 Tracing Traced
set_option autoImplicit false
set_option maxHeartbeats 250000

/-! ## memcmp -/

/-- `while (--len && *dest == *src) { dest++; src++; }`: the pointers behind the loop. It is entered with
`len` not 0. -/
def memcmpLoop (m : Mem) : ℕ → ℕ → ℕ → ℕ × ℕ
  | 0, dest, src => (dest, src)
  | len + 1, dest, src =>
    if len ≠ 0 ∧ load8 m dest = load8 m src then memcmpLoop m len (dest + 1) (src + 1) else (dest, src)

def memcmp (m : Mem) (dest src len : ℕ) : ℤ :=
  if len = 0 then 0
  else
    let (dest, src) := memcmpLoop m len dest src
    (load8 m dest : ℤ) - load8 m src

/-! ## The reads -/

/-- A read of `pointer[index]`. -/
structure Read where
  pointer : ℕ
  index : ℕ
  deriving DecidableEq, Repr

/-- The loop of `memcmp` that began at `dest0` and `src0`. -/
def memcmpLoopReads (m : Mem) (dest0 src0 : ℕ) : ℕ → ℕ → ℕ → Traced Stop Read (ℕ × ℕ)
  | 0, dest, src => pure (dest, src)
  | len + 1, dest, src =>
    if len = 0 then pure (dest, src)
    else do
      touchAll [⟨dest0, dest - dest0⟩, ⟨src0, src - src0⟩]
      if load8 m dest = load8 m src then memcmpLoopReads m dest0 src0 len (dest + 1) (src + 1)
      else pure (dest, src)

def memcmpReads (m : Mem) (dest src len : ℕ) : Traced Stop Read ℤ :=
  if len = 0 then pure 0
  else do
    let (dest', src') ← memcmpLoopReads m dest src len dest src
    touchAll [⟨dest, dest' - dest⟩, ⟨src, src' - src⟩]
    pure ((load8 m dest' : ℤ) - load8 m src')

/-- The loop of `strcmp`. The second string is looked at only where the first one goes on. -/
def strcmpLoopReads (m : Mem) (str1 str2 : ℕ) : ℕ → ℕ → Traced Stop Read (ℕ × Bool)
  | 0, _ => lift (.error .outOfFuel)
  | n + 1, i => do
    touch ⟨str1, i⟩
    if load8 m (str1 + i) ≠ 0 then
      touch ⟨str2, i⟩
      if load8 m (str2 + i) ≠ 0 then
        touchAll [⟨str1, i⟩, ⟨str2, i⟩]
        if load8 m (str1 + i) ≠ load8 m (str2 + i) then pure (i, true)
        else strcmpLoopReads m str1 str2 n (i + 1)
      else pure (i, false)
    else pure (i, false)

/-- Behind the loop both strings are looked at once more, at the index where it ended. -/
def strcmpReads (m : Mem) (str1 str2 : ℕ) : Traced Stop Read ℕ := do
  let (i, failed) ← strcmpLoopReads m str1 str2 ADDRESS_SPACE 0
  touchAll [⟨str1, i⟩, ⟨str2, i⟩]
  let failed := if (load8 m (str1 + i) = 0 ∧ load8 m (str2 + i) ≠ 0) ∨
      (load8 m (str1 + i) ≠ 0 ∧ load8 m (str2 + i) = 0) then true else failed
  pure (if failed then 1 else 0)

/-! ## What is expected -/

/-- The ranges first differ at index `i`. -/
def FirstDifference (m : Mem) (a b i : ℕ) : Prop := (∀ k < i, m (a + k) = m (b + k)) ∧ m (a + i) ≠ m (b + i)

/-- `memcmp` decides equality and the lexicographic order of two ranges of `len` bytes, and reads no others. -/
structure ComparesBytes (m : Mem) (dest src len : ℕ) : Prop where
  zero : memcmp m dest src len = 0 ↔ readBytes m dest len = readBytes m src len
  sign : ∀ i < len, FirstDifference m dest src i →
    (memcmp m dest src len).sign = ((m (dest + i)).toNat - (m (src + i)).toNat : ℤ).sign
  order : memcmp m dest src len < 0 ↔ readBytes m dest len < readBytes m src len
  reads : Within (fun r => (r.pointer = dest ∨ r.pointer = src) ∧ r.index < len) (memcmpReads m dest src len)
  recorded : (memcmpReads m dest src len).result = .ok (memcmp m dest src len)

/-- `strcmp` decides equality of the strings `s` and `t`, and reads neither beyond its terminator. -/
structure ComparesStrings (m : Mem) (str1 str2 : ℕ) (s t : List UInt8) : Prop where
  zero : ∃ r, strcmp m str1 str2 = .ok r ∧ (r = 0 ↔ s = t)
  reads : Within (fun r => (r.pointer = str1 ∧ r.index ≤ s.length) ∨ (r.pointer = str2 ∧ r.index ≤ t.length))
    (strcmpReads m str1 str2)
  recorded : (strcmpReads m str1 str2).result = strcmp m str1 str2

variable {m : Mem} {a b i j n dest src len : ℕ} {s t : List UInt8}

/-! ## Ranges -/

/-- The ranges are equal exactly if no index below `n` is a first difference. -/
theorem readBytes_eq_iff : readBytes m a n = readBytes m b n ↔ ∀ k < n, m (a + k) = m (b + k) := by
  constructor
  · intro h k hk
    have hget := readBytes_getElem (m := m) (a := a) hk
    rw [h, readBytes_getElem hk] at hget
    exact (Option.some.inj hget).symm
  · intro h
    exact (readBytes_shift h)

theorem FirstDifference.unique (h : FirstDifference m a b i) (h' : FirstDifference m a b j) : i = j := by
  rcases lt_trichotomy i j with hlt | heq | hgt
  · exact absurd (h'.1 i hlt) h.2
  · exact heq
  · exact absurd (h.1 j hgt) h'.2

/-- The order is decided at the first difference. -/
theorem readBytes_lt_iff (h : FirstDifference m a b i) (hi : i < n) :
    readBytes m a n < readBytes m b n ↔ m (a + i) < m (b + i) := by
  induction i generalizing a b n with
  | zero =>
    obtain ⟨n, rfl⟩ : ∃ x, n = x + 1 := ⟨n - 1, by omega⟩
    have hne : m a ≠ m b := h.2
    rw [readBytes, readBytes, List.cons_lt_cons_iff, Nat.add_zero, Nat.add_zero]
    exact or_iff_left fun hand => hne hand.1
  | succ i ih =>
    obtain ⟨n, rfl⟩ : ∃ x, n = x + 1 := ⟨n - 1, by omega⟩
    have hfirst : m a = m b := h.1 0 (Nat.succ_pos i)
    have ha : a + 1 + i = a + (i + 1) := by omega
    have hb : b + 1 + i = b + (i + 1) := by omega
    have hrest : FirstDifference m (a + 1) (b + 1) i := by
      refine ⟨fun k hk => ?_, ?_⟩
      · have hnext := h.1 (k + 1) (by omega)
        rwa [show a + (k + 1) = a + 1 + k by omega, show b + (k + 1) = b + 1 + k by omega] at hnext
      · rw [ha, hb]
        exact h.2
    rw [readBytes, readBytes, List.cons_lt_cons_iff, hfirst, ih hrest (by omega), ha, hb]
    constructor
    · rintro (hlt | ⟨-, hlt⟩)
      · exact absurd hlt (UInt8.lt_irrefl _)
      · exact hlt
    · exact fun hlt => Or.inr ⟨rfl, hlt⟩

/-! ## memcmp -/

/-- The loop ends at the first difference, or at the last byte. -/
theorem memcmpLoop_spec (m : Mem) (dest src len : ℕ) : ∃ j ≤ len, memcmpLoop m (len + 1) dest src = (dest + j, src + j) ∧
    (∀ k < j, m (dest + k) = m (src + k)) ∧ (j = len ∨ m (dest + j) ≠ m (src + j)) := by
  induction len generalizing dest src with
  | zero => exact ⟨0, le_rfl, rfl, nofun, Or.inl rfl⟩
  | succ len ih =>
    by_cases heq : m dest = m src
    · obtain ⟨j, hj, hrun, hsame, hend⟩ := ih (dest + 1) (src + 1)
      have hload : load8 m dest = load8 m src := congrArg UInt8.toNat heq
      have hd : dest + 1 + j = dest + (j + 1) := by omega
      have hs : src + 1 + j = src + (j + 1) := by omega
      rw [hd, hs] at hend hrun
      refine ⟨j + 1, by omega, ?_, fun k hk => ?_, hend.imp_left (congrArg Nat.succ)⟩
      · rw [memcmpLoop, if_pos ⟨Nat.succ_ne_zero len, hload⟩, hrun]
      · cases k with
        | zero => exact heq
        | succ k =>
          have hnext := hsame k (by omega)
          rwa [show dest + 1 + k = dest + (k + 1) by omega, show src + 1 + k = src + (k + 1) by omega] at hnext
    · have hload : load8 m dest ≠ load8 m src := fun h => heq (UInt8.toNat_inj.mp h)
      refine ⟨0, Nat.zero_le _, ?_, nofun, Or.inr heq⟩
      rw [memcmpLoop, if_neg fun hboth => hload hboth.2]
      rfl

/-- The value is the difference of the bytes at that index. -/
theorem memcmp_eq (m : Mem) (dest src len : ℕ) : ∃ j ≤ len,
    memcmp m dest src (len + 1) = ((m (dest + j)).toNat - (m (src + j)).toNat : ℤ) ∧
    (∀ k < j, m (dest + k) = m (src + k)) ∧ (j = len ∨ m (dest + j) ≠ m (src + j)) := by
  obtain ⟨j, hj, hrun, hsame, hend⟩ := memcmpLoop_spec m dest src len
  refine ⟨j, hj, ?_, hsame, hend⟩
  rw [memcmp, if_neg (Nat.succ_ne_zero len), hrun]
  rfl

theorem memcmpLoopReads_result (m : Mem) (dest0 src0 len dest src : ℕ) :
    (memcmpLoopReads m dest0 src0 len dest src).result = .ok (memcmpLoop m len dest src) := by
  induction len generalizing dest src with
  | zero => rfl
  | succ len ih =>
    rw [memcmpLoopReads, memcmpLoop]
    by_cases hlen : len = 0
    · rw [if_pos hlen, if_neg fun hboth => hboth.1 hlen]
      rfl
    · rw [if_neg hlen, result_bind, result_touchAll, ok_bind]
      by_cases heq : load8 m dest = load8 m src
      · rw [if_pos heq, if_pos ⟨hlen, heq⟩]
        exact ih _ _
      · rw [if_neg heq, if_neg fun hboth => heq hboth.2]
        rfl

theorem memcmpReads_result (m : Mem) (dest src len : ℕ) :
    (memcmpReads m dest src len).result = .ok (memcmp m dest src len) := by
  rw [memcmpReads, memcmp]
  by_cases hlen : len = 0
  · rw [if_pos hlen, if_pos hlen]
    rfl
  · rw [if_neg hlen, if_neg hlen, result_bind, memcmpLoopReads_result]
    rfl

/-- With `i` bytes behind and `len` ahead, the loop reads below `i + len`. -/
theorem memcmpLoopReads_within (m : Mem) (dest src len i : ℕ) :
    Within (fun r => (r.pointer = dest ∨ r.pointer = src) ∧ r.index < i + len)
      (memcmpLoopReads m dest src len (dest + i) (src + i)) := by
  induction len generalizing i with
  | zero => exact within_pure _
  | succ len ih =>
    rw [memcmpLoopReads]
    by_cases hlen : len = 0
    · rw [if_pos hlen]
      exact within_pure _
    · rw [if_neg hlen, within_touchAll_bind]
      refine ⟨?_, ?_⟩
      · intro r hr
        rw [List.mem_pair] at hr
        rcases hr with rfl | rfl
        · exact ⟨Or.inl rfl, by dsimp only; omega⟩
        · exact ⟨Or.inr rfl, by dsimp only; omega⟩
      · split
        · refine (ih (i + 1)).mono ?_
          intro r hr
          exact ⟨hr.1, by omega⟩
        · exact within_pure _

theorem memcmpReads_within (m : Mem) (dest src len : ℕ) :
    Within (fun r => (r.pointer = dest ∨ r.pointer = src) ∧ r.index < len) (memcmpReads m dest src len) := by
  rw [memcmpReads]
  by_cases hlen : len = 0
  · rw [if_pos hlen]
    exact within_pure _
  · obtain ⟨n, rfl⟩ : ∃ x, len = x + 1 := ⟨len - 1, by omega⟩
    obtain ⟨j, hj, hrun, -⟩ := memcmpLoop_spec m dest src n
    have hloop := memcmpLoopReads_within m dest src (n + 1) 0
    rw [Nat.zero_add] at hloop
    rw [if_neg hlen, within_bind_ok ((memcmpLoopReads_result m dest src (n + 1) dest src).trans (congrArg _ hrun))]
    refine ⟨hloop, ?_⟩
    dsimp only
    rw [within_touchAll_bind]
    refine ⟨?_, within_pure _⟩
    intro r hr
    rw [List.mem_pair] at hr
    rcases hr with rfl | rfl
    · exact ⟨Or.inl rfl, by dsimp only; omega⟩
    · exact ⟨Or.inr rfl, by dsimp only; omega⟩

theorem memcmp_compares (m : Mem) (dest src len : ℕ) : ComparesBytes m dest src len := by
  cases len with
  | zero =>
    refine ⟨iff_of_true rfl rfl, nofun, ?_, memcmpReads_within m dest src 0, memcmpReads_result m dest src 0⟩
    exact iff_of_false (lt_irrefl (0 : ℤ)) (List.not_lt_nil _)
  | succ len =>
    obtain ⟨j, hj, hvalue, hsame, hend⟩ := memcmp_eq m dest src len
    obtain ⟨x, hx⟩ : ∃ x, x = m (dest + j) := ⟨_, rfl⟩
    obtain ⟨y, hy⟩ : ∃ y, y = m (src + j) := ⟨_, rfl⟩
    rw [← hx, ← hy] at hvalue hend
    have hbytes : (x.toNat : ℤ) - y.toNat = 0 ↔ x = y := by
      rw [sub_eq_zero, Int.natCast_inj, UInt8.toNat_inj]
    have hall : readBytes m dest (len + 1) = readBytes m src (len + 1) ↔ x = y := by
      rw [readBytes_eq_iff, hx, hy]
      refine ⟨fun hall => hall j (by omega), fun heq k hk => ?_⟩
      rw [← hx, ← hy] at heq
      have hlast : j = len := hend.resolve_right (not_not.mpr heq)
      rcases Nat.lt_or_ge k j with hlt | hge
      · exact hsame k hlt
      · have hkj : k = j := by omega
        rw [hkj, ← hx, ← hy, heq]
    have hfirst : x ≠ y → FirstDifference m dest src j := fun hne => ⟨hsame, by rwa [← hx, ← hy]⟩
    refine ⟨by rw [hvalue, hbytes, hall], fun i hi hdiff => ?_, ?_, memcmpReads_within m dest src (len + 1),
      memcmpReads_result m dest src (len + 1)⟩
    · have hij : i = j := by
        by_cases heq : x = y
        · exact absurd (readBytes_eq_iff.mp (hall.mpr heq) i hi) hdiff.2
        · exact hdiff.unique (hfirst heq)
      rw [hvalue, hij, hx, hy]
    · by_cases heq : x = y
      · rw [hvalue, hall.mpr heq, heq, sub_self]
        exact iff_of_false (lt_irrefl _) (List.lt_irrefl _)
      · rw [hvalue, readBytes_lt_iff (hfirst heq) (by omega), ← hx, ← hy, sub_neg, Int.ofNat_lt]
        exact UInt8.lt_iff_toNat_lt.symm

/-! ## strcmp -/

theorem strcmpLoopReads_result (m : Mem) (str1 str2 n i : ℕ) :
    (strcmpLoopReads m str1 str2 n i).result = strcmpLoop m str1 str2 n i := by
  induction n generalizing i with
  | zero => rfl
  | succ n ih =>
    rw [strcmpLoopReads, strcmpLoop, result_bind, result_touch, ok_bind]
    by_cases h1 : load8 m (str1 + i) = 0
    · rw [if_neg (not_not.mpr h1), if_neg fun hboth => hboth.1 h1]
      rfl
    · rw [if_pos h1, result_bind, result_touch, ok_bind]
      by_cases h2 : load8 m (str2 + i) = 0
      · rw [if_neg (not_not.mpr h2), if_neg fun hboth => hboth.2 h2]
        rfl
      · have hgo : load8 m (str1 + i) ≠ 0 ∧ load8 m (str2 + i) ≠ 0 := ⟨h1, h2⟩
        rw [if_pos h2, if_pos hgo, result_bind, result_touchAll, ok_bind]
        by_cases heq : load8 m (str1 + i) = load8 m (str2 + i)
        · rw [if_neg (not_not.mpr heq), if_neg (not_not.mpr heq)]
          exact ih (i + 1)
        · rw [if_pos heq, if_pos heq]
          rfl

theorem strcmpReads_result (m : Mem) (str1 str2 : ℕ) : (strcmpReads m str1 str2).result = strcmp m str1 str2 := by
  rw [strcmpReads, strcmp, result_bind, strcmpLoopReads_result]
  cases strcmpLoop m str1 str2 ADDRESS_SPACE 0 <;> rfl

/-- The loop from index `i` on, with the strings `s` and `t` ahead, ends where neither has ended before. -/
theorem strcmpLoopReads_within (hs : CString m (a + i) s) (ht : CString m (b + i) t) (hn : s.length < n) :
    ∃ j failed, strcmpLoop m a b n i = .ok (j, failed) ∧ j ≤ i + s.length ∧ j ≤ i + t.length ∧
      Within (fun r => (r.pointer = a ∧ r.index ≤ i + s.length) ∨ (r.pointer = b ∧ r.index ≤ i + t.length))
        (strcmpLoopReads m a b n i) := by
  induction s generalizing n i t with
  | nil =>
    obtain ⟨n, rfl⟩ : ∃ x, n = x + 1 := ⟨n - 1, by omega⟩
    have hz : load8 m (a + i) = 0 := load8_eq_zero.mpr hs.zero
    refine ⟨i, false, by rw [strcmpLoop, if_neg fun hboth => hboth.1 hz], by omega, by omega, ?_⟩
    rw [strcmpLoopReads, within_touch_bind, if_neg (not_not.mpr hz)]
    exact ⟨Or.inl ⟨rfl, le_rfl⟩, within_pure _⟩
  | cons c s ih =>
    rw [List.length_cons] at hn
    obtain ⟨n, rfl⟩ : ∃ x, n = x + 1 := ⟨n - 1, by omega⟩
    have hc : load8 m (a + i) ≠ 0 := fun hz => hs.nonzero (i := 0) (by simp) (load8_eq_zero.mp hz)
    rw [strcmpLoopReads, within_touch_bind, if_pos hc, within_touch_bind]
    cases t with
    | nil =>
      have hz : load8 m (b + i) = 0 := load8_eq_zero.mpr ht.zero
      refine ⟨i, false, by rw [strcmpLoop, if_neg fun hboth => hboth.2 hz], by omega, by omega, ?_⟩
      rw [if_neg (not_not.mpr hz)]
      exact ⟨Or.inl ⟨rfl, Nat.le_add_right _ _⟩, Or.inr ⟨rfl, le_rfl⟩, within_pure _⟩
    | cons d t =>
      have hd : load8 m (b + i) ≠ 0 := fun hz => ht.nonzero (i := 0) (by simp) (load8_eq_zero.mp hz)
      have hboth : ∀ r ∈ [(⟨a, i⟩ : Read), ⟨b, i⟩], (r.pointer = a ∧ r.index ≤ i + (c :: s).length) ∨
          (r.pointer = b ∧ r.index ≤ i + (d :: t).length) := by
        intro r hr
        rw [List.mem_pair] at hr
        rcases hr with rfl | rfl
        · exact Or.inl ⟨rfl, Nat.le_add_right _ _⟩
        · exact Or.inr ⟨rfl, Nat.le_add_right _ _⟩
      rw [if_pos hd, within_touchAll_bind]
      by_cases heq : load8 m (a + i) = load8 m (b + i)
      · obtain ⟨j, failed, hrun, hj, hj', hreads⟩ := ih (i := i + 1) hs.tail ht.tail (by omega : s.length < n)
        rw [List.length_cons, List.length_cons]
        refine ⟨j, failed, by rw [strcmpLoop, if_pos ⟨hc, hd⟩, if_neg (not_not.mpr heq), hrun], by omega, by omega,
          hboth _ (by simp), hboth _ (by simp), hboth, ?_⟩
        rw [if_neg (not_not.mpr heq)]
        refine hreads.mono ?_
        intro r hr
        exact hr.imp (fun h => ⟨h.1, by omega⟩) fun h => ⟨h.1, by omega⟩
      · refine ⟨i, true, by rw [strcmpLoop, if_pos ⟨hc, hd⟩, if_pos heq], by omega, by omega, hboth _ (by simp),
          hboth _ (by simp), hboth, ?_⟩
        rw [if_pos heq]
        exact within_pure _

theorem strcmp_compares (hs : CString m a s) (ht : CString m b t) (hn : s.length < ADDRESS_SPACE) :
    ComparesStrings m a b s t := by
  refine ⟨⟨_, strcmp_spec hs ht hn, ?_⟩, ?_, strcmpReads_result m a b⟩
  · split
    · next heq => exact iff_of_true rfl heq
    · next hne => exact iff_of_false Nat.one_ne_zero hne
  · obtain ⟨j, failed, hrun, hj, hj', hreads⟩ := strcmpLoopReads_within (i := 0) hs ht hn
    rw [Nat.zero_add] at hj hj'
    rw [Nat.zero_add, Nat.zero_add] at hreads
    rw [strcmpReads, within_bind_ok ((strcmpLoopReads_result m a b ADDRESS_SPACE 0).trans hrun)]
    refine ⟨hreads, ?_⟩
    dsimp only
    rw [within_touchAll_bind]
    refine ⟨?_, within_pure _⟩
    intro r hr
    rw [List.mem_pair] at hr
    rcases hr with rfl | rfl
    · exact Or.inl ⟨rfl, hj⟩
    · exact Or.inr ⟨rfl, hj'⟩

/-- The comparison functions decide equality: of any two ranges of one length, and of any two strings in the
address space. -/
theorem comparisons_decide (m : Mem) : (∀ dest src len, ComparesBytes m dest src len) ∧
    ∀ str1 str2 s t, CString m str1 s → CString m str2 t → s.length < ADDRESS_SPACE → ComparesStrings m str1 str2 s t :=
  ⟨memcmp_compares m, fun _ _ _ _ hs ht hn => strcmp_compares hs ht hn⟩

/-- A name of one character beside the empty one, and three bytes from the same addresses on. -/
theorem comparisons_decide_prefix : ComparesBytes (store8 (fun _ => 0) 0x1000 0x4A) 0x1000 0x2000 3 ∧
    ComparesStrings (store8 (fun _ => 0) 0x1000 0x4A) 0x1000 0x2000 [0x4A] [] := by
  obtain ⟨hbytes, hstrings⟩ := comparisons_decide (store8 (fun _ => 0) 0x1000 0x4A)
  have hname : CString (store8 (fun _ => 0) 0x1000 0x4A) 0x1000 [0x4A] :=
    cstring_of_bytesAt (bytesAt_cons.mpr ⟨rfl, rfl⟩) rfl (by decide)
  exact ⟨hbytes _ _ _, hstrings _ _ _ _ hname (cstring_nil rfl) (by decide)⟩

end PandaOS

import PandaOS.Library.ByteStrings
import PandaOS.Utils.Mem

/-! `string.c`: `strcmp`, `strcpy` and `strlen`. `strcpy` is a `do`-loop that stops in front of the
terminator, so it copies the characters of a string and no 0 behind them. A loop over a string
ends within the address space, which bounds its rounds. -/
namespace PandaOS
open ByteMemory Word32
set_option autoImplicit false
set_option maxHeartbeats 250000

/-- The bytes that an address can reach. -/
def ADDRESS_SPACE : ℕ := 4294967296

/-! ## The functions -/

/-- The loop of `strcmp` from index `i`, with `n` rounds left: `i` and `failed` behind it. -/
def strcmpLoop (m : Mem) (str1 str2 : ℕ) : ℕ → ℕ → Result (ℕ × Bool)
  | 0, _ => .error .outOfFuel
  | n + 1, i =>
    if load8 m (str1 + i) ≠ 0 ∧ load8 m (str2 + i) ≠ 0 then
      if load8 m (str1 + i) ≠ load8 m (str2 + i) then .ok (i, true)
      else strcmpLoop m str1 str2 n (i + 1)
    else .ok (i, false)

def strcmp (m : Mem) (str1 str2 : ℕ) : Result ℕ := do
  let (i, failed) ← strcmpLoop m str1 str2 ADDRESS_SPACE 0
  let failed := if (load8 m (str1 + i) = 0 ∧ load8 m (str2 + i) ≠ 0) ∨
      (load8 m (str1 + i) ≠ 0 ∧ load8 m (str2 + i) = 0) then true else failed
  return if failed then 1 else 0

/-- `do { *dest++ = *src++; } while (*src != 0);` with `n` rounds left. -/
def strcpyLoop : ℕ → ℕ → ℕ → Mem → Result Mem
  | 0, _, _, _ => .error .outOfFuel
  | n + 1, dest, src, m =>
    let m := store8 m dest (load8 m src)
    if load8 m (src + 1) ≠ 0 then strcpyLoop n (dest + 1) (src + 1) m else .ok m

def strcpy (dest src : ℕ) (m : Mem) : Result Mem := strcpyLoop ADDRESS_SPACE dest src m

/-- `while (*src++) i++;` with `n` rounds left. -/
def strlenLoop (m : Mem) : ℕ → ℕ → ℕ → Result ℕ
  | 0, _, _ => .error .outOfFuel
  | n + 1, src, i => if load8 m src ≠ 0 then strlenLoop m n (src + 1) (i + 1) else .ok i

def strlen (m : Mem) (src : ℕ) : Result ℕ := strlenLoop m ADDRESS_SPACE src 0

variable {m m' : Mem} {a b i n dest src : ℕ} {s t : List UInt8}

/-! ## strlen -/

theorem load8_eq_zero : load8 m a = 0 ↔ m a = 0 := by
  unfold load8
  constructor
  · intro h
    exact UInt8.toNat_inj.mp h
  · intro h
    rw [h]
    rfl

theorem strlenLoop_spec (h : CString m src s) (hn : s.length < n) :
    strlenLoop m n src i = .ok (i + s.length) := by
  induction s generalizing n src i with
  | nil =>
    obtain ⟨n, rfl⟩ : ∃ x, n = x + 1 := ⟨n - 1, by omega⟩
    have hz : load8 m src = 0 := load8_eq_zero.mpr h.zero
    rw [strlenLoop, if_neg (not_not.mpr hz)]
    rfl
  | cons c s ih =>
    rw [List.length_cons] at hn
    obtain ⟨n, rfl⟩ : ∃ x, n = x + 1 := ⟨n - 1, by omega⟩
    have hc : load8 m src ≠ 0 := fun hz => h.nonzero (i := 0) (by simp) (load8_eq_zero.mp hz)
    have hsum : i + 1 + s.length = i + (c :: s).length := by
      rw [List.length_cons]
      omega
    rw [strlenLoop, if_pos hc, ih h.tail (by omega), hsum]

theorem strlen_spec (h : CString m src s) (hn : s.length < ADDRESS_SPACE) : strlen m src = .ok s.length := by
  rw [strlen, strlenLoop_spec h hn, Nat.zero_add]

/-! ## strcmp -/

theorem strcmpLoop_spec (hs : CString m (a + i) s) (ht : CString m (b + i) t) (hn : s.length < n) :
    ∃ j failed, strcmpLoop m a b n i = .ok (j, failed) ∧
      ((if (load8 m (a + j) = 0 ∧ load8 m (b + j) ≠ 0) ∨ (load8 m (a + j) ≠ 0 ∧ load8 m (b + j) = 0) then true
        else failed) = false ↔ s = t) := by
  induction s generalizing n i t with
  | nil =>
    obtain ⟨n, rfl⟩ : ∃ x, n = x + 1 := ⟨n - 1, by omega⟩
    have hz : load8 m (a + i) = 0 := load8_eq_zero.mpr hs.zero
    refine ⟨i, false, by rw [strcmpLoop, if_neg (fun h => h.1 hz)], ?_⟩
    cases t with
    | nil =>
      have hz' : load8 m (b + i) = 0 := load8_eq_zero.mpr ht.zero
      simp [hz, hz']
    | cons c t =>
      have hc : load8 m (b + i) ≠ 0 := fun hz' => ht.nonzero (i := 0) (by simp) (load8_eq_zero.mp hz')
      simp [hz, hc]
  | cons c s ih =>
    rw [List.length_cons] at hn
    obtain ⟨n, rfl⟩ : ∃ x, n = x + 1 := ⟨n - 1, by omega⟩
    have hc : load8 m (a + i) ≠ 0 := fun hz => hs.nonzero (i := 0) (by simp) (load8_eq_zero.mp hz)
    have hread : m (a + i) = c := (bytesAt_cons.mp hs.bytes).1
    cases t with
    | nil =>
      have hz : load8 m (b + i) = 0 := load8_eq_zero.mpr ht.zero
      refine ⟨i, false, by rw [strcmpLoop, if_neg (fun h => h.2 hz)], ?_⟩
      simp [hz, hc]
    | cons d t =>
      have hd : load8 m (b + i) ≠ 0 := fun hz => ht.nonzero (i := 0) (by simp) (load8_eq_zero.mp hz)
      have hread' : m (b + i) = d := (bytesAt_cons.mp ht.bytes).1
      by_cases hcd : c = d
      · have heq : load8 m (a + i) = load8 m (b + i) := by rw [load8, load8, hread, hread', hcd]
        obtain ⟨j, failed, hrun, hiff⟩ := ih (i := i + 1) hs.tail ht.tail (by omega : s.length < n)
        refine ⟨j, failed, by rw [strcmpLoop, if_pos ⟨hc, hd⟩, if_neg (not_not.mpr heq), hrun], ?_⟩
        rw [hiff, hcd, List.cons.injEq]
        simp
      · have hne : load8 m (a + i) ≠ load8 m (b + i) := by
          rw [load8, load8, hread, hread']
          exact fun h => hcd (UInt8.toNat_inj.mp h)
        refine ⟨i, true, by rw [strcmpLoop, if_pos ⟨hc, hd⟩, if_pos hne], ?_⟩
        simp [hcd]

/-- `strcmp` returns 0 on equal strings and 1 on others. -/
theorem strcmp_spec (hs : CString m a s) (ht : CString m b t) (hn : s.length < ADDRESS_SPACE) :
    strcmp m a b = .ok (if s = t then 0 else 1) := by
  obtain ⟨j, failed, hrun, hiff⟩ := strcmpLoop_spec (i := 0) hs ht hn
  rw [strcmp, hrun, ok_bind]
  dsimp only
  generalize (if (load8 m (a + j) = 0 ∧ load8 m (b + j) ≠ 0) ∨
    (load8 m (a + j) ≠ 0 ∧ load8 m (b + j) = 0) then true else failed) = result at hiff ⊢
  cases result with
  | false =>
    rw [if_pos (hiff.mp rfl)]
    rfl
  | true =>
    rw [if_neg (fun h => nomatch hiff.mpr h)]
    rfl

/-! ## strcpy -/

theorem strcpyLoop_spec (h : CString m src s) (hne : s ≠ []) (hn : s.length ≤ n)
    (hd : dest + s.length ≤ src ∨ src + s.length < dest) :
    ∃ m', strcpyLoop n dest src m = .ok m' ∧ BytesAt m' dest s ∧ SameOff m m' dest (dest + s.length) := by
  induction s generalizing n dest src m with
  | nil => exact absurd rfl hne
  | cons c s ih =>
    rw [List.length_cons] at hn hd
    obtain ⟨n, rfl⟩ : ∃ x, n = x + 1 := ⟨n - 1, by omega⟩
    obtain ⟨m1, hm1⟩ : ∃ x, x = store8 m dest (load8 m src) := ⟨_, rfl⟩
    have hoff1 : SameOff m m1 dest (dest + 1) := by
      rw [hm1]
      exact sameOff_store8 le_rfl (by omega)
    have hread : m1 dest = c := by
      have hc : m src = c := (bytesAt_cons.mp h.bytes).1
      rw [hm1, load8, hc]
      simp [store8]
    have htail : CString m1 (src + 1) s :=
      h.tail.congr (hoff1.sameOn (by omega : src + 1 + (s.length + 1) ≤ dest ∨ dest + 1 ≤ src + 1)) le_rfl
        (by omega)
    rw [strcpyLoop, ← hm1]
    cases s with
    | nil =>
      refine ⟨m1, if_neg (not_not.mpr (load8_eq_zero.mpr htail.zero)), ?_, hoff1⟩
      exact bytesAt_cons.mpr ⟨hread, rfl⟩
    | cons d s =>
      have hd' : load8 m1 (src + 1) ≠ 0 := fun hz => htail.nonzero (i := 0) (by simp) (load8_eq_zero.mp hz)
      have hn2 : (d :: s).length ≤ n := by omega
      have hd2 : dest + 1 + (d :: s).length ≤ src + 1 ∨ src + 1 + (d :: s).length < dest + 1 := by omega
      obtain ⟨m2, hrun, hbytes, hoff2⟩ := ih htail (List.cons_ne_nil _ _) hn2 hd2
      refine ⟨m2, by rw [if_pos hd', hrun], bytesAt_cons.mpr ⟨?_, hbytes⟩, ?_⟩
      · rw [hoff2 dest (by omega), hread]
      · have hlength : (c :: d :: s).length = (d :: s).length + 1 := List.length_cons
        rw [hlength]
        exact (hoff1.mono le_rfl (by omega)).trans (hoff2.mono (by omega) (by omega))

/-- The characters are copied, and nothing behind them is written. -/
theorem strcpy_spec (h : CString m src s) (hne : s ≠ []) (hn : s.length ≤ ADDRESS_SPACE)
    (hd : dest + s.length ≤ src ∨ src + s.length < dest) :
    ∃ m', strcpy dest src m = .ok m' ∧ BytesAt m' dest s ∧ SameOff m m' dest (dest + s.length) :=
  strcpyLoop_spec h hne hn hd

/-! ## memcpy over runs of bytes -/

theorem sameOff_memcpy (m : Mem) (dest src n : ℕ) : SameOff m (memcpy m dest src n) dest (dest + n) := by
  induction n generalizing m dest src with
  | zero => exact SameOff.refl _ _ _
  | succ n ih =>
    intro x hx
    rw [memcpy, ih _ _ _ x (by omega), store8_of_ne (by omega)]

/-- The destination of a copy between disjoint runs. -/
theorem readBytes_memcpy (h : dest + n ≤ src ∨ src + n ≤ dest) :
    readBytes (memcpy m dest src n) dest n = readBytes m src n := by
  induction n generalizing m dest src with
  | zero => rfl
  | succ n ih =>
    have hstore : SameOff m (store8 m dest (load8 m src)) dest (dest + 1) := sameOff_store8 le_rfl (by omega)
    have hrest : readBytes (store8 m dest (load8 m src)) (src + 1) n = readBytes m (src + 1) n :=
      (hstore.sameOn (by omega : src + 1 + n ≤ dest ∨ dest + 1 ≤ src + 1)).readBytes_eq le_rfl le_rfl
    rw [memcpy, readBytes, ih (by omega), hrest, sameOff_memcpy _ _ _ _ dest (by omega), readBytes]
    congr 1
    simp [store8, load8]

end PandaOS

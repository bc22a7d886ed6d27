import PandaOS.Utils.Strings
import PandaOS.Library.Regions
import PandaOS.Library.Traced

/-! What a copy made by `strcpy` is worth. The loop stops in front of the terminator, so the copy is a string
only where the destination had a 0 in the right place; and it always copies one byte and looks at the next,
so the empty string is read past its end. -/
namespace PandaOS
open ByteMemory Word32 Tracing Traced
set_option autoImplicit false
set_option maxHeartbeats 250000

/-! ## The reads -/

/-- The loop of `strcpy` with the addresses that it reads. -/
def strcpyLoopReads : ℕ → ℕ → ℕ → Mem → Traced Stop ℕ Mem
  | 0, _, _, _ => lift (.error .outOfFuel)
  | n + 1, dest, src, m => do
    touch src
    let m := store8 m dest (load8 m src)
    touch (src + 1)
    if load8 m (src + 1) ≠ 0 then strcpyLoopReads n (dest + 1) (src + 1) m else pure m

def strcpyReads (dest src : ℕ) (m : Mem) : Traced Stop ℕ Mem := strcpyLoopReads ADDRESS_SPACE dest src m

/-- What is expected of `strcpy(dest, src)` for the string `s` at `src`. -/
structure FaithfulCopy (m : Mem) (dest src : ℕ) (s : List UInt8) : Prop where
  copies : ∃ m', strcpy dest src m = .ok m' ∧ CString m' dest s ∧ SameOff m m' dest (dest + (s.length + 1)) ∧
    strlen m' dest = .ok s.length ∧ strlen m' src = .ok s.length ∧ strcmp m' dest src = .ok 0
  reads : Within (fun x => src ≤ x ∧ x ≤ src + s.length) (strcpyReads dest src m)
  recorded : (strcpyReads dest src m).result = strcpy dest src m

variable {m m' : Mem} {dest src n : ℕ} {s : List UInt8}

theorem strcpyLoopReads_result (n dest src : ℕ) (m : Mem) :
    (strcpyLoopReads n dest src m).result = strcpyLoop n dest src m := by
  induction n generalizing dest src m with
  | zero => rfl
  | succ n ih =>
    rw [strcpyLoopReads, strcpyLoop, result_bind, result_touch, ok_bind, result_bind, result_touch, ok_bind]
    split
    · exact ih _ _ _
    · rfl

/-- The byte behind the first one is looked at in any case. -/
theorem strcpyReads_second (dest src : ℕ) (m : Mem) : src + 1 ∈ (strcpyReads dest src m).touched := by
  obtain ⟨n, hn⟩ : ∃ n, ADDRESS_SPACE = n + 1 := ⟨4294967295, rfl⟩
  rw [strcpyReads, hn, strcpyLoopReads, touched_touch_bind, touched_touch_bind]
  exact List.mem_cons_of_mem _ List.mem_cons_self

/-- A string with a character is read up to its terminator. -/
theorem strcpyLoopReads_within (h : CString m src s) (hne : s ≠ []) (hn : s.length ≤ n)
    (hd : dest + s.length ≤ src ∨ src + s.length < dest) :
    Within (fun x => src ≤ x ∧ x ≤ src + s.length) (strcpyLoopReads n dest src m) := by
  induction s generalizing n dest src m with
  | nil => exact absurd rfl hne
  | cons c s ih =>
    rw [List.length_cons] at hn hd ⊢
    obtain ⟨n, rfl⟩ : ∃ x, n = x + 1 := ⟨n - 1, by omega⟩
    obtain ⟨m1, hm1⟩ : ∃ x, x = store8 m dest (load8 m src) := ⟨_, rfl⟩
    have hoff : SameOff m m1 dest (dest + 1) := by
      rw [hm1]
      exact sameOff_store8 le_rfl (by omega)
    have htail : CString m1 (src + 1) s :=
      h.tail.congr (hoff.sameOn (by omega : src + 1 + (s.length + 1) ≤ dest ∨ dest + 1 ≤ src + 1)) le_rfl (by omega)
    rw [strcpyLoopReads, within_touch_bind, ← hm1, within_touch_bind]
    refine ⟨by omega, by omega, ?_⟩
    cases s with
    | nil =>
      have hz : load8 m1 (src + 1) = 0 := load8_eq_zero.mpr htail.zero
      rw [if_neg (not_not.mpr hz)]
      exact within_pure m1
    | cons d s =>
      have hd' : load8 m1 (src + 1) ≠ 0 := fun hz => htail.nonzero (i := 0) (by simp) (load8_eq_zero.mp hz)
      have hn2 : (d :: s).length ≤ n := by omega
      have hd2 : dest + 1 + (d :: s).length ≤ src + 1 ∨ src + 1 + (d :: s).length < dest + 1 := by omega
      have hrest := ih htail (List.cons_ne_nil d s) hn2 hd2
      rw [if_pos hd']
      refine hrest.mono ?_
      intro x hx
      omega

/-! ## The copy -/

/-- A string with a character is copied without its terminator. -/
theorem strcpy_apart (h : CString m src s) (hne : s ≠ []) (hsrc : src + s.length < 4294967296)
    (happart : Apart (dest, s.length + 1) (src, s.length + 1)) :
    ∃ m', strcpy dest src m = .ok m' ∧ BytesAt m' dest s ∧ SameOff m m' dest (dest + s.length) ∧ CString m' src s := by
  unfold Apart at happart
  dsimp only at happart
  have hd : dest + s.length ≤ src ∨ src + s.length < dest := by omega
  obtain ⟨m', hrun, hbytes, hoff⟩ := strcpy_spec h hne (by unfold ADDRESS_SPACE; omega) hd
  have hsame : SameOn m m' src (src + (s.length + 1)) := hoff.sameOn (by omega)
  exact ⟨m', hrun, hbytes, hoff, h.congr hsame le_rfl (by omega)⟩

/-- A copy is faithful exactly if the string has a character and the destination already had the terminator. -/
theorem strcpy_faithful_iff (h : CString m src s) (hsrc : src + s.length < 4294967296)
    (happart : Apart (dest, s.length + 1) (src, s.length + 1)) :
    FaithfulCopy m dest src s ↔ s ≠ [] ∧ m (dest + s.length) = 0 := by
  constructor
  · intro hcopy
    have hne : s ≠ [] := by
      rintro rfl
      have hread := hcopy.reads _ (strcpyReads_second dest src m)
      rw [List.length_nil] at hread
      omega
    refine ⟨hne, ?_⟩
    obtain ⟨m', hrun, hstring, -⟩ := hcopy.copies
    obtain ⟨m1, hrun1, -, hoff, -⟩ := strcpy_apart h hne hsrc happart
    obtain rfl := Except.ok.inj (hrun1.symm.trans hrun)
    rw [← hoff (dest + s.length) (Or.inr le_rfl)]
    exact hstring.zero
  · rintro ⟨hne, hzero⟩
    obtain ⟨m', hrun, hbytes, hoff, hsource⟩ := strcpy_apart h hne hsrc happart
    have hend : m' (dest + s.length) = 0 := (hoff (dest + s.length) (Or.inr le_rfl)).trans hzero
    have hcopy : CString m' dest s := cstring_of_bytesAt hbytes hend h.2
    have hlength : s.length < ADDRESS_SPACE := by
      unfold ADDRESS_SPACE
      omega
    refine ⟨⟨m', hrun, hcopy, hoff.mono le_rfl (by omega), strlen_spec hcopy hlength, strlen_spec hsource hlength, ?_⟩,
      ?_, strcpyLoopReads_result _ _ _ _⟩
    · rw [strcmp_spec hcopy hsource hlength, if_pos rfl]
    · unfold Apart at happart
      exact strcpyLoopReads_within h hne hlength.le (by dsimp only at happart; omega)

/-! ## A name of one character -/

/-- "J" at 0x1000, and `v` behind the first byte of a destination at 0x2000. -/
def nameMem (v : ℕ) : Mem := store8 (store8 (fun _ => 0) 0x1000 0x4A) 0x2001 v

theorem nameMem_string (v : ℕ) : CString (nameMem v) 0x1000 [0x4A] := by
  refine cstring_of_bytesAt (bytesAt_cons.mpr ⟨rfl, rfl⟩) rfl ?_
  decide

theorem strcpy_faithful_iff_cleared : FaithfulCopy (nameMem 0) 0x2000 0x1000 [0x4A] ↔
    [(0x4A : UInt8)] ≠ [] ∧ nameMem 0 (0x2000 + 1) = 0 :=
  strcpy_faithful_iff (nameMem_string 0) (by decide) (Or.inr (by decide))

/-- The byte that was there stays, in the place of the terminator. -/
theorem strcpy_unterminated : ¬ FaithfulCopy (nameMem 0x58) 0x2000 0x1000 [0x4A] := by
  intro hcopy
  obtain ⟨m', hrun, hstring, -⟩ := hcopy.copies
  have happart : Apart (0x2000, [(0x4A : UInt8)].length + 1) (0x1000, [(0x4A : UInt8)].length + 1) := Or.inr (by decide)
  obtain ⟨m1, hrun1, -, hoff, -⟩ := strcpy_apart (nameMem_string 0x58) (by decide) (by decide) happart
  obtain rfl := Except.ok.inj (hrun1.symm.trans hrun)
  have hkept : m1 0x2001 = 0x58 := hoff 0x2001 (Or.inr le_rfl)
  have hend : m1 0x2001 = 0 := hstring.zero
  rw [hkept] at hend
  exact absurd hend (by decide)

end PandaOS

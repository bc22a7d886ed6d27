import PandaOS.Memory.Contraction

/-! `alloc_frame` on any bitmap. The search goes through whole words, so it sees the frames up to the last
multiple of 32, and where it finds nothing it has no value to return. -/
namespace PandaOS
open ByteMemory Word32
set_option autoImplicit false
set_option maxHeartbeats 250000

/-- The page got the frame `f`, the lowest free one, and one bit changed. -/
structure GivesLowest (k k' : Kernel) (page f : ℕ) : Prop where
  free : f < k.frameCount ∧ frameUsed k f = false
  lowest : ∀ g < f, frameUsed k g = true
  frame : (loadPage k'.mem page).frame = f
  bits : ∀ g < 4096, frameUsed k' g = (decide (g = f) || frameUsed k g)

/-- A free frame is given out if there is one, and otherwise the kernel panics. -/
structure AllocatesOrPanics (k : Kernel) (page isKernel isWriteable : ℕ) : Prop where
  gives : (∃ f < k.frameCount, frameUsed k f = false) →
    ∃ k' f, allocFrame page isKernel isWriteable k = .ok k' ∧ GivesLowest k k' page f
  panics : (∀ f < k.frameCount, frameUsed k f = true) →
    allocFrame page isKernel isWriteable k = .error (.panic "No free frames!")

/-- The frames that `first_frame` can find. -/
def freeFrames (k : Kernel) : Finset ℕ :=
  (Finset.range (32 * (k.frameCount / 32))).filter fun f => frameUsed k f = false

variable {k k' : Kernel} {page f isKernel isWriteable : ℕ}

theorem firstFrame_finds (hf : f < 32 * (k.frameCount / 32)) (hfree : frameUsed k f = false) :
    ∃ g, firstFrame k = some g := by
  cases hfirst : firstFrame k with
  | none =>
    have hused := firstFrame_none hfirst hf
    rw [hfree] at hused
    cases hused
  | some g => exact ⟨g, rfl⟩

theorem firstFrame_of_free (hfree : 0 < (freeFrames k).card) : ∃ f, firstFrame k = some f := by
  obtain ⟨f, hf⟩ := Finset.card_pos.mp hfree
  obtain ⟨hlt, hunused⟩ := Finset.mem_filter.mp hf
  exact firstFrame_finds (Finset.mem_range.mp hlt) hunused

theorem freeFrames_same (hcount : k'.frameCount = k.frameCount)
    (hused : ∀ f < k.frameCount, frameUsed k' f = frameUsed k f) : freeFrames k' = freeFrames k := by
  unfold freeFrames
  rw [hcount]
  apply Finset.filter_congr
  intro f hf
  have hlt := Finset.mem_range.mp hf
  rw [hused f (by omega)]

/-- Taking one frame takes it from the free ones. -/
theorem freeFrames_taken (hcount : k.frameCount ≤ 4096) (hsame : k'.frameCount = k.frameCount)
    (hbits : ∀ g < 4096, frameUsed k' g = (decide (g = f) || frameUsed k g)) : freeFrames k' = (freeFrames k).erase f := by
  ext g
  rw [freeFrames, Finset.mem_filter, Finset.mem_erase, freeFrames, Finset.mem_filter, hsame, Finset.mem_range]
  constructor
  · rintro ⟨hg, hused⟩
    rw [hbits g (by omega), Bool.or_eq_false_iff] at hused
    exact ⟨of_decide_eq_false hused.1, hg, hused.2⟩
  · rintro ⟨hne, hg, hused⟩
    rw [hbits g (by omega), hused, decide_eq_false hne]
    exact ⟨hg, rfl⟩

theorem card_freeFrames_taken (hcount : k.frameCount ≤ 4096) (hsame : k'.frameCount = k.frameCount)
    (hfirst : firstFrame k = some f) (hbits : ∀ g < 4096, frameUsed k' g = (decide (g = f) || frameUsed k g)) :
    (freeFrames k').card + 1 = (freeFrames k).card := by
  obtain ⟨hlt, hfree, -⟩ := firstFrame_spec hfirst
  have hmine : f ∈ freeFrames k := Finset.mem_filter.mpr ⟨Finset.mem_range.mpr hlt, hfree⟩
  rw [freeFrames_taken hcount hsame hbits]
  exact Finset.card_erase_add_one hmine

theorem allocFrame_gives (hcount : k.frameCount ≤ 4096) (hapart : BitmapApart k page)
    (hpage : (loadPage k.mem page).frame = 0) (hfirst : firstFrame k = some f) (isKernel isWriteable : ℕ) :
    ∃ k', allocFrame page isKernel isWriteable k = .ok k' ∧ GivesLowest k k' page f := by
  obtain ⟨hlt, hfree, hlowest⟩ := firstFrame_spec hfirst
  have hrun := allocFrame_some hpage hfirst (by omega) isKernel isWriteable
  obtain ⟨-, -, hload, hbits, -⟩ := allocated_spec hcount hfirst hapart rfl
  refine ⟨_, hrun, ⟨by omega, hfree⟩, hlowest, ?_, hbits⟩
  rw [hload]
  rfl

/-- Without a free frame in a whole word there is no value to return. -/
theorem allocFrame_exhausted (hpage : (loadPage k.mem page).frame = 0) (hfirst : firstFrame k = none)
    (isKernel isWriteable : ℕ) :
    allocFrame page isKernel isWriteable k = .error (.undefined "first_frame has no return value") := by
  unfold allocFrame
  rw [if_neg (not_not.mpr hpage), hfirst]

/-- `alloc_frame` does what is expected of it exactly if some word of the bitmap that the search visits has a
free frame. -/
theorem alloc_frame_iff (hcount : k.frameCount ≤ 4096) (hapart : BitmapApart k page)
    (hpage : (loadPage k.mem page).frame = 0) (isKernel isWriteable : ℕ) :
    AllocatesOrPanics k page isKernel isWriteable ↔ ∃ f < 32 * (k.frameCount / 32), frameUsed k f = false := by
  constructor
  · intro h
    cases hfirst : firstFrame k with
    | some f =>
      obtain ⟨hlt, hfree, -⟩ := firstFrame_spec hfirst
      exact ⟨f, hlt, hfree⟩
    | none =>
      have hrun := allocFrame_exhausted hpage hfirst isKernel isWriteable
      by_cases hany : ∃ f < k.frameCount, frameUsed k f = false
      · obtain ⟨k', f, hok, -⟩ := h.gives hany
        rw [hrun] at hok
        cases hok
      · have hall : ∀ f < k.frameCount, frameUsed k f = true := by
          intro f hf
          by_contra hfree
          exact hany ⟨f, hf, Bool.eq_false_iff.mpr hfree⟩
        have hpanic := h.panics hall
        rw [hrun] at hpanic
        cases hpanic
  · rintro ⟨f, hf, hfree⟩
    obtain ⟨g, hfirst⟩ := firstFrame_finds hf hfree
    refine ⟨fun _ => ?_, fun hall => ?_⟩
    · obtain ⟨k', hrun, hgives⟩ := allocFrame_gives hcount hapart hpage hfirst isKernel isWriteable
      exact ⟨k', g, hrun, hgives⟩
    · have hused := hall f (by omega)
      rw [hfree] at hused
      cases hused

/-- An empty bitmap and an entry in free memory. -/
theorem alloc_frame_iff_empty : AllocatesOrPanics (tableKernel (longHeap 0)) 0x500000 0 1 ↔
    ∃ f < 32 * ((tableKernel (longHeap 0)).frameCount / 32), frameUsed (tableKernel (longHeap 0)) f = false := by
  have hzero : load32 fullTableMem 0x500000 = 0 := fullTable_zero (by omega) (by omega)
  refine alloc_frame_iff le_rfl (Or.inr (by decide)) ?_ 0 1
  show (Page.ofWord (load32 fullTableMem 0x500000)).frame = 0
  rw [hzero]
  rfl

/-- A kernel with all 4096 frames in use and an entry without a frame at 0x500000. -/
def fullBitmap : Kernel :=
  { tableKernel (longHeap 0) with mem := fun x => if 0x300000 ≤ x ∧ x < 0x300200 then 255 else 0 }

theorem fullBitmap_used (hf : f < 4096) : frameUsed fullBitmap f = true := by
  have hword : load32 fullBitmap.mem (frameWord fullBitmap (indexFromBit f)) = 0xFFFFFFFF := by
    have hidx : indexFromBit f < 128 := by
      unfold indexFromBit
      omega
    unfold frameWord
    show load32 (fun x => if 0x300000 ≤ x ∧ x < 0x300200 then (255 : UInt8) else 0) (0x300000 + 4 * indexFromBit f) = _
    simp only [load32, load8]
    rw [if_pos (by omega), if_pos (by omega), if_pos (by omega), if_pos (by omega)]
    rfl
  rw [frameUsed, hword]
  exact testBit_full (Nat.mod_lt _ (by decide))

theorem alloc_frame_no_panic : ¬ AllocatesOrPanics fullBitmap 0x500000 0 1 := by
  intro h
  have hpanic := h.panics fun f hf => fullBitmap_used hf
  have hfirst : firstFrame fullBitmap = none := by
    cases hfirst : firstFrame fullBitmap with
    | none => rfl
    | some f =>
      obtain ⟨hlt, hfree, -⟩ := firstFrame_spec hfirst
      have hcount : fullBitmap.frameCount = 4096 := rfl
      rw [fullBitmap_used (by omega)] at hfree
      cases hfree
  have hpage : (loadPage fullBitmap.mem 0x500000).frame = 0 := by decide
  rw [allocFrame_exhausted hpage hfirst] at hpanic
  cases hpanic

end PandaOS

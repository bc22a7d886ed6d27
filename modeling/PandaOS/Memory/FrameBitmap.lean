import PandaOS.Memory.BootMapping
import PandaOS.Library.Regions

/-! The words of the frame bitmap. `initialise_paging` asks for a byte for each word the bitmap has, so
the block holds a quarter of it. The words of the other frames lie behind the block, in the padding
in front of the kernel directory or in the directory. -/
namespace PandaOS
open ByteMemory Word32
set_option autoImplicit false
set_option maxHeartbeats 250000

/-- What `initialise_paging` asks `kmalloc` for. -/
def bitmapBytes (k : Kernel) : ℕ := indexFromBit k.frameCount

/-- When the bitmap and the directory are placed, the word of frame `f` belongs to the bitmap: it lies in the
block, it is cleared, it is apart from the directory and from what the placement allocator hands out
from then on, and so marking the frame leaves the directory alone. -/
structure BitmapOwns (start : ℕ) (k : Kernel) (f : ℕ) : Prop where
  inside : k.frames ≤ frameWord k (indexFromBit f) ∧ frameWord k (indexFromBit f) + 4 ≤ k.frames + bitmapBytes k
  zeroed : load32 k.mem (frameWord k (indexFromBit f)) = 0
  free : frameUsed k f = false
  directory : Apart (frameWord k (indexFromBit f), 4) (k.kernelDirectory, sizeofPageDirectory)
  tables : start ≤ k.placementAddress → ∀ table, k.placementAddress ≤ table →
    Apart (frameWord k (indexFromBit f), 4) (table, sizeofPageTable)
  marking : ∀ m, SameOn m (setFrame (f * 0x1000) (k.withMem m)).mem k.kernelDirectory
    (k.kernelDirectory + sizeofPageDirectory)

variable {k k' : Kernel} {d f p t fuel : ℕ}

/-- Both blocks, wherever the placement address is. Where the address wraps, the directory is at the
bottom of memory. -/
theorem placed_blocks (fuel : ℕ) (hk : k.kheap = none) (hp : k.placementAddress = p) :
    ∃ k1 k2, placeFrames fuel k = .ok k1 ∧ placeDirectory fuel k1 = .ok k2 ∧ k2.frames = p ∧ k2.frameCount = 4096 ∧
      UsedBelow k2 0 ∧ Apart (p, 128) (k2.kernelDirectory, sizeofPageDirectory) ∧
      (p ≤ k2.placementAddress → p + 128 ≤ k2.placementAddress) := by
  have hsize : sizeofPageDirectory = 8196 := rfl
  have hpage : PAGE_SIZE = 4096 := rfl
  obtain ⟨k1, hrun1, hheap1, hframes1, hcount1, hplace1, hused1⟩ := placeFrames_spec fuel hk hp
  obtain ⟨d, hd⟩ : ∃ d, d = if 1 = 1 ∧ k1.placementAddress &&& 0x00000FFF ≠ 0 then
    add32 (k1.placementAddress &&& 0xFFFFF000) PAGE_SIZE else k1.placementAddress := ⟨_, rfl⟩
  obtain ⟨k2, hrun2, -, hframes2, hcount2, hdir2, hplace2, hoff2, -, -⟩ := placeDirectory_spec fuel hheap1 hd.symm
  have hplace1lt : k1.placementAddress < 4294967296 := hplace1 ▸ add32_lt p 128
  rw [and_low_page, and_high_page hplace1lt, hpage] at hd
  have hbounds : p + 128 ≤ d ∨ d + 8196 ≤ p := by
    unfold add32 at hplace1 hd
    split at hd <;> omega
  have hmoved : p ≤ k2.placementAddress → p + 128 ≤ k2.placementAddress := by
    rw [hplace2, hsize]
    unfold add32 at hplace1 hd ⊢
    split at hd <;> omega
  refine ⟨k1, k2, hrun1, hrun2, hframes2.trans hframes1, hcount2.trans hcount1, fun g hg => ?_, ?_, hmoved⟩
  · have hsame : SameOn k1.mem k2.mem k1.frames (k1.frames + 128) := by
      rw [hframes1]
      exact hoff2.sameOn hbounds
    rw [← hused1.congr hsame g hg]
    unfold frameUsed frameWord
    rw [hframes2]
    rfl
  · rw [hdir2, hsize]
    exact hbounds

theorem word_inside_iff (hframes : k.frames = p) (hcount : k.frameCount = 4096) :
    frameWord k (indexFromBit f) + 4 ≤ k.frames + bitmapBytes k ↔ f < 1024 := by
  have hbytes : indexFromBit 4096 = 128 := by decide
  rw [bitmapBytes, hcount, hbytes, hframes]
  unfold frameWord indexFromBit
  omega

/-- A word of which every bit is clear. -/
theorem word_zero (hused : UsedBelow k 0) (hf : f < 1024) : load32 k.mem (frameWord k (indexFromBit f)) = 0 := by
  apply Nat.eq_of_testBit_eq
  intro i
  rw [Nat.zero_testBit]
  by_contra hset
  rw [Bool.not_eq_false] at hset
  have hi := load32_testBit_lt hset
  have hbit := hused (32 * indexFromBit f + i) (by unfold indexFromBit; omega)
  have hsame : indexFromBit (32 * indexFromBit f + i) = indexFromBit f ∧
      offsetFromBit (32 * indexFromBit f + i) = i := by
    unfold indexFromBit offsetFromBit
    omega
  rw [frameUsed, hsame.1, hsame.2, hset] at hbit
  cases hbit

/-- Marking a frame whose word is apart from the directory. -/
theorem sameOn_marking (hapart : Apart (frameWord k (indexFromBit f), 4) (d, sizeofPageDirectory)) (m : Mem) :
    SameOn m (setFrame (f * 0x1000) (k.withMem m)).mem d (d + sizeofPageDirectory) := by
  have hset := sameOff_setFrame (f * 0x1000) (k.withMem m)
  rw [Nat.mul_div_cancel _ (by norm_num)] at hset
  exact hapart.sameOn hset

/-- The bitmap owns the words of the first 1024 of its 4096 frames, wherever it is placed. -/
theorem bitmap_owns_iff (fuel : ℕ) (hk : k.kheap = none) :
    ∃ k1 k2, placeFrames fuel k = .ok k1 ∧ placeDirectory fuel k1 = .ok k2 ∧ k2.frameCount = 4096 ∧
      ∀ f < k2.frameCount, BitmapOwns k.placementAddress k2 f ↔ f < 1024 := by
  obtain ⟨k1, k2, hrun1, hrun2, hframes, hcount, hused, hapart, hmoved⟩ := placed_blocks fuel hk rfl
  refine ⟨k1, k2, hrun1, hrun2, hcount, fun f _ => ⟨fun howns => ?_, fun hf => ?_⟩⟩
  · exact (word_inside_iff hframes hcount).mp howns.inside.2
  · have hword : k2.frames ≤ frameWord k2 (indexFromBit f) ∧ frameWord k2 (indexFromBit f) + 4 ≤ k2.frames + 128 := by
      unfold frameWord indexFromBit
      omega
    rw [hframes] at hword
    have hdir : Apart (frameWord k2 (indexFromBit f), 4) (k2.kernelDirectory, sizeofPageDirectory) := by
      unfold Apart at hapart ⊢
      dsimp only at hapart ⊢
      omega
    have hfree : frameUsed k2 f = false := by
      rw [hused f hf, decide_eq_false (Nat.not_lt_zero f)]
    refine ⟨⟨hframes ▸ hword.1, (word_inside_iff hframes hcount).mpr hf⟩, word_zero hused hf, hfree, hdir,
      fun hstart table htable => ?_, sameOn_marking hdir⟩
    have hbehind := hmoved hstart
    exact Or.inl (by dsimp only; omega)

theorem bitmap_owns_iff_loaded : ∃ k1 k2, placeFrames 1 loadedKernel = .ok k1 ∧ placeDirectory 1 k1 = .ok k2 ∧
    BitmapOwns 0x10C100 k2 1023 ∧ ¬ BitmapOwns 0x10C100 k2 1024 := by
  obtain ⟨k1, k2, hrun1, hrun2, hcount, hiff⟩ := bitmap_owns_iff (k := loadedKernel) 1 rfl
  have howns := hiff 1023 (by rw [hcount]; norm_num)
  have hlast := hiff 1024 (by rw [hcount]; norm_num)
  exact ⟨k1, k2, hrun1, hrun2, howns.mpr (by norm_num), fun h => absurd (hlast.mp h) (by norm_num)⟩

/-- A kernel that ends 128 bytes in front of a page. -/
def tightKernel : Kernel :=
  ⟨fun _ => 0, fun _ => 0, 0x100F80, none, 0, 0, 0, 0, 0, false⟩

/-- There the directory follows the block, and the word of frame 1024 is its first entry: marking the frame sets
a bit of the entry. -/
theorem bitmap_in_directory : ∃ k1 k2, placeFrames 1 tightKernel = .ok k1 ∧ placeDirectory 1 k1 = .ok k2 ∧
    1024 < k2.frameCount ∧ frameWord k2 (indexFromBit 1024) = tablesSlot k2.kernelDirectory 0 ∧
    load32 k2.mem (tablesSlot k2.kernelDirectory 0) = 0 ∧
    load32 (setFrame (1024 * 0x1000) k2).mem (tablesSlot k2.kernelDirectory 0) = 1 ∧
    ¬ BitmapOwns 0x100F80 k2 1024 := by
  have hplacement : tightKernel.placementAddress = 0x100F80 := rfl
  obtain ⟨k1, hrun1, hheap1, hframes1, hcount1, hplace1, hused1⟩ := placeFrames_spec 1 rfl hplacement
  have hup : pageUp k1.placementAddress = 0x101000 := by
    rw [hplace1]
    decide
  obtain ⟨k2, hrun2, hplaced⟩ := placeDirectory_placed 1 hheap1 hframes1 hcount1 hused1 hup (by norm_num) (by norm_num)
  have hindex : indexFromBit 1024 = 32 := by decide
  have hword : frameWord k2 (indexFromBit 1024) = 0x101000 := by
    rw [frameWord, hplaced.frames, hindex]
  have hslot : tablesSlot k2.kernelDirectory 0 = 0x101000 := by
    rw [hplaced.directory]
    rfl
  have hfirst : load32 k2.mem (tablesSlot k2.kernelDirectory 0) = 0 := by
    rw [hplaced.directory]
    exact hplaced.tables 0 (by norm_num)
  have hcount : k2.frameCount = 4096 := hplaced.frameCount
  refine ⟨k1, k2, hrun1, hrun2, by omega, hword.trans hslot.symm, hfirst, ?_, fun howns => ?_⟩
  · have hframe : 1024 * 0x1000 / 0x1000 = 1024 := by norm_num
    rw [hslot] at hfirst ⊢
    rw [setFrame, hframe, hword, hfirst]
    exact load32_store32_of_lt (by decide)
  · exact absurd ((word_inside_iff hplaced.frames hcount).mp howns.inside.2) (by norm_num)

end PandaOS

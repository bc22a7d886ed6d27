import PandaOS.Memory.AlignedAlloc
import PandaOS.Memory.Cloning

/-! The physical address that `clone_directory` stores for CR3. It is the address of the block's first page
plus an offset of one page, so it is right only if the frame of the second page follows that of the first. -/
namespace PandaOS
open ByteMemory Word32 Tiling
set_option autoImplicit false
set_option maxHeartbeats 250000

/-- The frame of the page at `a` in the kernel directory. -/
def frameOf (k : Kernel) (a : ℕ) : ℕ :=
  match findPage a k.kernelDirectory k with
  | .ok (page, _) => (loadPage k.mem page).frame
  | .error _ => 0

/-- The physical address behind `a`. -/
def translate (k : Kernel) (a : ℕ) : ℕ := frameOf k a * 0x1000 + a % 0x1000

variable {k k1 : Kernel} {heap : Heap} {a n dir fuel : ℕ}

/-- A lookup that makes no table returns. -/
theorem findPage_ok (k : Kernel) (a : ℕ) :
    ∃ page, findPage a k.kernelDirectory k = .ok (page, k) ∧ frameOf k a = (loadPage k.mem page).frame := by
  have hfind : ∃ page, findPage a k.kernelDirectory k = .ok (page, k) := by
    by_cases h : load32 k.mem (tablesSlot k.kernelDirectory (tableIndex a)) ≠ 0
    · exact ⟨_, getPage_of_table h⟩
    · refine ⟨0, ?_⟩
      unfold findPage getPage
      rw [if_neg h]
      rfl
  obtain ⟨page, hpage⟩ := hfind
  refine ⟨page, hpage, ?_⟩
  rw [frameOf, hpage]

theorem frameOf_table {table : ℕ} (hslot : load32 k.mem (tablesSlot k.kernelDirectory (tableIndex a)) = table)
    (htable : table ≠ 0) : frameOf k a = (loadPage k.mem (pagesSlot table (pageIndex a))).frame := by
  have hfind : findPage a k.kernelDirectory k = .ok (pagesSlot table (pageIndex a), k) := by
    rw [← hslot]
    exact getPage_of_table (by rwa [hslot])
  rw [frameOf, hfind]

theorem frameOf_lt (k : Kernel) (a : ℕ) : frameOf k a < 0x100000 := by
  obtain ⟨page, -, hframe⟩ := findPage_ok k a
  rw [hframe]
  exact (loadPage_fits _ _).frame

/-- `kmalloc_ap` stores the translation of the address that it returns. -/
theorem kmallocAp_physical (hk : k.kheap = some heap) (halloc : alloc fuel n 1 k = .ok (a, k1)) :
    kmallocAp fuel n k = .ok ((a, translate k1 a), k1) := by
  obtain ⟨page, hfind, hframe⟩ := findPage_ok k1 a
  have hlt := frameOf_lt k1 a
  have hshift : (loadPage k1.mem page).frame <<< 12 = frameOf k1 a * 0x1000 := by
    rw [hframe, Nat.shiftLeft_eq]
  have halign : 1 % 256 = 1 := rfl
  have hsum : add32 (frameOf k1 a * 0x1000) (a % 4096) = translate k1 a := add32_of_lt (by omega)
  unfold kmallocAp kmallocInt
  split
  · rw [halign, halloc, ok_bind]
    dsimp only
    rw [if_pos rfl, hfind, ok_bind]
    dsimp only
    rw [hshift, and_low_page, hsum]
    rfl
  · next hnone =>
    rw [hk] at hnone
    cases hnone

/-- The address of the first page plus the offset of `tables_physical`. -/
theorem offset_translate_iff (k : Kernel) (haligned : dir % 0x1000 = 0) :
    add32 (translate k dir) (sub32 (tablesPhysicalSlot dir 0) dir) = translate k (tablesPhysicalSlot dir 0) ↔
      frameOf k (dir + 0x1000) = (frameOf k dir + 1) % 0x100000 := by
  have hfirst := frameOf_lt k dir
  have hsecond := frameOf_lt k (dir + 0x1000)
  have hslot : tablesPhysicalSlot dir 0 = dir + 0x1000 := rfl
  have hoffset : sub32 (dir + 0x1000) dir = 0x1000 := by
    unfold sub32
    rw [if_pos (by omega), Nat.add_sub_cancel_left]
  have hpage : (dir + 0x1000) % 0x1000 = 0 := by omega
  rw [hslot, hoffset, translate, translate, haligned, hpage]
  unfold add32
  omega

/-- The stored address is the translation of the one of `tables_physical` exactly when the second page of the
block has the frame behind that of the first. -/
theorem cr3_right_iff (hk : k.kheap = some heap) (halloc : alloc fuel sizeofPageDirectory 1 k = .ok (dir, k1))
    (haligned : dir % 0x1000 = 0) :
    ∃ c, newDirectory (kmallocAp fuel) k = .ok (dir, c) ∧
      (load32 c.kernel.mem (physicalAddressSlot dir) = translate k1 (tablesPhysicalSlot dir 0) ↔
        frameOf k1 (dir + 0x1000) = (frameOf k1 dir + 1) % 0x100000) := by
  obtain ⟨m, hrun, -, hstored⟩ := newDirectory_spec (kmallocAp_physical hk halloc)
  refine ⟨_, hrun, ?_⟩
  show load32 m _ = _ ↔ _
  rw [hstored]
  exact offset_translate_iff k1 haligned

/-! ## A heap whose pages are scattered -/

/-- Three pages of the heap with the frames 0x300, 0x200 and 0x400. -/
def scattered (m : Mem) : Mem :=
  store32 (store32 (store32 m (pagesSlot 0x200000 0x81) 0x300005) (pagesSlot 0x200000 0x82) 0x200005)
    (pagesSlot 0x200000 0x83) 0x400005

/-- The hole begins right below the first of them. -/
def scatteredKernel : Kernel :=
  (layoutKernel [live 0xFF4, gap (0x80000 - 0xFF4)] [KHEAP_DATA + 0xFF4]).withMem
    (scattered (layoutKernel [live 0xFF4, gap (0x80000 - 0xFF4)] [KHEAP_DATA + 0xFF4]).mem)

theorem sameOff_scattered (m : Mem) : SameOff m (scattered m) 0x200000 0x201000 :=
  ((sameOff_store32 (by decide) (by decide)).trans (sameOff_store32 (by decide) (by decide))).trans
    (sameOff_store32 (by decide) (by decide))

theorem scattered_represents : scatteredKernel.kheap = some (layoutHeap [live 0xFF4, gap (0x80000 - 0xFF4)] 1) ∧
    Represents scatteredKernel.mem (layoutHeap [live 0xFF4, gap (0x80000 - 0xFF4)] 1) KHEAP_MAX
      [live 0xFF4, gap (0x80000 - 0xFF4)] [KHEAP_DATA + 0xFF4] := by
  have h := heapState_pair (n := 0xFF4) (by decide) (by decide)
  have hoff := sameOff_scattered (layoutKernel [live 0xFF4, gap (0x80000 - 0xFF4)] [KHEAP_DATA + 0xFF4]).mem
  exact ⟨h.kheap, h.represents.congr (hoff.sameOn (Or.inr (by decide))) (hoff.sameOn (Or.inr (by decide)))⟩

/-- The entries of the three pages, with the table in place. -/
theorem scattered_entries : load32 scatteredKernel.mem (0x100000 + 4*768) = 0x200000 ∧
    load32 scatteredKernel.mem (pagesSlot 0x200000 0x81) = 0x300005 ∧
    load32 scatteredKernel.mem (pagesSlot 0x200000 0x82) = 0x200005 := by
  obtain ⟨m, hm⟩ : ∃ m, m = (layoutKernel [live 0xFF4, gap (0x80000 - 0xFF4)] [KHEAP_DATA + 0xFF4]).mem := ⟨_, rfl⟩
  have hlow : SameOn fullTableMem m 0 0xC0000000 := by
    rw [hm]
    exact layoutKernel_low _ _ (by decide)
  have hmem : scatteredKernel.mem = scattered m := by rw [hm]; rfl
  have hoff := sameOff_scattered m
  rw [hmem]
  refine ⟨?_, ?_, ?_⟩
  · rw [hoff.load32_eq (Or.inl (by decide)), hlow.load32_eq (by decide) (by decide)]
    exact fullTable_slot
  · rw [scattered, load32_store32_of_off (Or.inl (by decide)), load32_store32_of_off (Or.inl (by decide))]
    exact load32_store32_of_lt (by decide)
  · rw [scattered, load32_store32_of_off (Or.inl (by decide))]
    exact load32_store32_of_lt (by decide)

/-- The new directory gets these pages. -/
theorem scattered_alloc : ∃ k1, alloc 1 sizeofPageDirectory 1 scatteredKernel = .ok (KHEAP_DATA + 0xFF4 + 12, k1) ∧
    frameOf k1 (KHEAP_DATA + 0xFF4 + 12) = 0x300 ∧ frameOf k1 (KHEAP_DATA + 0xFF4 + 12 + 0x1000) = 0x200 := by
  obtain ⟨hk, hrep⟩ := scattered_represents
  obtain ⟨hslot, hfirst, hsecond⟩ := scattered_entries
  have hdirectory : scatteredKernel.kernelDirectory = 0x100000 := rfl
  generalize scatteredKernel = k at *
  obtain ⟨heap, hheap⟩ : ∃ heap, heap = layoutHeap [live 0xFF4, gap (0x80000 - 0xFF4)] 1 := ⟨_, rfl⟩
  rw [← hheap] at hk hrep
  have harray : heap.index.array = KHEAP_START := by rw [hheap]; rfl
  have hstart : KHEAP_START = 0xC0000000 := rfl
  obtain ⟨b, hb⟩ : ∃ b, b = KHEAP_DATA + 0xFF4 := ⟨_, rfl⟩
  have hb' : b = 0xC0080FF4 := hb
  rw [← hb] at hrep ⊢
  have hsize : hSize k.mem b = 0x80000 - 0xFF4 := by
    have htile := hrep.tiles.2.1
    rw [hheap] at htile
    rw [hb]
    exact htile.size
  obtain ⟨n, hn⟩ : ∃ n, n = sizeofPageDirectory := ⟨_, rfl⟩
  have hn' : n = 8196 := hn
  obtain ⟨k1, hrun, hdir, hsame⟩ : ∃ k1, alloc 1 n 1 k = .ok (b + 12, k1) ∧ k1.kernelDirectory = k.kernelDirectory ∧
    SameOn k.mem k1.mem 0 (min heap.index.array (b - 8)) := alloc_one_aligned hk hrep (by omega) (by omega) (by omega)
  have hlow : SameOn k.mem k1.mem 0 0xC0000000 := hsame.mono le_rfl (by omega)
  have hframe : ∀ a w : ℕ, tableIndex a = 768 → load32 k.mem (pagesSlot 0x200000 (pageIndex a)) = w →
      frameOf k1 a = w / 4096 := by
    intro a w htable hw
    have hpage := pageIndex_lt a
    have hslot1 : load32 k1.mem (tablesSlot k1.kernelDirectory (tableIndex a)) = 0x200000 := by
      rw [hdir, hdirectory, htable, tablesSlot, hlow.load32_eq (Nat.zero_le _) (by decide), hslot]
    rw [frameOf_table hslot1 (by decide), loadPage,
      hlow.load32_eq (Nat.zero_le _) (by unfold pagesSlot; omega), hw]
    rfl
  rw [← hn]
  have htable : tableIndex (b + 12) = 768 ∧ tableIndex (b + 12 + 0x1000) = 768 := by unfold tableIndex; omega
  have hpage : pageIndex (b + 12) = 0x81 ∧ pageIndex (b + 12 + 0x1000) = 0x82 := by unfold pageIndex; omega
  rw [← hpage.1] at hfirst
  rw [← hpage.2] at hsecond
  exact ⟨k1, hrun, hframe _ _ htable.1 hfirst, hframe _ _ htable.2 hsecond⟩

theorem cr3_right_iff_scattered : ∃ k1 c, newDirectory (kmallocAp 1) scatteredKernel = .ok (KHEAP_DATA + 0xFF4 + 12, c) ∧
    (load32 c.kernel.mem (physicalAddressSlot (KHEAP_DATA + 0xFF4 + 12)) =
        translate k1 (tablesPhysicalSlot (KHEAP_DATA + 0xFF4 + 12) 0) ↔
      frameOf k1 (KHEAP_DATA + 0xFF4 + 12 + 0x1000) = (frameOf k1 (KHEAP_DATA + 0xFF4 + 12) + 1) % 0x100000) := by
  obtain ⟨k1, hrun, -, -⟩ := scattered_alloc
  exact ⟨k1, cr3_right_iff scattered_represents.1 hrun (by decide)⟩

/-- The value stored for CR3 is frame 0x301, and the table is in frame 0x200. -/
theorem cr3_wrong : ∃ k1 c, alloc 1 sizeofPageDirectory 1 scatteredKernel = .ok (KHEAP_DATA + 0xFF4 + 12, k1) ∧
    newDirectory (kmallocAp 1) scatteredKernel = .ok (KHEAP_DATA + 0xFF4 + 12, c) ∧
    load32 c.kernel.mem (physicalAddressSlot (KHEAP_DATA + 0xFF4 + 12)) ≠
      translate k1 (tablesPhysicalSlot (KHEAP_DATA + 0xFF4 + 12) 0) := by
  obtain ⟨k1, hrun, hfirst, hsecond⟩ := scattered_alloc
  obtain ⟨m, hnew, -, hstored⟩ := newDirectory_spec (kmallocAp_physical scattered_represents.1 hrun)
  refine ⟨k1, _, hrun, hnew, ?_⟩
  show load32 m _ ≠ _
  rw [hstored, Ne, offset_translate_iff k1 (by decide), hfirst, hsecond]
  decide

end PandaOS

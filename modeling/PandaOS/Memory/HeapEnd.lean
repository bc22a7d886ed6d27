import PandaOS.Memory.HeapLayout

/-! `expand` and `contract` move the end of the heap and map or release the pages between. With
the paging structures outside the heap's window, and the page tables of the new range present,
neither changes memory inside the window. `Frame` collects what a heap operation leaves alone. -/
namespace PandaOS
open ByteMemory Word32
set_option autoImplicit false
set_option maxHeartbeats 250000

/-- The page tables for the addresses in `[a, e)` are there. -/
def TablesPresent (k : Kernel) (a e : ℕ) : Prop :=
  ∀ x, a ≤ x → x < e → load32 k.mem (tablesSlot k.kernelDirectory (tableIndex x)) ≠ 0

variable {k k' : Kernel} {heap : Heap} {lo hi n i newSize start a e : ℕ} {kmallocAp : KmallocAp}

theorem heapOf_eq (h : k.kheap = some heap) : heapOf k = .ok heap := by
  rw [heapOf, h]

theorem PageTouch.kheap (h : PageTouch k k' lo hi) : k'.kheap = k.kheap := by
  rw [h.fields]
  rfl

theorem PageTouch.kernelDirectory (h : PageTouch k k' lo hi) :
    k'.kernelDirectory = k.kernelDirectory := by
  rw [h.fields]
  rfl

theorem TablesPresent.touch (h : TablesPresent k a e) (ht : PageTouch k k' lo hi)
    (he : e ≤ 4294967296) : TablesPresent k' a e := by
  intro x hl hh
  have hx := tableIndex_lt (hh.trans_le he)
  rw [ht.kernelDirectory, ht.directory.load32_eq (by unfold tablesSlot; omega)
    (by unfold tablesSlot; omega)]
  exact h x hl hh

/-! ## expand -/

theorem roundUp_eq (hl : 4096 ≤ n) (hh : n + 4096 < 4294967296) :
    roundUp n = n / 4096 * 4096 + 4096 := by
  rw [roundUp, and_high_page (by omega), if_pos (by omega), add32_of_lt (by simp only [PAGE_SIZE]; omega)]
  rfl

theorem expandLoop_touch (hk : k.kheap = some heap) (hpaged : Paged k lo hi)
    (htables : TablesPresent k (heap.startAddress + i) (heap.startAddress + newSize))
    (hbound : heap.startAddress + newSize ≤ 4294967296)
    (hsize : newSize + PAGE_SIZE ≤ 4294967296)
    (hrun : expandLoop kmallocAp newSize n i k = .ok k') : PageTouch k k' lo hi := by
  induction n generalizing i k with
  | zero =>
    cases hrun
    exact PageTouch.refl _ _ _
  | succ n ih =>
    rw [expandLoop] at hrun
    split_ifs at hrun with hlt
    · have haddr : add32 heap.startAddress i = heap.startAddress + i := add32_of_lt (by omega)
      have hpresent := htables _ le_rfl (by omega)
      rw [heapOf_eq hk, ok_bind, haddr, getPage_of_table hpresent, ok_bind] at hrun
      obtain ⟨k1, halloc, hrest⟩ := bind_eq_ok.mp hrun
      have hpage : IsPage k (pagesSlot (load32 k.mem
          (tablesSlot k.kernelDirectory (tableIndex (heap.startAddress + i))))
          (pageIndex (heap.startAddress + i))) :=
        Or.inr ⟨_, tableIndex_lt (by omega), _, pageIndex_lt _, hpresent, rfl⟩
      have htouch := allocFrame_touch hpaged hpage halloc
      have hnext : add32 i PAGE_SIZE = i + PAGE_SIZE := add32_of_lt (by omega)
      rw [hnext] at hrest
      refine htouch.trans (ih ?_ (hpaged.touch htouch) ?_ hrest)
      · rw [htouch.kheap, hk]
      · have := htables.touch htouch hbound
        exact fun x hl hh => this x (by omega) hh
    · cases hrun
      exact PageTouch.refl _ _ _

/-- A returning `expand` moves the end of the heap up and changes nothing in the window. -/
theorem expand_spec (hk : k.kheap = some heap) (hpaged : Paged k lo hi)
    (hle : heap.startAddress ≤ heap.endAddress) (hend : heap.endAddress < 4294967296)
    (hmin : 4096 ≤ newSize) (hwrap : heap.startAddress + newSize + 4096 < 4294967296)
    (htables : TablesPresent k heap.endAddress (heap.startAddress + roundUp newSize))
    (hrun : expand kmallocAp newSize k = .ok k') :
    ∃ k1, k' = k1.withHeap (heap.withEnd (heap.startAddress + roundUp newSize)) ∧
      PageTouch k k1 lo hi ∧ heap.startAddress + roundUp newSize ≤ heap.maxAddress ∧
      heap.endAddress - heap.startAddress < newSize := by
  have hround := roundUp_eq hmin (by omega)
  unfold expand at hrun
  rw [heapOf_eq hk, ok_bind, assert_bind_eq_ok, assert_bind_eq_ok] at hrun
  obtain ⟨hgt, hmax, hrest⟩ := hrun
  rw [decide_eq_true_eq, sub32_of_le hle hend] at hgt
  rw [decide_eq_true_eq, add32_of_lt (by omega)] at hmax
  obtain ⟨k1, hloop, hfinal⟩ := bind_eq_ok.mp hrest
  rw [sub32_of_le hle hend] at hloop
  have htouch := expandLoop_touch hk hpaged
    (by rwa [Nat.add_sub_cancel' hle]) (by omega) (by simp only [PAGE_SIZE]; omega) hloop
  rw [heapOf_eq (htouch.kheap.trans hk), ok_bind, add32_of_lt (by omega)] at hfinal
  cases hfinal
  exact ⟨k1, rfl, htouch, hmax, hgt⟩

/-! ## contract -/

theorem contractLoop_touch (newSize start : ℕ) (hpaged : Paged k lo hi) (hi' : i < 4294967296) :
    ∃ k', contractLoop newSize start n i k = .ok k' ∧ PageTouch k k' lo hi := by
  induction n generalizing i k with
  | zero => exact ⟨k, rfl, PageTouch.refl _ _ _⟩
  | succ n ih =>
    rw [contractLoop]
    split_ifs with hlt
    · obtain ⟨page, hfind, hpage⟩ := findPage_isPage (k := k) (add32_lt start i)
      have htouch := freeFrame_touch hpaged hpage
      obtain ⟨k', hrec, htouch'⟩ := ih (k := freeFrame page k) (i := sub32 i PAGE_SIZE)
        (hpaged.touch htouch) (sub32_lt _ _)
      refine ⟨k', ?_, htouch.trans htouch'⟩
      rw [hfind, ok_bind]
      exact hrec
    · exact ⟨k, rfl, PageTouch.refl _ _ _⟩

/-- `contract` returns, moves the end of the heap and changes nothing in the window. -/
theorem contract_spec (newSize : ℕ) (hk : k.kheap = some heap) (hpaged : Paged k lo hi)
    (hlt : newSize < sub32 heap.endAddress heap.startAddress) :
    ∃ k1, contract newSize k = .ok (contractedSize newSize,
        k1.withHeap (heap.withEnd (add32 heap.startAddress (contractedSize newSize)))) ∧
      PageTouch k k1 lo hi := by
  obtain ⟨k1, hloop, htouch⟩ := contractLoop_touch (contractedSize newSize)
    heap.startAddress
    (n := (sub32 (sub32 heap.endAddress heap.startAddress) PAGE_SIZE - contractedSize newSize + 0xFFF) / 0x1000)
    (i := sub32 (sub32 heap.endAddress heap.startAddress) PAGE_SIZE) hpaged (sub32_lt _ _)
  refine ⟨k1, ?_, htouch⟩
  unfold contract
  rw [heapOf_eq hk, ok_bind, decide_eq_true hlt]
  simp only [assert, if_true, ok_bind, hloop]
  rfl

/-- Below the minimum a heap is contracted to the minimum, whatever bit 12 does. -/
theorem contractedSize_min (h : newSize < HEAP_MIN_SIZE) : contractedSize newSize = HEAP_MIN_SIZE := by
  have hlow : (if newSize &&& PAGE_SIZE ≠ 0 then add32 (newSize &&& PAGE_SIZE) PAGE_SIZE else newSize) <
      HEAP_MIN_SIZE := by
    split_ifs with hne
    · have hbit : newSize &&& PAGE_SIZE = 0x1000 := (and_page_bit newSize).resolve_left hne
      rw [hbit]
      decide
    · exact h
  exact if_pos hlow

/-- Only the request itself or the minimum can be installed. -/
theorem contractedSize_cases (n : ℕ) : contractedSize n = HEAP_MIN_SIZE ∨ contractedSize n = n := by
  unfold contractedSize
  dsimp only
  rcases and_page_bit n with hbit | hbit
  · simp only [PAGE_SIZE, hbit, ne_eq, not_true_eq_false, if_false]
    split_ifs
    · exact Or.inl rfl
    · exact Or.inr rfl
  · left
    simp only [PAGE_SIZE, hbit]
    rfl

/-! ## Frames of heap operations -/

@[simp] theorem Kernel.withHeap_mem (k : Kernel) (heap : Heap) : (k.withHeap heap).mem = k.mem := rfl
@[simp] theorem Kernel.withHeap_kheap (k : Kernel) (heap : Heap) :
    (k.withHeap heap).kheap = some heap := rfl

theorem Kernel.withHeap_self {k : Kernel} {heap : Heap} (h : k.kheap = some heap) : k.withHeap heap = k := by
  rw [Kernel.withHeap, ← h]

/-- Only memory and the heap changed, inside the window `[lo, hi)` only the index and `[a, e)`, and
the directory stayed as it was. -/
structure Frame (k k' : Kernel) (index : OrderedArray) (lo hi a e : ℕ) : Prop where
  fields : ∃ heap, k' = (k.withMem k'.mem).withHeap heap
  window : ∀ x, lo ≤ x → x < hi → (x < index.array ∨ index.array + 4*index.maxSize ≤ x) →
    (x < a ∨ e ≤ x) → k'.mem x = k.mem x
  directory : SameOn k.mem k'.mem k.kernelDirectory (k.kernelDirectory + 4096)

variable {index : OrderedArray} {k'' : Kernel} {m : Mem} {b c : ℕ}

theorem Frame.kernelDirectory (h : Frame k k' index lo hi a e) :
    k'.kernelDirectory = k.kernelDirectory := by
  obtain ⟨heap, hk⟩ := h.fields
  rw [hk]
  rfl

theorem Frame.trans (h : Frame k k' index lo hi a e) (h' : Frame k' k'' index lo hi a e) :
    Frame k k'' index lo hi a e := by
  refine ⟨?_, ?_, h.directory.trans (h.kernelDirectory ▸ h'.directory)⟩
  · obtain ⟨heap, hk⟩ := h.fields
    obtain ⟨heap', hk'⟩ := h'.fields
    refine ⟨heap', ?_⟩
    rw [hk', hk]
    rfl
  · exact fun x h1 h2 h3 h4 => (h'.window x h1 h2 h3 h4).trans (h.window x h1 h2 h3 h4)

theorem Frame.mono (h : Frame k k' index lo hi a e) (hl : b ≤ a) (hh : e ≤ c) :
    Frame k k' index lo hi b c :=
  ⟨h.fields, fun x h1 h2 h3 h4 => h.window x h1 h2 h3 (by omega), h.directory⟩

/-- Only the place of the index matters. -/
theorem Frame.of_index_eq {index' : OrderedArray} (index : OrderedArray) (h : Frame k k' index' lo hi a e)
    (harray : index'.array = index.array) (hmax : index'.maxSize = index.maxSize) :
    Frame k k' index lo hi a e := by
  refine ⟨h.fields, ?_, h.directory⟩
  rw [← harray, ← hmax]
  exact h.window

theorem Frame.of_page (index : OrderedArray) (h : PageTouch k k' lo hi) (heap : Heap) (a e : ℕ) :
    Frame k (k'.withHeap heap) index lo hi a e := by
  refine ⟨⟨heap, ?_⟩, fun x h1 h2 _ _ => h.window x h1 h2, h.directory⟩
  conv_lhs => rw [h.fields]
  rfl

/-- Writes to the index and to a part of the heap, both in the window. -/
theorem Frame.of_touch (index : OrderedArray) (hpaged : Paged k lo hi) (h : HeapTouch index k.mem m a e) (heap : Heap)
    (hindex : lo ≤ index.array ∧ index.array + 4*index.maxSize ≤ hi) (ha : lo ≤ a) (he : e ≤ hi) :
    Frame k ((k.withMem m).withHeap heap) index lo hi a e := by
  refine ⟨⟨heap, rfl⟩, fun x _ _ h3 h4 => h x h3 h4, ?_⟩
  have := hpaged.directory
  unfold Outside at this
  exact fun x h1 h2 => h x (by omega) (by omega)

theorem Frame.paged (h : Frame k k' index lo hi a e) (hpaged : Paged k lo hi) : Paged k' lo hi := by
  obtain ⟨heap, hk⟩ := h.fields
  have := hpaged.congr h.directory
  rw [hk]
  exact ⟨this.frameCount, this.null, this.bitmap, this.directory, this.bitmapDirectory, this.tables⟩

theorem Frame.sameOn (h : Frame k k' index lo hi a e) (hl : lo ≤ b) (hh : c ≤ hi)
    (hindex : Outside index.array (4*index.maxSize) b c) (hd : c ≤ a ∨ e ≤ b) :
    SameOn k.mem k'.mem b c := by
  intro x h1 h2
  unfold Outside at hindex
  exact h.window x (by omega) (by omega) (by omega) (by omega)

theorem TablesPresent.frame (h : TablesPresent k b c) (hf : Frame k k' index lo hi a e)
    (hc : c ≤ 4294967296) : TablesPresent k' b c := by
  intro x hl hh
  have hx := tableIndex_lt (hh.trans_le hc)
  rw [hf.kernelDirectory, hf.directory.load32_eq (by unfold tablesSlot; omega)
    (by unfold tablesSlot; omega)]
  exact h x hl hh

end PandaOS

import PandaOS.Memory.HeapEnd

/-! What `contract` does to the pages of the heap. The new length keeps one bit of the request, and
the loop stops above the page where the new end lies, so only a heap that is as short as it may be
is contracted the way its pages say. -/
namespace PandaOS
open ByteMemory Word32
set_option autoImplicit false
set_option maxHeartbeats 250000

/-- The entry for the page at offset `i` of the heap. -/
def heapPage (k : Kernel) (heap : Heap) (i : ℕ) : ℕ :=
  pagesSlot (load32 k.mem (tablesSlot k.kernelDirectory (tableIndex (heap.startAddress + i))))
    (pageIndex (heap.startAddress + i))

def heapFrame (k : Kernel) (heap : Heap) (i : ℕ) : ℕ := (loadPage k.mem (heapPage k heap i)).frame

/-- Every page of the heap is mapped, by an entry of its own. -/
structure MappedHeap (k : Kernel) (heap : Heap) : Prop where
  kheap : k.kheap = some heap
  paged : Paged k heap.startAddress heap.endAddress
  ordered : heap.startAddress ≤ heap.endAddress
  bound : heap.endAddress < 4294967296
  tables : TablesPresent k heap.startAddress heap.endAddress
  mapped : ∀ i < heap.endAddress - heap.startAddress, i % 4096 = 0 → heapFrame k heap i ≠ 0
  apart : ∀ i < heap.endAddress - heap.startAddress, ∀ j < heap.endAddress - heap.startAddress,
    i % 4096 = 0 → j % 4096 = 0 → i ≠ j →
      heapPage k heap i + 4 ≤ heapPage k heap j ∨ heapPage k heap j + 4 ≤ heapPage k heap i

/-- `n` rounded up to whole pages, but no less than the minimum. -/
def requestedSize (n : ℕ) : ℕ := max ((n + 4095) / 4096 * 4096) HEAP_MIN_SIZE

/-- The heap was cut to the requested size, and exactly the pages behind it lost their frames. -/
structure Contracts (k : Kernel) (heap : Heap) (n len : ℕ) (k' : Kernel) : Prop where
  length : len = requestedSize n
  installed : k'.kheap = some (heap.withEnd (heap.startAddress + len))
  whole : len % 4096 = 0
  kept : n ≤ len
  shorter : len ≤ heap.endAddress - heap.startAddress
  released : ∀ i < heap.endAddress - heap.startAddress, i % 4096 = 0 →
    ((loadPage k'.mem (heapPage k heap i)).frame = 0 ↔ len ≤ i)

variable {k k' : Kernel} {heap : Heap} {lo hi n i newSize len q : ℕ}

theorem heapPage_touch (ht : PageTouch k k' lo hi) (hi' : heap.startAddress + i < 4294967296) :
    heapPage k' heap i = heapPage k heap i := by
  have ht' := tableIndex_lt hi'
  unfold heapPage
  rw [ht.kernelDirectory, ht.directory.load32_eq (by unfold tablesSlot; omega)
    (by unfold tablesSlot; omega)]

theorem heapPage_isPage (hi' : heap.startAddress + i < 4294967296)
    (htable : load32 k.mem (tablesSlot k.kernelDirectory (tableIndex (heap.startAddress + i))) ≠ 0) :
    IsPage k (heapPage k heap i) :=
  Or.inr ⟨_, tableIndex_lt hi', _, pageIndex_lt _, htable, rfl⟩

/-- The loop leaves every entry that it does not visit. -/
theorem contractLoop_keeps (hpaged : Paged k lo hi)
    (htables : TablesPresent k heap.startAddress heap.endAddress) (hbound : heap.endAddress < 4294967296)
    (hmin : 4096 ≤ newSize) (hle : heap.startAddress + i < heap.endAddress) (hi' : i % 4096 = 0)
    (hq : BitmapApart k q)
    (hoff : ∀ j, newSize < j → j ≤ i → j % 4096 = 0 →
      heapPage k heap j + 4 ≤ q ∨ q + 4 ≤ heapPage k heap j)
    (hrun : contractLoop newSize heap.startAddress n i k = .ok k') :
    loadPage k'.mem q = loadPage k.mem q := by
  induction n generalizing i k with
  | zero =>
    cases hrun
    rfl
  | succ n ih =>
    rw [contractLoop] at hrun
    split_ifs at hrun with hlt
    · have haddr : add32 heap.startAddress i = heap.startAddress + i := add32_of_lt (by omega)
      have htable := htables _ (by omega : heap.startAddress ≤ heap.startAddress + i) hle
      have hfind : findPage (heap.startAddress + i) k.kernelDirectory k =
          .ok (heapPage k heap i, k) := getPage_of_table htable
      rw [haddr, hfind, ok_bind] at hrun
      have hprev : sub32 i PAGE_SIZE = i - 4096 := sub32_of_le (by simp only [PAGE_SIZE]; omega) (by omega)
      rw [hprev] at hrun
      have hpage := heapPage_isPage (by omega : heap.startAddress + i < 4294967296) htable
      have htouch := freeFrame_touch hpaged hpage
      have hframes : (freeFrame (heapPage k heap i) k).frames = k.frames := by
        rw [htouch.fields]
        rfl
      have hrest := ih (hpaged.touch htouch) (htables.touch htouch hbound.le) (by omega) (by omega)
        (by unfold BitmapApart at *; rwa [hframes])
        (fun j h1 h2 h3 => by
          rw [heapPage_touch htouch (by omega)]
          exact hoff j h1 (by omega) h3) hrun
      rw [hrest]
      by_cases hzero : (loadPage k.mem (heapPage k heap i)).frame = 0
      · rw [freeFrame_of_zero hzero]
      · obtain ⟨_, hwrites⟩ := freeFrame_writes hzero
        have hapart := hoff i hlt le_rfl hi'
        unfold loadPage
        congr 1
        have hsame : SameOn k.mem (freeFrame (heapPage k heap i) k).mem q (q + 4) := by
          intro x h1 h2
          unfold BitmapApart at hq
          exact hwrites x (by omega) (by omega)
        exact hsame.load32_eq le_rfl le_rfl
    · cases hrun
      rfl

/-- A heap of minimal length is left as it is. -/
theorem contract_minimal (h : MappedHeap k heap)
    (hlen : heap.endAddress - heap.startAddress = HEAP_MIN_SIZE) (hn : n < HEAP_MIN_SIZE) :
    ∃ k', contract n k = .ok (HEAP_MIN_SIZE, k') ∧ Contracts k heap n HEAP_MIN_SIZE k' := by
  have hold : sub32 heap.endAddress heap.startAddress = HEAP_MIN_SIZE := by
    rw [sub32_of_le h.ordered h.bound, hlen]
  have hsize := contractedSize_min hn
  have hsum : add32 heap.startAddress HEAP_MIN_SIZE = heap.startAddress + HEAP_MIN_SIZE :=
    add32_of_lt (by have := h.bound; have := h.ordered; omega)
  have hlast : sub32 HEAP_MIN_SIZE PAGE_SIZE = HEAP_MIN_SIZE - 4096 := rfl
  have hfuel : (HEAP_MIN_SIZE - 4096 - HEAP_MIN_SIZE + 0xFFF) / 0x1000 = 0 := rfl
  refine ⟨k.withHeap (heap.withEnd (heap.startAddress + HEAP_MIN_SIZE)), ?_, ?_⟩
  · unfold contract
    rw [heapOf_eq h.kheap, ok_bind, hold, decide_eq_true hn]
    simp only [assert, if_true, ok_bind, hsize, hlast, hfuel, contractLoop, hsum]
    rfl
  · have hround : requestedSize n = HEAP_MIN_SIZE := by
      unfold requestedSize
      simp only [HEAP_MIN_SIZE] at hn ⊢
      omega
    refine ⟨hround.symm, rfl, by decide, hn.le, hlen.ge, fun i hi hmul => ?_⟩
    refine iff_of_false (h.mapped i hi hmul) ?_
    omega

/-- A longer heap keeps the page at its new end, or gets another length. -/
theorem not_contracts (h : MappedHeap k heap) (hwhole : (heap.endAddress - heap.startAddress) % 4096 = 0)
    (hlong : HEAP_MIN_SIZE < heap.endAddress - heap.startAddress)
    (hn : n < heap.endAddress - heap.startAddress) (hrun : contract n k = .ok (len, k')) :
    ¬ Contracts k heap n len k' := by
  intro hc
  have hbound := h.bound
  have hordered := h.ordered
  have hold : sub32 heap.endAddress heap.startAddress = heap.endAddress - heap.startAddress :=
    sub32_of_le hordered hbound
  unfold contract at hrun
  rw [heapOf_eq h.kheap, ok_bind, hold, decide_eq_true hn] at hrun
  simp only [assert, if_true, ok_bind] at hrun
  obtain ⟨k1, hloop, hfinal⟩ := bind_eq_ok.mp hrun
  have hpair := Except.ok.inj hfinal
  rw [Prod.mk.injEq] at hpair
  obtain ⟨hlen, hk'⟩ := hpair
  have hmin : HEAP_MIN_SIZE ≤ len := by
    rw [← hlen]
    unfold contractedSize
    dsimp only
    split_ifs <;> omega
  have hmem : k'.mem = k1.mem := by
    rw [← hk']
    rfl
  have hlt : len < heap.endAddress - heap.startAddress := by
    refine lt_of_le_of_ne hc.shorter fun heq => ?_
    have hcases := contractedSize_cases n
    rw [hlen] at hcases
    omega
  have hfree := (hc.released len hlt hc.whole).mpr le_rfl
  have hlast : sub32 (heap.endAddress - heap.startAddress) PAGE_SIZE =
      heap.endAddress - heap.startAddress - 4096 :=
    sub32_of_le (by simp only [PAGE_SIZE, HEAP_MIN_SIZE] at *; omega) (by omega)
  rw [hlast, hlen] at hloop
  simp only [HEAP_MIN_SIZE] at hmin
  have hin : heap.startAddress + len < heap.endAddress := by omega
  have hpage := heapPage_isPage (hin.trans hbound) (h.tables _ (Nat.le_add_right _ _) hin)
  have hsmall : 4096 ≤ len := by omega
  have hkeeps := contractLoop_keeps h.paged h.tables hbound hsmall
    (by omega : heap.startAddress + (heap.endAddress - heap.startAddress - 4096) < heap.endAddress)
    (by omega) (h.paged.apart hpage).2.2
    (fun j h1 h2 h3 => h.apart j (by omega) len hlt h3 hc.whole (by omega)) hloop
  rw [hmem, hkeeps] at hfree
  exact h.mapped len hlt hc.whole hfree

/-- `contract` does what its pages ask for exactly on a heap that has its minimal length. -/
theorem contract_iff_minimal (h : MappedHeap k heap)
    (hwhole : (heap.endAddress - heap.startAddress) % 4096 = 0)
    (hmin : HEAP_MIN_SIZE ≤ heap.endAddress - heap.startAddress)
    (hn : n < heap.endAddress - heap.startAddress) :
    (∃ len k', contract n k = .ok (len, k') ∧ Contracts k heap n len k') ↔
      heap.endAddress - heap.startAddress = HEAP_MIN_SIZE := by
  constructor
  · rintro ⟨len, k', hrun, hc⟩
    by_contra hne
    exact not_contracts h hwhole (by omega) hn hrun hc
  · intro hlen
    rw [hlen] at hn
    obtain ⟨k', hrun, hc⟩ := contract_minimal h hlen hn
    exact ⟨_, k', hrun, hc⟩

/-! ## A concrete heap -/

/-- One table for the 4 MB from 0xC0000000, with every entry in use. -/
def fullTableMem : Mem :=
  store32 (fun x => if 0x200000 ≤ x ∧ x < 0x201000 then 255 else 0) (0x100000 + 4*768) 0x200000

/-- A kernel over that memory, with paging on and the given heap. -/
def tableKernel (heap : Heap) : Kernel where
  mem := fullTableMem
  phys := fun _ => 0
  placementAddress := 0
  kheap := some heap
  kernelDirectory := 0x100000
  currentDirectory := 0x100000
  frames := 0x300000
  frameCount := 4096
  cr3 := 0x101000
  pagingEnabled := true

def longHeap (length : ℕ) : Heap where
  index := ⟨0x10000, 0, 1024, some headerTLessThan⟩
  startAddress := 0xC0000000
  endAddress := 0xC0000000 + length
  maxAddress := 0xC0400000
  supervisor := 0
  readonly := 0

def longHeapKernel (length : ℕ) : Kernel := tableKernel (longHeap length)

theorem fullTable_slot : load32 fullTableMem (0x100000 + 4*768) = 0x200000 :=
  load32_store32_of_lt (by decide)

theorem fullTable_zero {a : ℕ} (ha : a + 4 ≤ 0x100000 + 4*768 ∨ 0x100000 + 4*768 + 4 ≤ a)
    (hb : a + 4 ≤ 0x200000 ∨ 0x201000 ≤ a) : load32 fullTableMem a = 0 := by
  rw [fullTableMem, load32_store32_of_off (by omega)]
  simp only [load32, load8]
  rw [if_neg (by omega), if_neg (by omega), if_neg (by omega), if_neg (by omega)]
  rfl

theorem fullTable_entry {a : ℕ} (hl : 0x200000 ≤ a) (hh : a + 4 ≤ 0x201000) :
    load32 fullTableMem a = 0xFFFFFFFF := by
  rw [fullTableMem, load32_store32_of_off (by omega)]
  simp only [load32, load8]
  rw [if_pos (by omega), if_pos (by omega), if_pos (by omega), if_pos (by omega)]
  rfl

theorem tableKernel_paged (heap : Heap) (length : ℕ) :
    Paged (tableKernel heap) 0xC0000000 (0xC0000000 + length) := by
  have hdir : (tableKernel heap).kernelDirectory = 0x100000 := rfl
  have hframes : (tableKernel heap).frames = 0x300000 := rfl
  refine ⟨le_rfl, ?_, ?_, ?_, ?_, ?_⟩
  · omega
  iterate 3
    unfold Outside
    omega
  intro t ht hne
  have h768 : t = 768 := by
    by_contra hne'
    apply hne
    rw [hdir, tablesSlot]
    exact fullTable_zero (by omega) (by omega)
  have hslot : load32 (tableKernel heap).mem (tablesSlot (tableKernel heap).kernelDirectory t) =
      0x200000 := by
    rw [h768]
    exact fullTable_slot
  rw [hslot]
  unfold Outside
  omega

theorem tableKernel_tables (heap : Heap) : TablesPresent (tableKernel heap) 0xC0000000 0xC0400000 := by
  intro x hl hh
  have htable : tableIndex x = 768 := by
    unfold tableIndex
    omega
  have hslot : load32 fullTableMem (0x100000 + 4*768) ≠ 0 := by
    rw [fullTable_slot]
    decide
  rw [htable]
  exact hslot

theorem longHeap_page {length i : ℕ} (hi : i < 0x400000) (hmul : i % 4096 = 0) :
    heapPage (longHeapKernel length) (longHeap length) i = 0x200000 + 4*(i/4096) := by
  have htable : tableIndex (0xC0000000 + i) = 768 := by
    unfold tableIndex
    omega
  have hpage : pageIndex (0xC0000000 + i) = i/4096 := by
    unfold pageIndex
    omega
  unfold heapPage pagesSlot tablesSlot longHeap longHeapKernel tableKernel
  dsimp only
  rw [htable, hpage, fullTable_slot]

theorem longHeap_mapped {length : ℕ} (hlen : length ≤ 0x400000) :
    MappedHeap (longHeapKernel length) (longHeap length) := by
  have hsize : (longHeap length).endAddress - (longHeap length).startAddress = length := by
    simp [longHeap]
  refine ⟨rfl, tableKernel_paged _ _, by simp [longHeap], by simp only [longHeap]; omega, ?_, ?_, ?_⟩
  · exact fun x hl hh => tableKernel_tables _ x hl (by simp only [longHeap] at hh; omega)
  · intro i hi hmul
    rw [hsize] at hi
    unfold heapFrame
    rw [longHeap_page (by omega) hmul]
    have hword : load32 (longHeapKernel length).mem (0x200000 + 4*(i/4096)) = 0xFFFFFFFF :=
      fullTable_entry (by omega) (by omega)
    rw [loadPage, hword]
    decide
  · intro i hi j hj hmi hmj hne
    rw [hsize] at hi hj
    rw [longHeap_page (by omega) hmi, longHeap_page (by omega) hmj]
    omega

theorem contract_iff_minimal_shortest :
    (∃ len k', contract 0 (longHeapKernel 0x70000) = .ok (len, k') ∧
      Contracts (longHeapKernel 0x70000) (longHeap 0x70000) 0 len k') ↔
    (longHeap 0x70000).endAddress - (longHeap 0x70000).startAddress = HEAP_MIN_SIZE :=
  contract_iff_minimal (longHeap_mapped (by decide)) (by decide) (by decide) (by decide)

/-- Contracting a heap of 0x71000 bytes to nothing keeps the page at its new end. -/
theorem contract_keeps_page : ¬ ∃ len k', contract 0 (longHeapKernel 0x71000) = .ok (len, k') ∧
    Contracts (longHeapKernel 0x71000) (longHeap 0x71000) 0 len k' := by
  rintro ⟨len, k', hrun, hc⟩
  exact not_contracts (longHeap_mapped (by decide)) (by decide) (by decide) (by decide) hrun hc

end PandaOS

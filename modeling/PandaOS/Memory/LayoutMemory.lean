import PandaOS.Memory.Contraction
import PandaOS.Memory.FreshHeap

/-! Every layout is the layout of some heap: the headers, the footers and the index that a list of
tiles and a list of entries describe can be written to memory. -/
namespace PandaOS
open ByteMemory Word32 Tiling
set_option autoImplicit false
set_option maxHeartbeats 250000

/-- The headers and footers of the tiles from `a` on. -/
def writeTiles : ℕ → List Tile → Mem → Mem
  | _, [], m => m
  | a, t :: ts, m =>
    writeTiles (a + t.size) ts
      (writeFooter (writeHeader m a (if t.hole then 1 else 0) t.size) (a + t.size - 8) a)

/-- The entries from slot `i` of the index on. -/
def writeEntries (index : OrderedArray) : ℕ → List ℕ → Mem → Mem
  | _, [], m => m
  | i, b :: l, m => writeEntries index (i + 1) l (store32 m (slot index i) b)

/-- The kernel heap with the given tiles and `n` entries in its index. -/
def layoutHeap (ts : List Tile) (n : ℕ) : Heap where
  index := ⟨KHEAP_START, n, HEAP_INDEX_SIZE, some headerTLessThan⟩
  startAddress := KHEAP_DATA
  endAddress := KHEAP_DATA + total Tile.size ts
  maxAddress := KHEAP_MAX
  supervisor := 0
  readonly := 0

/-- A kernel whose heap has the tiles `ts` and the entries `l`. The page tables of the first 4 MB
of the heap are there. -/
def layoutKernel (ts : List Tile) (l : List ℕ) : Kernel :=
  (tableKernel (layoutHeap ts l.length)).withMem
    (writeEntries (layoutHeap ts l.length).index 0 l (writeTiles KHEAP_DATA ts fullTableMem))

variable {ts : List Tile} {l : List ℕ} {m : Mem} {index : OrderedArray} {a i j n : ℕ}

theorem sameOff_writeTiles (hbig : ∀ t ∈ ts, 20 ≤ t.size) :
    SameOff m (writeTiles a ts m) a (a + total Tile.size ts) := by
  induction ts generalizing a m with
  | nil => exact SameOff.refl _ _ _
  | cons t ts ih =>
    have ht := hbig t (List.mem_cons_self ..)
    have hrest := ih (fun u hu => hbig u (List.mem_cons_of_mem t hu)) (a := a + t.size)
      (m := writeFooter (writeHeader m a (if t.hole then 1 else 0) t.size) (a + t.size - 8) a)
    have hfirst : SameOff m (writeFooter (writeHeader m a (if t.hole then 1 else 0) t.size)
        (a + t.size - 8) a) a (a + t.size) :=
      ((sameOff_writeHeader m a _ _).mono le_rfl (by omega)).trans
        ((sameOff_writeFooter _ _ a).mono (by omega) (by omega))
    rw [total_cons]
    exact (hfirst.mono le_rfl (by omega)).trans (hrest.mono (by omega) (by omega))

theorem tiles_writeTiles (htiles : ∀ t ∈ ts, 20 ≤ t.size ∧ t.tagged = true)
    (hend : a + total Tile.size ts < 4294967296) :
    Tiles Tile.size (TileAt (writeTiles a ts m)) a ts (a + total Tile.size ts) := by
  induction ts generalizing a m with
  | nil => rfl
  | cons t ts ih =>
    obtain ⟨ht, htag⟩ := htiles t (List.mem_cons_self ..)
    have htiles' : ∀ u ∈ ts, 20 ≤ u.size ∧ u.tagged = true :=
      fun u hu => htiles u (List.mem_cons_of_mem t hu)
    rw [total_cons] at hend
    have hfirst : TileAt (writeFooter (writeHeader m a (if t.hole then 1 else 0) t.size)
        (a + t.size - 8) a) a ⟨t.size, t.hole, true⟩ := tileAt_write m t.hole ht (by omega)
    have htile : (⟨t.size, t.hole, true⟩ : Tile) = t := by rw [← htag]
    rw [htile] at hfirst
    have hrest := sameOff_writeTiles (a := a + t.size) (fun u hu => (htiles' u hu).1)
      (m := writeFooter (writeHeader m a (if t.hole then 1 else 0) t.size) (a + t.size - 8) a)
    refine ⟨?_, ?_⟩
    · exact hfirst.congr (hrest.sameOn (Or.inl le_rfl)) le_rfl le_rfl
    · rw [total_cons, ← Nat.add_assoc]
      exact ih htiles' (by omega)

theorem sameOff_writeEntries : SameOff m (writeEntries index i l m) (slot index i)
    (slot index (i + l.length)) := by
  induction l generalizing i m with
  | nil => exact SameOff.refl _ _ _
  | cons b l ih =>
    have hrest := ih (i := i + 1) (m := store32 m (slot index i) b)
    refine (sameOff_store32 le_rfl ?_).trans (hrest.mono ?_ ?_) <;>
      · simp only [slot, List.length_cons]
        omega

theorem load32_writeEntries (hl : ∀ b ∈ l, b < 4294967296) (hj : j < l.length) :
    load32 (writeEntries index i l m) (slot index (i + j)) = l[j] := by
  induction l generalizing i j m with
  | nil => cases hj
  | cons b l ih =>
    cases j with
    | zero =>
      have hrest : SameOff (store32 m (slot index i) b)
          (writeEntries index (i + 1) l (store32 m (slot index i) b)) (slot index (i + 1))
          (slot index (i + 1 + l.length)) := sameOff_writeEntries
      have hfirst : load32 (writeEntries index i (b :: l) m) (slot index i) =
          load32 (store32 m (slot index i) b) (slot index i) :=
        hrest.load32_eq (Or.inl (by unfold slot; omega))
      rw [Nat.add_zero, hfirst]
      exact load32_store32_of_lt (hl b (List.mem_cons_self ..))
    | succ j =>
      have hplace : i + (j + 1) = i + 1 + j := by omega
      rw [hplace]
      exact ih (fun c hc => hl c (List.mem_cons_of_mem b hc)) (Nat.lt_of_succ_lt_succ hj)

/-- The tiles of a heap and the entries of its index, written to memory. -/
theorem represents_written {heap : Heap} {hi : ℕ} (htiles : ∀ t ∈ ts, 20 ≤ t.size ∧ t.tagged = true)
    (hperm : l.Perm (holes heap.startAddress ts)) (hless : heap.index.lessThan = some headerTLessThan)
    (hsize : heap.index.size = l.length) (hcapacity : l.length ≤ heap.index.maxSize) (hstart : 8 ≤ heap.startAddress)
    (hbelow : heap.index.array + 4*heap.index.maxSize ≤ heap.startAddress)
    (hend : heap.endAddress = heap.startAddress + total Tile.size ts) (htop : heap.endAddress ≤ hi)
    (hbound : hi < 4294967296) :
    Represents (writeEntries heap.index 0 l (writeTiles heap.startAddress ts m)) heap hi ts l := by
  obtain ⟨m1, hm1⟩ : ∃ m1, m1 = writeTiles heap.startAddress ts m := ⟨_, rfl⟩
  obtain ⟨m2, hm2⟩ : ∃ m2, m2 = writeEntries heap.index 0 l m1 := ⟨_, rfl⟩
  rw [← hm1, ← hm2]
  have hwords : ∀ b ∈ l, b < 4294967296 := by
    intro b hb
    obtain ⟨t, hat, _⟩ := mem_starts.mp (hperm.mem_iff.mp hb)
    have := hat.bounds
    omega
  have hentries : entries m2 heap.index = l := by
    apply List.ext_getElem
    · rw [entries_length, hsize]
    · intro j h1 h2
      have hread : load32 (writeEntries heap.index 0 l m1) (slot heap.index (0 + j)) = l[j] :=
        load32_writeEntries hwords h2
      rw [entries_getElem h1, hm2]
      rwa [Nat.zero_add] at hread
  have hoff : SameOff m1 m2 heap.index.array heap.startAddress := by
    rw [hm2]
    refine sameOff_writeEntries.mono ?_ ?_ <;>
      · simp only [slot]
        omega
  have hall : Tiles Tile.size (TileAt m2) heap.startAddress ts heap.endAddress := by
    have hwritten : Tiles Tile.size (TileAt (writeTiles heap.startAddress ts m)) heap.startAddress ts
        (heap.startAddress + total Tile.size ts) := tiles_writeTiles htiles (by omega)
    rw [← hm1, ← hend] at hwritten
    exact tiles_congr hwritten (hoff.sameOn (Or.inr le_rfl)) le_rfl le_rfl
  exact ⟨hall, hentries, hperm, hless, by omega, Or.inl hbelow, htop, hbound, by omega, hstart⟩

/-- The slots hold the entries. -/
theorem Represents.slot_eq {heap : Heap} {hi : ℕ} (h : Represents m heap hi ts l) (hj : j < l.length) :
    load32 m (slot heap.index j) = l[j] := by
  have hlt : j < (entries m heap.index).length := by rwa [h.index]
  rw [← entries_getElem hlt]
  simp only [h.index]

theorem Represents.entry_ne_magic {heap : Heap} {hi : ℕ} (h : Represents m heap hi ts l)
    (hhigh : HEAP_MAGIC < heap.startAddress) (hj : j < l.length) :
    load32 m (slot heap.index j) ≠ HEAP_MAGIC := by
  obtain ⟨t, hat, -⟩ := mem_starts.mp (h.perm.mem_iff.mp (List.getElem_mem hj))
  have hbounds := hat.bounds
  rw [h.slot_eq hj]
  omega

theorem represents_layout (htiles : ∀ t ∈ ts, 20 ≤ t.size ∧ t.tagged = true) (hperm : l.Perm (holes KHEAP_DATA ts))
    (hroom : l.length ≤ HEAP_INDEX_SIZE) (hmax : KHEAP_DATA + total Tile.size ts ≤ KHEAP_MAX) :
    Represents (layoutKernel ts l).mem (layoutHeap ts l.length) KHEAP_MAX ts l := by
  have hbelow : KHEAP_START + 4*HEAP_INDEX_SIZE ≤ KHEAP_DATA := by decide
  exact represents_written htiles hperm rfl rfl hroom (by decide : 8 ≤ KHEAP_DATA) hbelow rfl hmax (by decide)

/-- The tiles and the entries make a heap in order. -/
theorem heapState_layout (htiles : ∀ t ∈ ts, 20 ≤ t.size ∧ t.tagged = true)
    (hperm : l.Perm (holes KHEAP_DATA ts)) (hroom : l.length < HEAP_INDEX_SIZE)
    (haligned : total Tile.size ts % 4096 = 0) (hmin : HEAP_MIN_SIZE ≤ total Tile.size ts)
    (hmax : KHEAP_DATA + total Tile.size ts ≤ KHEAP_MAX) :
    HeapState (layoutKernel ts l) (layoutHeap ts l.length) ts l := by
  obtain ⟨heap, hheap⟩ : ∃ heap, heap = layoutHeap ts l.length := ⟨_, rfl⟩
  have harray : heap.index.array = KHEAP_START := by rw [hheap]; rfl
  have hmaxSize : heap.index.maxSize = HEAP_INDEX_SIZE := by rw [hheap]; rfl
  have hsize : heap.index.size = l.length := by rw [hheap]; rfl
  have hend : heap.endAddress = KHEAP_DATA + total Tile.size ts := by rw [hheap]; rfl
  have hstart : heap.startAddress = KHEAP_DATA := by rw [hheap]; rfl
  have htop : heap.maxAddress = KHEAP_MAX := by rw [hheap]; rfl
  obtain ⟨m1, hm1⟩ : ∃ m, m = writeTiles KHEAP_DATA ts fullTableMem := ⟨_, rfl⟩
  obtain ⟨m2, hm2⟩ : ∃ m, m = writeEntries heap.index 0 l m1 := ⟨_, rfl⟩
  have hkernel : layoutKernel ts l = (tableKernel heap).withMem m2 := by rw [hm2, hm1, hheap]; rfl
  have hdata : KHEAP_DATA = 0xC0080000 := rfl
  have hlow : KHEAP_START = 0xC0000000 := rfl
  have hhigh : KHEAP_MAX = 0xCFFFF000 := rfl
  have hcount : HEAP_INDEX_SIZE = 0x20000 := rfl
  have hminSize : HEAP_MIN_SIZE = 0x70000 := rfl
  have hmagic : HEAP_MAGIC = 0x123890AB := rfl
  have hoff1 : SameOff fullTableMem m1 KHEAP_DATA (KHEAP_DATA + total Tile.size ts) := by
    rw [hm1]
    exact sameOff_writeTiles (fun t ht => (htiles t ht).1)
  have hoff2 : SameOff m1 m2 KHEAP_START KHEAP_DATA := by
    rw [hm2]
    refine sameOff_writeEntries.mono ?_ ?_ <;>
      · simp only [slot, harray]
        omega
  have hrep : Represents m2 heap KHEAP_MAX ts l := by
    have hlayout := represents_layout htiles hperm hroom.le hmax
    rwa [hkernel, ← hheap] at hlayout
  have hclean : CleanSlots m2 heap.index := by
    intro j hj
    by_cases hlt : j < l.length
    · exact hrep.entry_ne_magic (by omega) hlt
    · have hoff : SameOff m1 m2 (slot heap.index 0) (slot heap.index (0 + l.length)) := by
        rw [hm2]
        exact sameOff_writeEntries
      rw [hoff.load32_eq (Or.inr (by unfold slot; omega)),
        hoff1.load32_eq (Or.inl (by unfold slot; omega)),
        fullTable_zero (by unfold slot; omega) (by unfold slot; omega)]
      decide
  have hpaged : Paged (layoutKernel ts l) KHEAP_START KHEAP_MAX := by
    rw [hkernel]
    have hbase : Paged (tableKernel heap) KHEAP_START KHEAP_MAX := tableKernel_paged heap 0x0FFFF000
    exact hbase.store ((hoff1.mono (by omega) hmax).trans (hoff2.mono le_rfl (by omega)))
  have hslots2 : CleanIndex (layoutKernel ts l).mem heap := by
    rw [hkernel]
    refine ⟨by omega, ?_, hclean⟩
    rw [hstart]
    decide
  rw [← hheap]
  rw [← harray, ← htop] at hpaged
  rw [← htop] at hrep
  refine ⟨by rw [hheap]; rfl, ?_, hpaged, ?_, hslots2, ?_, ?_, ?_, ?_, ?_, ?_⟩
  · rwa [hkernel]
  all_goals omega

/-- A live block of `n` bytes and a hole behind it, in a data area of 0x80000 bytes. -/
theorem heapState_pair (hn : 20 ≤ n) (hrest : n + 20 ≤ 0x80000) :
    HeapState (layoutKernel [live n, gap (0x80000 - n)] [KHEAP_DATA + n])
      (layoutHeap [live n, gap (0x80000 - n)] 1) [live n, gap (0x80000 - n)] [KHEAP_DATA + n] := by
  have htotal : total Tile.size [live n, gap (0x80000 - n)] = 0x80000 := by
    simp only [total_cons, total_nil, live_size, gap_size]
    omega
  refine heapState_layout ?_ (List.Perm.refl _) (by simp [HEAP_INDEX_SIZE]) ?_ ?_ ?_
  · intro t ht
    simp only [List.mem_cons, List.not_mem_nil, or_false] at ht
    rcases ht with rfl | rfl
    · exact ⟨hn, rfl⟩
    · exact ⟨by simp only [gap_size]; omega, rfl⟩
  all_goals rw [htotal]
  all_goals decide

theorem heapState_whole : HeapState (layoutKernel [gap 0x80000] [KHEAP_DATA])
    (layoutHeap [gap 0x80000] 1) [gap 0x80000] [KHEAP_DATA] := by
  refine heapState_layout ?_ (List.Perm.refl _) (by simp [HEAP_INDEX_SIZE]) ?_ ?_ ?_
  · intro t ht
    obtain rfl : t = gap 0x80000 := by simpa using ht
    exact ⟨by simp only [gap_size]; omega, rfl⟩
  all_goals simp only [total_cons, total_nil, gap_size]
  all_goals decide

/-- The heap lies above the page tables. -/
theorem layoutKernel_low (ts : List Tile) (l : List ℕ) (hbig : ∀ t ∈ ts, 20 ≤ t.size) :
    SameOn fullTableMem (layoutKernel ts l).mem 0 0xC0000000 := by
  have hdata : KHEAP_DATA = 0xC0080000 := rfl
  refine ((sameOff_writeTiles hbig).sameOn (Or.inl ?_)).trans (sameOff_writeEntries.sameOn (Or.inl ?_))
  · omega
  · rfl

theorem layoutKernel_slot (hbig : ∀ t ∈ ts, 20 ≤ t.size) {x : ℕ} (hl : 0xC0000000 ≤ x) (hh : x < 0xC0400000) :
    load32 (layoutKernel ts l).mem (tablesSlot (layoutKernel ts l).kernelDirectory (tableIndex x)) =
      0x200000 := by
  have htable : tableIndex x = 768 := by
    unfold tableIndex
    omega
  have hdir : (layoutKernel ts l).kernelDirectory = 0x100000 := rfl
  rw [htable, hdir, tablesSlot, (layoutKernel_low ts l hbig).load32_eq (Nat.zero_le _) (by decide)]
  exact fullTable_slot

theorem layoutKernel_tables (hbig : ∀ t ∈ ts, 20 ≤ t.size) :
    TablesPresent (layoutKernel ts l) 0xC0000000 0xC0400000 := by
  intro x hl hh
  rw [layoutKernel_slot hbig hl hh]
  decide

/-- Every page of those tables has a frame. -/
theorem layoutKernel_frames (hbig : ∀ t ∈ ts, 20 ≤ t.size) {j : ℕ} (hj : KHEAP_DATA + j < 0xC0400000) :
    heapFrame (layoutKernel ts l) (layoutHeap ts n) j ≠ 0 := by
  have hdata : KHEAP_DATA = 0xC0080000 := rfl
  have hstart : (layoutHeap ts n).startAddress = KHEAP_DATA := rfl
  have hpage := pageIndex_lt (KHEAP_DATA + j)
  have hword : load32 (layoutKernel ts l).mem (0x200000 + 4*pageIndex (KHEAP_DATA + j)) = 0xFFFFFFFF := by
    rw [(layoutKernel_low ts l hbig).load32_eq (Nat.zero_le _) (by omega)]
    exact fullTable_entry (by omega) (by omega)
  rw [heapFrame, heapPage, hstart, layoutKernel_slot hbig (by omega) hj, pagesSlot, loadPage, hword]
  decide

end PandaOS

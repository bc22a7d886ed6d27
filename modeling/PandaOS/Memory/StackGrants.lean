import PandaOS.Memory.HeapStores
import PandaOS.Memory.StackReuse

/-! Blocks that `kmalloc` hands out from the stack of blocks at the start of the heap: where they lie, what the call
leaves alone, and that the blocks may be written. -/
namespace PandaOS
open ByteMemory Word32 Tiling
set_option autoImplicit false
set_option maxHeartbeats 250000

variable {k k' : Kernel} {heap : Heap} {pre : List Tile} {t : Tile} {blocks : List (ℕ × ℕ)} {p : ℕ × ℕ} {m' : Mem}
  {b q size fuel : ℕ}

/-- What `alloc` writes for a block of `size` bytes behind `b`: the index, the header and the footer of the block with
the header behind it, and the last footer, which lies in the region from `last`. -/
def GrantTouch (array entries b size last lastEnd : ℕ) (m m' : Mem) : Prop :=
  ∀ x, (x < array ∨ array + 4*entries ≤ x) → (x < b ∨ b + 12 ≤ x) → (x < b + 12 + size ∨ b + size + 32 ≤ x) →
    (x < last ∨ lastEnd ≤ x) → m' x = m x

/-! ## What a call leaves alone -/

/-- A block cut from the only hole: what it held before stays, and so does the rest of the hole. -/
theorem alloc_only_hole_frame (h : HeapState k heap (pre ++ [t]) [b]) (hb : b = heap.startAddress + total Tile.size pre)
    (hroom : size + 40 ≤ t.size) (hrun : alloc (fuel + 1) size 0 k = .ok (q, k')) :
    (∃ heap', k' = (k.withMem k'.mem).withHeap heap') ∧
      GrantTouch heap.index.array heap.index.maxSize b size (heap.endAddress - 8) heap.endAddress k.mem k'.mem := by
  have hrep := h.represents
  have hend := hrep.end_eq
  rw [total_append, total_cons, total_nil] at hend
  have htop := hrep.top
  have hbound := hrep.bound
  have hbelow := h.below
  have htwo := h.two
  have hindexBound := hrep.indexBound
  have htile := (tiles_middle.mp hrep.tiles).2.1
  rw [← hb] at htile
  have hlt : 0 < [b].length := Nat.one_pos
  have hget : [b][0] = b := rfl
  have hsmall : ¬ t.size - (size + 20) < 20 := by omega
  obtain ⟨m1, hu, hsteps⟩ := allocHole_unhooks hrep hlt hget htile (by omega)
    (by omega : size + 20 ≤ t.size) (Or.inl rfl : 0 = 0 ∨ b % 4096 = 0)
  have hplace := placeBlock_rest (m := m1) (n := size + 20) (b := b) (s := t.size)
    (heap.index.withSize ([b].length - 1)) (by omega) (by omega) (by omega : b + t.size ≤ heap.endAddress) (by omega)
  obtain ⟨m2, hm2⟩ : ∃ x, x = writeRest (writeBlock m1 b (size + 20)) b (size + 20) t.size := ⟨_, rfl⟩
  obtain ⟨index1, hindex1⟩ : ∃ x, x = heap.index.withSize ([b].length - 1) := ⟨_, rfl⟩
  have hfields1 : index1.lessThan = heap.index.lessThan ∧ index1.array = heap.index.array ∧
      index1.maxSize = heap.index.maxSize := by
    rw [hindex1]
    exact ⟨rfl, rfl, rfl⟩
  obtain ⟨hless1, harray1, hmax1⟩ := hfields1
  have hempty : entries m2 index1 = [] := by
    rw [hindex1]
    rfl
  have hcap : ([] : List ℕ).length < index1.maxSize := by
    rw [hmax1, List.length_nil]
    omega
  obtain ⟨m3, hinsert, -, hoff3, -⟩ := insertOrderedArray_index (b + (size + 20)) (hless1.trans hrep.lessThan) hempty
    (by omega) hcap (by omega)
  rw [harray1, hmax1] at hoff3
  rw [alloc_succ h.kheap (by omega), find_only_hole h hb (by omega)] at hrun
  dsimp only at hrun
  rw [Nat.add_sub_cancel, ← hm2, ← hindex1, hinsert] at hplace
  rw [hsteps, if_neg hsmall, if_neg hsmall, ← hindex1, hplace, ok_bind] at hrun
  cases hrun
  have hunhook := hu.off
  have hheader := sameOff_writeHeader m1 b 0 (size + 20)
  have hfooter := sameOff_writeFooter (writeHeader m1 b 0 (size + 20)) (b + (size + 20) - 8) b
  have hlast : b + (size + 20) + (t.size - (size + 20)) - 8 = heap.endAddress - 8 := by omega
  have hnext := sameOff_writeHeader (writeBlock m1 b (size + 20)) (b + (size + 20)) 1 (t.size - (size + 20))
  have hlastFooter := sameOff_writeFooter (writeHeader (writeBlock m1 b (size + 20)) (b + (size + 20)) 1 (t.size - (size + 20)))
    (heap.endAddress - 8) (b + (size + 20))
  rw [writeRest, hlast] at hm2
  refine ⟨⟨_, rfl⟩, fun x hindex htags hbehind htail => ?_⟩
  show m3 x = k.mem x
  rw [hoff3 x hindex, hm2, hlastFooter x (by omega), hnext x (by omega), writeBlock, hfooter x (by omega),
    hheader x htags, hunhook x hindex]

/-! ## The stack of blocks -/

/-- The blocks end before the place of the next one. -/
theorem StackPointers.below {start : ℕ} (h : StackPointers start blocks) (hp : p ∈ blocks) :
    start ≤ p.1 ∧ p.1 + p.2 + 8 ≤ start + footprint (blocks.map Prod.snd) := by
  have hheader : sizeofHeader = 12 := rfl
  induction blocks with
  | nil => exact absurd hp List.not_mem_nil
  | cons b blocks ih =>
    obtain ⟨hpointer, hrest⟩ := h
    rw [List.map_cons, footprint_cons]
    rcases List.mem_cons.mp hp with rfl | hp
    · omega
    · have := ih hrest hp
      omega

theorem StackPointers.owns {start : ℕ} (h : StackPointers start blocks) (ts : List Tile) :
    Owns blocks start (stackTiles blocks ++ ts) := by
  induction blocks generalizing ts with
  | nil => exact Owns.nil _ _
  | cons b blocks ih =>
    obtain ⟨hpointer, hrest⟩ := h
    have hheader : sizeofHeader = 12 := rfl
    have hblocks : stackTiles (b :: blocks) = stackTiles blocks ++ [live (b.2 + 20)] := stackTiles_cons
    have howns := ih hrest ([live (b.2 + 20)] ++ ts)
    rw [hblocks, List.append_assoc]
    refine ⟨fun q hq => ?_, List.pairwise_cons.mpr ⟨fun q hq => ?_, howns.distinct⟩⟩
    · rcases List.mem_cons.mp hq with rfl | hq
      · refine ⟨start + footprint (blocks.map Prod.snd), live (q.2 + 20), hpointer, ?_, rfl, le_rfl⟩
        rw [← total_stackTiles]
        exact at_middle Tile.size start (stackTiles blocks) (live (q.2 + 20)) ts
      · exact howns.tile q hq
    · have := hrest.below hq
      omega

/-- What a call of `kmalloc` writes on the stack of blocks, for a block behind `b`. -/
def StackTouch (b size : ℕ) (m m' : Mem) : Prop :=
  GrantTouch KHEAP_START HEAP_INDEX_SIZE b size (KHEAP_DATA + HEAP_MIN_SIZE - 8) (KHEAP_START + KHEAP_INITIAL_SIZE) m m'

/-- `kmalloc` on the stack of blocks: the next block behind them. -/
theorem StackState.kmalloc (h : StackState ⟨k, blocks⟩ heap t) (fuel size : ℕ)
    (hfits : footprint (size :: blocks.map Prod.snd) + 20 ≤ HEAP_MIN_SIZE) :
    ∃ k' heap' t', PandaOS.kmalloc (fuel + 1) size k = .ok (KHEAP_DATA + footprint (blocks.map Prod.snd) + 12, k') ∧
      StackState ⟨k', (KHEAP_DATA + footprint (blocks.map Prod.snd) + 12, size) :: blocks⟩ heap' t' ∧
      (∃ heap', k' = (k.withMem k'.mem).withHeap heap') ∧
      StackTouch (KHEAP_DATA + footprint (blocks.map Prod.snd)) size k.mem k'.mem := by
  obtain ⟨s', heap', t', hcall, hstate', hsizes⟩ := h.push fuel size hfits
  obtain ⟨p, k', hrun, rfl⟩ := Client.of_call_alloc hcall
  have hpointer : p = KHEAP_DATA + footprint (blocks.map Prod.snd) + 12 := hstate'.pointers.1
  have hend := h.end_eq
  have hmin := h.state.minimum
  have hstart := h.start
  have hcount := h.count
  have hindex := h.index
  have hshort := h.short
  have hsize : 4 * HEAP_INDEX_SIZE = KHEAP_DATA - KHEAP_START := rfl
  have hlast : KHEAP_START + KHEAP_INITIAL_SIZE = KHEAP_DATA + 0x80000 := rfl
  have hlow : KHEAP_START ≤ KHEAP_DATA := by decide
  rw [footprint_cons] at hfits
  obtain ⟨hfields, htouch⟩ := alloc_only_hole_frame h.state (by rw [total_stackTiles]) (by dsimp only at hend; omega) hrun
  rw [hstart] at htouch
  rw [hpointer] at hrun hstate'
  refine ⟨k', heap', t', ?_, hstate', hfields, fun x hx htags hbehind htail => htouch x ?_ htags hbehind ?_⟩
  · rw [PandaOS.kmalloc, kmallocInt, h.state.kheap]
    dsimp only
    rw [hrun]
    rfl
  · rw [hcount]
    omega
  · omega

/-- A live block may be written. -/
theorem StackState.write (h : StackState ⟨k, blocks⟩ heap t) (hp : p ∈ blocks) (hoff : SameOff k.mem m' p.1 (p.1 + p.2)) :
    StackState ⟨k.withMem m', blocks⟩ heap t := by
  have howns : Owns blocks heap.startAddress (stackTiles blocks ++ [t]) := by
    rw [h.start]
    exact h.pointers.owns [t]
  exact { h with state := h.state.payload howns hp hoff }

end PandaOS

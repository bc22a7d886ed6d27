import PandaOS.Memory.FreeCall

/-! The kernel heap as `initialise_paging` has it made: `create_heap` clears the index, writes the
header of one hole over the whole data area, without a footer, and enters it in the index. -/
namespace PandaOS
open ByteMemory Word32 Tiling
set_option autoImplicit false
set_option maxHeartbeats 250000

/-- Where the data of the kernel heap begins. -/
def KHEAP_DATA : ℕ := 0xC0080000

/-- The bound that `initialise_paging` passes to `create_heap`. -/
def KHEAP_MAX : ℕ := 0xCFFFF000

/-- `kheap = create_heap(KHEAP_START, KHEAP_START+KHEAP_INITIAL_SIZE, 0xCFFFF000, ..)` -/
def createKernelHeap (fuel supervisor readonly : ℕ) (k : Kernel) : Result Kernel := do
  let (heap, k) ← createHeap fuel KHEAP_START (KHEAP_START + KHEAP_INITIAL_SIZE) KHEAP_MAX supervisor
    readonly k
  return k.withHeap heap

/-- The one hole of the fresh heap. -/
def freshHole : Tile := ⟨0x80000, true, false⟩

variable {k k' : Kernel} {fuel supervisor readonly : ℕ} {m : Mem} {a n v : ℕ}

theorem setIsHole_setMagic (m : Mem) (a v n : ℕ) :
    setIsHole (setMagic (setSize m a n) a) a v = writeHeader m a v n := by
  rw [← setIsHole_setSize]
  congr 1
  exact store32_comm (Or.inr (by omega))

/-- The heap that `create_heap` returns to `initialise_paging`. -/
def freshHeap (supervisor readonly : ℕ) : Heap where
  index := ⟨KHEAP_START, 1, HEAP_INDEX_SIZE, some headerTLessThan⟩
  startAddress := KHEAP_DATA
  endAddress := KHEAP_START + KHEAP_INITIAL_SIZE
  maxAddress := KHEAP_MAX
  supervisor := supervisor
  readonly := readonly

theorem createKernelHeap_returns (fuel supervisor readonly : ℕ) (hk : k.kheap = none) :
    ∃ m', createKernelHeap fuel supervisor readonly k =
        .ok (({ k with placementAddress := add32 k.placementAddress sizeofHeap }.withMem m').withHeap
          (freshHeap supervisor readonly)) ∧
      SameOff k.mem m' KHEAP_START (KHEAP_DATA + 12) ∧ TileAt m' KHEAP_DATA freshHole ∧
      entries m' (freshHeap supervisor readonly).index = [KHEAP_DATA] ∧
      CleanSlots m' (freshHeap supervisor readonly).index := by
  have hkmalloc : kmalloc fuel sizeofHeap k = .ok (k.placementAddress,
      { k with placementAddress := add32 k.placementAddress sizeofHeap }) := by
    simp only [kmalloc, kmallocInt, hk]
    rfl
  obtain ⟨m1, hm1⟩ : ∃ m, m = memset k.mem KHEAP_START 0 (HEAP_INDEX_SIZE*4) := ⟨_, rfl⟩
  obtain ⟨index1, hindex1⟩ : ∃ x : OrderedArray, x = ⟨KHEAP_START, 0, HEAP_INDEX_SIZE, some headerTLessThan⟩ :=
    ⟨_, rfl⟩
  have hplace : placeOrderedArray KHEAP_START HEAP_INDEX_SIZE (some headerTLessThan) k.mem = (index1, m1) := by
    rw [hindex1, hm1]
    rfl
  have hoff1 : SameOff k.mem m1 KHEAP_START KHEAP_DATA := by
    rw [hm1]
    exact sameOff_memset _ _ _ _
  have hzero : ∀ i < HEAP_INDEX_SIZE, load32 m1 (slot index1 i) = 0 := by
    intro i hi
    rw [hm1, hindex1]
    simp only [HEAP_INDEX_SIZE] at hi
    exact load32_memset_zero (by simp only [slot]; omega)
      (by simp only [slot, HEAP_INDEX_SIZE]; omega)
  obtain ⟨m2, hm2⟩ : ∃ m, m = writeHeader m1 KHEAP_DATA 1 0x80000 := ⟨_, rfl⟩
  have hoff2 : SameOff m1 m2 KHEAP_DATA (KHEAP_DATA + 12) := by
    rw [hm2]
    exact sameOff_writeHeader _ _ _ _
  have hentries2 : entries m2 index1 = [] := by
    rw [hindex1]
    rfl
  obtain ⟨m3, hinsert, hentries3, hoff3, hclean3⟩ := insertOrderedArray_index (m := m2) KHEAP_DATA
    (by rw [hindex1]) hentries2 (by decide)
    (by rw [hindex1]; decide) (by rw [hindex1]; decide)
  have harray1 : index1.array = KHEAP_START ∧ index1.maxSize = HEAP_INDEX_SIZE := by
    rw [hindex1]
    exact ⟨rfl, rfl⟩
  rw [harray1.1, harray1.2] at hoff3
  have hheap3 : SameOn m2 m3 KHEAP_DATA (KHEAP_DATA + freshHole.size) := hoff3.sameOn (by decide)
  have hwithSize : index1.withSize ([] : List ℕ).length.succ = (freshHeap supervisor readonly).index := by
    rw [hindex1]
    rfl
  have hcreate : createKernelHeap fuel supervisor readonly k =
      .ok (({ k with placementAddress := add32 k.placementAddress sizeofHeap }.withMem m3).withHeap
        (freshHeap supervisor readonly)) := by
    have hdata : add32 KHEAP_START (4*HEAP_INDEX_SIZE) = KHEAP_DATA := rfl
    have haligned : ¬ (KHEAP_DATA &&& 0x00000FFF ≠ 0) := by decide
    have hlength : sub32 (KHEAP_START + KHEAP_INITIAL_SIZE) KHEAP_DATA = 0x80000 := rfl
    have hstart : decide (KHEAP_START % PAGE_SIZE = 0) = true := rfl
    have hend : decide ((KHEAP_START + KHEAP_INITIAL_SIZE) % PAGE_SIZE = 0) = true := rfl
    simp only [createKernelHeap, createHeap, hkmalloc, ok_bind, hstart, hend, assert, if_true, hplace,
      hdata, if_neg haligned, hlength, setIsHole_setMagic, ← hm2, hinsert]
    rw [hindex1]
    rfl
  have hinsert1 : insertEntry (headerTLessThan m2) KHEAP_DATA [] = [KHEAP_DATA] := rfl
  refine ⟨m3, hcreate, ?_, ?_, ?_, ?_⟩
  · refine (hoff1.mono le_rfl (by decide)).trans ((hoff2.mono (by decide) le_rfl).trans
      (hoff3.mono le_rfl (by decide)))
  · have htile2 : TileAt m2 KHEAP_DATA freshHole := by
      rw [hm2]
      refine ⟨hMagic_writeHeader _ _ _ _, ?_, hSize_writeHeader _ _ _ (by decide), by decide, ?_, ?_⟩
      · exact hIsHole_writeHeader _ _ _ (by decide)
      · intro htagged
        cases htagged
      · intro hlive
        cases hlive
    exact htile2.congr hheap3 le_rfl le_rfl
  · rw [← hwithSize, ← hinsert1, ← hentries3]
  · have hslots2 : CleanSlots m2 index1 := by
      intro i hi
      rw [harray1.2] at hi
      rw [hoff2.load32_eq (Or.inl (by rw [hindex1]; simp only [slot, KHEAP_START, KHEAP_DATA, HEAP_INDEX_SIZE] at *; omega)),
        hzero i hi]
      decide
    have hslots3 := hclean3 (by decide) hslots2
    rw [hindex1] at hslots3
    exact hslots3

theorem createKernelHeap_spec (hk : k.kheap = none)
    (hrun : createKernelHeap fuel supervisor readonly k = .ok k') :
    ∃ m', k' = ({ k with placementAddress := add32 k.placementAddress sizeofHeap }.withMem m').withHeap
        (freshHeap supervisor readonly) ∧
      SameOff k.mem m' KHEAP_START (KHEAP_DATA + 12) ∧ TileAt m' KHEAP_DATA freshHole ∧
      entries m' (freshHeap supervisor readonly).index = [KHEAP_DATA] ∧
      CleanSlots m' (freshHeap supervisor readonly).index := by
  obtain ⟨m', hcreate, hspec⟩ := createKernelHeap_returns fuel supervisor readonly hk
  rw [hcreate] at hrun
  cases hrun
  exact ⟨m', rfl, hspec⟩

/-- The fresh heap is in order. -/
theorem heapState_fresh (hk : k.kheap = none) (hpaged : Paged k KHEAP_START KHEAP_MAX)
    (hrun : createKernelHeap fuel supervisor readonly k = .ok k') :
    HeapState k' (freshHeap supervisor readonly) [freshHole] [KHEAP_DATA] := by
  obtain ⟨m', rfl, hoff, htile, hentries, hclean⟩ := createKernelHeap_spec hk hrun
  have hpaged' := hpaged.store (hoff.mono le_rfl (by decide : KHEAP_DATA + 12 ≤ KHEAP_MAX))
  have hrep : Represents m' (freshHeap supervisor readonly) KHEAP_MAX [freshHole] [KHEAP_DATA] := by
    refine ⟨⟨htile, ?_⟩, hentries, List.Perm.refl _, rfl, ?_, Or.inl ?_, ?_, by decide, ?_, ?_⟩
    all_goals
      simp only [freshHeap, freshHole, Tiles]
      decide
  refine ⟨rfl, hrep, ?_, ?_, ⟨?_, ?_, hclean⟩, ?_, ?_, ?_, ?_, ?_, ?_⟩
  case refine_1 =>
    exact ⟨hpaged'.frameCount, hpaged'.null, hpaged'.bitmap, hpaged'.directory,
      hpaged'.bitmapDirectory, hpaged'.tables⟩
  all_goals
    simp only [freshHeap]
    decide

end PandaOS

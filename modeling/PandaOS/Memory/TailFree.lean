import PandaOS.Memory.LayoutMemory

/-! What is left of the index when a freed block ends the heap. `contract` goes no lower than the
minimal length, and above it keeps whatever length it is asked for, so the merged hole stays inside
the heap only if it begins below the minimum with room for a header and a footer. -/
namespace PandaOS
open ByteMemory Word32 Tiling
set_option autoImplicit false
set_option maxHeartbeats 250000

/-- A heap in order in which every footer is truthful; below the first block there is nothing that
`free` could take for one. -/
structure WellFormed (k : Kernel) (heap : Heap) (ts : List Tile) (l : List ℕ) : Prop
    extends HeapState k heap ts l where
  tagged : ∀ t ∈ ts, t.tagged = true
  first : ¬ LeftMerges k.mem heap.startAddress

/-- Every entry is a hole inside the heap, none occurs twice, and the hole at `a` ends the heap
unless all of it was cut off, when its entry is gone. -/
structure TailInside (k : Kernel) (heap : Heap) (a : ℕ) : Prop where
  kheap : k.kheap = some heap
  inside : ∀ b ∈ entries k.mem heap.index, ∃ n, TileAt k.mem b ⟨n, true, false⟩ ∧
    heap.startAddress ≤ b ∧ b + n ≤ heap.endAddress
  trailing : (a ∈ entries k.mem heap.index ∧ a + hSize k.mem a = heap.endAddress) ∨
    (heap.endAddress ≤ a ∧ a ∉ entries k.mem heap.index)
  nodup : (entries k.mem heap.index).Nodup

variable {k k' k2 : Kernel} {heap heap' : Heap} {pre post left right ts : List Tile} {t u : Tile}
  {l l' : List ℕ} {a b c hi : ℕ} {m : Mem}

theorem TileAt.forget (h : TileAt m a t) (hole : t.hole = true) : TileAt m a ⟨t.size, true, false⟩ := by
  refine ⟨h.magic, ?_, h.size, h.big, ?_, ?_⟩
  · rw [h.isHole, hole]
  · exact nofun
  · exact nofun

theorem WellFormed.left_hole (h : WellFormed k heap (pre ++ t :: post) l)
    (hb : b = heap.startAddress + total Tile.size pre) (htest : LeftMerges k.mem b) :
    fHeader k.mem (b - 8) ∈ entries k.mem heap.index ∧
      fHeader k.mem (b - 8) + hSize k.mem (fHeader k.mem (b - 8)) = b := by
  rw [h.represents.index]
  exact left_named h.represents (fun u hu => h.tagged u (List.mem_append_left _ hu)) (fun _ => h.first) hb htest

/-- A heap whose last tile is the hole at `a`. -/
theorem tailInside_of_last (hk : k.kheap = some heap) (h : Represents k.mem heap hi (pre ++ [t]) l)
    (hole : t.hole = true) (ha : a = heap.startAddress + total Tile.size pre) : TailInside k heap a := by
  have hend := h.end_eq
  refine ⟨hk, ?_, Or.inl ⟨?_, ?_⟩, ?_⟩
  · intro x hx
    rw [h.index] at hx
    obtain ⟨v, hat, hv⟩ := mem_starts.mp (h.perm.mem_iff.mp hx)
    have hbounds := hat.bounds
    exact ⟨v.size, (h.tiles.at hat).forget hv, hbounds.1, by omega⟩
  · rw [h.index, ha]
    exact h.perm.mem_iff.mpr (mem_starts.mpr ⟨t, at_middle Tile.size heap.startAddress pre t [], hole⟩)
  · rw [ha, (tiles_middle.mp h.tiles).2.1.size]
    simp only [total_append, total_cons, total_nil] at hend
    omega
  · rw [h.index]
    exact h.nodup

/-! ## Above the minimum -/

/-- The hole begins above the minimum, or too little below it: the heap is cut to where the hole
begins or to the minimum, and the index stays as it is. -/
theorem freeTail_high (heap : Heap) (lo hi : ℕ) (hk : k.kheap = some heap) (hpaged : Paged k lo hi)
    (htile : TileAt k.mem a t) (hend : a + t.size = heap.endAddress)
    (hstart : heap.startAddress ≤ a) (hhigh : HEAP_MIN_SIZE < a - heap.startAddress + 20)
    (hmin : heap.startAddress + HEAP_MIN_SIZE ≤ heap.endAddress)
    (hl : entries k.mem heap.index = l) (hc : c ∉ l) (hcap : heap.index.size ≤ heap.index.maxSize)
    (hindex : lo ≤ heap.index.array ∧ heap.index.array + 4*heap.index.maxSize ≤ heap.startAddress)
    (htop : heap.endAddress ≤ hi) (hbound : hi < 4294967296) :
    ∃ k', freeTail a c k = .ok k' ∧
      k'.kheap = some (heap.withEnd (heap.startAddress + contractedSize (a - heap.startAddress))) ∧
      entries k'.mem heap.index = l := by
  have hbig := htile.big
  have hlength : sub32 heap.endAddress heap.startAddress = heap.endAddress - heap.startAddress :=
    sub32_of_le (by omega) (by omega)
  obtain ⟨o, ho⟩ : ∃ o, o = a - heap.startAddress := ⟨_, rfl⟩
  have hoffset : sub32 a heap.startAddress = o := by
    rw [ho]
    exact sub32_of_le hstart (by omega)
  obtain ⟨k1, hcontract, htouch⟩ := contract_spec o hk hpaged (by rw [hlength]; omega)
  have hwindow := htouch.window
  have hsize1 : hSize k1.mem a = t.size := (htile.congr hwindow (by omega) (by omega)).size
  have hentries1 : entries k1.mem heap.index = l := by
    rw [← hl]
    exact entries_congr (hwindow.mono hindex.1 (by omega))
  rw [← ho] at hhigh ⊢
  simp only [HEAP_MIN_SIZE] at hhigh hmin
  by_cases hself : contractedSize o = o
  · -- the hole is cut off whole, and the search for the entry behind the block finds nothing
    have hadd : add32 heap.startAddress o = a := by
      rw [add32_of_lt (by omega)]
      omega
    rw [hself, hadd] at hcontract
    have hrest : sub32 t.size (sub32 (heap.endAddress - heap.startAddress) o) = 0 := by
      rw [sub32_of_le (by omega : o ≤ heap.endAddress - heap.startAddress) (by omega)]
      have : heap.endAddress - heap.startAddress - o = t.size := by omega
      rw [this]
      exact sub32_self (by omega)
    have hscan : entryScan c heap.index k1.mem heap.index.size 0 = l.idxOf c :=
      entryScan_all c hentries1
    have hnot : ¬ l.idxOf c < heap.index.size := by
      have hlen : heap.index.size = l.length := by rw [← hl, entries_length]
      rw [hlen, List.idxOf_lt_length_iff]
      exact hc
    refine ⟨k1.withHeap (heap.withEnd a), ?_, ?_, hentries1⟩
    · simp only [freeTail, heapOf_eq hk, ok_bind, hoffset, hcontract, Kernel.withHeap_mem, hsize1,
        hlength, hrest, lt_irrefl, if_false, gt_iff_lt,
        heapOf_eq (Kernel.withHeap_kheap k1 (heap.withEnd a)), Heap.withEnd_index, hscan, if_neg hnot]
      rfl
    · have : heap.startAddress + o = a := by omega
      rw [hself, this]
      rfl
  · -- the subtraction wraps, or leaves less than a header and a footer
    have hcut : contractedSize o = 0x70000 := (contractedSize_cases o).resolve_right hself
    have hne : o ≠ 0x70000 := by
      intro heq
      rw [heq] at hself
      exact hself (by decide)
    rw [hcut] at hcontract
    obtain ⟨n, hn⟩ : ∃ n, n = sub32 t.size (sub32 (heap.endAddress - heap.startAddress) 0x70000) := ⟨_, rfl⟩
    have hn32 : n < 4294967296 := by
      rw [hn]
      exact sub32_lt _ _
    have hsum : 0 < n ∧ (a + n = heap.startAddress + 0x70000 ∨
        a + n = heap.startAddress + 0x70000 + 4294967296) := by
      rw [sub32_of_le (by omega : 0x70000 ≤ heap.endAddress - heap.startAddress) (by omega)] at hn
      by_cases hle : heap.endAddress - heap.startAddress - 0x70000 ≤ t.size
      · rw [sub32_of_le hle (by omega)] at hn
        omega
      · rw [sub32_of_lt (by omega) (by omega)] at hn
        omega
    have hadd : add32 a n = heap.startAddress + 0x70000 := by
      unfold add32
      omega
    have hfooter : sub32 (add32 a n) sizeofFooter = heap.startAddress + 0x70000 - 8 := by
      rw [hadd]
      exact sub32_of_le (by simp only [sizeofFooter]; omega) (by omega)
    obtain ⟨m2, hm2⟩ : ∃ m, m = writeFooter (setSize k1.mem a n) (heap.startAddress + 0x70000 - 8) a :=
      ⟨_, rfl⟩
    have hoff : SameOff k1.mem m2 heap.startAddress (heap.startAddress + 0x70000 + a + 12) := by
      rw [hm2]
      exact ((sameOff_setSize _ _ _).mono (by omega) (by omega)).trans
        ((sameOff_writeFooter _ _ _).mono (by omega) (by omega))
    refine ⟨(k1.withHeap (heap.withEnd (add32 heap.startAddress 0x70000))).withMem m2, ?_, ?_, ?_⟩
    · have hset : hSize (setSize k1.mem a n) a = n := hSize_setSize hn32
      simp only [freeTail, heapOf_eq hk, ok_bind, hoffset, hcontract, Kernel.withHeap_mem, hsize1,
        hlength, ← hn, if_pos hsum.1, hset, hfooter, ← hm2]
      rfl
    · have : add32 heap.startAddress 0x70000 = heap.startAddress + 0x70000 := add32_of_lt (by omega)
      rw [hcut, this]
      rfl
    · rw [← hentries1]
      exact entries_congr (hoff.sameOn (Or.inl (by omega)))

theorem mem_withoutRight {x : ℕ} (right : List Tile) (hx : x ∈ l) (hne : x ≠ c) : x ∈ withoutRight c right l := by
  unfold withoutRight
  split
  · exact hx
  · exact (List.mem_erase_of_ne hne).mpr hx

/-- The tile behind the freed block has no entry once it is merged, and the end never had one. -/
theorem not_mem_withoutRight (h : Represents m heap hi ts l) (hright : RightCase m c l right)
    (hlast : c + total Tile.size right = heap.endAddress) : c ∉ withoutRight c right l := by
  cases hright with
  | none _ =>
    intro hmem
    have hbounds := h.entry_bounds (hmem : c ∈ l)
    rw [total_nil] at hlast
    omega
  | merge _ _ _ => exact h.nodup.not_mem_erase

/-- The end of `free`: the merged hole has an entry, old or new. -/
theorem finish_entry (hk : k2.kheap = some heap) (hless : heap.index.lessThan = some headerTLessThan)
    (hsize : heap.index.size + 1 < 4294967296) (ha : a < 4294967296)
    (hmem : left ≠ [] → a ∈ entries k2.mem heap.index) :
    ∃ k' heap', (if left.isEmpty then do
        let heap ← heapOf k2
        let (index, m) ← insertOrderedArray a heap.index k2.mem
        return (k2.withMem m).withHeap { heap with index := index }
      else return k2) = .ok k' ∧ k'.kheap = some heap' ∧ heap'.endAddress = heap.endAddress ∧
      a ∈ entries k'.mem heap'.index := by
  cases left with
  | nil =>
    obtain ⟨m', hinsert, _, hentries⟩ := insertOrderedArray_spec (m := k2.mem) hless ha hsize
    rw [List.isEmpty_nil, if_pos rfl, heapOf_eq hk, ok_bind, hinsert]
    refine ⟨_, _, rfl, rfl, rfl, ?_⟩
    have hperm := insertEntry_perm (headerTLessThan k2.mem) a (entries k2.mem heap.index)
    simp only [Kernel.withHeap_mem, Kernel.withMem_mem, hentries]
    exact hperm.mem_iff.mpr (List.mem_cons_self ..)
  | cons u left =>
    rw [List.isEmpty_cons, if_neg (by decide)]
    exact ⟨k2, heap, rfl, hk, rfl, hmem (by simp)⟩

/-- Then `free` returns, and the merged hole is in the index though it is not inside the heap. -/
theorem free_high (h : HeapState k heap (pre ++ (left ++ t :: right)) l) (hlive : t.hole = false)
    (ha : a = heap.startAddress + total Tile.size pre) (hc : c = b + t.size)
    (hleft : LeftCase k.mem a b left) (hright : RightCase k.mem c l right)
    (hhigh : HEAP_MIN_SIZE < a - heap.startAddress + 20) :
    ∃ k' heap', free (b + 12) k = .ok k' ∧ k'.kheap = some heap' ∧
      heap'.endAddress = heap.startAddress + contractedSize (a - heap.startAddress) ∧
      heap'.endAddress < a + 20 ∧ a ∈ entries k'.mem heap'.index := by
  have hrep := h.represents
  have hrep' : Represents k.mem heap heap.maxAddress (pre ++ (left ++ t :: right) ++ []) l := by
    simpa using hrep
  obtain ⟨m1, hfree, htile, hentries, htouch, _⟩ := free_merge h.kheap hrep' hlive ha hc hleft hright
  have hend := hrep.end_eq
  have hab := hleft.total_eq
  simp only [total_append, total_cons] at hend
  have hbelow := h.below
  have htop := hrep.top
  have hbound := hrep.bound
  have hibound := hrep.indexBound
  have hcap := hrep.capacity
  have hcount := hrep.size_eq
  have hbig : 20 ≤ total Tile.size left + t.size + total Tile.size right := htile.big
  have hlast : c + total Tile.size right = heap.endAddress := by omega
  obtain ⟨n1, hn1⟩ : ∃ n, n = (withoutRight c right l).length := ⟨_, rfl⟩
  have hle := (withoutRight_sublist c right l).length_le
  rw [← hn1] at hfree hentries hle
  obtain ⟨k1, hk1⟩ : ∃ k1, k1 = (k.withMem m1).withHeap (heap.withCount n1) := ⟨_, rfl⟩
  have hmem1 : k1.mem = m1 := by rw [hk1]; rfl
  have hpaged1 : Paged k1 heap.index.array heap.maxAddress := by
    have hframe : Frame k k1 heap.index heap.index.array heap.maxAddress a heap.endAddress := by
      rw [hk1]
      exact Frame.of_touch _ h.paged (htouch.mono le_rfl (by omega)) _ ⟨le_rfl, by omega⟩ (by omega) htop
    exact hframe.paged h.paged
  have hout : c ∉ withoutRight c right l := not_mem_withoutRight hrep hright hlast
  obtain ⟨k2, htail, hkheap2, hentries2⟩ := freeTail_high (c := c) (l := withoutRight c right l)
    (heap.withCount n1) heap.index.array heap.maxAddress (by rw [hk1]; rfl) hpaged1
    (by rw [hmem1]; exact htile) (by simp only [Heap.withCount_endAddress]; omega)
    (by simp only [Heap.withCount_startAddress]; omega) hhigh h.minimum
    (by rw [hmem1]; exact hentries) hout
    (by simp only [Heap.withCount_size, Heap.withCount_maxSize]; omega) ⟨le_rfl, hbelow⟩ htop hbound
  obtain ⟨n, hn⟩ : ∃ n, n = contractedSize (a - heap.startAddress) := ⟨_, rfl⟩
  have hcut : n = HEAP_MIN_SIZE ∨ n = a - heap.startAddress := by
    rw [hn]
    exact contractedSize_cases _
  simp only [Heap.withCount_startAddress, ← hn] at hkheap2
  have hsize2 : ((heap.withCount n1).withEnd (heap.startAddress + n)).index.size + 1 < 4294967296 := by
    simp only [Heap.withEnd_index, Heap.withCount_size]
    omega
  have hmem2 : left ≠ [] → a ∈ entries k2.mem ((heap.withCount n1).withEnd (heap.startAddress + n)).index := by
    intro hne
    rw [Heap.withEnd_index, hentries2]
    have hmem : a ∈ l := by
      cases hleft with
      | none _ _ => exact absurd rfl hne
      | @merge u _ hole _ _ _ =>
        refine hrep.perm.mem_iff.mpr (mem_starts.mpr ⟨u, ?_, hole⟩)
        rw [ha]
        exact at_middle Tile.size heap.startAddress pre u (t :: right)
    have hpos := tiles_pos hrep.tiles t (by simp)
    exact mem_withoutRight right hmem (by omega)
  obtain ⟨k', heap', hfinish, hkheap', hends, hmem'⟩ :=
    finish_entry hkheap2 hrep.lessThan hsize2 (by omega : a < 4294967296) hmem2
  rw [Heap.withEnd_endAddress] at hends
  refine ⟨k', heap', ?_, hkheap', ?_, ?_, hmem'⟩
  · rw [hfree, freeFinish, if_pos hlast, ← hk1, htail, ok_bind]
    exact hfinish
  · rw [hends, hn]
  · omega

theorem not_tailInside {heap2 : Heap} (hk : k'.kheap = some heap') (hends : heap'.endAddress < a + 20)
    (hmem : a ∈ entries k'.mem heap'.index) : ¬ TailInside k' heap2 a := by
  intro hinside
  obtain rfl : heap' = heap2 := Option.some.inj (hk.symm.trans hinside.kheap)
  obtain ⟨s, hhole, _, htop⟩ := hinside.inside a hmem
  have hbig : 20 ≤ s := hhole.big
  omega

/-- When the merged hole ends the heap, the index stays inside the heap exactly if that hole begins
below the minimum with room for a header and a footer. -/
theorem free_tail_iff (h : WellFormed k heap (pre ++ t :: post) l) (hlive : t.hole = false)
    (hb : b = heap.startAddress + total Tile.size pre) (hlast : mergedEnd k.mem b = heap.endAddress)
    (hrun : free (b + sizeofHeader) k = .ok k') :
    (∃ heap', TailInside k' heap' (mergedStart k.mem b)) ↔
      mergedStart k.mem b + (sizeofHeader + sizeofFooter) ≤ heap.startAddress + HEAP_MIN_SIZE := by
  obtain ⟨pre', left, right, post', rfl, rfl, _, _, hleft, hright, hstart, hend⟩ :=
    free_neighbours h.toHeapState hlive hb (h.left_hole hb) hrun
  have hrep := h.represents
  have htotal := hrep.end_eq
  have hab := hleft.total_eq
  rw [hend] at hlast
  simp only [total_append, total_cons] at htotal
  have hpost : post' = [] := by
    cases post' with
    | nil => rfl
    | cons v post' =>
      have hv := tiles_pos hrep.tiles v (by simp)
      simp only [total_cons] at htotal
      omega
  subst hpost
  have hstate : HeapState k heap (pre' ++ (left ++ t :: right)) l := by simpa using h.toHeapState
  have hsizes : sizeofHeader + sizeofFooter = 20 := rfl
  rw [hstart, hsizes]
  constructor
  · rintro ⟨heap', hinside⟩
    by_contra hhigh
    obtain ⟨k1, heap1, hfree, hkheap, -, hends, hmem⟩ := free_high hstate hlive rfl rfl hleft hright (by omega)
    obtain rfl : k1 = k' := Except.ok.inj (hfree.symm.trans hrun)
    exact not_tailInside hkheap hends hmem hinside
  · intro hlow
    have hroom := h.clean.room
    have hcount := hrep.size_eq
    have hle := (withoutRight_sublist (b + t.size) right l).length_le
    obtain ⟨k1, hfree, hkheap, hrep1, _, _⟩ := free_tail_spec h.kheap hstate.represents hlive rfl rfl
      hleft hright (by omega) h.minimum h.paged ⟨le_rfl, h.below⟩ (fun _ => by omega)
    obtain rfl : k1 = k' := Except.ok.inj (hfree.symm.trans hrun)
    exact ⟨_, tailInside_of_last hkheap hrep1 rfl rfl⟩

/-! ## The last block of a heap -/

/-- An index that ends where the data begins cannot be taken for a footer. -/
theorem HeapState.below_start (h : HeapState k heap ts l)
    (hindex : heap.index.array + 4*heap.index.maxSize = heap.startAddress) :
    fMagic k.mem (heap.startAddress - 8) ≠ HEAP_MAGIC := by
  have htwo := h.two
  have hslot : slot heap.index (heap.index.maxSize - 2) = heap.startAddress - 8 := by
    unfold slot
    omega
  have hclean := h.clean.slots (heap.index.maxSize - 2) (by omega)
  rwa [hslot] at hclean

theorem HeapState.first (h : HeapState k heap ts l)
    (hindex : heap.index.array + 4*heap.index.maxSize = heap.startAddress) :
    ¬ LeftMerges k.mem heap.startAddress := fun htest => h.below_start hindex htest.1

theorem wellFormed_layout (htiles : ∀ t ∈ ts, 20 ≤ t.size ∧ t.tagged = true)
    (h : HeapState (layoutKernel ts l) (layoutHeap ts l.length) ts l) :
    WellFormed (layoutKernel ts l) (layoutHeap ts l.length) ts l := by
  refine ⟨h, fun t ht => (htiles t ht).2, h.first ?_⟩
  show KHEAP_START + 4*HEAP_INDEX_SIZE = KHEAP_DATA
  decide

/-- A heap whose only block is its first. -/
def onlyBlock : Kernel := layoutKernel [live 100, gap (0x80000 - 100)] [KHEAP_DATA + 100]

theorem free_tail_iff_only_block : ∃ k', free (KHEAP_DATA + sizeofHeader) onlyBlock = .ok k' ∧
    ((∃ heap', TailInside k' heap' (mergedStart onlyBlock.mem KHEAP_DATA)) ↔
      mergedStart onlyBlock.mem KHEAP_DATA + (sizeofHeader + sizeofFooter) ≤
        KHEAP_DATA + HEAP_MIN_SIZE) := by
  have h : HeapState onlyBlock _ ([] ++ ([] ++ live 100 :: [gap (0x80000 - 100)])) _ :=
    heapState_pair (by decide) (by decide)
  have hwell : WellFormed onlyBlock _ ([] ++ live 100 :: [gap (0x80000 - 100)]) _ :=
    wellFormed_layout (by simp) h
  have hblock : TileAt onlyBlock.mem KHEAP_DATA (live 100) := h.represents.tiles.1
  have hright : TileAt onlyBlock.mem (KHEAP_DATA + 100) (gap (0x80000 - 100)) :=
    h.represents.tiles.2.1
  obtain ⟨k', hfree, _⟩ := free_tail_spec h.kheap h.represents rfl rfl rfl (.none rfl hwell.first)
    (.merge hright rfl (List.mem_singleton_self _)) (by decide) h.minimum h.paged ⟨le_rfl, h.below⟩
    (fun _ => by decide)
  refine ⟨k', hfree, free_tail_iff hwell rfl rfl ?_ hfree⟩
  have hmerges : RightMerges onlyBlock.mem (KHEAP_DATA + 100) := (rightMerges_iff hright).mpr rfl
  rw [mergedEnd, hblock.size, live_size, if_pos hmerges, hright.size]
  decide

/-- A block above the minimum, with a hole behind it that ends the heap. -/
def highBlock : Kernel := layoutKernel [live 0x71000, live 0x1000, gap 0xE000] [KHEAP_DATA + 0x72000]

/-- Freeing it cuts the heap to its minimal length, inside the first block, and leaves the entry of
the merged hole behind the new end. -/
theorem free_leaves_entry :
    WellFormed highBlock (layoutHeap [live 0x71000, live 0x1000, gap 0xE000] 1)
      [live 0x71000, live 0x1000, gap 0xE000] [KHEAP_DATA + 0x72000] ∧
    mergedEnd highBlock.mem (KHEAP_DATA + 0x71000) = KHEAP_DATA + 0x80000 ∧
    ∃ k', free (KHEAP_DATA + 0x71000 + sizeofHeader) highBlock = .ok k' ∧
      ¬ ∃ heap', TailInside k' heap' (mergedStart highBlock.mem (KHEAP_DATA + 0x71000)) := by
  have htiles : ∀ t ∈ [live 0x71000, live 0x1000, gap 0xE000], 20 ≤ t.size ∧ t.tagged = true := by simp
  have h : HeapState highBlock _ ([live 0x71000] ++ ([] ++ live 0x1000 :: [gap 0xE000])) _ :=
    heapState_layout htiles (List.Perm.refl _) (by decide) (by decide) (by decide) (by decide)
  have hwell : WellFormed highBlock _ ([live 0x71000] ++ live 0x1000 :: [gap 0xE000]) _ :=
    wellFormed_layout htiles h
  have hblock : TileAt highBlock.mem (KHEAP_DATA + 0x71000) (live 0x1000) := h.represents.tiles.2.1
  have hright : TileAt highBlock.mem (KHEAP_DATA + 0x71000 + 0x1000) (gap 0xE000) :=
    h.represents.tiles.2.2.1
  have htest : ¬ LeftMerges highBlock.mem (KHEAP_DATA + 0x71000) := by
    intro htest
    have hleft := hwell.left_hole (rfl : KHEAP_DATA + 0x71000 = _) htest
    rw [h.represents.index, List.mem_singleton] at hleft
    omega
  obtain ⟨k', heap', hfree, hkheap, -, hends, hmem⟩ := free_high h rfl rfl rfl (.none rfl htest)
    (.merge hright rfl (List.mem_singleton_self _)) (by decide)
  have hmerges : RightMerges highBlock.mem (KHEAP_DATA + 0x71000 + 0x1000) := (rightMerges_iff hright).mpr rfl
  refine ⟨hwell, ?_, k', hfree, ?_⟩
  · rw [mergedEnd, hblock.size, live_size, if_pos hmerges, hright.size]
    rfl
  · rintro ⟨heap2, hinside⟩
    rw [mergedStart, if_neg htest] at hinside
    exact not_tailInside hkheap hends hmem hinside

end PandaOS

import PandaOS.Memory.FrameSearch
import PandaOS.Memory.IndexedHoles

/-! When the recursion of `alloc` ends. `expand` moves the end of the heap only after its loop, so a call of
`alloc` for a page table inside the loop sees the heap as it was and, without a hole for the table,
arrives at the same page again. -/
namespace PandaOS
open ByteMemory Word32 Tiling
set_option autoImplicit false
set_option maxHeartbeats 250000

/-- A block, or a stop at an ASSERT or a PANIC. -/
def Ended (result : Result (ℕ × Kernel)) : Prop :=
  (∃ p k', result = .ok (p, k')) ∨ (∃ desc, result = .error (.assertionFailed desc)) ∨
    ∃ message, result = .error (.panic message)

/-- With enough fuel the call ends. -/
def Ends (k : Kernel) (size pageAlign : ℕ) : Prop := ∃ fuel, Ended (alloc fuel size pageAlign k)

/-- A hole is found, or the length that `alloc` asks for wraps and is refused, or the end does not wrap and
every page up to the last one mapped has its table and could get a frame. -/
def EndsInSteps (k : Kernel) (heap : Heap) (l : List ℕ) (n pageAlign : ℕ) : Prop :=
  (findSmallestHole n pageAlign heap k.mem).isSome ∨
  4294967296 ≤ heap.endAddress - heap.startAddress + n ∨
  heap.endAddress + n + 4096 < 4294967296 ∧
    TablesPresent k heap.endAddress (mappedEnd k.mem heap l n pageAlign) ∧
    (mappedEnd k.mem heap l n pageAlign - heap.endAddress) / 4096 ≤ (freeFrames k).card

variable {k k' k1 k2 : Kernel} {heap : Heap} {ts : List Tile} {l : List ℕ}
  {a e g i n r page size newSize pageAlign fuel lo hi : ℕ} {m : Mem} {ap : KmallocAp}

/-! ## Frames -/

theorem freeFrames_congr (hcount : k.frameCount ≤ 4096)
    (hsame : SameOn k.mem m k.frames (k.frames + 512)) : freeFrames (k.withMem m) = freeFrames k :=
  freeFrames_same rfl fun _ hf => frameUsed_congr hsame (by omega)

/-- Writes to the index and to the heap leave the bitmap alone. -/
theorem freeFrames_heap (hpaged : Paged k heap.index.array heap.maxAddress) (hbounds : HeapBounds heap)
    (hheap : HeapTouch heap.index k.mem m heap.startAddress heap.maxAddress) (heap' : Heap) :
    freeFrames ((k.withMem m).withHeap heap') = freeFrames k := by
  have hbelow := hbounds.below
  have hmin := hbounds.minimum
  have hinside := hbounds.inside
  have hbitmap := hpaged.bitmap
  unfold Outside at hbitmap
  have hsame : freeFrames ((k.withMem m).withHeap heap') = freeFrames (k.withMem m) := rfl
  rw [hsame]
  exact freeFrames_congr hpaged.frameCount fun x hl hh => hheap x (by omega) (by omega)

/-- While a frame is free `alloc_frame` returns, and it takes at most one. -/
theorem allocFrame_returns (isKernel isWriteable : ℕ) (hpaged : Paged k lo hi) (hp : IsPage k page)
    (hfree : 0 < (freeFrames k).card) : ∃ k', allocFrame page isKernel isWriteable k = .ok k' ∧
      (freeFrames k).card ≤ (freeFrames k').card + 1 := by
  have hcount := hpaged.frameCount
  obtain ⟨f, hfirst⟩ := firstFrame_of_free hfree
  obtain ⟨hlt, hunused, -⟩ := firstFrame_spec hfirst
  have hreturns : ∃ k', allocFrame page isKernel isWriteable k = .ok k' := by
    by_cases hframe : (loadPage k.mem page).frame = 0
    · exact ⟨_, allocFrame_some hframe hfirst (by omega) isKernel isWriteable⟩
    · exact ⟨k, if_pos hframe⟩
  obtain ⟨k', hrun⟩ := hreturns
  refine ⟨k', hrun, ?_⟩
  rcases allocFrame_cases hrun with ⟨-, rfl⟩ | ⟨-, f', hfirst', hk'⟩
  · exact Nat.le_succ _
  obtain rfl := Option.some.inj (hfirst.symm.trans hfirst')
  obtain ⟨-, -, -, hbits, -⟩ := allocated_spec hcount hfirst (hpaged.apart hp).2.2 hk'
  have hsame : k'.frameCount = k.frameCount := by
    rw [hk']
    rfl
  exact (card_freeFrames_taken hcount hsame hfirst hbits).ge

/-- The loop of `expand` maps `n` pages where their tables are there and `n` frames are free. -/
theorem expandLoop_returns (ap : KmallocAp) (newSize : ℕ) (hk : k.kheap = some heap) (hpaged : Paged k lo hi)
    (htables : TablesPresent k (heap.startAddress + i) (heap.startAddress + newSize))
    (hbound : heap.startAddress + newSize + 4096 < 4294967296) (hfree : n ≤ (freeFrames k).card) :
    ∃ k', expandLoop ap newSize n i k = .ok k' ∧ (freeFrames k).card ≤ (freeFrames k').card + n := by
  induction n generalizing i k with
  | zero => exact ⟨k, rfl, le_rfl⟩
  | succ n ih =>
    rw [expandLoop]
    split_ifs with hlt
    · have haddr : add32 heap.startAddress i = heap.startAddress + i := add32_of_lt (by omega)
      have hnext : add32 i PAGE_SIZE = i + 4096 := add32_of_lt (by simp only [PAGE_SIZE]; omega)
      have hpresent := htables _ le_rfl (by omega)
      have hpage : IsPage k (pagesSlot (load32 k.mem
          (tablesSlot k.kernelDirectory (tableIndex (heap.startAddress + i))))
          (pageIndex (heap.startAddress + i))) :=
        Or.inr ⟨_, tableIndex_lt (by omega), _, pageIndex_lt _, hpresent, rfl⟩
      obtain ⟨k1, halloc, hcard⟩ := allocFrame_returns (if heap.supervisor ≠ 0 then 1 else 0)
        (if heap.readonly ≠ 0 then 0 else 1) hpaged hpage (by omega)
      have htouch := allocFrame_touch hpaged hpage halloc
      have htables1 := htables.touch htouch (by omega)
      obtain ⟨k', hrest, hcard'⟩ := ih (i := i + 4096) (htouch.kheap.trans hk) (hpaged.touch htouch)
        (fun x hl hh => htables1 x (by omega) hh) (by omega)
      refine ⟨k', ?_, by omega⟩
      rw [heapOf_eq hk, ok_bind, haddr, getPage_of_table hpresent, ok_bind]
      dsimp only
      rw [halloc, ok_bind, hnext]
      exact hrest
    · exact ⟨k, rfl, by omega⟩

/-! ## Where the recursion stops -/

/-- An expansion whose pages have tables, and frames are left for them, returns. -/
theorem IndexedHoles.allocGrow_returns (ap : KmallocAp) (h : IndexedHoles k heap l) (hn : 20 ≤ n)
    (hmax : grownEnd heap n ≤ heap.maxAddress) (htables : TablesPresent k heap.endAddress (grownEnd heap n))
    (hfree : (grownEnd heap n - heap.endAddress) / 4096 ≤ (freeFrames k).card) :
    ∃ k1, allocGrow ap n k = .ok k1 ∧
      (freeFrames k).card ≤ (freeFrames k1).card + (grownEnd heap n - heap.endAddress) / 4096 := by
  have hbounds := h.bounds
  have hroom := hbounds.room
  have hbelow := hbounds.below
  have hmin := hbounds.minimum
  have htop := hbounds.top
  have hinside := hbounds.inside
  have hstart := hbounds.startAligned
  have haligned := hbounds.endAligned
  have hlow : heap.endAddress + n ≤ grownEnd heap n ∧ grownEnd heap n % 4096 = 0 := by
    simp only [HEAP_MIN_SIZE] at hmin
    unfold grownEnd
    omega
  have hpages : (grownEnd heap n - heap.endAddress + 0xFFF) / 0x1000 = (grownEnd heap n - heap.endAddress) / 4096 := by
    omega
  obtain ⟨k0, hloop, hcard⟩ := expandLoop_returns ap (grownEnd heap n - heap.startAddress)
    (i := heap.endAddress - heap.startAddress) h.kheap h.paged
    (fun x hl hh => htables x (by omega) (by omega)) (by omega) hfree
  have htouch := expandLoop_touch h.kheap h.paged
    (fun x hl hh => htables x (by omega) (by omega)) (by omega) (by simp only [PAGE_SIZE]; omega) hloop
  rw [← hpages] at hloop
  have hpos : ∀ b ∈ l, 0 < b := by
    intro b hb
    have := (h.holes b hb).1
    have := h.paged.null
    omega
  obtain ⟨g, hg⟩ : ∃ g, heap.endAddress + g = grownEnd heap n := ⟨grownEnd heap n - heap.endAddress, by omega⟩
  obtain ⟨k1, hgrow, hcases⟩ := PandaOS.allocGrow_returns h.kheap hmin htop hbounds.lessThan hn hmax hloop
    (htouch.kheap.trans h.kheap) (h.touch_entries htouch) hpos
  refine ⟨k1, hgrow, hcard.trans (Nat.add_le_add_right (le_of_eq ?_) _)⟩
  rw [← hg, Nat.add_sub_cancel_left] at hcases
  rcases hcases with ⟨rfl, hadd⟩ | ⟨r, hr, hrun⟩
  · obtain ⟨m', hadd', hheap, -, -⟩ := h.addLastHole_run htouch hg (by omega) hmax
    obtain rfl := Except.ok.inj (hadd'.symm.trans hadd)
    rw [freeFrames_heap (h.paged.touch htouch) hbounds hheap]
  · obtain ⟨m', hrun', hoff, -⟩ := h.growHole_run htouch hr hg hmax
    obtain rfl := Except.ok.inj (hrun'.symm.trans hrun)
    obtain ⟨hin, hbig, hfit⟩ := h.holes _ (List.getElem_mem hr)
    rw [freeFrames_heap (h.paged.touch htouch) hbounds (HeapTouch.of_sameOff (hoff.mono hin (by omega)))]

theorem IndexedHoles.found_ended (h : IndexedHoles k heap l) (hsize : size + 20 < 4294967296) (fuel : ℕ)
    (hfind : findSmallestHole (size + 20) pageAlign heap k.mem = some i) :
    Ended (alloc (fuel + 1) size pageAlign k) := by
  obtain ⟨hlt, -, -⟩ := findSmallestHole_some h.index hfind
  rw [alloc_succ h.kheap hsize, hfind]
  exact Or.inl (allocHole_returns pageAlign h.bounds.lessThan (by rw [h.size_eq]; exact hlt))

theorem IndexedHoles.grow_failed (h : IndexedHoles k heap l) (hsize : size + 20 < 4294967296) (fuel : ℕ)
    (hfind : findSmallestHole (size + 20) pageAlign heap k.mem = none)
    (hfail : ∀ ap, ∃ desc, allocGrow ap (size + 20) k = .error (.assertionFailed desc)) :
    Ended (alloc (fuel + 1) size pageAlign k) := by
  obtain ⟨desc, hgrow⟩ := hfail fun sz => kmallocInt (alloc fuel) sz 1 true
  rw [alloc_succ h.kheap hsize, hfind]
  dsimp only
  rw [hgrow]
  exact Or.inr (Or.inl ⟨desc, rfl⟩)

/-- A length that wraps is smaller than the heap's, and `expand` refuses it. -/
theorem IndexedHoles.grow_wraps (h : IndexedHoles k heap l) (hn : n < 4294967296)
    (hwrap : 4294967296 ≤ heap.endAddress - heap.startAddress + n) (ap : KmallocAp) :
    ∃ desc, allocGrow ap n k = .error (.assertionFailed desc) := by
  have hmin := h.bounds.minimum
  have htop := h.bounds.top
  have hinside := h.bounds.inside
  obtain ⟨o, ho⟩ : ∃ o, o = heap.endAddress - heap.startAddress := ⟨_, rfl⟩
  have hlength : sub32 heap.endAddress heap.startAddress = o := by
    rw [ho]
    exact sub32_of_le (by omega) (by omega)
  have hsmall : ¬ add32 o n > o := by
    unfold add32
    omega
  unfold allocGrow expand
  rw [heapOf_eq h.kheap, ok_bind, hlength]
  simp only [ok_bind, hlength, decide_eq_false hsmall, assert, Bool.false_eq_true, if_false, error_bind]
  exact ⟨_, rfl⟩

/-- The second ASSERT of `expand` refuses an end past the maximum. -/
theorem IndexedHoles.grow_past (h : IndexedHoles k heap l) (hn : 20 ≤ n)
    (hwrap : heap.endAddress + n + 4096 < 4294967296) (hmax : heap.maxAddress < grownEnd heap n) (ap : KmallocAp) :
    ∃ desc, allocGrow ap n k = .error (.assertionFailed desc) := by
  have hmin := h.bounds.minimum
  simp only [HEAP_MIN_SIZE] at hmin
  unfold grownEnd at hmax
  obtain ⟨o, ho⟩ : ∃ o, o = heap.endAddress - heap.startAddress := ⟨_, rfl⟩
  rw [← ho] at hmax
  have hlength : sub32 heap.endAddress heap.startAddress = o := by
    rw [ho]
    exact sub32_of_le (by omega) (by omega)
  have hsum : add32 o n = o + n := add32_of_lt (by omega)
  have hround := roundUp_eq (n := o + n) (by omega) (by omega)
  have hgrows : o + n > o := by omega
  have hnew : add32 heap.startAddress (roundUp (o + n)) = heap.startAddress + roundUp (o + n) :=
    add32_of_lt (by omega)
  have hpast : ¬ add32 heap.startAddress (roundUp (o + n)) ≤ heap.maxAddress := by omega
  unfold allocGrow expand
  rw [heapOf_eq h.kheap, ok_bind, hlength]
  simp only [ok_bind, hlength, hsum, decide_eq_true hgrows, decide_eq_false hpast, assert, if_true,
    Bool.false_eq_true, if_false, error_bind]
  exact ⟨_, rfl⟩

/-- The call ends in a block, or in an ASSERT, after at most two expansions. -/
theorem IndexedHoles.ends (h : IndexedHoles k heap l) (hsize : size + 20 < 4294967296)
    (hsteps : EndsInSteps k heap l (size + 20) pageAlign) : Ends k size pageAlign := by
  cases hfind : findSmallestHole (size + 20) pageAlign heap k.mem with
  | some i => exact ⟨1, h.found_ended hsize 0 hfind⟩
  | none =>
    rcases hsteps with hfound | hwrap | ⟨hwrap, htables, hfree⟩
    · rw [hfind] at hfound
      cases hfound
    · exact ⟨1, h.grow_failed hsize 0 hfind (h.grow_wraps hsize hwrap)⟩
    by_cases hpast : heap.maxAddress < grownEnd heap (size + 20)
    · exact ⟨1, h.grow_failed hsize 0 hfind (h.grow_past (by omega) hwrap hpast)⟩
    have hmax := Nat.le_of_not_lt hpast
    have hmapped := grownEnd_le_mappedEnd (l := l) hfind hmax
    obtain ⟨k1, hgrow, hfree1⟩ := h.allocGrow_returns (fun sz => kmallocInt (alloc 2) sz 1 true) (by omega) hmax
      (htables.mono le_rfl hmapped) (by omega)
    have hgrown := h.grow (by omega) hmax (htables.mono le_rfl hmapped) hgrow
    have hrun : alloc 3 size pageAlign k = alloc 2 size pageAlign k1 := by
      rw [alloc_succ h.kheap hsize, hfind]
      dsimp only
      rw [hgrow, ok_bind]
    refine ⟨3, ?_⟩
    rw [hrun]
    cases hagain : findSmallestHole (size + 20) pageAlign (heap.grown l (size + 20)) k1.mem with
    | some i => exact hgrown.state.found_ended hsize 1 hagain
    | none =>
      have hbounds1 := hgrown.state.bounds
      have htop := h.bounds.top
      have hspan := h.bounds.span
      have hmin := h.bounds.minimum
      have hinside := h.bounds.inside
      have hend1 : (heap.grown l (size + 20)).endAddress = grownEnd heap (size + 20) := rfl
      have hmax1 : (heap.grown l (size + 20)).maxAddress = heap.maxAddress := rfl
      have hfirst : heap.endAddress + (size + 20) ≤ grownEnd heap (size + 20) := by
        unfold grownEnd
        omega
      by_cases hpast2 : heap.maxAddress < grownEnd (heap.grown l (size + 20)) (size + 20)
      · exact hgrown.state.grow_failed hsize 1 hagain
          (hgrown.state.grow_past (by omega) (by omega) hpast2)
      have hmax2 := Nat.le_of_not_lt hpast2
      have hpage := grownEnd_grown heap l (size + 20)
      have haligned := h.bounds.endAligned
      have haligned1 := hbounds1.endAligned
      rw [hgrown.mappedEnd_eq hfind hmax hagain hmax2] at htables hfree
      obtain ⟨k2, hgrow2, -⟩ := hgrown.state.allocGrow_returns (fun sz => kmallocInt (alloc 1) sz 1 true) (by omega)
        hmax2 ((htables.frame hgrown.frame (by omega)).mono (by omega) le_rfl) (by omega)
      have hgrown2 := hgrown.state.grow (by omega) hmax2
        ((htables.frame hgrown.frame (by omega)).mono (by omega) le_rfl) hgrow2
      rw [alloc_succ hgrown.state.kheap hsize, hagain]
      dsimp only
      rw [hgrow2, ok_bind]
      cases hlast : findSmallestHole (size + 20) pageAlign
          ((heap.grown l (size + 20)).grown (grownEntries heap l) (size + 20)) k2.mem with
      | some i => exact hgrown2.state.found_ended hsize 0 hlast
      | none =>
        have hfit := hgrown.fits_second pageAlign h.bounds hgrown2 hmax2
        have hnot := findSmallestHole_none hgrown2.state.index hlast (grownHole heap l) (by
          rw [grownEntries_of_ne (heap.grown l (size + 20)) (grownEntries_ne heap l)]
          exact grownHole_mem heap l)
        rw [hfit] at hnot
        cases hnot

/-! ## The recursion without an end -/

end PandaOS

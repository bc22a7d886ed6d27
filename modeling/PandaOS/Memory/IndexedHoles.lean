import PandaOS.Memory.GrowingAlloc

/-! What a request goes by: the entries of the index and the headers they name. `IndexedHoles` says less
than `HeapState`, nothing of the blocks between the holes, and so it outlives an expansion that
gives the new memory to a hole in the middle of the heap. -/
namespace PandaOS
open ByteMemory Word32 Tiling
set_option autoImplicit false
set_option maxHeartbeats 250000

/-- What holds of the `heap_t` alone. -/
structure HeapBounds (heap : Heap) : Prop where
  lessThan : heap.index.lessThan = some headerTLessThan
  room : heap.index.size < heap.index.maxSize
  two : 1 < heap.index.maxSize
  below : heap.index.array + 4*heap.index.maxSize ≤ heap.startAddress
  startAligned : heap.startAddress % 4096 = 0
  endAligned : heap.endAddress % 4096 = 0
  minimum : heap.startAddress + HEAP_MIN_SIZE ≤ heap.endAddress
  inside : heap.endAddress ≤ heap.maxAddress
  span : heap.maxAddress ≤ heap.startAddress + 0x10000000
  top : heap.maxAddress ≤ 0xE0000000

/-- The entries `l` name headers in the heap, none over another, with sizes that end in the heap. -/
structure IndexedHoles (k : Kernel) (heap : Heap) (l : List ℕ) : Prop where
  kheap : k.kheap = some heap
  bounds : HeapBounds heap
  index : entries k.mem heap.index = l
  holes : ∀ b ∈ l, heap.startAddress ≤ b ∧ 20 ≤ hSize k.mem b ∧ b + hSize k.mem b ≤ heap.endAddress
  apart : ∀ b ∈ l, ∀ c ∈ l, b ≠ c → b + 20 ≤ c ∨ c + 20 ≤ b
  paged : Paged k heap.index.array heap.maxAddress

/-- The entries after one expansion. -/
def grownEntries (heap : Heap) (l : List ℕ) : List ℕ := if l = [] then [heap.endAddress] else l

/-- The heap after one expansion for `n` bytes. -/
def Heap.grown (heap : Heap) (l : List ℕ) (n : ℕ) : Heap :=
  (heap.withEnd (grownEnd heap n)).withCount (grownEntries heap l).length

/-- The size of the hole that gets the new memory, afterwards. -/
def grownSize (m : Mem) (heap : Heap) (l : List ℕ) (n : ℕ) : ℕ :=
  (if l = [] then 0 else hSize m (grownHole heap l)) + (grownEnd heap n - heap.endAddress)

/-- Where the end is when `alloc` stops expanding the heap for `n` bytes: it expands while no hole
fits, and not past the maximum. -/
def mappedEnd (m : Mem) (heap : Heap) (l : List ℕ) (n pageAlign : ℕ) : ℕ :=
  if (findSmallestHole n pageAlign heap m).isSome ∨ heap.maxAddress < grownEnd heap n then heap.endAddress
  else if fits (setSize m (grownHole heap l) (grownSize m heap l n)) n pageAlign (grownHole heap l) ∨
      heap.maxAddress < grownEnd (heap.grown l n) n then grownEnd heap n
  else grownEnd (heap.grown l n) n

/-- The heap has grown once. -/
structure GrownIndex (k k' : Kernel) (heap : Heap) (l : List ℕ) (n : ℕ) : Prop where
  state : IndexedHoles k' (heap.grown l n) (grownEntries heap l)
  size : hSize k'.mem (grownHole heap l) = grownSize k.mem heap l n
  rest : ∀ c ∈ l, c ≠ grownHole heap l → hSize k'.mem c = hSize k.mem c
  frame : Frame k k' heap.index heap.index.array heap.maxAddress heap.startAddress heap.maxAddress

variable {k k' k1 k2 : Kernel} {heap heap' : Heap} {ts : List Tile} {t u : Tile} {l : List ℕ}
  {b c s i r n g size pageAlign p fuel : ℕ} {m m' : Mem} {ap : KmallocAp}

/-! ## From the layout -/

theorem HeapState.bounds (h : HeapState k heap ts l) : HeapBounds heap :=
  ⟨h.represents.lessThan, h.clean.room, h.two, h.below, h.startAligned, h.endAligned, h.minimum,
    h.represents.top, h.span, h.top⟩

theorem grownHole_nil (heap : Heap) : grownHole heap [] = heap.endAddress := rfl

theorem grownEntries_of_ne (heap : Heap) (hne : l ≠ []) : grownEntries heap l = l := if_neg hne

theorem IndexedHoles.size_eq (h : IndexedHoles k heap l) : heap.index.size = l.length := by
  rw [← h.index, entries_length]

theorem HeapBounds.grown (h : HeapBounds heap) (hl : heap.index.size = l.length) (hmax : grownEnd heap n ≤ heap.maxAddress) :
    HeapBounds (heap.grown l n) := by
  have hroom := h.room
  have htwo := h.two
  have hstart := h.startAligned
  have hmin := h.minimum
  have hsize : (grownEntries heap l).length < heap.index.maxSize := by
    unfold grownEntries
    split_ifs
    · exact htwo
    · omega
  refine ⟨h.lessThan, hsize, htwo, h.below, hstart, ?_, ?_, hmax, h.span, h.top⟩
  · simp only [Heap.grown, Heap.withCount_endAddress, Heap.withEnd_endAddress, grownEnd]
    omega
  · simp only [Heap.grown, Heap.withCount_endAddress, Heap.withEnd_endAddress, Heap.withCount_startAddress,
      Heap.withEnd_startAddress, grownEnd]
    omega

/-- Pages are mapped and then the heap is written to. -/
theorem HeapBounds.frame (hbounds : HeapBounds heap) (hpaged : Paged k heap.index.array heap.maxAddress)
    (htouch : PageTouch k k1 heap.index.array heap.maxAddress)
    (hheap : HeapTouch heap.index k1.mem m heap.startAddress heap.maxAddress) (heap' : Heap) :
    Frame k ((k1.withMem m).withHeap heap') heap.index heap.index.array heap.maxAddress heap.startAddress
      heap.maxAddress := by
  have hbelow := hbounds.below
  have hmin := hbounds.minimum
  have hinside := hbounds.inside
  have hmapped := Frame.of_page heap.index htouch heap heap.startAddress heap.maxAddress
  exact hmapped.trans (Frame.of_touch heap.index (hmapped.paged hpaged) hheap heap' ⟨le_rfl, by omega⟩ (by omega)
    le_rfl)

theorem IndexedHoles.touch_entries (h : IndexedHoles k heap l)
    (htouch : PageTouch k k1 heap.index.array heap.maxAddress) : entries k1.mem heap.index = l := by
  have hroom := h.bounds.room
  have hbelow := h.bounds.below
  have hmin := h.bounds.minimum
  have hinside := h.bounds.inside
  rw [← h.index]
  exact entries_congr (htouch.window.mono le_rfl (by omega))

theorem IndexedHoles.touch_size (h : IndexedHoles k heap l)
    (htouch : PageTouch k k1 heap.index.array heap.maxAddress) (hc : c ∈ l) : hSize k1.mem c = hSize k.mem c := by
  have hbelow := h.bounds.below
  have hinside := h.bounds.inside
  obtain ⟨h1, h2, h3⟩ := h.holes c hc
  exact hSize_congr (htouch.window.mono (by omega) hinside) h1 (by omega)

/-- With an empty index the new memory is written as a hole and entered. -/
theorem IndexedHoles.addLastHole_run (h : IndexedHoles k heap [])
    (htouch : PageTouch k k1 heap.index.array heap.maxAddress) (hg : heap.endAddress + g = grownEnd heap n)
    (hbig : 20 ≤ g) (hmax : grownEnd heap n ≤ heap.maxAddress) :
    ∃ m', addLastHole heap.endAddress g (k1.withHeap (heap.withEnd (heap.endAddress + g))) =
        .ok ((k1.withMem m').withHeap (heap.grown [] n)) ∧
      HeapTouch heap.index k1.mem m' heap.startAddress heap.maxAddress ∧ hSize m' heap.endAddress = g ∧
      entries m' (heap.grown [] n).index = [heap.endAddress] := by
  have hbounds := h.bounds
  have hbelow := hbounds.below
  have hmin := hbounds.minimum
  have htop := hbounds.top
  have htwo := hbounds.two
  have hl := h.touch_entries htouch
  obtain ⟨m', hadd, htile, hheap, hentries, -⟩ := addLastHole_spec (e := heap.endAddress) (g := g)
    (k := k1.withHeap (heap.withEnd (heap.endAddress + g))) (heap.withEnd (heap.endAddress + g)) rfl
    hl hbounds.lessThan hbig (by omega) (by simp only [Heap.withEnd_index]; omega)
    (by simp only [Heap.withEnd_index]; omega) (by simp only [Heap.withEnd_index]; omega)
  have hgrown : (heap.withEnd (heap.endAddress + g)).withCount 1 = heap.grown [] n := by
    rw [hg]
    rfl
  rw [hgrown] at hadd hentries
  exact ⟨m', hadd, hheap.mono (by omega) (by omega), htile.size, hentries⟩

/-- Otherwise the highest hole is made larger. -/
theorem IndexedHoles.growHole_run (h : IndexedHoles k heap l)
    (htouch : PageTouch k k1 heap.index.array heap.maxAddress) (hr : r < l.length)
    (hg : heap.endAddress + g = grownEnd heap n) (hmax : grownEnd heap n ≤ heap.maxAddress) :
    ∃ m', growHole r g (k1.withHeap (heap.withEnd (heap.endAddress + g))) =
        .ok ((k1.withMem m').withHeap (heap.grown l n)) ∧
      SameOff k1.mem m' l[r] (l[r] + (hSize k.mem l[r] + g)) ∧ hSize m' l[r] = hSize k.mem l[r] + g := by
  have htop := h.bounds.top
  have hmem := List.getElem_mem hr
  obtain ⟨-, hbig, hfit⟩ := h.holes _ hmem
  have hsize := h.touch_size htouch hmem
  have hl := h.touch_entries htouch
  obtain ⟨b, hb⟩ : ∃ b, b = l[r] := ⟨_, rfl⟩
  obtain ⟨s, hs⟩ : ∃ s, s = hSize k.mem b := ⟨_, rfl⟩
  rw [← hb] at hbig hfit hsize ⊢
  rw [← hs] at hbig hfit hsize ⊢
  have hgrow := growHole_eq (k := k1.withHeap (heap.withEnd (heap.endAddress + g))) (g := g) rfl
    hl hr hb.symm hsize (by omega) (by omega)
  obtain ⟨m', hm'⟩ : ∃ m', m' = writeFooter (setSize k1.mem b (s + g)) (b + (s + g) - 8) b := ⟨_, rfl⟩
  have hgrown : heap.withEnd (heap.endAddress + g) = heap.grown l n := by
    have hcount : (heap.withEnd (grownEnd heap n)).withCount heap.index.size = heap.withEnd (grownEnd heap n) := rfl
    rw [Heap.grown, grownEntries_of_ne heap (List.ne_nil_of_length_pos (by omega)), ← h.size_eq, hcount, hg]
  rw [Kernel.withHeap_mem, ← hm', hgrown] at hgrow
  rw [hgrown]
  refine ⟨m', hgrow, ?_, ?_⟩
  · rw [hm']
    exact sameOff_resize (by omega)
  · have hfooter : SameOn (setSize k1.mem b (s + g)) m' b (b + 12) := by
      rw [hm']
      exact (sameOff_writeFooter _ _ b).sameOn (Or.inl (by omega))
    rw [hSize_congr hfooter le_rfl le_rfl, hSize_setSize (by omega)]

/-- The one entry of the index is the hole of the new memory. -/
theorem IndexedHoles.addLastHole (h : IndexedHoles k heap []) (htouch : PageTouch k k1 heap.index.array heap.maxAddress)
    (hg : heap.endAddress + g = grownEnd heap n) (hbig : 20 ≤ g) (hmax : grownEnd heap n ≤ heap.maxAddress)
    (hrun : addLastHole heap.endAddress g (k1.withHeap (heap.withEnd (heap.endAddress + g))) = .ok k') :
    GrownIndex k k' heap [] n := by
  have hbounds := h.bounds
  have hmin := hbounds.minimum
  obtain ⟨m', hadd, hheap, hsize, hentries⟩ := h.addLastHole_run htouch hg hbig hmax
  obtain rfl := Except.ok.inj (hadd.symm.trans hrun)
  have hframe := hbounds.frame h.paged htouch hheap (heap.grown [] n)
  have hentry : ∀ b ∈ grownEntries heap [], b = heap.endAddress := fun b hb => by simpa [grownEntries] using hb
  refine ⟨⟨rfl, hbounds.grown h.size_eq hmax, hentries, ?_, ?_, hframe.paged h.paged⟩, ?_, ?_, hframe⟩
  · intro b hb
    rw [hentry b hb]
    simp only [Kernel.withHeap_mem, Kernel.withMem_mem, hsize]
    simp only [Heap.grown, Heap.withCount_endAddress, Heap.withEnd_endAddress, Heap.withCount_startAddress,
      Heap.withEnd_startAddress]
    omega
  · intro b hb c hc hne
    exact absurd ((hentry b hb).trans (hentry c hc).symm) hne
  · rw [grownSize, if_pos rfl, grownHole_nil, ← hg, Nat.zero_add, Nat.add_sub_cancel_left]
    exact hsize
  · intro c hc
    cases hc

/-- The highest hole gets the new memory; the other headers lie below it. -/
theorem IndexedHoles.growHole (h : IndexedHoles k heap l) (htouch : PageTouch k k1 heap.index.array heap.maxAddress)
    (hr : r < l.length) (hhigh : ∀ b ∈ l, b ≤ l[r]) (hg : heap.endAddress + g = grownEnd heap n)
    (hmax : grownEnd heap n ≤ heap.maxAddress)
    (hrun : growHole r g (k1.withHeap (heap.withEnd (heap.endAddress + g))) = .ok k') :
    GrownIndex k k' heap l n := by
  have hbounds := h.bounds
  have hroom := hbounds.room
  have hbelow := hbounds.below
  have hinside := hbounds.inside
  have hne : l ≠ [] := List.ne_nil_of_length_pos (by omega)
  have hentry := grownEntries_of_ne heap hne
  obtain ⟨m', hgrow, hoff, hnew⟩ := h.growHole_run htouch hr hg hmax
  obtain rfl := Except.ok.inj (hgrow.symm.trans hrun)
  have hmem := List.getElem_mem hr
  have hhole : grownHole heap l = l[r] := grownHole_eq hr hhigh
  obtain ⟨b, hb⟩ : ∃ b, b = l[r] := ⟨_, rfl⟩
  obtain ⟨s, hs⟩ : ∃ s, s = hSize k.mem b := ⟨_, rfl⟩
  rw [← hb] at hhigh hhole hmem hoff hnew
  rw [← hs] at hoff hnew
  obtain ⟨hlow, hbig, hfit⟩ := h.holes b hmem
  have hrest : ∀ c ∈ l, c ≠ b → hSize m' c = hSize k.mem c := by
    intro c hc hcb
    have hle := hhigh c hc
    have hapart := h.apart c hc b hmem hcb
    rw [hSize_congr (hoff.sameOn (Or.inl le_rfl)) (Nat.zero_le c) (by omega), h.touch_size htouch hc]
  have hframe := hbounds.frame h.paged htouch (HeapTouch.of_sameOff (hoff.mono hlow (by omega))) (heap.grown l n)
  refine ⟨⟨rfl, hbounds.grown h.size_eq hmax, ?_, ?_, ?_, hframe.paged h.paged⟩, ?_, ?_, hframe⟩
  · have hindex : (heap.grown l n).index = heap.index := by
      rw [Heap.grown, hentry, ← h.size_eq]
      rfl
    rw [hentry, hindex, ← h.touch_entries htouch]
    exact entries_congr (hoff.sameOn (Or.inl (by omega)))
  · intro c hc
    rw [hentry] at hc
    obtain ⟨h1, h2, h3⟩ := h.holes c hc
    simp only [Kernel.withHeap_mem, Kernel.withMem_mem, Heap.grown, Heap.withCount_endAddress,
      Heap.withEnd_endAddress, Heap.withCount_startAddress, Heap.withEnd_startAddress]
    by_cases hcb : c = b
    · rw [hcb, hnew]
      omega
    · rw [hrest c hc hcb]
      omega
  · rw [hentry]
    exact h.apart
  · rw [grownSize, if_neg hne, hhole, ← hs, ← hg, Nat.add_sub_cancel_left]
    exact hnew
  · intro c hc hcb
    rw [hhole] at hcb
    exact hrest c hc hcb

theorem IndexedHoles.grow (h : IndexedHoles k heap l) (hn : 20 ≤ n) (hmax : grownEnd heap n ≤ heap.maxAddress)
    (htables : TablesPresent k heap.endAddress (grownEnd heap n)) (hrun : allocGrow ap n k = .ok k') :
    GrownIndex k k' heap l n := by
  have hbounds := h.bounds
  have hroom := hbounds.room
  have hbelow := hbounds.below
  have hmin := hbounds.minimum
  obtain ⟨hround, hwrap⟩ := grownEnd_eq hmin hbounds.top hmax
  simp only [HEAP_MIN_SIZE] at hmin
  have hpos : ∀ b ∈ l, 0 < b := by
    intro b hb
    have := (h.holes b hb).1
    omega
  rw [← hround] at htables
  obtain ⟨g, k1, hg, hng, -, -, htouch, hcases⟩ := allocGrow_expands h.kheap h.index hpos h.paged
    ⟨le_rfl, by have := hbounds.inside; omega⟩ (by omega) hwrap htables hrun
  rw [hround] at hg
  rcases hcases with ⟨rfl, hadd⟩ | ⟨r, hr, hhigh, hgrow⟩
  · exact h.addLastHole htouch hg (by omega) hmax hadd
  · exact h.growHole htouch hr hhigh hg hmax hgrow

/-! ## Two expansions -/

theorem TablesPresent.mono {a a' e e' : ℕ} (h : TablesPresent k a e) (ha : a ≤ a') (he : e' ≤ e) :
    TablesPresent k a' e' := fun x hl hh => h x (ha.trans hl) (hh.trans_le he)

/-- The second expansion is by at least a page. -/
theorem grownEnd_grown (heap : Heap) (l : List ℕ) (n : ℕ) :
    grownEnd heap n + 4096 ≤ grownEnd (heap.grown l n) n := by
  simp only [grownEnd, Heap.grown, Heap.withCount_endAddress, Heap.withEnd_endAddress, Heap.withCount_startAddress,
    Heap.withEnd_startAddress]
  omega

theorem grownHole_grown (heap : Heap) (l : List ℕ) (n : ℕ) :
    grownHole (heap.grown l n) (grownEntries heap l) = grownHole heap l := by
  unfold grownEntries
  split_ifs with hnil
  · rw [hnil]
    rfl
  · obtain ⟨b, hb⟩ := Option.isSome_iff_exists.mp (List.isSome_max?_of_ne_nil hnil)
    rw [grownHole, grownHole, hb]
    rfl

theorem grownHole_mem (heap : Heap) (l : List ℕ) : grownHole heap l ∈ grownEntries heap l := by
  unfold grownHole grownEntries
  split_ifs with hnil
  · rw [hnil]
    exact List.mem_singleton_self _
  · obtain ⟨b, hb⟩ := Option.isSome_iff_exists.mp (List.isSome_max?_of_ne_nil hnil)
    rw [hb]
    exact (List.max?_eq_some_iff.mp hb).1

theorem grownEntries_ne (heap : Heap) (l : List ℕ) : grownEntries heap l ≠ [] :=
  List.ne_nil_of_mem (grownHole_mem heap l)

/-- What the retry finds at the grown hole is a matter of the state before. -/
theorem GrownIndex.fits_iff (h : GrownIndex k k' heap l n) :
    fits k'.mem n pageAlign (grownHole heap l) =
      fits (setSize k.mem (grownHole heap l) (grownSize k.mem heap l n)) n pageAlign (grownHole heap l) := by
  apply fits_congr
  rw [hSize_setSize, h.size]
  rw [← h.size]
  exact load32_lt _ _

/-- A page more than the request is enough, wherever the hole starts. -/
theorem fits_of_large (hlt : hSize m b < 2147483648) (hn : n + 4096 ≤ hSize m b) : fits m n pageAlign b = true := by
  unfold fits
  have hmod : add32 b sizeofHeader % PAGE_SIZE < 4096 := Nat.mod_lt _ (by decide)
  simp only [PAGE_SIZE] at hmod ⊢
  split_ifs
  · rw [decide_eq_true_eq, toInt32_of_lt hlt, toInt32_of_lt (by omega)]
    omega
  · rw [decide_eq_true_eq, toInt32_of_lt hlt, toInt32_of_lt (by omega)]
    omega
  · rw [decide_eq_true_eq]
    omega

/-- After two expansions the grown hole fits. -/
theorem GrownIndex.fits_second (pageAlign : ℕ) (hbounds : HeapBounds heap) (h : GrownIndex k k1 heap l n)
    (h2 : GrownIndex k1 k2 (heap.grown l n) (grownEntries heap l) n)
    (hmax2 : grownEnd (heap.grown l n) n ≤ heap.maxAddress) : fits k2.mem n pageAlign (grownHole heap l) = true := by
  have hpage := grownEnd_grown heap l n
  have hspan := hbounds.span
  have hfirst : heap.endAddress + n ≤ grownEnd heap n := by
    have hmin := hbounds.minimum
    unfold grownEnd
    omega
  have hsize := h2.size
  have hend : (heap.grown l n).endAddress = grownEnd heap n := rfl
  rw [grownSize, if_neg (grownEntries_ne heap l), grownHole_grown, h.size, grownSize, hend] at hsize
  have hmem : grownHole heap l ∈ grownEntries (heap.grown l n) (grownEntries heap l) := by
    rw [grownEntries_of_ne (heap.grown l n) (grownEntries_ne heap l)]
    exact grownHole_mem heap l
  obtain ⟨hin, -, hbound⟩ := h2.state.holes _ hmem
  have hlow : heap.startAddress ≤ grownHole heap l := hin
  have hhigh : grownHole heap l + hSize k2.mem (grownHole heap l) ≤ grownEnd (heap.grown l n) n := hbound
  exact fits_of_large (by omega) (by omega)

theorem mappedEnd_of_none (hfind : findSmallestHole n pageAlign heap m = none) (hmax : grownEnd heap n ≤ heap.maxAddress) :
    mappedEnd m heap l n pageAlign =
      if fits (setSize m (grownHole heap l) (grownSize m heap l n)) n pageAlign (grownHole heap l) ∨
        heap.maxAddress < grownEnd (heap.grown l n) n then grownEnd heap n
      else grownEnd (heap.grown l n) n := by
  have hgo : ¬((findSmallestHole n pageAlign heap m).isSome ∨ heap.maxAddress < grownEnd heap n) := by
    rw [hfind]
    simpa using hmax
  exact if_neg hgo

theorem grownEnd_le_mappedEnd (hfind : findSmallestHole n pageAlign heap m = none)
    (hmax : grownEnd heap n ≤ heap.maxAddress) : grownEnd heap n ≤ mappedEnd m heap l n pageAlign := by
  have hpage := grownEnd_grown heap l n
  rw [mappedEnd_of_none hfind hmax]
  split_ifs <;> omega

/-- Where the grown hole does not fit, the second expansion is mapped as well. -/
theorem GrownIndex.mappedEnd_eq (h : GrownIndex k k1 heap l n) (hfind : findSmallestHole n pageAlign heap k.mem = none)
    (hmax : grownEnd heap n ≤ heap.maxAddress)
    (hagain : findSmallestHole n pageAlign (heap.grown l n) k1.mem = none)
    (hmax2 : grownEnd (heap.grown l n) n ≤ heap.maxAddress) :
    mappedEnd k.mem heap l n pageAlign = grownEnd (heap.grown l n) n := by
  have hnot := findSmallestHole_none h.state.index hagain _ (grownHole_mem heap l)
  rw [h.fits_iff] at hnot
  rw [mappedEnd_of_none hfind hmax, hnot, if_neg]
  simpa using hmax2

end PandaOS

import PandaOS.Memory.HeapClient

/-! A client that frees in the reverse order of its allocations. While its blocks stay below the minimal
length of the heap, they lie one behind the other from the start and one hole follows them. -/
namespace PandaOS
open ByteMemory Word32 Tiling
set_option autoImplicit false
set_option maxHeartbeats 250000

/-- What blocks of these sizes take with their headers and footers. -/
def footprint (sizes : List ℕ) : ℕ := (sizes.map (· + (sizeofHeader + sizeofFooter))).sum

/-- The calls are unaligned allocations, and frees of the newest live block, and the live blocks stay in
the minimal length with room for one more header and footer. -/
def InStackOrder : List ℕ → List Request → Prop
  | _, [] => True
  | sizes, .alloc size pageAlign :: rs =>
    pageAlign = 0 ∧ footprint (size :: sizes) ≤ HEAP_MIN_SIZE - (sizeofHeader + sizeofFooter) ∧
      InStackOrder (size :: sizes) rs
  | _ :: sizes, .free i :: rs => i = 0 ∧ InStackOrder sizes rs
  | [], .free _ :: _ => False

/-- Each block was returned behind the blocks that were live before it. -/
def StackPointers (start : ℕ) : List (ℕ × ℕ) → Prop
  | [] => True
  | (p, _) :: blocks => p = start + footprint (blocks.map Prod.snd) + sizeofHeader ∧ StackPointers start blocks

/-- The live blocks follow one another, and the one hole of the heap reaches from the last of them to the end. -/
structure Stacked (s : Client) : Prop where
  pointers : StackPointers KHEAP_DATA s.blocks
  heap : ∃ heap, s.kernel.kheap = some heap ∧ heap.startAddress = KHEAP_DATA ∧
    entries s.kernel.mem heap.index = [KHEAP_DATA + footprint (s.blocks.map Prod.snd)] ∧
    TileAt s.kernel.mem (KHEAP_DATA + footprint (s.blocks.map Prod.snd))
      ⟨heap.endAddress - (KHEAP_DATA + footprint (s.blocks.map Prod.snd)), true, false⟩ ∧
    HEAP_MIN_SIZE ≤ heap.endAddress - heap.startAddress ∧ heap.endAddress - heap.startAddress ≤ 0x80000

/-- The tiles of the blocks, in the order of their addresses. -/
def stackTiles (blocks : List (ℕ × ℕ)) : List Tile := (blocks.map fun b => live (b.2 + 20)).reverse

/-- The invariant of the run. -/
structure StackState (s : Client) (heap : Heap) (t : Tile) : Prop where
  state : HeapState s.kernel heap (stackTiles s.blocks ++ [t])
    [heap.startAddress + footprint (s.blocks.map Prod.snd)]
  hole : t.hole = true
  start : heap.startAddress = KHEAP_DATA
  index : heap.index.array + 4*heap.index.maxSize = heap.startAddress
  count : heap.index.maxSize = HEAP_INDEX_SIZE
  pointers : StackPointers KHEAP_DATA s.blocks
  low : footprint (s.blocks.map Prod.snd) + 20 ≤ HEAP_MIN_SIZE
  short : heap.endAddress ≤ heap.startAddress + 0x80000

variable {s s' : Client} {k k' : Kernel} {heap heap' : Heap} {t : Tile} {blocks : List (ℕ × ℕ)}
  {fuel size p supervisor readonly : ℕ} {rs : List Request} {sizes : List ℕ}

/-! ## The tiles of a stack -/

theorem footprint_cons : footprint (size :: sizes) = footprint sizes + (size + 20) := by
  simp [footprint, sizeofHeader, sizeofFooter]
  omega

theorem stackTiles_cons : stackTiles ((p, size) :: blocks) = stackTiles blocks ++ [live (size + 20)] := by
  simp [stackTiles]

theorem stackTiles_live {u : Tile} (hu : u ∈ stackTiles blocks) : u.hole = false := by
  simp only [stackTiles, List.mem_reverse, List.mem_map] at hu
  obtain ⟨b, -, rfl⟩ := hu
  rfl

theorem total_stackTiles : total Tile.size (stackTiles blocks) = footprint (blocks.map Prod.snd) := by
  induction blocks with
  | nil => rfl
  | cons b blocks ih =>
    rw [stackTiles_cons, total_append, ih, List.map_cons, footprint_cons]
    simp

theorem StackState.end_eq (h : StackState s heap t) :
    heap.endAddress = heap.startAddress + footprint (s.blocks.map Prod.snd) + t.size := by
  have hend := h.state.represents.end_eq
  rw [total_append, total_stackTiles, total_cons, total_nil] at hend
  omega

theorem StackState.stacked (h : StackState s heap t) : Stacked s := by
  have hend := h.end_eq
  have hmin := h.state.minimum
  have hshort := h.short
  have htile := (tiles_middle.mp h.state.represents.tiles).2.1
  have hindex := h.state.represents.index
  rw [total_stackTiles] at htile
  have hsize : t.size = heap.endAddress - (heap.startAddress + footprint (s.blocks.map Prod.snd)) := by omega
  have hforget := htile.forget h.hole
  rw [hsize] at hforget
  rw [h.start] at hforget hindex
  exact ⟨h.pointers, heap, h.state.kheap, h.start, hindex, hforget, by omega, by omega⟩

/-! ## One call -/

/-- The new block is cut from the front of the hole. -/
theorem StackState.push (h : StackState s heap t) (fuel size : ℕ)
    (hfits : footprint (size :: s.blocks.map Prod.snd) + 20 ≤ HEAP_MIN_SIZE) :
    ∃ s' heap' t', s.call (fuel + 1) (.alloc size 0) = .ok s' ∧ StackState s' heap' t' ∧
      s'.blocks.map Prod.snd = size :: s.blocks.map Prod.snd := by
  have hend := h.end_eq
  have hmin := h.state.minimum
  rw [footprint_cons] at hfits
  obtain ⟨b, hb⟩ : ∃ b, b = heap.startAddress + footprint (s.blocks.map Prod.snd) := ⟨_, rfl⟩
  have hstate := h.state
  rw [← hb] at hstate
  have hplace := hb
  rw [← total_stackTiles] at hplace
  have hroom : size + 40 ≤ t.size := by omega
  obtain ⟨k', heap', hcall, hstate', hsame⟩ := alloc_only_hole hstate h.hole hplace hroom fuel
  have hstart := hsame.startAddress
  have hbehind : b + (size + 20) = heap'.startAddress + footprint (((b + 12, size) :: s.blocks).map Prod.snd) := by
    rw [hstart, List.map_cons, footprint_cons, hb, Nat.add_assoc]
  rw [← stackTiles_cons (p := b + 12), hbehind] at hstate'
  have hend' := hstate'.represents.end_eq
  rw [total_append, total_stackTiles, List.map_cons, footprint_cons, total_cons, total_nil, gap_size] at hend'
  refine ⟨⟨k', (b + 12, size) :: s.blocks⟩, heap', gap (t.size - (size + 20)), Client.call_alloc hcall,
    ⟨hstate', rfl, hstart.trans h.start, ?_, hsame.maxSize.trans h.count, ⟨?_, h.pointers⟩, ?_, ?_⟩, rfl⟩
  · rw [hsame.array, hsame.maxSize, hstart]
    exact h.index
  · rw [hb, h.start]
    rfl
  · rw [List.map_cons, footprint_cons]
    omega
  · have := h.short
    omega

/-- The newest block and the hole behind it become one hole, and the heap shrinks to its minimal length. -/
theorem StackState.pop (h : StackState s heap t) (fuel : ℕ) (hblocks : s.blocks = (p, size) :: blocks) :
    ∃ s' heap' t', s.call fuel (.free 0) = .ok s' ∧ StackState s' heap' t' ∧ s'.blocks = blocks := by
  have hstate := h.state
  have hend := h.end_eq
  have hlow := h.low
  have hmin := hstate.minimum
  have hpointers := h.pointers
  rw [hblocks] at hstate hpointers
  rw [hblocks, List.map_cons, footprint_cons] at hlow hend
  rw [stackTiles_cons, List.append_assoc, List.singleton_append, List.map_cons, footprint_cons] at hstate
  have htotal : total Tile.size (stackTiles blocks) = footprint (blocks.map Prod.snd) := total_stackTiles
  obtain ⟨b, hb⟩ : ∃ b, b = heap.startAddress + total Tile.size (stackTiles blocks) := ⟨_, rfl⟩
  have hc : heap.startAddress + (footprint (blocks.map Prod.snd) + (size + 20)) = b + (size + 20) := by
    rw [hb, htotal, Nat.add_assoc]
  rw [hc] at hstate
  have hrep := hstate.represents
  have hleft : ¬ LeftMerges s.kernel.mem b :=
    not_leftMerges hrep (fun u hu => stackTiles_live hu) (hstate.first h.index) hb
  have htile : TileAt s.kernel.mem (b + (size + 20)) t := by
    have hmid := at_middle Tile.size heap.startAddress (stackTiles blocks ++ [live (size + 20)]) t []
    rw [List.append_assoc, List.singleton_append, total_append, total_cons, total_nil, Nat.add_zero,
      ← Nat.add_assoc, ← hb] at hmid
    exact hrep.tiles.at hmid
  have hright : RightMerges s.kernel.mem (b + (size + 20)) := (rightMerges_iff htile).mpr h.hole
  have hroom : heap.index.size + 1 < heap.index.maxSize := by
    rw [hrep.size_eq, h.count, List.length_singleton]
    decide
  have hleftCase : LeftCase s.kernel.mem b b [] := .none rfl hleft
  have hrightCase : RightCase s.kernel.mem (b + (live (size + 20)).size) [b + (size + 20)] [t] :=
    .merge htile h.hole (List.mem_singleton_self _)
  have hnear : b - heap.startAddress + 20 ≤ HEAP_MIN_SIZE := by
    dsimp only at hlow
    omega
  obtain ⟨k', hrun, -⟩ := free_tail_spec hstate.kheap hrep rfl hb rfl hleftCase hrightCase hnear hmin
    hstate.paged ⟨le_rfl, hstate.below⟩ (fun _ => withoutRight_room hrep [t] _ hroom)
  have hsafe : FreeSafe s.kernel heap b := by
    refine ⟨fun htest => absurd htest hleft, fun _ => ?_, hroom⟩
    rw [mergedStart, if_neg hleft, hb, htotal]
    omega
  obtain ⟨heap', pre', left, right, post', x, hpre, hpost, -, -, hfrees⟩ :=
    free_spec hstate rfl hb hsafe hrun
  -- nothing is merged from below, and the hole behind is
  obtain ⟨rfl, rfl⟩ : left = [] ∧ stackTiles blocks = pre' := by
    cases hfrees.leftCase with
    | none _ _ => exact ⟨rfl, by rw [hpre, List.append_nil]⟩
    | merge _ _ _ htest _ => exact absurd htest hleft
  obtain ⟨rfl, rfl⟩ : right = [t] ∧ post' = [] := by
    cases hfrees.rightCase with
    | none hno => exact absurd hright hno
    | merge _ _ _ =>
      rw [List.singleton_append, List.cons.injEq] at hpost
      exact ⟨by rw [hpost.1], hpost.2.symm⟩
  rw [← hb] at hfrees
  have hlast : b + (live (size + 20)).size + total Tile.size [t] = heap.endAddress := by
    rw [hend, hb, htotal, total_cons, total_nil, live_size]
    omega
  obtain ⟨-, -, rfl, hends⟩ := hfrees.merged.resolve_left fun hinner => hinner.1 hlast
  have hstate' := hfrees.state
  obtain ⟨x, hx⟩ : ∃ x, x = gap (heap.startAddress + HEAP_MIN_SIZE - b) := ⟨_, rfl⟩
  have hindex : freedIndex (headerTLessThan k'.mem) b (b + (live (size + 20)).size) [] [t] [b + (size + 20)] = [b] := by
    simp [freedIndex, withoutRight, insertEntry]
  have hstart := hfrees.sameHeap.startAddress
  have hplace : b = heap'.startAddress + footprint (blocks.map Prod.snd) := by
    rw [hstart, hb, htotal]
  rw [hindex, List.append_nil, ← hx, hplace] at hstate'
  have hi : s.blocks[0]? = some (p, size) := by
    rw [hblocks]
    rfl
  have hpointer : p = b + 12 := by
    rw [hpointers.1, hb, h.start, htotal]
    rfl
  rw [← hpointer] at hrun
  have hrest : s.blocks.eraseIdx 0 = blocks := by
    rw [hblocks]
    rfl
  refine ⟨⟨k', s.blocks.eraseIdx 0⟩, heap', x, Client.call_free hi hrun, ?_, hrest⟩
  rw [hrest]
  refine ⟨hstate', by rw [hx]; rfl, hstart.trans h.start, ?_, hfrees.sameHeap.maxSize.trans h.count, hpointers.2, ?_, ?_⟩
  · rw [hfrees.sameHeap.array, hfrees.sameHeap.maxSize, hstart]
    exact h.index
  · dsimp only at hlow ⊢
    omega
  · have hmax : HEAP_MIN_SIZE ≤ 0x80000 := by decide
    omega

/-! ## Runs -/

theorem StackState.run (fuel : ℕ) (h : StackState s heap t) (horder : InStackOrder (s.blocks.map Prod.snd) rs) :
    ∃ s', s.run (fuel + 1) rs = .ok s' ∧ Stacked s' := by
  induction rs generalizing s heap t with
  | nil => exact ⟨s, rfl, h.stacked⟩
  | cons r rs ih =>
    cases r with
    | alloc size pageAlign =>
      obtain ⟨rfl, hfits, hrest⟩ := horder
      have hmin : HEAP_MIN_SIZE - (sizeofHeader + sizeofFooter) + 20 = HEAP_MIN_SIZE := rfl
      obtain ⟨s1, heap1, t1, hcall, h1, hsizes⟩ := h.push fuel size (by omega)
      rw [← hsizes] at hrest
      obtain ⟨s', hrun, hs'⟩ := ih h1 hrest
      refine ⟨s', ?_, hs'⟩
      rw [Client.run_cons, hcall, ok_bind, hrun]
    | free i =>
      cases hblocks : s.blocks with
      | nil =>
        rw [hblocks] at horder
        exact horder.elim
      | cons b blocks =>
        rw [hblocks] at horder
        obtain ⟨rfl, hrest⟩ := horder
        obtain ⟨s1, heap1, t1, hcall, h1, hs1⟩ := h.pop (fuel + 1) hblocks
        rw [← hs1] at hrest
        obtain ⟨s', hrun, hs'⟩ := ih h1 hrest
        refine ⟨s', ?_, hs'⟩
        rw [Client.run_cons, hcall, ok_bind, hrun]

theorem InStackOrder.take (h : InStackOrder sizes rs) (n : ℕ) : InStackOrder sizes (rs.take n) := by
  induction rs generalizing sizes n with
  | nil => simpa using h
  | cons r rs ih =>
    cases n with
    | zero => trivial
    | succ n =>
      cases r with
      | alloc size pageAlign =>
        obtain ⟨haligned, hfits, hrest⟩ := h
        exact ⟨haligned, hfits, ih hrest n⟩
      | free i =>
        cases sizes with
        | nil => exact h.elim
        | cons size sizes =>
          obtain ⟨hi, hrest⟩ := h
          exact ⟨hi, ih hrest n⟩

theorem stackState_fresh (hk : k.kheap = none) (hpaged : Paged k KHEAP_START KHEAP_MAX)
    (hfresh : createKernelHeap fuel supervisor readonly k = .ok k') :
    StackState ⟨k', []⟩ (freshHeap supervisor readonly) freshHole := by
  have hempty : footprint (([] : List (ℕ × ℕ)).map Prod.snd) = 0 := rfl
  have hstate := heapState_fresh hk hpaged hfresh
  have hindex : KHEAP_START + 4*HEAP_INDEX_SIZE = KHEAP_DATA := by decide
  have hlow : (0 : ℕ) + 20 ≤ HEAP_MIN_SIZE := by decide
  have hshort : KHEAP_START + KHEAP_INITIAL_SIZE ≤ KHEAP_DATA + 0x80000 := by decide
  refine ⟨?_, rfl, rfl, hindex, rfl, trivial, ?_, hshort⟩
  · dsimp only
    rw [hempty]
    exact hstate
  · dsimp only
    rw [hempty]
    exact hlow

/-- On the fresh kernel heap every call of a client in stack order returns, and after each of them the live blocks
lie one behind the other from the start with one hole behind them. -/
theorem stack_reuse (fuel supervisor readonly : ℕ) (hk : k.kheap = none) (hpaged : Paged k KHEAP_START KHEAP_MAX)
    (horder : InStackOrder [] rs) (n : ℕ) :
    ∃ k', createKernelHeap fuel supervisor readonly k = .ok k' ∧
      ∃ s, Client.run (fuel + 1) ⟨k', []⟩ (rs.take n) = .ok s ∧ Stacked s := by
  obtain ⟨m', hfresh, -⟩ := createKernelHeap_returns fuel supervisor readonly hk
  exact ⟨_, hfresh, (stackState_fresh hk hpaged hfresh).run fuel (horder.take n)⟩

/-- The heap calls of `test_heap`. -/
def testHeapCalls : List Request := [.alloc 8 0, .alloc 8 0, .free 0, .free 0, .alloc 12 0]

theorem stack_reuse_test_heap :
    ∃ k', createKernelHeap 0 1 0 heaplessKernel = .ok k' ∧
      ∃ s, Client.run 1 ⟨k', []⟩ (testHeapCalls.take 5) = .ok s ∧
        Stacked s :=
  have horder : InStackOrder [] testHeapCalls := ⟨rfl, by decide, rfl, by decide, rfl, rfl, rfl, by decide, trivial⟩
  stack_reuse 0 1 0 rfl heaplessKernel_paged horder 5

end PandaOS

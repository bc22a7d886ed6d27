import PandaOS.Memory.AllocSpec

/-! A whole call of `alloc` on the kernel heap. `HeapState` is what holds between calls;
`AllocSafe` is the condition on the state and the request under which `alloc` keeps it;
`Allocates` says what a returning call has then done. -/
namespace PandaOS
open ByteMemory Word32 Tiling
set_option autoImplicit false
set_option maxHeartbeats 250000

/-- The kernel heap between calls: the index lies just below the data, the paging structures lie
outside both, and the heap has at least its minimal length. -/
structure HeapState (k : Kernel) (heap : Heap) (ts : List Tile) (l : List ℕ) : Prop where
  kheap : k.kheap = some heap
  represents : Represents k.mem heap heap.maxAddress ts l
  paged : Paged k heap.index.array heap.maxAddress
  below : heap.index.array + 4*heap.index.maxSize ≤ heap.startAddress
  clean : CleanIndex k.mem heap
  two : 1 < heap.index.maxSize
  startAligned : heap.startAddress % 4096 = 0
  endAligned : heap.endAddress % 4096 = 0
  minimum : heap.startAddress + HEAP_MIN_SIZE ≤ heap.endAddress
  span : heap.maxAddress ≤ heap.startAddress + 0x10000000
  top : heap.maxAddress ≤ 0xE0000000

/-- The fields of `heap_t` that no call changes. -/
structure SameHeap (heap heap' : Heap) : Prop where
  startAddress : heap'.startAddress = heap.startAddress
  maxAddress : heap'.maxAddress = heap.maxAddress
  array : heap'.index.array = heap.index.array
  maxSize : heap'.index.maxSize = heap.index.maxSize

theorem SameHeap.trans {heap heap' heap'' : Heap} (h : SameHeap heap heap') (h' : SameHeap heap' heap'') :
    SameHeap heap heap'' :=
  ⟨h'.startAddress.trans h.startAddress, h'.maxAddress.trans h.maxAddress, h'.array.trans h.array,
    h'.maxSize.trans h.maxSize⟩

/-- How far one expansion for `n` bytes moves the end of a heap of length `old`. -/
def growth (old n : ℕ) : ℕ := roundUp (old + n) - old

/-- How far `alloc` moves the end in all: an aligned request may need a second expansion. -/
def growthFor (old n pageAlign last : ℕ) : ℕ :=
  if pageAlign = 0 ∨ n + 4084 ≤ last + growth old n then growth old n
  else growth old n + growth (old + growth old n) n

/-- The size of the last tile if it is a hole that can grow, 0 where the index is empty. -/
def lastSize (ts : List Tile) (l : List ℕ) : ℕ := if l = [] then 0 else ts.getLast?.elim 0 Tile.size

/-- The condition for growing: the last hole ends the heap and starts on a page boundary if the
request is aligned, the new end does not wrap, and the page tables of the new range are there. -/
structure GrowSafe (k : Kernel) (heap : Heap) (ts : List Tile) (l : List ℕ) (n pageAlign : ℕ) :
    Prop where
  canGrow : CanGrow ts l
  aligned : pageAlign ≠ 0 → ∀ pre t, ts = pre ++ [t] → l ≠ [] →
    (heap.startAddress + total Tile.size pre) % 4096 = 0
  wrap : heap.endAddress + n + 4096 < 4294967296
  tables : TablesPresent k heap.endAddress (heap.endAddress +
    growthFor (heap.endAddress - heap.startAddress) n pageAlign (lastSize ts l))

structure AllocSafe (k : Kernel) (heap : Heap) (ts : List Tile) (l : List ℕ) (size pageAlign : ℕ) :
    Prop where
  request : size + 20 < 4294967296
  small : pageAlign ≠ 0 → size + 20 < 2147483648
  found : ∀ i, findSmallestHole (size + 20) pageAlign heap k.mem = some i → pageAlign ≠ 0 →
    ∀ h : i < l.length, l[i] % 4096 = 0
  grow : findSmallestHole (size + 20) pageAlign heap k.mem = none →
    GrowSafe k heap ts l (size + 20) pageAlign

/-- The block of `n` bytes was cut at the front of a hole of size `s` behind `pre`, in place `i`
of the index `l0`. That hole is one of the heap's, or lies at its end and was made or enlarged. -/
structure Allocates (k k' : Kernel) (heap heap' : Heap) (ts pre old post : List Tile)
    (l l0 : List ℕ) (s i n p : ℕ) : Prop where
  tiles : ts = pre ++ old ++ post
  holes : ∀ t ∈ old, t.hole = true
  room : n ≤ s
  place : (old.length = 1 ∧ s = total Tile.size old ∧ heap' = heap.withCount heap'.index.size) ∨ post = []
  entries : l0 = l ∨ l = [] ∧ l0 = [heap.endAddress]
  entry : ∃ h : i < l0.length, l0[i] = heap.startAddress + total Tile.size pre
  pointer : p = heap.startAddress + total Tile.size pre + 12
  state : HeapState k' heap' (pre ++ carved s n ++ post)
    (carvedIndex (headerTLessThan k'.mem) i (heap.startAddress + total Tile.size pre) s n l0)
  sameHeap : SameHeap heap heap'
  frame : Frame k k' heap.index heap.index.array heap.maxAddress
    (heap.startAddress + total Tile.size pre) (heap.startAddress + total Tile.size pre + s)

variable {k k' : Kernel} {heap heap' : Heap} {ts pre old post : List Tile} {t : Tile} {l l' : List ℕ}
  {n size pageAlign b i g fuel p : ℕ} {m m' : Mem}

/-! ## Which holes fit -/

theorem toInt32_le (x : ℕ) : toInt32 x ≤ x := by
  unfold toInt32
  split <;> omega

/-- An accepted hole is large enough. -/
theorem size_of_fits (h : fits m n pageAlign b = true) (hn : pageAlign ≠ 0 → n < 2147483648) :
    n ≤ hSize m b := by
  unfold fits at h
  by_cases hpa : pageAlign > 0
  · rw [if_pos hpa] at h
    have hle := toInt32_le (hSize m b)
    rw [decide_eq_true_eq, toInt32_of_lt (hn (by omega))] at h
    have hmod : add32 b sizeofHeader % PAGE_SIZE < 4096 := Nat.mod_lt _ (by decide)
    simp only [PAGE_SIZE] at h hmod
    split_ifs at h <;> omega
  · rw [if_neg hpa, decide_eq_true_eq] at h
    exact h

/-- A hole that starts on a page boundary loses the rest of its first page to an aligned request. -/
theorem fits_of_size (pageAlign : ℕ) (hb : b % 4096 = 0 ∨ pageAlign = 0) (hlt : b + 12 < 4294967296)
    (hs : hSize m b < 2147483648) (hn : n < 2147483648)
    (hfit : n + (if pageAlign = 0 then 0 else 4084) ≤ hSize m b) : fits m n pageAlign b = true := by
  unfold fits
  by_cases hpa : pageAlign > 0
  · rw [if_neg (by omega)] at hfit
    have hadd : add32 b sizeofHeader = b + 12 := add32_of_lt hlt
    have hmask : b + 12 &&& 0x00000FFF ≠ 0 := by
      rw [and_low_page]
      omega
    rw [if_pos hpa, decide_eq_true_eq, hadd, if_pos hmask, toInt32_of_lt hs, toInt32_of_lt hn]
    simp only [PAGE_SIZE]
    omega
  · rw [if_pos (by omega)] at hfit
    rw [if_neg hpa, decide_eq_true_eq]
    exact hfit

theorem fits_congr (h : hSize m' b = hSize m b) : fits m' n pageAlign b = fits m n pageAlign b := by
  unfold fits
  rw [h]

theorem findSmallestHole_some (hl : entries m heap.index = l)
    (h : findSmallestHole n pageAlign heap m = some i) :
    ∃ hlt : i < l.length, fits m n pageAlign l[i] = true ∧
      ∀ j (hj : j < i), fits m n pageAlign (l.get ⟨j, hj.trans hlt⟩) = false := by
  rw [findSmallestHole_eq hl, List.findIdx?_eq_some_iff_getElem] at h
  obtain ⟨hlt, hfit, hmin⟩ := h
  exact ⟨hlt, hfit, fun j hj => by simpa using hmin j hj⟩

theorem findSmallestHole_none (hl : entries m heap.index = l)
    (h : findSmallestHole n pageAlign heap m = none) : ∀ b ∈ l, fits m n pageAlign b = false := by
  rw [findSmallestHole_eq hl, List.findIdx?_eq_none_iff] at h
  exact h

/-! ## Cutting a block -/

theorem allocHole_call (h : HeapState k heap (pre ++ t :: post) l) (hole : t.hole = true)
    (hlt : i < l.length) (hget : l[i] = heap.startAddress + total Tile.size pre)
    (hsize : size + 20 ≤ t.size)
    (halign : pageAlign = 0 ∨ (heap.startAddress + total Tile.size pre) % 4096 = 0)
    (hrun : allocHole size (size + 20) pageAlign i heap k = .ok (p, k')) :
    ∃ heap', Allocates k k' heap heap' (pre ++ t :: post) pre [t] post l l t.size i (size + 20) p := by
  obtain ⟨m', hcut, hrep, htouch, hclean⟩ := allocHole_spec h.represents hole hlt hget rfl hsize halign
  have hres := hcut.symm.trans hrun
  cases hres
  have hend := h.represents.end_eq
  have hbelow := h.below
  have htop := h.represents.top
  simp only [total_append, total_cons] at hend
  have hframe := Frame.of_touch heap.index h.paged htouch
    (heap.withCount (carvedIndex (headerTLessThan m') i (heap.startAddress + total Tile.size pre)
      t.size (size + 20) l).length) ⟨le_rfl, by omega⟩ (by omega) (by omega)
  have hstate : HeapState _ (heap.withCount (carvedIndex (headerTLessThan m') i
      (heap.startAddress + total Tile.size pre) t.size (size + 20) l).length) _ _ :=
    ⟨rfl, hrep, hframe.paged h.paged, h.below, hclean h.clean, h.two, h.startAligned, h.endAligned,
      h.minimum, h.span, h.top⟩
  refine ⟨_, by simp, ?_, hsize, Or.inl ⟨rfl, by simp, rfl⟩, Or.inl rfl, ⟨hlt, hget⟩, rfl, hstate,
    ⟨rfl, rfl, rfl, rfl⟩, hframe⟩
  intro u hu
  rw [List.mem_singleton] at hu
  rw [hu, hole]

/-! ## Growing -/

/-- The heap has grown at its end: the last tile is now a hole of size `s`. -/
structure Grows (k k' : Kernel) (heap heap' : Heap) (ts pre old : List Tile) (l l' : List ℕ) (s : ℕ) :
    Prop where
  tiles : ts = pre ++ old
  holes : ∀ t ∈ old, t.hole = true
  entries : l' = l ∨ l = [] ∧ l' = [heap.endAddress]
  nonempty : l' ≠ []
  size : s + heap.endAddress = total Tile.size old + heap'.endAddress
  upward : heap.endAddress ≤ heap'.endAddress
  last : (l = [] ∧ old = []) ∨ (l ≠ [] ∧ ∃ t, old = [t])
  state : HeapState k' heap' (pre ++ [gap s]) l'
  sameHeap : SameHeap heap heap'
  frame : Frame k k' heap.index heap.index.array heap.maxAddress
    (heap.startAddress + total Tile.size pre) (heap.startAddress + total Tile.size pre + s)

theorem growth_eq {n : ℕ} (old : ℕ) (hold : 4096 ≤ old) (hlt : old + n + 4096 < 4294967296) :
    old + growth old n = (old + n) / 4096 * 4096 + 4096 := by
  have := roundUp_eq (n := old + n) (by omega) (by omega)
  unfold growth
  omega

theorem allocGrow_call {kmallocAp : KmallocAp} (h : HeapState k heap ts l) (hn : 20 ≤ n)
    (hgrow : CanGrow ts l) (hwrap : heap.endAddress + n + 4096 < 4294967296)
    (htables : TablesPresent k heap.endAddress
      (heap.endAddress + growth (heap.endAddress - heap.startAddress) n))
    (hrun : allocGrow kmallocAp n k = .ok k') :
    ∃ heap' pre old l' s, Grows k k' heap heap' ts pre old l l' s ∧
      heap'.endAddress = heap.endAddress + growth (heap.endAddress - heap.startAddress) n := by
  have hmin := h.minimum
  simp only [HEAP_MIN_SIZE] at hmin
  have hstart := h.startAligned
  have hendAligned := h.endAligned
  have hround := growth_eq (n := n) (heap.endAddress - heap.startAddress) (by omega) (by omega)
  have hnewEnd : heap.startAddress + roundUp (heap.endAddress - heap.startAddress + n) =
      heap.endAddress + growth (heap.endAddress - heap.startAddress) n := by
    have := roundUp_eq (n := heap.endAddress - heap.startAddress + n) (by omega) (by omega)
    omega
  obtain ⟨g, pre, old, l', hg, hng, _, hmax, hts, hgrown, hto⟩ := allocGrow_spec h.kheap h.represents
    h.paged le_rfl ⟨le_rfl, h.below⟩ h.clean h.two hn (by omega) hwrap hgrow (by rwa [hnewEnd]) hrun
  have hgeq : g = growth (heap.endAddress - heap.startAddress) n := by omega
  rw [← hgeq] at hround ⊢
  have hlen := h.represents.end_eq
  rw [hts, total_append] at hlen
  refine ⟨(heap.withEnd (heap.endAddress + g)).withCount l'.length, pre, old, l',
    total Tile.size old + g, ?_, rfl⟩
  have hframe := hto.frame.mono le_rfl (by omega :
    heap.endAddress + g ≤ heap.startAddress + total Tile.size pre + (total Tile.size old + g))
  have hstate : HeapState k' ((heap.withEnd (heap.endAddress + g)).withCount l'.length)
      (pre ++ [gap (total Tile.size old + g)]) l' :=
    ⟨hto.kheap, hto.represents, hframe.paged h.paged, h.below, hto.clean, h.two, h.startAligned,
      by simp only [Heap.withCount_endAddress, Heap.withEnd_endAddress]; omega,
      by simp only [Heap.withCount_endAddress, Heap.withEnd_endAddress, Heap.withCount_startAddress,
        Heap.withEnd_startAddress, HEAP_MIN_SIZE]; omega, h.span, h.top⟩
  refine ⟨hts, ?_, ?_, ?_, ?_, ?_, ?_, hstate, ⟨rfl, rfl, rfl, rfl⟩, hframe⟩
  · cases hgrown with
    | fresh => simp
    | last _ hole => simpa using hole
  · cases hgrown with
    | fresh => exact Or.inr ⟨rfl, rfl⟩
    | last _ _ => exact Or.inl rfl
  · cases hgrown with
    | fresh => simp
    | last hne _ => exact hne
  · simp only [Heap.withCount_endAddress, Heap.withEnd_endAddress]
    omega
  · simp
  · cases hgrown with
    | fresh => exact Or.inl ⟨rfl, rfl⟩
    | last hne _ => exact Or.inr ⟨hne, _, rfl⟩

/-- A second expansion makes the same hole larger. -/
theorem Grows.trans {k1 k2 : Kernel} {heap1 heap2 : Heap} {pre' old' : List Tile} {l1 l2 : List ℕ}
    {s s' : ℕ} (h : Grows k k1 heap heap1 ts pre old l l1 s)
    (h' : Grows k1 k2 heap1 heap2 (pre ++ [gap s]) pre' old' l1 l2 s') :
    Grows k k2 heap heap2 ts pre old l l2 s' := by
  obtain ⟨u, rfl⟩ : ∃ u, old' = [u] := by
    rcases h'.last with ⟨hnil, _⟩ | ⟨_, hone⟩
    · exact absurd hnil h.nonempty
    · exact hone
  obtain ⟨rfl, hu⟩ := List.append_inj' h'.tiles rfl
  obtain rfl : gap s = u := by simpa using hu
  have hl : l2 = l1 := h'.entries.resolve_right (fun hnil => h.nonempty hnil.1)
  have hsize := h.size
  have hsize' := h'.size
  have hup := h'.upward
  simp only [total_cons, total_nil, gap_size] at hsize'
  have hframe := h'.frame.of_index_eq heap.index h.sameHeap.array h.sameHeap.maxSize
  rw [h.sameHeap.array, h.sameHeap.maxAddress, h.sameHeap.startAddress] at hframe
  refine ⟨h.tiles, h.holes, ?_, h'.nonempty, by omega, h.upward.trans hup, h.last, h'.state, ?_, ?_⟩
  · rw [hl]
    exact h.entries
  · exact h.sameHeap.trans h'.sameHeap
  · exact (h.frame.mono le_rfl (by omega)).trans hframe

/-- No other hole than the grown one can be accepted: the others are as they were. -/
theorem Grows.only {s : ℕ} (h : HeapState k heap ts l) (hg : Grows k k' heap heap' ts pre old l l' s)
    (hnone : ∀ c ∈ l, fits k.mem n pageAlign c = false) {c : ℕ} (hc : c ∈ l')
    (hfit : fits k'.mem n pageAlign c = true) : c = heap.startAddress + total Tile.size pre := by
  have hend := h.represents.end_eq
  rw [hg.tiles, total_append] at hend
  rcases hg.last with ⟨hnil, hold⟩ | ⟨hne, t, hold⟩
  · obtain ⟨_, hl'⟩ := hg.entries.resolve_left (by rw [hnil]; exact hg.nonempty)
    rw [hl', List.mem_singleton] at hc
    rw [hc, hend, hold, total_nil, Nat.add_zero]
  · have hl' : l' = l := hg.entries.resolve_right (fun hnil => hne hnil.1)
    rw [hl'] at hc
    by_contra hcb
    obtain ⟨u, hat, _⟩ := mem_starts.mp (h.represents.perm.mem_iff.mp hc)
    have hin : heap.startAddress ≤ c ∧ c + 20 ≤ heap.startAddress + total Tile.size pre := by
      have hbig := (h.represents.tiles.at hat).big
      rw [hg.tiles, hold] at hat
      rcases at_append.mp hat with hpre | ⟨heq, _⟩ | hnil
      · have := hpre.bounds
        omega
      · exact absurd heq hcb
      · exact hnil.elim
    have hbelow := h.below
    have htop := h.represents.top
    have hsame : SameOn k.mem k'.mem heap.startAddress (heap.startAddress + total Tile.size pre) :=
      hg.frame.sameOn (by omega) (by omega) (Or.inl (by omega)) (Or.inl le_rfl)
    rw [fits_congr (hSize_congr hsame hin.1 (by omega)), hnone c hc] at hfit
    cases hfit

theorem Grows.allocates {k1 k2 : Kernel} {heap1 heap2 : Heap} {l1 : List ℕ} {s : ℕ}
    (h : Grows k k1 heap heap1 ts pre old l l1 s)
    (h' : Allocates k1 k2 heap1 heap2 (pre ++ [gap s]) pre [gap s] [] l1 l1 s i n p) :
    Allocates k k2 heap heap2 ts pre old [] l l1 s i n p := by
  have hframe := h'.frame.of_index_eq heap.index h.sameHeap.array h.sameHeap.maxSize
  have hstate := h'.state
  have hentry := h'.entry
  have hpointer := h'.pointer
  rw [h.sameHeap.array, h.sameHeap.maxAddress, h.sameHeap.startAddress] at hframe
  rw [h.sameHeap.startAddress] at hstate hentry hpointer
  exact ⟨by rw [h.tiles, List.append_nil], h.holes, h'.room, Or.inr rfl, h.entries, hentry, hpointer,
    hstate, h.sameHeap.trans h'.sameHeap, h.frame.trans hframe⟩

/-! ## The call -/

/-- `alloc` on a heap where the hole at the end is the only one that can be accepted. -/
theorem alloc_last {s : ℕ} (h : HeapState k heap (pre ++ [gap s]) l)
    (honly : ∀ c ∈ l, fits k.mem (size + 20) pageAlign c = true →
      c = heap.startAddress + total Tile.size pre)
    (hsmall : pageAlign ≠ 0 → size + 20 < 2147483648)
    (halign : pageAlign = 0 ∨ (heap.startAddress + total Tile.size pre) % 4096 = 0)
    (hfind : findSmallestHole (size + 20) pageAlign heap k.mem = some i)
    (hrun : allocHole size (size + 20) pageAlign i heap k = .ok (p, k')) :
    ∃ heap', Allocates k k' heap heap' (pre ++ [gap s]) pre [gap s] [] l l s i (size + 20) p := by
  obtain ⟨hlt, hfit, _⟩ := findSmallestHole_some h.represents.index hfind
  have hget := honly _ (List.getElem_mem hlt) hfit
  have hsize := size_of_fits hfit hsmall
  have htile := (tiles_middle.mp h.represents.tiles).2.1
  rw [hget, htile.size] at hsize
  exact allocHole_call h rfl hlt hget hsize halign hrun

theorem alloc_succ (hk : k.kheap = some heap) (hsize : size + 20 < 4294967296) :
    alloc (fuel + 1) size pageAlign k =
      match findSmallestHole (size + 20) pageAlign heap k.mem with
      | none => do
        let k ← allocGrow (fun sz => kmallocInt (alloc fuel) sz 1 true) (size + 20) k
        alloc fuel size pageAlign k
      | some iterator => allocHole size (size + 20) pageAlign iterator heap k := by
  have hnew : add32 (add32 size sizeofHeader) sizeofFooter = size + 20 := by
    simp only [sizeofHeader, sizeofFooter, add32]
    omega
  rw [← hnew, alloc, heapOf_eq hk]
  rfl

theorem growth_ge {n : ℕ} (old : ℕ) (hold : 4096 ≤ old) (haligned : old % 4096 = 0)
    (hlt : old + n + 4096 < 4294967296) : n ≤ growth old n ∧ 4096 ≤ growth old n := by
  have := growth_eq old hold hlt
  omega

theorem Grows.lastSize_eq {s : ℕ} (h : Grows k k' heap heap' ts pre old l l' s) :
    lastSize ts l = total Tile.size old := by
  unfold lastSize
  rcases h.last with ⟨hnil, hold⟩ | ⟨hne, t, hold⟩
  · rw [if_pos hnil, hold, total_nil]
  · rw [if_neg hne, h.tiles, hold]
    simp

theorem Grows.aligned {s : ℕ} (hs : HeapState k heap ts l) (hsafe : GrowSafe k heap ts l n pageAlign)
    (h : Grows k k' heap heap' ts pre old l l' s) :
    pageAlign = 0 ∨ (heap.startAddress + total Tile.size pre) % 4096 = 0 := by
  by_cases hpa : pageAlign = 0
  · exact Or.inl hpa
  right
  rcases h.last with ⟨_, hold⟩ | ⟨hne, t, hold⟩
  · have hend := hs.represents.end_eq
    rw [h.tiles, hold, List.append_nil] at hend
    rw [← hend]
    exact hs.endAligned
  · exact hsafe.aligned hpa pre t (by rw [h.tiles, hold]) hne

/-- The hole at the end is accepted once it is large enough. -/
theorem find_last {s : ℕ} (h : HeapState k heap (pre ++ [gap s]) l)
    (halign : pageAlign = 0 ∨ (heap.startAddress + total Tile.size pre) % 4096 = 0)
    (hn : n < 2147483648) (hfit : n + (if pageAlign = 0 then 0 else 4084) ≤ s) :
    findSmallestHole n pageAlign heap k.mem ≠ none := by
  intro hnone
  have hmem : heap.startAddress + total Tile.size pre ∈ l :=
    h.represents.perm.mem_iff.mpr
      (mem_starts.mpr ⟨gap s, at_middle Tile.size heap.startAddress pre (gap s) [], rfl⟩)
  have htile := (tiles_middle.mp h.represents.tiles).2.1
  have hend := h.represents.end_eq
  have htop := h.represents.top
  have hspan := h.span
  have hmax := h.top
  have hbounds := h.represents.entry_bounds hmem
  simp only [total_append, total_cons, total_nil, gap_size] at hend
  have hsize : hSize k.mem (heap.startAddress + total Tile.size pre) = s := htile.size
  have hacc := fits_of_size (m := k.mem) (n := n) pageAlign (halign.symm) (by omega)
    (by omega) hn (by rwa [hsize])
  rw [findSmallestHole_none h.represents.index hnone _ hmem] at hacc
  cases hacc

/-- After an expansion the block comes from the hole at the end. -/
theorem Grows.found {k1 : Kernel} {heap1 : Heap} {l1 : List ℕ} {s : ℕ} (h : HeapState k heap ts l)
    (hg : Grows k k1 heap heap1 ts pre old l l1 s) (hsmall : pageAlign ≠ 0 → size + 20 < 2147483648)
    (halign : pageAlign = 0 ∨ (heap.startAddress + total Tile.size pre) % 4096 = 0)
    (hnone : ∀ c ∈ l, fits k.mem (size + 20) pageAlign c = false)
    (hfind : findSmallestHole (size + 20) pageAlign heap1 k1.mem = some i)
    (hrun : allocHole size (size + 20) pageAlign i heap1 k1 = .ok (p, k')) :
    ∃ heap' pre old post l0 s i, Allocates k k' heap heap' ts pre old post l l0 s i (size + 20) p := by
  rw [← hg.sameHeap.startAddress] at halign
  have honly : ∀ c ∈ l1, fits k1.mem (size + 20) pageAlign c = true → c = heap1.startAddress + total Tile.size pre := by
    intro c hc hfit
    rw [hg.sameHeap.startAddress]
    exact hg.only h hnone hc hfit
  obtain ⟨heap', hall⟩ := alloc_last hg.state honly hsmall halign hfind hrun
  exact ⟨heap', pre, old, [], l1, s, i, hg.allocates hall⟩

/-- The call after an expansion, which may expand once more. -/
theorem alloc_grow_spec {k1 : Kernel} {kmallocAp : KmallocAp} (h : HeapState k heap ts l)
    (hsafe : AllocSafe k heap ts l size pageAlign)
    (hgrowSafe : GrowSafe k heap ts l (size + 20) pageAlign)
    (hnone : ∀ c ∈ l, fits k.mem (size + 20) pageAlign c = false)
    (hgrow : allocGrow kmallocAp (size + 20) k = .ok k1)
    (hrun : alloc fuel size pageAlign k1 = .ok (p, k')) :
    ∃ heap' pre old post l0 s i, Allocates k k' heap heap' ts pre old post l l0 s i (size + 20) p := by
  obtain ⟨o, ho⟩ : ∃ o, o = heap.endAddress - heap.startAddress := ⟨_, rfl⟩
  have hmin := h.minimum
  simp only [HEAP_MIN_SIZE] at hmin
  have hstart := h.startAligned
  have hendAligned := h.endAligned
  have hspan := h.span
  have htop := h.top
  have hwrap := hgrowSafe.wrap
  have htables := hgrowSafe.tables
  rw [← ho] at htables
  have hge := growth_ge (n := size + 20) o (by omega) (by omega) (by omega)
  have hfirst : growth o (size + 20) ≤ growthFor o (size + 20) pageAlign (lastSize ts l) := by
    unfold growthFor
    split <;> omega
  obtain ⟨heap1, pre, old, l1, s, hg, hend1⟩ := allocGrow_call h (by omega) hgrowSafe.canGrow hwrap
    (by
      rw [← ho]
      exact fun x hl hh => htables x hl (by omega)) hgrow
  rw [← ho] at hend1
  have hs : s = total Tile.size old + growth o (size + 20) := by
    have := hg.size
    omega
  have hmax1 := hg.state.represents.top
  rw [hg.sameHeap.maxAddress] at hmax1
  have halign := hg.aligned h hgrowSafe
  have halign1 := halign
  rw [← hg.sameHeap.startAddress] at halign1
  cases fuel with
  | zero => cases hrun
  | succ fuel =>
    rw [alloc_succ hg.state.kheap hsafe.request] at hrun
    cases hfind : findSmallestHole (size + 20) pageAlign heap1 k1.mem with
    | some i =>
      rw [hfind] at hrun
      exact Grows.found h hg hsafe.small halign hnone hfind hrun
    | none =>
      rw [hfind] at hrun
      -- only an aligned request can still be too large, and only once
      have hshort : ¬ size + 20 + (if pageAlign = 0 then 0 else 4084) ≤ s :=
        fun hfit => find_last hg.state halign1 (by omega) hfit hfind
      have hpa : pageAlign ≠ 0 := by
        intro hzero
        rw [if_pos hzero] at hshort
        omega
      rw [if_neg hpa] at hshort
      have hfor : growthFor o (size + 20) pageAlign (lastSize ts l) =
          growth o (size + 20) + growth (o + growth o (size + 20)) (size + 20) := by
        rw [growthFor, hg.lastSize_eq, if_neg (by omega)]
      obtain ⟨k2, hgrow2, hrun2⟩ := bind_eq_ok.mp hrun
      have hold1 : heap1.endAddress - heap1.startAddress = o + growth o (size + 20) := by
        rw [hg.sameHeap.startAddress]
        omega
      have hround := growth_eq (n := size + 20) o (by omega) (by omega)
      have hround2 := growth_eq (n := size + 20) (o + growth o (size + 20)) (by omega) (by omega)
      have htables1 := htables.frame hg.frame (by omega)
      obtain ⟨heap2, pre', old', l2, s2, hg2, hend2⟩ := allocGrow_call hg.state (by omega)
        (Or.inr ⟨pre, gap s, rfl, rfl⟩) (by omega)
        (by
          rw [hold1]
          exact fun x hl hh => htables1 x (by omega) (by omega)) hgrow2
      rw [hold1] at hend2
      have hboth := hg.trans hg2
      have hge2 := growth_ge (n := size + 20) (o + growth o (size + 20)) (by omega) (by omega)
        (by omega)
      have hs2 := hboth.size
      have halign2 := halign
      rw [← hboth.sameHeap.startAddress] at halign2
      cases fuel with
      | zero => cases hrun2
      | succ fuel =>
        rw [alloc_succ hboth.state.kheap hsafe.request] at hrun2
        cases hfind2 : findSmallestHole (size + 20) pageAlign heap2 k2.mem with
        | some i =>
          rw [hfind2] at hrun2
          exact Grows.found h hboth hsafe.small halign hnone hfind2 hrun2
        | none =>
          refine absurd hfind2 (find_last hboth.state halign2 (by omega) ?_)
          rw [if_neg hpa]
          omega

/-- Every returning call under `AllocSafe` cuts its block from a hole and keeps the heap's state. -/
theorem alloc_spec (h : HeapState k heap ts l) (hsafe : AllocSafe k heap ts l size pageAlign)
    (hrun : alloc fuel size pageAlign k = .ok (p, k')) :
    ∃ heap' pre old post l0 s i, Allocates k k' heap heap' ts pre old post l l0 s i (size + 20) p := by
  cases fuel with
  | zero => cases hrun
  | succ fuel =>
    rw [alloc_succ h.kheap hsafe.request] at hrun
    cases hfind : findSmallestHole (size + 20) pageAlign heap k.mem with
    | some i =>
      rw [hfind] at hrun
      obtain ⟨hlt, hfit, _⟩ := findSmallestHole_some h.represents.index hfind
      obtain ⟨pre, t, post, rfl, hole, hget⟩ := h.represents.split (List.getElem_mem hlt)
      have hsize := size_of_fits hfit hsafe.small
      have htile := (tiles_middle.mp h.represents.tiles).2.1
      rw [hget, htile.size] at hsize
      have halign : pageAlign = 0 ∨ (heap.startAddress + total Tile.size pre) % 4096 = 0 := by
        by_cases hpa : pageAlign = 0
        · exact Or.inl hpa
        · right
          rw [← hget]
          exact hsafe.found i hfind hpa hlt
      obtain ⟨heap', hall⟩ := allocHole_call h hole hlt hget hsize halign hrun
      exact ⟨heap', pre, [t], post, l, t.size, i, hall⟩
    | none =>
      rw [hfind] at hrun
      obtain ⟨k1, hgrow1, hrun1⟩ := bind_eq_ok.mp hrun
      exact alloc_grow_spec h hsafe (hsafe.grow hfind) (findSmallestHole_none h.represents.index hfind)
        hgrow1 hrun1

end PandaOS

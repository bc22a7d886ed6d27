import PandaOS.Memory.LayoutMemory

/-! The expanding path of `alloc`. The new memory goes to the hole with the highest address, which
is next to it only if no block lies between that hole and the old end. -/
namespace PandaOS
open ByteMemory Word32 Tiling
set_option autoImplicit false
set_option maxHeartbeats 250000

/-- Where one expansion for `n` bytes puts the end: the length is rounded down, and a page added. -/
def grownEnd (heap : Heap) (n : ℕ) : ℕ :=
  heap.startAddress + (heap.endAddress - heap.startAddress + n) / 4096 * 4096 + 4096

/-- The hole that gets the new memory: the one with the highest address, else one at the old end. -/
def grownHole (heap : Heap) (l : List ℕ) : ℕ := l.max?.getD heap.endAddress

/-- The stretch from `a` to `e` meets no live block. -/
def ClearOf (heap : Heap) (ts : List Tile) (a e : ℕ) : Prop :=
  ∀ d u, At Tile.size heap.startAddress ts d u → u.hole = false → d + u.size ≤ a ∨ e ≤ d

/-- After the expansion the hole at `a` ends the heap; neither it nor the block at `p` meets a block
that was live before. -/
structure GrowsClear (k1 k' : Kernel) (heap heap1 : Heap) (ts : List Tile) (a p : ℕ) : Prop where
  kheap : k1.kheap = some heap1
  finish : a + hSize k1.mem a = heap1.endAddress
  hole : ClearOf heap ts a (a + hSize k1.mem a)
  block : ClearOf heap ts (p - sizeofHeader) (p - sizeofHeader + hSize k'.mem (p - sizeofHeader))

variable {k k' k1 k2 : Kernel} {heap heap' : Heap} {ts pre old post : List Tile} {t : Tile}
  {l l0 l' : List ℕ} {s i n size p g a e fuel newSize : ℕ} {m : Mem} {ap : KmallocAp}

/-! ## Clear stretches -/

theorem ClearOf.mono {a' e' : ℕ} (h : ClearOf heap ts a e) (ha : a ≤ a') (he : e' ≤ e) :
    ClearOf heap ts a' e' := by
  intro d u hat hlive
  rcases h d u hat hlive with hlow | hhigh
  · exact Or.inl (hlow.trans ha)
  · exact Or.inr (he.trans hhigh)

/-- Holes in the middle of a layout are clear of its blocks. -/
theorem clearOf_holes (hts : ts = pre ++ old ++ post) (hholes : ∀ t ∈ old, t.hole = true)
    (ha : a = heap.startAddress + total Tile.size pre)
    (he : post = [] ∨ e ≤ a + total Tile.size old) : ClearOf heap ts a e := by
  intro d u hat hlive
  rw [hts] at hat
  rcases at_append.mp hat with hfront | hpost
  · rcases at_append.mp hfront with hpre | hold
    · left
      have := hpre.bounds
      omega
    · have := hholes u hold.mem
      rw [hlive] at this
      cases this
  · rcases he with rfl | he
    · exact hpost.elim
    · right
      have := hpost.bounds
      rw [total_append] at this
      omega

/-- The block that `alloc` returns was cut from a hole. -/
theorem Allocates.clear (h : Allocates k k' heap heap' ts pre old post l l0 s i n p) :
    ClearOf heap ts (p - sizeofHeader) (p - sizeofHeader + hSize k'.mem (p - sizeofHeader)) := by
  have hheader : p - sizeofHeader = heap.startAddress + total Tile.size pre := by
    rw [h.pointer]
    exact Nat.add_sub_cancel _ _
  have hsize : hSize k'.mem (heap.startAddress + total Tile.size pre) ≤ s := by
    have htiles := h.state.represents.tiles
    have hroom := h.room
    rw [h.sameHeap.startAddress] at htiles
    unfold carved at htiles
    split_ifs at htiles with hsmall
    · rw [List.append_assoc, List.singleton_append] at htiles
      rw [(tiles_middle.mp htiles).2.1.size]
      exact le_rfl
    · rw [List.append_assoc, List.cons_append] at htiles
      rw [(tiles_middle.mp htiles).2.1.size]
      exact hroom
  rw [hheader]
  refine clearOf_holes h.tiles h.holes rfl ?_
  rcases h.place with ⟨_, hs, _⟩ | hpost
  · right
    omega
  · exact Or.inl hpost

/-! ## The hole that grows -/

theorem grownHole_eq (hi : i < l.length) (hmax : ∀ b ∈ l, b ≤ l[i]) :
    grownHole heap l = l[i] := by
  have hsome : l.max? = some l[i] := List.max?_eq_some_iff.mpr ⟨List.getElem_mem hi, hmax⟩
  rw [grownHole, hsome]
  rfl

theorem grownEnd_eq (hmin : heap.startAddress + HEAP_MIN_SIZE ≤ heap.endAddress) (htop : heap.maxAddress ≤ 0xE0000000)
    (hmax : grownEnd heap n ≤ heap.maxAddress) :
    heap.startAddress + roundUp (heap.endAddress - heap.startAddress + n) = grownEnd heap n ∧
      heap.endAddress + n + 4096 < 4294967296 := by
  simp only [HEAP_MIN_SIZE] at hmin
  unfold grownEnd at hmax ⊢
  have hround := roundUp_eq (n := heap.endAddress - heap.startAddress + n) (by omega) (by omega)
  omega

/-- With the tables in place an expansion adds the same number of bytes to the heap and to the
highest hole, wherever that is. -/
theorem allocGrow_highest (h : HeapState k heap ts l) (hne : l ≠ []) (hn : 20 ≤ n)
    (hmax : grownEnd heap n ≤ heap.maxAddress)
    (htables : TablesPresent k heap.endAddress (grownEnd heap n))
    (hrun : allocGrow ap n k = .ok k1) :
    ∃ g, k1.kheap = some (heap.withEnd (heap.endAddress + g)) ∧ n ≤ g ∧ grownHole heap l ∈ l ∧
      hSize k1.mem (grownHole heap l) = hSize k.mem (grownHole heap l) + g ∧
      entries k1.mem heap.index = l := by
  obtain ⟨hround, hwrap⟩ := grownEnd_eq h.minimum h.top hmax
  have hmin := h.minimum
  have hrep := h.represents
  have htop := hrep.top
  have hbound := hrep.bound
  have hbelow := h.below
  have hcap := hrep.capacity
  simp only [HEAP_MIN_SIZE] at hmin
  obtain ⟨g, k2, _, hng, _, hfits, hex, hcases⟩ := allocGrow_expanded h.kheap hrep h.paged
    ⟨le_rfl, hbelow⟩ h.clean (by omega) hwrap (by rwa [hround]) hrun
  rcases hcases with ⟨hnil, _⟩ | ⟨r, hr, hhigh, hgrow⟩
  · exact absurd hnil hne
  have hget : grownHole heap l = l[r] := grownHole_eq hr hhigh
  obtain ⟨pre, t, post, rfl, hole, hstart⟩ := hrep.split (List.getElem_mem hr)
  have htile := (tiles_middle.mp hrep.tiles).2.1
  rw [← hstart] at htile
  have hend := hrep.end_eq
  simp only [total_append, total_cons] at hend
  have htile2 : TileAt k2.mem l[r] t :=
    htile.congr hex.window (by omega) (by omega)
  obtain ⟨m', hgrown, htile', hoff⟩ := growHole_spec hex.kheap hex.entries hr rfl htile2 hole
    (by omega : l[r] + (t.size + g) < 4294967296)
  obtain rfl : k2.withMem m' = k1 := Except.ok.inj (hgrown.symm.trans hgrow)
  refine ⟨g, hex.kheap, hng, ?_, ?_, ?_⟩
  · rw [hget]
    exact List.getElem_mem hr
  · rw [hget, htile.size]
    exact htile'.size
  · rw [← hex.entries]
    exact entries_congr (hoff.sameOn (Or.inl (by omega)))

/-- Without a last hole to grow, the enlarged hole ends behind the heap's end. -/
theorem canGrow_of_finish (h : HeapState k heap ts l) (hmem : grownHole heap l ∈ l)
    (hfinish : grownHole heap l + hSize k.mem (grownHole heap l) = heap.endAddress) : CanGrow ts l := by
  right
  have hrep := h.represents
  obtain ⟨pre, t, post, rfl, hole, hstart⟩ := hrep.split hmem
  have htile := (tiles_middle.mp hrep.tiles).2.1
  rw [← hstart] at htile
  rw [htile.size] at hfinish
  have hend := hrep.end_eq
  simp only [total_append, total_cons] at hend
  cases post with
  | nil => exact ⟨pre, t, rfl, hole⟩
  | cons u post =>
    have hu := tiles_pos hrep.tiles u (by simp)
    simp only [total_cons] at hend
    omega

theorem grownHole_last (h : HeapState k heap (pre ++ [t]) l) (hole : t.hole = true) (hne : l ≠ []) :
    grownHole heap l = heap.startAddress + total Tile.size pre := by
  obtain ⟨b, hb⟩ : ∃ b, l.max? = some b := by
    cases hmax : l.max? with
    | none => exact absurd (List.max?_eq_none_iff.mp hmax) hne
    | some b => exact ⟨b, rfl⟩
  obtain ⟨hmem, hmax⟩ := List.max?_eq_some_iff.mp hb
  obtain ⟨i, hi, rfl⟩ := List.mem_iff_getElem.mp hmem
  rw [grownHole, hb]
  exact highest_last h.represents hole hi hmax

/-! ## The call -/

/-- A heap that can grow gives the new memory to its last hole, and the block comes from there. -/
theorem growsClear_of_canGrow (h : HeapState k heap ts l) (hcan : CanGrow ts l)
    (hfind : findSmallestHole (size + 20) 0 heap k.mem = none)
    (hmax : grownEnd heap (size + 20) ≤ heap.maxAddress)
    (htables : TablesPresent k heap.endAddress (grownEnd heap (size + 20)))
    (hgrow : allocGrow ap (size + 20) k = .ok k1) (hrun : alloc fuel size 0 k1 = .ok (p, k')) :
    ∃ heap1, GrowsClear k1 k' heap heap1 ts (grownHole heap l) p := by
  obtain ⟨hround, hwrap⟩ := grownEnd_eq h.minimum h.top hmax
  have hgrowth : heap.endAddress + growth (heap.endAddress - heap.startAddress) (size + 20) =
      grownEnd heap (size + 20) := by
    have hmin := h.minimum
    have hge := growth_ge (n := size + 20) (heap.endAddress - heap.startAddress)
    unfold growth at hge ⊢
    simp only [HEAP_MIN_SIZE] at hmin
    have hstart := h.startAligned
    have hendAligned := h.endAligned
    omega
  have hgrowSafe : GrowSafe k heap ts l (size + 20) 0 := by
    refine ⟨hcan, fun hpa => absurd rfl hpa, hwrap, ?_⟩
    rwa [growthFor, if_pos (Or.inl rfl), hgrowth]
  have hsafe : AllocSafe k heap ts l size 0 :=
    ⟨by omega, fun hpa => absurd rfl hpa, fun _ _ hpa => absurd rfl hpa, fun _ => hgrowSafe⟩
  obtain ⟨heap1, pre, old, l1, s, hg, _⟩ := allocGrow_call h (by omega) hcan hwrap
    (by rwa [hgrowth]) hgrow
  obtain ⟨heap', pre', old', post', l0, s', i, hall⟩ := alloc_grow_spec h hsafe hgrowSafe
    (findSmallestHole_none h.represents.index hfind) hgrow hrun
  have ha : grownHole heap l = heap.startAddress + total Tile.size pre := by
    rcases hg.last with ⟨rfl, rfl⟩ | ⟨hne, t, rfl⟩
    · rw [grownHole, h.represents.end_eq, hg.tiles, List.append_nil]
      rfl
    · obtain rfl := hg.tiles
      exact grownHole_last h (hg.holes t (by simp)) hne
  have hlast := (tiles_middle.mp hg.state.represents.tiles).2.1
  have hend := hg.state.represents.end_eq
  rw [hg.sameHeap.startAddress] at hlast hend
  simp only [total_append, total_cons, total_nil, gap_size] at hend
  have hsize : hSize k1.mem (heap.startAddress + total Tile.size pre) = s := hlast.size
  have hts : ts = pre ++ old ++ [] := by rw [hg.tiles, List.append_nil]
  refine ⟨heap1, hg.state.kheap, ?_, ?_, hall.clear⟩
  · rw [ha, hsize]
    omega
  · rw [ha]
    exact clearOf_holes hts hg.holes rfl (Or.inl rfl)

/-- With the page tables of the new memory in place, the expanding path of `alloc` keeps clear of the
live blocks exactly when the index is empty or the heap ends with a hole. -/
theorem alloc_grow_clear_iff (h : HeapState k heap ts l)
    (hfind : findSmallestHole (size + sizeofHeader + sizeofFooter) 0 heap k.mem = none)
    (hmax : grownEnd heap (size + sizeofHeader + sizeofFooter) ≤ heap.maxAddress)
    (htables : TablesPresent k heap.endAddress (grownEnd heap (size + sizeofHeader + sizeofFooter)))
    (hrun : alloc (fuel + 1) size 0 k = .ok (p, k')) :
    (∃ k1 heap1, allocGrow (kmallocAp fuel) (size + sizeofHeader + sizeofFooter) k = .ok k1 ∧
      GrowsClear k1 k' heap heap1 ts (grownHole heap l) p) ↔ CanGrow ts l := by
  have hrequest : size + sizeofHeader + sizeofFooter = size + 20 := rfl
  rw [hrequest] at hfind hmax htables ⊢
  have hwrap := (grownEnd_eq h.minimum h.top hmax).2
  rw [alloc_succ h.kheap (by omega), hfind] at hrun
  obtain ⟨k1, hgrow, hrest⟩ := bind_eq_ok.mp hrun
  have hgrow' : allocGrow (kmallocAp fuel) (size + 20) k = .ok k1 := hgrow
  constructor
  · rintro ⟨k2, heap1, hgrow2, hclear⟩
    obtain rfl : k1 = k2 := Except.ok.inj (hgrow'.symm.trans hgrow2)
    by_cases hne : l = []
    · exact Or.inl hne
    obtain ⟨g, hkheap, _, hmem, hsize, _⟩ := allocGrow_highest h hne (by omega) hmax htables hgrow'
    obtain rfl := Option.some.inj (hkheap.symm.trans hclear.kheap)
    have hfinish := hclear.finish
    rw [hsize, Heap.withEnd_endAddress] at hfinish
    exact canGrow_of_finish h hmem (by omega)
  · intro hcan
    obtain ⟨heap1, hclear⟩ := growsClear_of_canGrow h hcan hfind hmax htables hgrow' hrest
    exact ⟨k1, heap1, hgrow', hclear⟩

/-! ## Calls that return -/

/-- Pages that have their frames already stay as they are. -/
theorem expandLoop_mapped (ap : KmallocAp) (newSize n : ℕ) (hk : k.kheap = some heap) (hbound : heap.startAddress + newSize + 4096 < 4294967296)
    (htables : TablesPresent k (heap.startAddress + i) (heap.startAddress + newSize))
    (hmapped : ∀ j, i ≤ j → j < newSize → j % 4096 = 0 → heapFrame k heap j ≠ 0)
    (hi : i % 4096 = 0) : expandLoop ap newSize n i k = .ok k := by
  induction n generalizing i with
  | zero => rfl
  | succ n ih =>
    rw [expandLoop]
    split_ifs with hlt
    · have haddr : add32 heap.startAddress i = heap.startAddress + i := add32_of_lt (by omega)
      have hnext : add32 i PAGE_SIZE = i + 4096 := add32_of_lt (by simp only [PAGE_SIZE]; omega)
      have hframe := hmapped i le_rfl hlt hi
      rw [heapOf_eq hk, ok_bind, haddr, getPage_of_table (htables _ le_rfl (by omega)), ok_bind]
      unfold heapFrame heapPage at hframe
      dsimp only
      rw [allocFrame, if_pos hframe, ok_bind, hnext]
      exact ih (fun x hl hh => htables x (by omega) hh) (fun j hl hh => hmapped j (by omega) hh) (by omega)
    · rfl

theorem growHole_returns (hk : k.kheap = some heap) (hi : i < heap.index.size) :
    ∃ k', growHole i g k = .ok k' := by
  unfold growHole
  rw [heapOf_eq hk, ok_bind, lookupOrderedArray_eq rfl (by rwa [entries_length])]
  exact ⟨_, rfl⟩

theorem insertOrderedArray_returns {index : OrderedArray} {item : ℕ}
    (hless : index.lessThan = some headerTLessThan) : ∃ r, insertOrderedArray item index m = .ok r := by
  unfold insertOrderedArray
  rw [hless]
  dsimp only
  split
  · exact ⟨_, rfl⟩
  · exact ⟨_, rfl⟩

theorem addLastHole_returns (hk : k.kheap = some heap) (hless : heap.index.lessThan = some headerTLessThan) :
    ∃ k', addLastHole e g k = .ok k' := by
  have hinsert : ∀ m, ∃ r, insertOrderedArray e heap.index m = .ok r := fun m => insertOrderedArray_returns hless
  unfold addLastHole
  rw [heapOf_eq hk, ok_bind]
  dsimp only
  obtain ⟨r, hr⟩ := hinsert (writeFooter (setIsHole (setSize (setMagic k.mem e) e g) e 1)
    (sub32 (add32 e (hSize (setIsHole (setSize (setMagic k.mem e) e g) e 1) e)) sizeofFooter) e)
  rw [hr]
  exact ⟨_, rfl⟩

theorem placeBlock_returns {index : OrderedArray} (hless : index.lessThan = some headerTLessThan) (b s z n e : ℕ)
    (m : Mem) : ∃ r, placeBlock b s z n e index m = .ok r := by
  unfold placeBlock
  dsimp only
  split
  · exact insertOrderedArray_returns hless
  · exact ⟨_, rfl⟩

theorem alignHole_lessThan (pageAlign i b s : ℕ) (index : OrderedArray) (m : Mem) :
    (alignHole pageAlign i b s index m).2.1.lessThan = index.lessThan := by
  unfold alignHole
  split
  · rfl
  · rfl

theorem allocHole_returns (pageAlign : ℕ) (hless : heap.index.lessThan = some headerTLessThan)
    (hi : i < heap.index.size) : ∃ p k', allocHole size n pageAlign i heap k = .ok (p, k') := by
  unfold allocHole
  have hlt : i < (entries k.mem heap.index).length := by rwa [entries_length]
  rw [lookupOrderedArray_eq rfl hlt, ok_bind]
  dsimp only
  generalize useHole size n _ = used
  obtain ⟨size', n'⟩ := used
  have hplaced := alignHole_lessThan pageAlign i (entries k.mem heap.index)[i]
    (hSize k.mem (entries k.mem heap.index)[i]) heap.index k.mem
  generalize alignHole pageAlign i _ _ _ _ = placed at hplaced
  obtain ⟨⟨pos, s⟩, index, m⟩ := placed
  obtain ⟨r, hr⟩ := placeBlock_returns (hplaced.trans hless) pos s size' n' heap.endAddress m
  dsimp only
  rw [hr]
  exact ⟨_, _, rfl⟩

/-- Once the loop of `expand` has mapped the pages, `expand` moves the end, and one of the two functions gives the
new memory to a hole. -/
theorem allocGrow_returns {ap : KmallocAp} (hk : k.kheap = some heap)
    (hmin : heap.startAddress + HEAP_MIN_SIZE ≤ heap.endAddress) (htop : heap.maxAddress ≤ 0xE0000000)
    (hless : heap.index.lessThan = some headerTLessThan) (hn : 20 ≤ n) (hmax : grownEnd heap n ≤ heap.maxAddress)
    (hloop : expandLoop ap (grownEnd heap n - heap.startAddress) ((grownEnd heap n - heap.endAddress + 0xFFF) / 0x1000)
      (heap.endAddress - heap.startAddress) k = .ok k1)
    (hk1 : k1.kheap = some heap) (hl : entries k1.mem heap.index = l) (hpos : ∀ b ∈ l, 0 < b) :
    ∃ k2, allocGrow ap n k = .ok k2 ∧
      ((l = [] ∧ addLastHole heap.endAddress (grownEnd heap n - heap.endAddress)
          (k1.withHeap (heap.withEnd (grownEnd heap n))) = .ok k2) ∨
        ∃ r, ∃ _ : r < l.length, growHole r (grownEnd heap n - heap.endAddress)
          (k1.withHeap (heap.withEnd (grownEnd heap n))) = .ok k2) := by
  obtain ⟨hround, hwrap⟩ := grownEnd_eq hmin htop hmax
  simp only [HEAP_MIN_SIZE] at hmin
  obtain ⟨o, ho⟩ : ∃ o, o = heap.endAddress - heap.startAddress := ⟨_, rfl⟩
  rw [← ho] at hround hloop
  have hnew := roundUp_eq (n := o + n) (by omega) (by omega)
  have hlength : sub32 heap.endAddress heap.startAddress = o := by
    rw [ho]
    exact sub32_of_le (by omega) (by omega)
  have hsize : roundUp (o + n) = grownEnd heap n - heap.startAddress := by omega
  have hpages : roundUp (o + n) - o = grownEnd heap n - heap.endAddress := by omega
  have hexpand : expand ap (o + n) k = .ok (k1.withHeap (heap.withEnd (grownEnd heap n))) := by
    have hgrows : o + n > o := by omega
    have hadd : add32 heap.startAddress (roundUp (o + n)) = grownEnd heap n := by
      rw [add32_of_lt (by omega), hround]
    rw [← hsize, ← hpages] at hloop
    unfold expand
    simp only [heapOf_eq hk, ok_bind, hlength, decide_eq_true hgrows, hadd, decide_eq_true hmax, assert,
      if_true, hloop, heapOf_eq hk1]
    rfl
  have hsum : add32 o n = o + n := add32_of_lt (by omega)
  have hgrowth : sub32 (sub32 (grownEnd heap n) heap.startAddress) o = grownEnd heap n - heap.endAddress := by
    have hlong : sub32 (grownEnd heap n) heap.startAddress = grownEnd heap n - heap.startAddress :=
      sub32_of_le (by omega) (by omega)
    rw [hlong, sub32_of_le (by omega) (by omega)]
    omega
  unfold allocGrow
  rw [heapOf_eq hk, ok_bind, hlength]
  dsimp only
  rw [hsum, hexpand, ok_bind, heapOf_eq (Kernel.withHeap_kheap _ _), ok_bind, Heap.withEnd_endAddress,
    Heap.withEnd_startAddress, Heap.withEnd_index, Kernel.withHeap_mem, hgrowth]
  rcases highestScan_all hl hpos with ⟨hscan, hnil⟩ | ⟨r, hr, hscan, -⟩
  · rw [hscan]
    obtain ⟨k2, hadd⟩ := addLastHole_returns (e := heap.endAddress) (g := grownEnd heap n - heap.endAddress)
      (Kernel.withHeap_kheap k1 (heap.withEnd (grownEnd heap n))) hless
    exact ⟨k2, hadd, Or.inl ⟨hnil, hadd⟩⟩
  · rw [hscan]
    have hcount : r < heap.index.size := by
      rw [← hl, entries_length] at hr
      exact hr
    obtain ⟨k2, hgrow⟩ := growHole_returns (g := grownEnd heap n - heap.endAddress)
      (Kernel.withHeap_kheap k1 (heap.withEnd (grownEnd heap n))) hcount
    exact ⟨k2, hgrow, Or.inr ⟨r, hr, hgrow⟩⟩

/-- Where the new pages have their tables and frames, and the index is not empty, `alloc` returns. -/
theorem alloc_grow_returns (h : HeapState k heap ts l) (hne : l ≠ [])
    (hfind : findSmallestHole (size + 20) 0 heap k.mem = none)
    (hmax : grownEnd heap (size + 20) ≤ heap.maxAddress)
    (htables : TablesPresent k heap.endAddress (grownEnd heap (size + 20)))
    (hmapped : ∀ j, heap.endAddress ≤ heap.startAddress + j →
      heap.startAddress + j < grownEnd heap (size + 20) → j % 4096 = 0 → heapFrame k heap j ≠ 0) :
    ∃ p k', alloc (fuel + 2) size 0 k = .ok (p, k') := by
  obtain ⟨-, hwrap⟩ := grownEnd_eq h.minimum h.top hmax
  have hmin := h.minimum
  have hrep := h.represents
  have hstart := h.startAligned
  have hendAligned := h.endAligned
  simp only [HEAP_MIN_SIZE] at hmin
  have hceil := h.top
  have hpos : ∀ b ∈ l, 0 < b := by
    intro b hb
    have := hrep.entry_bounds hb
    have := hrep.start
    omega
  have hlow : heap.startAddress ≤ grownEnd heap (size + 20) := by
    unfold grownEnd
    omega
  have hloop := expandLoop_mapped (kmallocAp (fuel + 1)) (grownEnd heap (size + 20) - heap.startAddress)
    ((grownEnd heap (size + 20) - heap.endAddress + 0xFFF) / 0x1000) (i := heap.endAddress - heap.startAddress)
    h.kheap (by omega) (fun x hl hh => htables x (by omega) (by omega))
    (fun j hl hh => hmapped j (by omega) (by omega)) (by omega)
  obtain ⟨k1, hk1, -⟩ := allocGrow_returns h.kheap h.minimum h.top hrep.lessThan (by omega) hmax hloop h.kheap
    hrep.index hpos
  obtain ⟨g, hkheap, hng, hmem, hsize, hentries⟩ := allocGrow_highest h hne (by omega) hmax htables hk1
  have hk1' : allocGrow (fun sz => kmallocInt (alloc (fuel + 1)) sz 1 true) (size + 20) k = .ok k1 := hk1
  rw [alloc_succ h.kheap (by omega), hfind]
  dsimp only
  rw [hk1', ok_bind, alloc_succ hkheap (by omega)]
  cases hfind1 : findSmallestHole (size + 20) 0 (heap.withEnd (heap.endAddress + g)) k1.mem with
  | none =>
    have hnone := findSmallestHole_none hentries hfind1 _ hmem
    rw [fits, if_neg (by decide), hsize, decide_eq_false_iff_not] at hnone
    omega
  | some j =>
    obtain ⟨hj, _⟩ := findSmallestHole_some hentries hfind1
    refine allocHole_returns 0 hrep.lessThan ?_
    rw [Heap.withEnd_index, hrep.size_eq]
    exact hj

/-! ## Two heaps of one hole and one block -/

/-- The hole is the last tile. -/
def holeLast : Kernel := layoutKernel [live 0x7F000, gap 0x1000] [KHEAP_DATA + 0x7F000]

/-- The block is the last tile. -/
def blockLast : Kernel := layoutKernel [gap 0x1000, live 0x7F000] [KHEAP_DATA]

/-- A request that does not fit the one hole of a heap of 0x80000 bytes returns. -/
theorem one_hole_returns {b : ℕ} (h : HeapState (layoutKernel ts [b]) (layoutHeap ts 1) ts [b])
    (htotal : total Tile.size ts = 0x80000) (hsize : hSize (layoutKernel ts [b]).mem b = 0x1000) :
    findSmallestHole (0x2000 + sizeofHeader + sizeofFooter) 0 (layoutHeap ts 1) (layoutKernel ts [b]).mem =
        none ∧
      grownEnd (layoutHeap ts 1) (0x2000 + sizeofHeader + sizeofFooter) = KHEAP_DATA + 0x83000 ∧
      TablesPresent (layoutKernel ts [b]) (layoutHeap ts 1).endAddress
        (grownEnd (layoutHeap ts 1) (0x2000 + sizeofHeader + sizeofFooter)) ∧
      ∃ p k', alloc 2 0x2000 0 (layoutKernel ts [b]) = .ok (p, k') := by
  have hbig : ∀ t ∈ ts, 20 ≤ t.size := by
    intro t ht
    obtain ⟨pre, post, rfl⟩ := List.append_of_mem ht
    exact (tiles_middle.mp h.represents.tiles).2.1.big
  have hdata : KHEAP_DATA = 0xC0080000 := rfl
  have hend : (layoutHeap ts 1).endAddress = KHEAP_DATA + 0x80000 := by
    rw [← htotal]
    rfl
  have hstart : (layoutHeap ts 1).startAddress = KHEAP_DATA := rfl
  have hgrown : grownEnd (layoutHeap ts 1) (0x2000 + 20) = KHEAP_DATA + 0x83000 := by
    rw [grownEnd, hend, hstart]
    rfl
  have hfind : findSmallestHole (0x2000 + 20) 0 (layoutHeap ts 1) (layoutKernel ts [b]).mem = none := by
    rw [findSmallestHole_eq h.represents.index, List.findIdx?_cons, fits, hsize]
    rfl
  have htables : TablesPresent (layoutKernel ts [b]) (layoutHeap ts 1).endAddress
      (grownEnd (layoutHeap ts 1) (0x2000 + 20)) := by
    rw [hgrown, hend]
    exact fun x hl hh => layoutKernel_tables hbig x (by omega) (by omega)
  refine ⟨hfind, hgrown, htables, alloc_grow_returns h (by simp) hfind ?_ htables ?_⟩
  · rw [hgrown]
    show KHEAP_DATA + 0x83000 ≤ KHEAP_MAX
    decide
  · intro j _ hj _
    rw [hgrown, hstart] at hj
    exact layoutKernel_frames hbig (by omega)

theorem alloc_grow_clear_iff_hole_last : ∃ p k', alloc 2 0x2000 0 holeLast = .ok (p, k') ∧
    ((∃ k1 heap1, allocGrow (kmallocAp 1) (0x2000 + sizeofHeader + sizeofFooter) holeLast = .ok k1 ∧
      GrowsClear k1 k' (layoutHeap [live 0x7F000, gap 0x1000] 1) heap1 [live 0x7F000, gap 0x1000]
        (grownHole (layoutHeap [live 0x7F000, gap 0x1000] 1) [KHEAP_DATA + 0x7F000]) p) ↔
      CanGrow [live 0x7F000, gap 0x1000] [KHEAP_DATA + 0x7F000]) := by
  have h : HeapState holeLast _ [live 0x7F000, gap 0x1000] _ := heapState_pair (by decide) (by decide)
  obtain ⟨hfind, hgrown, htables, p, k', hrun⟩ := one_hole_returns h (by decide)
    h.represents.tiles.2.1.size
  refine ⟨p, k', hrun, alloc_grow_clear_iff h hfind ?_ htables hrun⟩
  rw [hgrown]
  decide

/-- The hole in front of the block gets the memory behind it. -/
theorem alloc_grows_over_block : HeapState blockLast (layoutHeap [gap 0x1000, live 0x7F000] 1)
      [gap 0x1000, live 0x7F000] [KHEAP_DATA] ∧
    ∃ p k', alloc 2 0x2000 0 blockLast = .ok (p, k') ∧
      ¬ ∃ k1 heap1, allocGrow (kmallocAp 1) (0x2000 + sizeofHeader + sizeofFooter) blockLast = .ok k1 ∧
        GrowsClear k1 k' (layoutHeap [gap 0x1000, live 0x7F000] 1) heap1 [gap 0x1000, live 0x7F000]
          (grownHole (layoutHeap [gap 0x1000, live 0x7F000] 1) [KHEAP_DATA]) p := by
  have h : HeapState blockLast (layoutHeap [gap 0x1000, live 0x7F000] 1) [gap 0x1000, live 0x7F000]
      [KHEAP_DATA] :=
    heapState_layout (by simp) (List.Perm.refl _) (by decide) (by decide) (by decide) (by decide)
  obtain ⟨_, hgrown, htables, p, k', hrun⟩ := one_hole_returns h (by decide) h.represents.tiles.1.size
  refine ⟨h, p, k', hrun, ?_⟩
  rintro ⟨k1, heap1, hgrow, hclear⟩
  obtain ⟨g, hkheap, _, hmem, hsize, _⟩ := allocGrow_highest h (by simp) (by decide)
    (by rw [hgrown]; decide) htables hgrow
  obtain rfl := Option.some.inj (hkheap.symm.trans hclear.kheap)
  have hfinish := hclear.finish
  have hold : hSize blockLast.mem KHEAP_DATA = 0x1000 := h.represents.tiles.1.size
  rw [hsize, List.mem_singleton.mp hmem, hold] at hfinish
  simp only [Heap.withEnd_endAddress, layoutHeap, total_cons, total_nil, gap_size, live_size] at hfinish
  omega

end PandaOS

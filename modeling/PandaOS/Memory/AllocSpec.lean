import PandaOS.Memory.HeapIndex

/-! What `alloc` does to the layout. A chosen hole is carved: the block at its front, and what is
left as a smaller hole unless it is too small for one. When no hole fits, the heap is expanded and
its last hole is made larger, or a new hole is made of the new memory. -/
namespace PandaOS
open ByteMemory Word32 Tiling
set_option autoImplicit false
set_option maxHeartbeats 250000

/-- What replaces a hole of size `s` when a block of size `n` is cut from it. -/
def carved (s n : ℕ) : List Tile := if s - n < 20 then [live s] else [live n, gap (s - n)]

/-- The index after the cut, with `lt` the order of the holes. -/
def carvedIndex (lt : ℕ → ℕ → Bool) (i b s n : ℕ) (l : List ℕ) : List ℕ :=
  if s - n < 20 then l.eraseIdx i else insertEntry lt (b + n) (l.eraseIdx i)

variable {m m' : Mem} {k : Kernel} {heap : Heap} {hi : ℕ} {t : Tile} {pre post ts : List Tile}
  {l : List ℕ} {i b s n size pageAlign : ℕ}

theorem total_carved (h : n ≤ s) : total Tile.size (carved s n) = s := by
  unfold carved
  split_ifs with hs
  · simp
  · simp
    omega

theorem holes_carved (b s n : ℕ) : holes b (carved s n) = if s - n < 20 then [] else [b + n] := by
  unfold carved
  split_ifs with hs <;> simp [holes, starts]

theorem lookupOrderedArray_eq (hl : entries m heap.index = l) (hlt : i < l.length) :
    lookupOrderedArray i heap.index m = .ok l[i] := by
  subst hl
  have hi : i < heap.index.size := by simpa using hlt
  simp only [lookupOrderedArray, assert, decide_eq_true hi, entries_getElem]
  rfl

theorem carvedIndex_perm (lt : ℕ → ℕ → Bool) (h : Represents m heap hi (pre ++ t :: post) l)
    (hole : t.hole = true) (hlt : i < l.length) (hget : l[i] = heap.startAddress + total Tile.size pre)
    (hn : n ≤ t.size) :
    (carvedIndex lt i (heap.startAddress + total Tile.size pre) t.size n l).Perm
      (holes heap.startAddress (pre ++ carved t.size n ++ post)) := by
  have hrest : (l.eraseIdx i).Perm (holes heap.startAddress pre ++
      holes (heap.startAddress + total Tile.size pre + t.size) post) := by
    have hcons := List.getElem_cons_eraseIdx_perm hlt
    have hall := h.perm
    rw [holes, starts_append, starts_cons_of hole] at hall
    rw [hget] at hcons
    exact (List.perm_cons _).mp ((hcons.trans hall).trans List.perm_middle)
  rw [holes_middle, total_carved hn, holes_carved, carvedIndex]
  split_ifs with hs
  · simpa using hrest
  · refine (insertEntry_perm _ _ _).trans ((hrest.cons _).trans ?_)
    simpa using List.perm_middle.symm

/-- The two stores that make the block, at the front of the hole. -/
def writeBlock (m : Mem) (b n : ℕ) : Mem := writeFooter (writeHeader m b 0 n) (b + n - 8) b

theorem sameOff_writeBlock (m : Mem) (b : ℕ) (hn : 20 ≤ n) :
    SameOff m (writeBlock m b n) b (b+n) :=
  ((sameOff_writeHeader m b 0 n).mono le_rfl (by omega)).trans
    ((sameOff_writeFooter _ _ b).mono (by omega) (by omega))

theorem tileAt_writeBlock (m : Mem) (hn : 20 ≤ n) (hend : b + n < 4294967296) :
    TileAt (writeBlock m b n) b (live n) := by
  have := tileAt_write m false hn hend
  simpa [writeBlock, live] using this

/-- The hole behind the block, where one is left. -/
def writeRest (m : Mem) (b n s : ℕ) : Mem :=
  writeFooter (writeHeader m (b + n) 1 (s - n)) (b + n + (s - n) - 8) (b + n)

theorem sameOff_writeRest (m : Mem) (b : ℕ) (hs : 20 ≤ s - n) :
    SameOff m (writeRest m b n s) (b+n) (b+s) :=
  ((sameOff_writeHeader m (b+n) 1 (s-n)).mono le_rfl (by omega)).trans
    ((sameOff_writeFooter _ _ (b+n)).mono (by omega) (by omega))

theorem tileAt_writeRest (m : Mem) (hs : 20 ≤ s - n) (hend : b + s < 4294967296) :
    TileAt (writeRest m b n s) (b+n) (gap (s - n)) := by
  have := tileAt_write m true hs (by omega : b + n + (s - n) < 4294967296)
  simpa [writeRest, gap] using this

theorem alignHole_of_aligned {index : OrderedArray} (h : pageAlign = 0 ∨ b % 4096 = 0) :
    alignHole pageAlign i b s index m = ((b, s), removeOrderedArray i index m) := by
  have : ¬ (pageAlign ≠ 0 ∧ b &&& 0x00000FFF ≠ 0) := by
    rw [and_low_page]
    omega
  rw [alignHole, if_neg this]

theorem useHole_eq (hs : size + 20 ≤ s) (hlt : s < 4294967296) :
    useHole size (size + 20) s =
      if s - (size + 20) < 20 then (s - 20, s) else (size, size + 20) := by
  have hsizes : sizeofHeader + sizeofFooter = 20 := rfl
  rw [useHole, sub32_of_le hs hlt, hsizes]
  split_ifs with hsmall
  · have hsize : add32 size (s - (size + 20)) = s - 20 := by
      simp only [add32]
      omega
    rw [hsize]
  · rfl

theorem placeBlock_whole {index : OrderedArray} {e : ℕ} (hs : 20 ≤ s) (hend : b + s < 4294967296) :
    placeBlock b s (s - 20) s e index m = .ok (index, writeBlock m b s) := by
  have hfooter : add32 (add32 b sizeofHeader) (s - 20) = b + s - 8 := by
    simp only [sizeofHeader, add32]
    omega
  have hnone : ¬ sub32 s s > 0 := by
    rw [sub32_self (by omega)]
    omega
  simp only [placeBlock, hfooter, if_neg hnone, writeBlock]

theorem placeBlock_rest {e : ℕ} (index : OrderedArray) (hn : 20 ≤ n) (hs : 20 ≤ s - n)
    (hend : b + s ≤ e) (htop : e < 4294967296) :
    placeBlock b s (n - 20) n e index m =
      insertOrderedArray (b + n) index (writeRest (writeBlock m b n) b n s) := by
  have hfooter : add32 (add32 b sizeofHeader) (n - 20) = b + n - 8 := by
    simp only [sizeofHeader, add32]
    omega
  have hsub : sub32 s n = s - n := sub32_of_le (by omega) (by omega)
  have hrest : add32 (b + n - 8) sizeofFooter = b + n := by
    simp only [sizeofFooter, add32]
    omega
  have hlast : sub32 (sub32 (add32 (b + n) s) n) sizeofFooter = b + n + (s - n) - 8 := by
    simp only [sizeofFooter]
    rw [sub32_add32 (by omega) (by omega) (by omega), sub32_of_le (by omega) (by omega)]
  have hin : b + n + (s - n) - 8 < e := by omega
  have hpos : s - n > 0 := by omega
  simp only [placeBlock, hfooter, hsub, if_pos hpos, hrest, hlast, if_pos hin, writeBlock, writeRest]

/-- Writes inside the heap leave the entries of the index. -/
theorem entries_of_heap_write {a e : ℕ} (index : OrderedArray) (h : Represents m heap hi ts l)
    (harray : index.array = heap.index.array) (hsize : index.size ≤ heap.index.maxSize)
    {m1 m2 : Mem} (hoff : SameOff m1 m2 a e) (ha : heap.startAddress ≤ a) (he : e ≤ hi) :
    entries m2 index = entries m1 index := by
  apply entries_congr
  apply hoff.sameOn
  have := h.apart
  unfold Outside at this
  omega

/-- The hole in place `i` of the index has been removed from it. -/
structure Unhooked (m m1 : Mem) (heap : Heap) (i : ℕ) (l : List ℕ) : Prop where
  index : entries m1 (heap.index.withSize (l.length - 1)) = l.eraseIdx i
  off : SameOff m m1 heap.index.array (heap.index.array + 4*heap.index.maxSize)
  slots : heap.index.size < heap.index.maxSize → CleanSlots m heap.index → CleanSlots m1 heap.index

/-- A block of size `n` has been cut from the hole of size `s` at `b`. The other tiles keep their memory. -/
structure Cut (m m' : Mem) (heap : Heap) (hi i b s n : ℕ) (pre post : List Tile) (l : List ℕ) : Prop where
  represents : Represents m' (heap.withCount (carvedIndex (headerTLessThan m') i b s n l).length) hi
    (pre ++ carved s n ++ post) (carvedIndex (headerTLessThan m') i b s n l)
  touch : HeapTouch heap.index m m' b (b + s)
  clean : CleanIndex m heap →
    CleanIndex m' (heap.withCount (carvedIndex (headerTLessThan m') i b s n l).length)

/-- What `allocHole` does for an aligned request, or for one that need not be: the removal, and then the block. -/
theorem allocHole_unhooks (h : Represents k.mem heap hi (pre ++ t :: post) l) (hlt : i < l.length) (hget : l[i] = b)
    (htile : TileAt k.mem b t) (hend : b + t.size < 4294967296) (hsize : size + 20 ≤ t.size)
    (halign : pageAlign = 0 ∨ b % 4096 = 0) :
    ∃ m1, Unhooked k.mem m1 heap i l ∧ allocHole size (size + 20) pageAlign i heap k = (do
      let (index, m) ← placeBlock b t.size (if t.size - (size + 20) < 20 then t.size - 20 else size)
        (if t.size - (size + 20) < 20 then t.size else size + 20) heap.endAddress
        (heap.index.withSize (l.length - 1)) m1
      return (b + 12, (k.withMem m).withHeap { heap with index := index })) := by
  have hibound := h.indexBound
  obtain ⟨m1, hremove, hentries, hoff, hclean⟩ := removeOrderedArray_index h.index hlt h.capacity (by omega)
  have hp : add32 b sizeofHeader = b + 12 := add32_of_lt (by simp only [sizeofHeader]; omega)
  refine ⟨m1, ⟨hentries, hoff, hclean⟩, ?_⟩
  simp only [allocHole, lookupOrderedArray_eq h.index hlt, ok_bind, hget, htile.size,
    useHole_eq hsize (by omega), alignHole_of_aligned halign, hremove, hp]
  split_ifs <;> rfl

/-- The block takes the whole hole. -/
theorem Unhooked.cut_whole {m1 : Mem} (hu : Unhooked m m1 heap i l)
    (h : Represents m heap hi (pre ++ t :: post) l) (hole : t.hole = true) (hlt : i < l.length) (hget : l[i] = b)
    (hb : b = heap.startAddress + total Tile.size pre) (hn : n ≤ t.size) (hsmall : t.size - n < 20) :
    Cut m (writeBlock m1 b t.size) heap hi i b t.size n pre post l := by
  have htile := (tiles_middle.mp h.tiles).2.1
  rw [← hb] at htile
  have hbig := htile.big
  have hend := h.end_eq
  simp only [total_append, total_cons] at hend
  have htop := h.top
  have hbound := h.bound
  have hcount := h.size_eq
  have hcap := h.capacity
  have happart := h.apart
  unfold Outside at happart
  have h' : Represents m heap hi (pre ++ [t] ++ post) l := by simpa using h
  have herase : (l.eraseIdx i).length = l.length - 1 := List.length_eraseIdx_of_lt hlt
  have hoff := sameOff_writeBlock m1 b hbig
  have htouch : HeapTouch heap.index m (writeBlock m1 b t.size) b (b + t.size) :=
    (HeapTouch.of_index hu.off).trans (HeapTouch.of_sameOff hoff)
  refine ⟨?_, htouch, fun hclean => ?_⟩
  · have hmid : Tiles Tile.size (TileAt (writeBlock m1 b t.size)) b (carved t.size n) (b + t.size) := by
      rw [carved, if_pos hsmall]
      exact ⟨tileAt_writeBlock m1 hbig (by omega), rfl⟩
    have hperm := carvedIndex_perm (headerTLessThan m1) h hole hlt (hget.trans hb) hn
    simp only [carvedIndex, if_pos hsmall] at hperm ⊢
    subst hb
    refine h'.replace (by simpa using hmid) (by simpa using htouch) ?_ hperm (by rw [herase]; omega)
    rw [herase, ← hu.index]
    exact entries_of_heap_write (heap.index.withSize (l.length - 1)) h rfl
      (by simp only [OrderedArray.withSize_size]; omega) hoff (by omega) (by omega)
  · have hroom := hclean.room
    refine ⟨?_, hclean.above, ?_⟩
    · simp only [carvedIndex, if_pos hsmall, Heap.withCount_size, Heap.withCount_maxSize]
      omega
    · intro j (hj : j < heap.index.maxSize)
      have hslot := hu.slots hclean.room hclean.slots j hj
      rwa [← hoff.load32_eq (by unfold slot; omega)] at hslot

/-- The rest of the hole is a hole of its own, and is entered in the index. -/
theorem Unhooked.cut_rest {m1 : Mem} (hu : Unhooked m m1 heap i l)
    (h : Represents m heap hi (pre ++ t :: post) l) (hole : t.hole = true) (hlt : i < l.length) (hget : l[i] = b)
    (hb : b = heap.startAddress + total Tile.size pre) (hn : 20 ≤ n) (hrest : 20 ≤ t.size - n) :
    ∃ m', insertOrderedArray (b + n) (heap.index.withSize (l.length - 1)) (writeRest (writeBlock m1 b n) b n t.size) =
        .ok (heap.index.withSize (carvedIndex (headerTLessThan m') i b t.size n l).length, m') ∧
      Cut m m' heap hi i b t.size n pre post l := by
  have hend := h.end_eq
  simp only [total_append, total_cons] at hend
  have htop := h.top
  have hbound := h.bound
  have hcount := h.size_eq
  have hcap := h.capacity
  have hibound := h.indexBound
  have happart := h.apart
  unfold Outside at happart
  have h' : Represents m heap hi (pre ++ [t] ++ post) l := by simpa using h
  have herase : (l.eraseIdx i).length = l.length - 1 := List.length_eraseIdx_of_lt hlt
  have hlarge : ¬ t.size - n < 20 := by omega
  have hoff2 := sameOff_writeBlock m1 b hn
  have hoff3 := sameOff_writeRest (writeBlock m1 b n) b hrest
  have hoff := (hoff2.mono le_rfl (by omega : b + n ≤ b + t.size)).trans (hoff3.mono (by omega) le_rfl)
  obtain ⟨m2, hm2⟩ : ∃ m2, m2 = writeRest (writeBlock m1 b n) b n t.size := ⟨_, rfl⟩
  rw [← hm2] at hoff3 hoff ⊢
  obtain ⟨index1, hindex1⟩ : ∃ x, x = heap.index.withSize (l.length - 1) := ⟨_, rfl⟩
  have hmax1 : index1.maxSize = heap.index.maxSize := by rw [hindex1]; rfl
  have hsize1 : index1.size = l.length - 1 := by rw [hindex1]; rfl
  have harray1 : index1.array = heap.index.array := by rw [hindex1]; rfl
  have hentries := hu.index
  rw [← hindex1] at hentries ⊢
  have hentries2 : entries m2 index1 = l.eraseIdx i :=
    (entries_of_heap_write _ h harray1 (by omega) hoff (by omega) (by omega)).trans hentries
  obtain ⟨m3, hinsert, hentries3, hoff4, hclean3⟩ :=
    insertOrderedArray_index (b + n) (by rw [hindex1]; exact h.lessThan) hentries2 (by omega) (by omega) (by omega)
  rw [harray1, hmax1] at hoff4
  have hsame : SameOn m2 m3 heap.startAddress hi := hoff4.sameOn (by omega)
  -- the insertion does not change the sizes it compares
  have horder : insertEntry (headerTLessThan m2) (b + n) (l.eraseIdx i) =
      insertEntry (headerTLessThan m3) (b + n) (l.eraseIdx i) := by
    apply insertEntry_congr
    intro x hx
    have hxb := h.entry_bounds (List.mem_of_mem_eraseIdx hx)
    rw [headerTLessThan, headerTLessThan, hSize_congr hsame hxb.1 (by omega),
      hSize_congr hsame (by omega) (by omega)]
  rw [horder] at hentries3
  have hindexed : carvedIndex (headerTLessThan m3) i b t.size n l =
      insertEntry (headerTLessThan m3) (b + n) (l.eraseIdx i) := if_neg hlarge
  have hlength : (carvedIndex (headerTLessThan m3) i b t.size n l).length = (l.eraseIdx i).length + 1 := by
    rw [hindexed, (insertEntry_perm _ _ _).length_eq, List.length_cons]
  have htouch : HeapTouch heap.index m m3 b (b + t.size) :=
    ((HeapTouch.of_index hu.off).trans (HeapTouch.of_sameOff hoff)).trans (HeapTouch.of_index hoff4)
  refine ⟨m3, ?_, ?_, htouch, fun hclean => ?_⟩
  · rw [hlength, hinsert, hindex1]
    rfl
  · have hmid : Tiles Tile.size (TileAt m3) b (carved t.size n) (b + t.size) := by
      have hstart : SameOn m2 m3 b (b + t.size) := hsame.mono (by omega) (by omega)
      have hblock : TileAt m2 b (live n) :=
        (tileAt_writeBlock m1 hn (by omega)).congr (hoff3.sameOn (Or.inl le_rfl)) le_rfl le_rfl
      have hgap : TileAt m2 (b + n) (gap (t.size - n)) := by
        rw [hm2]
        exact tileAt_writeRest _ hrest (by omega)
      rw [carved, if_neg hlarge]
      refine ⟨hblock.congr hstart le_rfl (by simp only [live_size]; omega),
        hgap.congr hstart (by omega) (by simp only [gap_size]; omega), ?_⟩
      simp only [Tiles, live_size, gap_size]
      omega
    have hentries' : entries m3 (heap.withCount (carvedIndex (headerTLessThan m3) i b t.size n l).length).index =
        carvedIndex (headerTLessThan m3) i b t.size n l := by
      rw [hlength, hindexed, ← hentries3, hindex1]
      rfl
    have hperm := carvedIndex_perm (headerTLessThan m3) h hole hlt (hget.trans hb) (by omega : n ≤ t.size)
    subst hb
    exact h'.replace (by simpa using hmid) (by simpa using htouch) hentries' hperm (by omega)
  · have habove := hclean.above
    have hroom := hclean.room
    have hslots := hu.slots hclean.room hclean.slots
    have hslots2 : CleanSlots m2 index1 := by
      intro j hj
      have hslot : slot index1 j = slot heap.index j := by rw [hindex1]; rfl
      rw [hslot, hoff.load32_eq (by unfold slot; omega)]
      exact hslots j (by omega)
    have hslots3 := hclean3 (by omega) hslots2
    rw [hindex1] at hslots3
    refine ⟨?_, habove, hslots3⟩
    rw [hlength]
    simp only [Heap.withCount_size, Heap.withCount_maxSize]
    omega

/-- A block is cut from the hole at `b`. -/
theorem allocHole_spec (h : Represents k.mem heap hi (pre ++ t :: post) l) (hole : t.hole = true)
    (hlt : i < l.length) (hget : l[i] = b) (hb : b = heap.startAddress + total Tile.size pre)
    (hsize : size + 20 ≤ t.size) (halign : pageAlign = 0 ∨ b % 4096 = 0) :
    ∃ m', allocHole size (size + 20) pageAlign i heap k =
        .ok (b + 12, (k.withMem m').withHeap
          (heap.withCount (carvedIndex (headerTLessThan m') i b t.size (size + 20) l).length)) ∧
      Cut k.mem m' heap hi i b t.size (size + 20) pre post l := by
  have htile := (tiles_middle.mp h.tiles).2.1
  rw [← hb] at htile
  have hend := h.end_eq
  simp only [total_append, total_cons] at hend
  have htop := h.top
  have hbound := h.bound
  obtain ⟨m1, hu, hrun⟩ := allocHole_unhooks h hlt hget htile (by omega) hsize halign
  by_cases hsmall : t.size - (size + 20) < 20
  · refine ⟨writeBlock m1 b t.size, ?_, hu.cut_whole h hole hlt hget hb hsize hsmall⟩
    have herase : (l.eraseIdx i).length = l.length - 1 := List.length_eraseIdx_of_lt hlt
    rw [hrun, if_pos hsmall, if_pos hsmall, placeBlock_whole htile.big (by omega)]
    simp only [carvedIndex, if_pos hsmall, herase]
    rfl
  · obtain ⟨m', hinsert, hcut⟩ := hu.cut_rest h hole hlt hget hb (n := size + 20) (by omega) (by omega)
    refine ⟨m', ?_, hcut⟩
    have hplace := placeBlock_rest (m := m1) (n := size + 20) (b := b) (s := t.size)
      (heap.index.withSize (l.length - 1)) (by omega) (by omega) (by omega : b + t.size ≤ heap.endAddress) (by omega)
    rw [Nat.add_sub_cancel, hinsert] at hplace
    rw [hrun, if_neg hsmall, if_neg hsmall, hplace]
    rfl

/-! ## Growing the heap -/

/-- How the heap grows at its end `e`. The tiles `old` behind `pre` make one hole with the new
memory: none where the index was empty, else the last tile, a hole. -/
inductive Grown (e : ℕ) (pre : List Tile) : List Tile → List ℕ → List ℕ → Prop
  | fresh : Grown e pre [] [] [e]
  | last {t : Tile} {l : List ℕ} : l ≠ [] → t.hole = true → Grown e pre [t] l l

/-- The index is empty, or the last tile is a hole. -/
def CanGrow (ts : List Tile) (l : List ℕ) : Prop :=
  l = [] ∨ ∃ pre t, ts = pre ++ [t] ∧ t.hole = true

/-- The highest entry of the index is the last tile, if that is a hole. -/
theorem highest_last (h : Represents m heap hi (pre ++ [t]) l) (hole : t.hole = true) (hlt : i < l.length)
    (hmax : ∀ b ∈ l, b ≤ l[i]) : l[i] = heap.startAddress + total Tile.size pre := by
  have hlast : heap.startAddress + total Tile.size pre ∈ l :=
    h.perm.mem_iff.mpr (mem_starts.mpr ⟨t, at_middle Tile.size heap.startAddress pre t [], hole⟩)
  refine le_antisymm ?_ (hmax _ hlast)
  obtain ⟨u, hat, _⟩ := mem_starts.mp (h.perm.mem_iff.mp (List.getElem_mem hlt))
  rcases at_append.mp hat with hpre | hpost
  · have := hpre.bounds
    omega
  · rcases hpost with ⟨heq, _⟩ | hnil
    · exact heq.le
    · exact hnil.elim

/-- A hole of the `g` bytes from `e` on is written and entered in the empty index. -/
theorem addLastHole_spec {e g : ℕ} (heap : Heap) (hk : k.kheap = some heap) (hl : entries k.mem heap.index = [])
    (hless : heap.index.lessThan = some headerTLessThan) (hg : 20 ≤ g) (hend : e + g < 4294967296)
    (hmax : 0 < heap.index.maxSize) (hbound : heap.index.maxSize < 4294967296)
    (hindex : heap.index.array + 4*heap.index.maxSize ≤ e) :
    ∃ m', addLastHole e g k = .ok ((k.withMem m').withHeap (heap.withCount 1)) ∧
      TileAt m' e (gap g) ∧ HeapTouch heap.index k.mem m' e (e + g) ∧
      entries m' (heap.withCount 1).index = [e] ∧
      (e ≠ HEAP_MAGIC → CleanSlots k.mem heap.index → CleanSlots m' heap.index) := by
  have hsize : heap.index.size = 0 := by
    have := congrArg List.length hl
    simpa using this
  obtain ⟨m1, hm1⟩ : ∃ m1, m1 = writeFooter (writeHeader k.mem e 1 g) (e + g - 8) e := ⟨_, rfl⟩
  have htile : TileAt m1 e (gap g) := by
    have := tileAt_write k.mem true hg hend
    rw [hm1]
    simpa [gap] using this
  have hoff : SameOff k.mem m1 e (e + g) := by
    rw [hm1]
    exact ((sameOff_writeHeader k.mem e 1 g).mono le_rfl (by omega)).trans
      ((sameOff_writeFooter _ _ e).mono (by omega) (by omega))
  have hentries : entries m1 heap.index = [] :=
    (entries_congr (hoff.sameOn (by omega))).trans hl
  obtain ⟨m2, hinsert, hentries2, hoff2, hclean⟩ :=
    insertOrderedArray_index e hless hentries (by omega) (by simpa using hmax) hbound
  refine ⟨m2, ?_, ?_, ?_, ?_, ?_⟩
  · have hfooter : sub32 (add32 e (hSize (writeHeader k.mem e 1 g) e)) sizeofFooter = e + g - 8 := by
      rw [hSize_writeHeader _ _ _ (by omega), add32_of_lt hend]
      exact sub32_of_le (by simp only [sizeofFooter]; omega) hend
    simp only [addLastHole, heapOf_eq hk, ok_bind, setIsHole_setSize, hfooter, ← hm1, hinsert]
    rfl
  · exact htile.congr (hoff2.sameOn (Or.inr hindex)) le_rfl le_rfl
  · exact (HeapTouch.of_sameOff hoff).trans (HeapTouch.of_index hoff2)
  · exact hentries2
  · intro hne hslots
    refine hclean hne fun j hj => ?_
    rw [hoff.load32_eq (by unfold slot; omega)]
    exact hslots j hj

theorem growHole_eq {g : ℕ} (hk : k.kheap = some heap) (hl : entries k.mem heap.index = l)
    (hlt : i < l.length) (hget : l[i] = b) (hs : hSize k.mem b = s) (hbig : 8 ≤ s)
    (hend : b + (s + g) < 4294967296) :
    growHole i g k = .ok (k.withMem (writeFooter (setSize k.mem b (s + g)) (b + (s + g) - 8) b)) := by
  have hsize : add32 s g = s + g := add32_of_lt (by omega)
  have hfooter : sub32 (add32 b (s + g)) sizeofFooter = b + (s + g) - 8 := by
    rw [add32_of_lt hend]
    exact sub32_of_le (by simp only [sizeofFooter]; omega) hend
  simp only [growHole, heapOf_eq hk, ok_bind, lookupOrderedArray_eq hl hlt, hget, hs, hsize,
    hSize_setSize (by omega : s + g < 4294967296), hfooter, setMagic_setHeader]
  rfl

/-- The hole in place `i` of the index, at `b`, is made `g` bytes larger. -/
theorem growHole_spec {g : ℕ} (hk : k.kheap = some heap) (hl : entries k.mem heap.index = l)
    (hlt : i < l.length) (hget : l[i] = b) (htile : TileAt k.mem b t) (hole : t.hole = true)
    (hend : b + (t.size + g) < 4294967296) :
    ∃ m', growHole i g k = .ok (k.withMem m') ∧ TileAt m' b (gap (t.size + g)) ∧
      SameOff k.mem m' b (b + (t.size + g)) := by
  have hbig := htile.big
  exact ⟨_, growHole_eq hk hl hlt hget htile.size (by omega) hend, tileAt_resize htile hole (by omega) hend,
    sameOff_resize (by omega)⟩

/-- The state between the expansion and the write of the last hole. -/
structure Expanded (k k2 : Kernel) (heap : Heap) (lo hi e : ℕ) (l : List ℕ) : Prop where
  kheap : k2.kheap = some (heap.withEnd e)
  window : SameOn k.mem k2.mem lo hi
  entries : entries k2.mem heap.index = l
  slots : CleanSlots k2.mem heap.index
  paged : Paged k2 lo hi
  frame : ∀ a b, Frame k k2 heap.index lo hi a b

/-- What growing by `g` bytes leads to. -/
structure GrownTo (k k' : Kernel) (heap : Heap) (lo hi g : ℕ) (pre old : List Tile) (l' : List ℕ) :
    Prop where
  kheap : k'.kheap = some ((heap.withEnd (heap.endAddress + g)).withCount l'.length)
  represents : Represents k'.mem ((heap.withEnd (heap.endAddress + g)).withCount l'.length) hi
    (pre ++ [gap (total Tile.size old + g)]) l'
  frame : Frame k k' heap.index lo hi (heap.startAddress + total Tile.size pre) (heap.endAddress + g)
  clean : CleanIndex k'.mem ((heap.withEnd (heap.endAddress + g)).withCount l'.length)

variable {lo g : ℕ} {k2 k' : Kernel}

theorem grow_fresh (h : Represents k.mem heap hi ts []) (hclean : CleanIndex k.mem heap)
    (htwo : 1 < heap.index.maxSize)
    (hex : Expanded k k2 heap lo hi (heap.endAddress + g) []) (hg : 20 ≤ g)
    (hindex : lo ≤ heap.index.array ∧ heap.index.array + 4*heap.index.maxSize ≤ heap.startAddress)
    (hin : heap.endAddress + g ≤ hi) (hrun : addLastHole heap.endAddress g k2 = .ok k') :
    GrownTo k k' heap lo hi g ts [] [heap.endAddress] := by
  have hend := h.end_eq
  have hbound := h.bound
  have hroom := hclean.room
  have habove := hclean.above
  have hibound := h.indexBound
  obtain ⟨m', hadd, htile, hheap, hentries', hslots⟩ :=
    addLastHole_spec (heap.withEnd (heap.endAddress + g)) (e := heap.endAddress) (g := g)
      hex.kheap hex.entries h.lessThan hg (by omega) (by simp only [Heap.withEnd_index]; omega)
      (by simp only [Heap.withEnd_index]; omega) (by simp only [Heap.withEnd_index]; omega)
  have hk' := hadd.symm.trans hrun
  cases hk'
  simp only [Heap.withEnd_index] at hheap hslots
  have hwrites := Frame.of_touch _ hex.paged hheap ((heap.withEnd (heap.endAddress + g)).withCount 1)
    ⟨hindex.1, by omega⟩ (by omega) hin
  have hframe := (hex.frame _ _).trans hwrites
  have hsame : SameOn k.mem m' heap.startAddress heap.endAddress :=
    hframe.sameOn (by omega) (by omega) (Or.inl (by omega)) (Or.inl le_rfl)
  refine ⟨rfl, ?_, by rwa [← hend], ?_⟩
  · have htiles : Tiles Tile.size (TileAt m') heap.startAddress
        (ts ++ [gap (total Tile.size [] + g)]) (heap.endAddress + g) := by
      refine tiles_append.mpr ⟨?_, ?_⟩
      · rw [← hend]
        exact tiles_congr h.tiles hsame le_rfl le_rfl
      · rw [← hend, total_nil, Nat.zero_add]
        exact ⟨htile, rfl⟩
    have hnone : holes heap.startAddress ts = [] := List.nil_perm.mp h.perm
    have hperm : [heap.endAddress].Perm
        (holes heap.startAddress (ts ++ [gap (total Tile.size [] + g)])) := by
      rw [holes, starts_append, ← holes, hnone, ← hend]
      exact List.Perm.refl _
    exact ⟨htiles, hentries', hperm, h.lessThan, by simp; omega, h.apart, hin, hbound, hibound, h.start⟩
  · exact ⟨htwo, habove, hslots (by omega) hex.slots⟩

theorem grow_last (h : Represents k.mem heap hi (pre ++ [t]) l) (hole : t.hole = true)
    (hclean : CleanIndex k.mem heap) (hex : Expanded k k2 heap lo hi (heap.endAddress + g) l)
    (hindex : lo ≤ heap.index.array ∧ heap.index.array + 4*heap.index.maxSize ≤ heap.startAddress)
    (hin : heap.endAddress + g ≤ hi) (hlt : i < l.length)
    (hget : l[i] = heap.startAddress + total Tile.size pre)
    (hrun : growHole i g k2 = .ok k') : GrownTo k k' heap lo hi g pre [t] l := by
  have hend := h.end_eq
  simp only [total_append, total_cons, total_nil] at hend
  have hbound := h.bound
  have hsize := h.size_eq
  have hwindow : SameOn k.mem k2.mem heap.startAddress hi := hex.window.mono (by omega) le_rfl
  have hlast := (tiles_middle.mp h.tiles).2.1
  obtain ⟨b, hb⟩ : ∃ b, b = heap.startAddress + total Tile.size pre := ⟨_, rfl⟩
  rw [← hb] at hget hlast
  obtain ⟨m', hgrow, htile, hoff⟩ := growHole_spec (g := g) hex.kheap hex.entries hlt hget
    (hlast.congr hwindow (by omega) (by omega)) hole (by omega)
  have hk' := hgrow.symm.trans hrun
  cases hk'
  have hwrites := Frame.of_touch heap.index hex.paged (HeapTouch.of_sameOff hoff)
    (heap.withEnd (heap.endAddress + g)) ⟨hindex.1, by omega⟩ (by omega) (by omega)
  have hheap : (k2.withMem m').withHeap (heap.withEnd (heap.endAddress + g)) = k2.withMem m' :=
    Kernel.withHeap_self hex.kheap
  rw [hheap] at hwrites
  have hframe := ((hex.frame _ _).trans hwrites).mono le_rfl
    (by omega : b + (t.size + g) ≤ heap.endAddress + g)
  have hcount : (heap.withEnd (heap.endAddress + g)).withCount l.length =
      heap.withEnd (heap.endAddress + g) := by
    rw [← hsize]
    rfl
  rw [hb] at hframe
  refine ⟨?_, ?_, hframe, ?_⟩
  · rw [hcount]
    exact hex.kheap
  · have hsame : SameOn k.mem m' heap.startAddress b := by
      rw [← hb] at hframe
      exact hframe.sameOn (by omega) (by omega) (Or.inl (by omega)) (Or.inl le_rfl)
    have htiles : Tiles Tile.size (TileAt m') heap.startAddress
        (pre ++ [gap (total Tile.size [t] + g)]) (heap.endAddress + g) := by
      refine tiles_append.mpr ⟨?_, ?_⟩
      · exact tiles_congr (tiles_append.mp h.tiles).1 hsame le_rfl hb.ge
      · rw [← hb, total_cons, total_nil, Nat.add_zero]
        refine ⟨htile, ?_⟩
        simp only [Tiles, gap_size]
        omega
    have hperm : l.Perm (holes heap.startAddress (pre ++ [gap (total Tile.size [t] + g)])) := by
      have := h.perm
      rw [holes, starts_append, starts_cons_of hole] at this
      rwa [holes, starts_append, starts_cons_of (gap_hole _)]
    have hentries : entries m' heap.index = l := by
      rw [← hex.entries]
      have := h.capacity
      exact entries_congr (hoff.sameOn (Or.inl (by omega)))
    rw [hcount]
    exact ⟨htiles, hentries, hperm, h.lessThan, h.capacity, h.apart, hin, hbound, h.indexBound, h.start⟩
  · rw [hcount]
    refine ⟨hclean.room, hclean.above, fun j (hj : j < heap.index.maxSize) => ?_⟩
    have hslot := hex.slots j hj
    rwa [← hoff.load32_eq (by unfold slot; omega)] at hslot

/-- The expansion, and which of the two functions then gives the new memory to a hole. -/
theorem allocGrow_expands {kmallocAp : KmallocAp} (hk : k.kheap = some heap) (hl : entries k.mem heap.index = l)
    (hpos : ∀ b ∈ l, 0 < b) (hpaged : Paged k lo hi)
    (hindex : lo ≤ heap.index.array ∧ heap.index.array + 4*heap.index.size ≤ hi)
    (hold : heap.startAddress + 4096 ≤ heap.endAddress) (hwrap : heap.endAddress + n + 4096 < 4294967296)
    (htables : TablesPresent k heap.endAddress
      (heap.startAddress + roundUp (heap.endAddress - heap.startAddress + n)))
    (hrun : allocGrow kmallocAp n k = .ok k') :
    ∃ g k1, heap.endAddress + g =
        heap.startAddress + roundUp (heap.endAddress - heap.startAddress + n) ∧
      n ≤ g ∧ g ≤ n + 4096 ∧ heap.endAddress + g ≤ heap.maxAddress ∧ PageTouch k k1 lo hi ∧
      ((l = [] ∧ addLastHole heap.endAddress g (k1.withHeap (heap.withEnd (heap.endAddress + g))) = .ok k') ∨
        ∃ r, ∃ hr : r < l.length, (∀ b ∈ l, b ≤ l[r]) ∧
          growHole r g (k1.withHeap (heap.withEnd (heap.endAddress + g))) = .ok k') := by
  obtain ⟨o, ho⟩ : ∃ o, o = heap.endAddress - heap.startAddress := ⟨_, rfl⟩
  have hlength : sub32 heap.endAddress heap.startAddress = o := by
    rw [ho]
    exact sub32_of_le (by omega) (by omega)
  rw [← ho] at htables ⊢
  have hround := roundUp_eq (n := o + n) (by omega) (by omega)
  obtain ⟨g, hg⟩ : ∃ g, g = roundUp (o + n) - o := ⟨_, rfl⟩
  unfold allocGrow at hrun
  rw [heapOf_eq hk, ok_bind, hlength] at hrun
  dsimp only at hrun
  rw [add32_of_lt (by omega : o + n < 4294967296)] at hrun
  obtain ⟨k2, hexpand, hrest⟩ := bind_eq_ok.mp hrun
  obtain ⟨k1, rfl, htouch, hfits, _⟩ := expand_spec hk hpaged (by omega) (by omega)
    (by omega : 4096 ≤ o + n) (by omega) htables hexpand
  have hnewEnd : heap.startAddress + roundUp (o + n) = heap.endAddress + g := by omega
  have hgrowth : sub32 (sub32 (heap.endAddress + g) heap.startAddress) o = g := by
    have hnewLength : sub32 (heap.endAddress + g) heap.startAddress = o + g := by
      rw [sub32_of_le (by omega) (by omega)]
      omega
    rw [hnewLength, sub32_of_le (by omega) (by omega), Nat.add_sub_cancel_left]
  rw [hnewEnd] at hrest hfits
  have hentries : entries k1.mem heap.index = l := by
    rw [← hl]
    exact entries_congr (htouch.window.mono hindex.1 hindex.2)
  rw [heapOf_eq (rfl : (k1.withHeap (heap.withEnd (heap.endAddress + g))).kheap = _), ok_bind] at hrest
  dsimp only [Heap.withEnd_endAddress, Heap.withEnd_startAddress, Heap.withEnd_index] at hrest
  rw [hgrowth] at hrest
  refine ⟨g, k1, hnewEnd.symm, by omega, by omega, hfits, htouch, ?_⟩
  have hentries' : entries (k1.withHeap (heap.withEnd (heap.endAddress + g))).mem heap.index = l := hentries
  rcases highestScan_all hentries' hpos with ⟨hscan, hnil⟩ | ⟨r, hr, hscan, hhigh⟩
  · rw [hscan] at hrest
    exact Or.inl ⟨hnil, hrest⟩
  · rw [hscan] at hrest
    exact Or.inr ⟨r, hr, hhigh, hrest⟩

/-- The heap with its layout, after the expansion. -/
theorem allocGrow_expanded {kmallocAp : KmallocAp} (hk : k.kheap = some heap)
    (h : Represents k.mem heap hi ts l) (hpaged : Paged k lo hi)
    (hindex : lo ≤ heap.index.array ∧ heap.index.array + 4*heap.index.maxSize ≤ heap.startAddress)
    (hclean : CleanIndex k.mem heap) (hold : 4096 ≤ heap.endAddress - heap.startAddress)
    (hwrap : heap.endAddress + n + 4096 < 4294967296)
    (htables : TablesPresent k heap.endAddress
      (heap.startAddress + roundUp (heap.endAddress - heap.startAddress + n)))
    (hrun : allocGrow kmallocAp n k = .ok k') :
    ∃ g k2, heap.endAddress + g =
        heap.startAddress + roundUp (heap.endAddress - heap.startAddress + n) ∧
      n ≤ g ∧ g ≤ n + 4096 ∧ heap.endAddress + g ≤ heap.maxAddress ∧
      Expanded k k2 heap lo hi (heap.endAddress + g) l ∧
      ((l = [] ∧ addLastHole heap.endAddress g k2 = .ok k') ∨
        ∃ r, ∃ hr : r < l.length, (∀ b ∈ l, b ≤ l[r]) ∧ growHole r g k2 = .ok k') := by
  have hend := h.end_eq
  have htop := h.top
  have hcapacity := h.capacity
  have hpos : ∀ b ∈ l, 0 < b := by
    intro b hb
    have := h.entry_bounds hb
    have := h.start
    omega
  obtain ⟨g, k1, hg, hng, hgn, hfits, htouch, hcases⟩ := allocGrow_expands hk h.index hpos hpaged
    ⟨hindex.1, by omega⟩ (by omega) hwrap htables hrun
  have hframe := Frame.of_page heap.index htouch (heap.withEnd (heap.endAddress + g))
  refine ⟨g, k1.withHeap (heap.withEnd (heap.endAddress + g)), hg, hng, hgn, hfits,
    ⟨rfl, htouch.window, ?_, ?_, (hframe 0 0).paged hpaged, hframe⟩, hcases⟩
  · rw [← h.index]
    exact entries_congr (htouch.window.mono hindex.1 (by omega))
  · intro j hj
    have hslot := hclean.slots j hj
    rwa [← htouch.window.load32_eq (by unfold slot; omega) (by unfold slot; omega)] at hslot

theorem allocGrow_spec {kmallocAp : KmallocAp} (hk : k.kheap = some heap)
    (h : Represents k.mem heap hi ts l) (hpaged : Paged k lo hi) (hmax : heap.maxAddress ≤ hi)
    (hindex : lo ≤ heap.index.array ∧ heap.index.array + 4*heap.index.maxSize ≤ heap.startAddress)
    (hclean : CleanIndex k.mem heap) (htwo : 1 < heap.index.maxSize) (hn : 20 ≤ n)
    (hold : 4096 ≤ heap.endAddress - heap.startAddress)
    (hwrap : heap.endAddress + n + 4096 < 4294967296) (hgrow : CanGrow ts l)
    (htables : TablesPresent k heap.endAddress
      (heap.startAddress + roundUp (heap.endAddress - heap.startAddress + n)))
    (hrun : allocGrow kmallocAp n k = .ok k') :
    ∃ g pre old l', heap.endAddress + g =
        heap.startAddress + roundUp (heap.endAddress - heap.startAddress + n) ∧
      n ≤ g ∧ g ≤ n + 4096 ∧ heap.endAddress + g ≤ heap.maxAddress ∧
      ts = pre ++ old ∧ Grown heap.endAddress pre old l l' ∧ GrownTo k k' heap lo hi g pre old l' := by
  have hbound := h.bound
  obtain ⟨g, k2, hg, hng, hgn, hfits, hex, hcases⟩ := allocGrow_expanded hk h hpaged hindex hclean hold hwrap
    htables hrun
  rcases hcases with ⟨rfl, hadd⟩ | ⟨r, hr, hhigh, hgrowHole⟩
  · exact ⟨g, ts, [], [heap.endAddress], hg, hng, hgn, hfits, by simp, .fresh,
      grow_fresh h hclean htwo hex (by omega) hindex (by omega) hadd⟩
  · have hne : l ≠ [] := List.ne_nil_of_length_pos (by omega)
    obtain ⟨pre, t, rfl, hole⟩ := hgrow.resolve_left hne
    exact ⟨g, pre, [t], l, hg, hng, hgn, hfits, rfl, .last hne hole,
      grow_last h hole hclean hex hindex (by omega) hr (highest_last h hole hr hhigh) hgrowHole⟩

end PandaOS

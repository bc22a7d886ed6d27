import PandaOS.Memory.LayoutMemory

/-! Where `alloc` puts a page-aligned block. `find_smallest_hole` leaves room up to the next address
whose payload is aligned, but the mask that `alloc` applies to the hole's address only clears three
bits of it: the block never moves up. -/
namespace PandaOS
open ByteMemory Word32 Tiling
set_option autoImplicit false
set_option maxHeartbeats 250000

/-- The block at `p` begins and ends inside the hole, its payload starts on a page, and what is left
of the hole in front of it is a hole in the index. -/
structure PlacesAligned (k k' : Kernel) (hole size p : ℕ) : Prop where
  aligned : p % 0x1000 = 0
  above : hole + sizeofHeader ≤ p
  room : size + sizeofHeader + sizeofFooter ≤ hSize k'.mem (p - sizeofHeader)
  inside : p - sizeofHeader + hSize k'.mem (p - sizeofHeader) ≤ hole + hSize k.mem hole
  front : p ≠ hole + sizeofHeader → ∃ heap', k'.kheap = some heap' ∧
    hole ∈ entries k'.mem heap'.index ∧ TileAt k'.mem hole (gap (p - sizeofHeader - hole))

variable {k k' : Kernel} {heap : Heap} {hi : ℕ} {ts : List Tile} {l : List ℕ} {m : Mem}
  {i b s size n p fuel : ℕ}

/-! ## The mask -/

theorem align_mask : sub32 (add32 0xFFFFF000 PAGE_SIZE) sizeofHeader = 0xFFFFFFF4 := rfl

/-- The mask keeps an address whose payload is aligned. -/
theorem and_align_mask (hb : b < 4294967296) (hpage : b % 4096 = 0xFF4) : b &&& 0xFFFFFFF4 = b := by
  apply Nat.eq_of_testBit_eq
  intro j
  rw [Nat.testBit_and]
  by_cases hlow : j < 12
  · have hbit : b.testBit j = (0xFF4 : ℕ).testBit j := by
      have := Nat.testBit_mod_two_pow b 12 j
      rw [show (2 : ℕ)^12 = 4096 from rfl, hpage] at this
      simpa [hlow] using this.symm
    rw [hbit]
    interval_cases j <;> decide
  · by_cases hhigh : j < 32
    · have hmask : (0xFFFFFFF4 : ℕ).testBit j = true := by interval_cases j <;> decide
      rw [hmask, Bool.and_true]
    · have hpow : 2 ^ 32 ≤ 2 ^ j := Nat.pow_le_pow_right (by norm_num) (by omega)
      rw [Nat.testBit_lt_two_pow (hb.trans_le hpow), Bool.false_and]

/-! ## The branch for a hole off the page boundary -/

/-- The position that `alloc` chooses. -/
def alignedPos (b : ℕ) : ℕ := if b % 4096 = 0 then b else b &&& 0xFFFFFFF4

theorem alignHole_pos (index : OrderedArray) (m : Mem) (i b s : ℕ) :
    (alignHole 1 i b s index m).1.1 = alignedPos b := by
  unfold alignHole alignedPos
  rw [and_low_page, align_mask]
  by_cases hb : b % 4096 = 0
  · rw [if_neg (by omega), if_pos hb]
  · rw [if_pos ⟨by decide, hb⟩, if_neg hb]

/-- Whatever the rest of the call does, the pointer is the chosen position's payload. -/
theorem allocHole_pointer (hl : entries k.mem heap.index = l) (hlt : i < l.length)
    (hrun : allocHole size n 1 i heap k = .ok (p, k')) : p = add32 (alignedPos l[i]) sizeofHeader := by
  have hpos := alignHole_pos heap.index k.mem i l[i] (hSize k.mem l[i])
  unfold allocHole at hrun
  rw [lookupOrderedArray_eq hl hlt, ok_bind] at hrun
  dsimp only at hrun
  generalize alignHole 1 i l[i] (hSize k.mem l[i]) heap.index k.mem = placed at hrun hpos
  obtain ⟨⟨pos, s⟩, index, m⟩ := placed
  generalize useHole size n (hSize k.mem l[i]) = used at hrun
  obtain ⟨size', n'⟩ := used
  obtain ⟨r, _, hres⟩ := bind_eq_ok.mp hrun
  have hpair := Except.ok.inj hres
  rw [Prod.mk.injEq] at hpair
  rw [← hpair.1, ← hpos]

/-- A pointer that is aligned and not below the hole belongs to a hole whose payload was aligned. -/
theorem page_of_aligned (hb : b + 20 < 4294967296) (hpage : add32 (alignedPos b) sizeofHeader % 0x1000 = 0)
    (habove : b + sizeofHeader ≤ add32 (alignedPos b) sizeofHeader) : b % 4096 = 0xFF4 := by
  have hle : alignedPos b ≤ b := by
    unfold alignedPos
    split
    · exact le_rfl
    · exact Nat.and_le_left
  have hadd : add32 (alignedPos b) sizeofHeader = alignedPos b + 12 :=
    add32_of_lt (by simp only [sizeofHeader]; omega)
  rw [hadd] at hpage habove
  simp only [sizeofHeader] at habove
  omega

/-- On such a hole the leading gap is empty: the entry stays in the index, and a footer is written
over the last bytes in front of the hole. -/
theorem alignHole_empty (index : OrderedArray) (m : Mem) (i s : ℕ) (hb : b + 20 < 4294967296) (h8 : 8 ≤ b)
    (hpage : b % 4096 = 0xFF4) (hs : s < 4294967296) :
    ∃ m', alignHole 1 i b s index m = ((b, s), (index, m')) ∧ SameOff m m' (b - 8) (b + 12) := by
  have hne : ¬ b % 4096 = 0 := by omega
  have hpos : b &&& 0xFFFFFFF4 = b := and_align_mask (by omega) hpage
  obtain ⟨m1, hm1⟩ : ∃ m1, m1 = setIsHole (setMagic (setSize m b 0) b) b 1 := ⟨_, rfl⟩
  have hsize : hSize (writeFooter m1 (b - 8) b) b = 0 := by
    have hfooter : SameOn m1 (writeFooter m1 (b - 8) b) b (b + 12) :=
      (sameOff_writeFooter m1 (b - 8) b).sameOn (Or.inr (by omega))
    rw [hSize_congr hfooter le_rfl le_rfl, hm1, setIsHole_setMagic]
    exact hSize_writeHeader _ _ _ (by decide)
  have hoff : SameOff m (writeFooter m1 (b - 8) b) (b - 8) (b + 12) := by
    rw [hm1]
    exact (((sameOff_setSize m b 0).mono (by omega) (by omega)).trans
      ((sameOff_setMagic _ b).mono (by omega) (by omega))).trans
      (((sameOff_setIsHole _ b 1).mono (by omega) (by omega)).trans
        ((sameOff_writeFooter _ (b - 8) b).mono le_rfl (by omega)))
  refine ⟨writeFooter m1 (b - 8) b, ?_, hoff⟩
  have hself : sub32 b b = 0 := sub32_self (by omega)
  have hfoot : sub32 b sizeofFooter = b - 8 := sub32_of_le h8 (by omega)
  have hzero : sub32 s 0 = s := sub32_of_le (Nat.zero_le s) hs
  unfold alignHole
  rw [and_low_page, align_mask, hpos, if_pos ⟨by decide, hne⟩]
  dsimp only
  rw [hself, hfoot, ← hm1, hsize, hzero]

/-! ## The call -/

/-- The call, once the leading gap is written. -/
theorem allocHole_front {s : ℕ} {m1 : Mem} (hlook : lookupOrderedArray i heap.index k.mem = .ok b)
    (hsize : hSize k.mem b = s) (hroom : size + 20 ≤ s) (hs : s < 4294967296) (hb : b + 20 < 4294967296)
    (halign : alignHole 1 i b s heap.index k.mem = ((b, s), (heap.index, m1))) :
    allocHole size (size + 20) 1 i heap k = (do
      let (index, m) ← placeBlock b s (if s - (size + 20) < 20 then s - 20 else size)
        (if s - (size + 20) < 20 then s else size + 20) heap.endAddress heap.index m1
      return (b + 12, (k.withMem m).withHeap { heap with index := index })) := by
  have hp : add32 b sizeofHeader = b + 12 := add32_of_lt (by simp only [sizeofHeader]; omega)
  simp only [allocHole, hlook, ok_bind, hsize, useHole_eq hroom hs, halign, hp]
  split_ifs <;> rfl

/-- The block is placed at the front of such a hole, with room for the request; nothing below the index and the
hole changes. -/
theorem allocHole_empty_gap (hk : Represents k.mem heap hi ts l) (hlt : i < l.length)
    (hroom : size + 20 ≤ hSize k.mem l[i]) (hpage : l[i] % 4096 = 0xFF4) :
    ∃ k', allocHole size (size + 20) 1 i heap k = .ok (l[i] + 12, k') ∧
      (size + 20 ≤ hSize k'.mem l[i] ∧ hSize k'.mem l[i] ≤ hSize k.mem l[i]) ∧
      k'.kernelDirectory = k.kernelDirectory ∧ SameOn k.mem k'.mem 0 (min heap.index.array (l[i] - 8)) := by
  obtain ⟨pre, t, post, rfl, hole, hget⟩ := hk.split (List.getElem_mem hlt)
  obtain ⟨b, hb⟩ : ∃ b, b = l[i] := ⟨_, rfl⟩
  have htile := (tiles_middle.mp hk.tiles).2.1
  rw [← hget, ← hb] at htile
  have hlook := lookupOrderedArray_eq hk.index hlt
  rw [← hb] at hget hroom hpage hlook ⊢
  rw [htile.size] at hroom ⊢
  have hend := hk.end_eq
  simp only [total_append, total_cons] at hend
  have htop := hk.top
  have hbound := hk.bound
  have hstart := hk.start
  have hibound := hk.indexBound
  have happart := hk.apart
  have hcap := hk.capacity
  unfold Outside at happart
  obtain ⟨m1, halign, hoff1⟩ := alignHole_empty heap.index k.mem i t.size (by omega) (by omega) hpage (by omega)
  have hrun := allocHole_front hlook htile.size hroom (by omega) (by omega) halign
  by_cases hsmall : t.size - (size + 20) < 20
  · refine ⟨(k.withMem (writeBlock m1 b t.size)).withHeap heap, ?_, ?_, rfl, ?_⟩
    · rw [hrun, if_pos hsmall, if_pos hsmall, placeBlock_whole htile.big (by omega)]
      rfl
    · have hblock := (tileAt_writeBlock m1 htile.big (by omega : b + t.size < 4294967296)).size
      simp only [Kernel.withHeap_mem, Kernel.withMem_mem, hblock, live_size]
      omega
    · have hblock : SameOff m1 (writeBlock m1 b t.size) b (b + t.size) := sameOff_writeBlock m1 b (by omega)
      exact (hoff1.sameOn (by omega)).trans (hblock.sameOn (by omega))
  · -- the rest of the hole is a second entry
    obtain ⟨m2, hm2⟩ : ∃ m2, m2 = writeRest (writeBlock m1 b (size + 20)) b (size + 20) t.size := ⟨_, rfl⟩
    have hitem : b + (size + 20) < 4294967296 := by omega
    obtain ⟨m3, hinsert, hoff3, _⟩ := insertOrderedArray_spec (m := m2) hk.lessThan hitem
      (by omega : heap.index.size + 1 < 4294967296)
    have hplace : placeBlock b t.size size (size + 20) heap.endAddress heap.index m1 =
        insertOrderedArray (b + (size + 20)) heap.index m2 := by
      have := placeBlock_rest (m := m1) (n := size + 20) (b := b) (s := t.size) heap.index (by omega)
        (by omega) (by omega : b + t.size ≤ heap.endAddress) (by omega)
      rwa [Nat.add_sub_cancel, ← hm2] at this
    refine ⟨(k.withMem m3).withHeap { heap with index := { heap.index with size := heap.index.size + 1 } },
      ?_, ?_, rfl, ?_⟩
    · rw [hrun, if_neg hsmall, if_neg hsmall, hplace, hinsert]
      rfl
    · have hblock : hSize (writeBlock m1 b (size + 20)) b = size + 20 :=
        (tileAt_writeBlock m1 (by omega) (by omega : b + (size + 20) < 4294967296)).size
      have hrest : SameOn (writeBlock m1 b (size + 20)) m2 b (b + 12) := by
        rw [hm2]
        exact (sameOff_writeRest _ b (by omega)).sameOn (Or.inl (by omega))
      have hslots : hSize m3 b = hSize m2 b := by
        refine hoff3.load32_eq ?_
        simp only [slot]
        omega
      simp only [Kernel.withHeap_mem, Kernel.withMem_mem, hslots]
      rw [hSize_congr hrest le_rfl le_rfl, hblock]
      omega
    · have hblock : SameOff m1 (writeBlock m1 b (size + 20)) b (b + (size + 20)) := sameOff_writeBlock m1 b (by omega)
      have hrest : SameOff (writeBlock m1 b (size + 20)) m2 (b + (size + 20)) (b + t.size) := by
        rw [hm2]
        exact (sameOff_writeRest _ b (by omega)).mono le_rfl (by omega)
      refine (hoff1.sameOn (by omega)).trans ((hblock.sameOn (by omega)).trans ((hrest.sameOn (by omega)).trans ?_))
      exact hoff3.sameOn (Or.inl (by unfold slot; omega))

theorem alloc_found (hk : k.kheap = some heap) (hsize : size + 20 < 4294967296)
    (hfind : findSmallestHole (size + 20) 1 heap k.mem = some i) :
    alloc (fuel + 1) size 1 k = allocHole size (size + 20) 1 i heap k := by
  rw [alloc_succ hk hsize, hfind]

theorem page_of_places (h : Represents k.mem heap hi ts l) (hlt : i < l.length)
    (hrun : allocHole size n 1 i heap k = .ok (p, k')) (hplaces : PlacesAligned k k' l[i] size p) :
    l[i] % 0x1000 = 0xFF4 := by
  have hbounds := h.entry_bounds (List.getElem_mem hlt)
  have htop := h.top
  have hbound := h.bound
  have hp := allocHole_pointer h.index hlt hrun
  have hpage := hplaces.aligned
  have habove := hplaces.above
  rw [hp] at hpage habove
  exact page_of_aligned (by omega) hpage habove

/-- `alloc` puts a page-aligned block where the search found room exactly when the hole's own
payload already starts on a page. -/
theorem alloc_aligned_iff (hk : k.kheap = some heap) (h : Represents k.mem heap hi ts l)
    (hsize : size < 0x10000000)
    (hfind : findSmallestHole (size + sizeofHeader + sizeofFooter) 1 heap k.mem = some i)
    (hhole : l[i]? = some b) :
    (∃ p k', alloc (fuel + 1) size 1 k = .ok (p, k') ∧ PlacesAligned k k' b size p) ↔
      b % 0x1000 = 0xFF4 := by
  have hrequest : size + sizeofHeader + sizeofFooter = size + 20 := rfl
  rw [hrequest] at hfind
  obtain ⟨hlt, hfit, _⟩ := findSmallestHole_some h.index hfind
  obtain rfl : l[i] = b := by simpa [hlt] using hhole
  rw [alloc_found hk (by omega) hfind]
  constructor
  · rintro ⟨p, k', hrun, hplaces⟩
    exact page_of_places h hlt hrun hplaces
  · intro hpage
    have hroom := size_of_fits hfit (fun _ => by omega)
    obtain ⟨k', hrun, ⟨hlarge, hsmall⟩, -, -⟩ := allocHole_empty_gap h hlt hroom hpage
    have hheader : l[i] + 12 - sizeofHeader = l[i] := Nat.add_sub_cancel _ _
    refine ⟨l[i] + 12, k', hrun, by omega, le_rfl, ?_, ?_, fun hne => absurd rfl hne⟩
    · rw [hheader]
      exact hlarge
    · rw [hheader]
      omega

/-! ## One hole -/

/-- The one entry of an index is found if it fits. -/
theorem findSmallestHole_one (hl : entries m heap.index = [b]) (hfit : fits m n 1 b = true) :
    findSmallestHole n 1 heap m = some 0 := by
  rw [findSmallestHole_eq hl, List.findIdx?_cons, hfit]
  rfl

/-- An aligned block from the one hole of a heap, where the hole's payload starts on a page. -/
theorem alloc_one_aligned (hk : k.kheap = some heap) (h : Represents k.mem heap hi ts [b]) (hpage : b % 4096 = 0xFF4)
    (hroom : size + 20 ≤ hSize k.mem b) (hsmall : hSize k.mem b < 2147483648) :
    ∃ k', alloc (fuel + 1) size 1 k = .ok (b + 12, k') ∧ k'.kernelDirectory = k.kernelDirectory ∧
      SameOn k.mem k'.mem 0 (min heap.index.array (b - 8)) := by
  have hbounds := h.entry_bounds (List.mem_singleton_self b)
  have htop := h.top
  have hbound := h.bound
  have hlow : add32 b sizeofHeader &&& 0x00000FFF = 0 := by
    have hp : add32 b sizeofHeader = b + 12 := add32_of_lt (by simp only [sizeofHeader]; omega)
    rw [and_low_page, hp]
    omega
  have hfit : fits k.mem (size + 20) 1 b = true := by
    unfold fits
    dsimp only
    rw [if_pos Nat.one_pos, hlow, if_neg (not_not.mpr rfl), toInt32_of_lt hsmall, toInt32_of_lt (by omega)]
    rw [sub_zero, decide_eq_true_eq]
    omega
  have hfind := findSmallestHole_one h.index hfit
  obtain ⟨k', hrun, -, hdir, hsame⟩ := allocHole_empty_gap h (i := 0) Nat.one_pos hroom hpage
  exact ⟨k', (alloc_found hk (by omega) hfind).trans hrun, hdir, hsame⟩

/-- A hole behind a block of 0xFF4 bytes, at the start of a page. -/
theorem alloc_aligned_iff_behind_block : (∃ p k', alloc 1 16 1 (layoutKernel
      [live 0xFF4, gap (0x80000 - 0xFF4)] [KHEAP_DATA + 0xFF4]) = .ok (p, k') ∧
    PlacesAligned (layoutKernel [live 0xFF4, gap (0x80000 - 0xFF4)] [KHEAP_DATA + 0xFF4]) k'
      (KHEAP_DATA + 0xFF4) 16 p) ↔ (KHEAP_DATA + 0xFF4) % 0x1000 = 0xFF4 := by
  have h := heapState_pair (n := 0xFF4) (by decide) (by decide)
  have hsize : hSize _ (KHEAP_DATA + 0xFF4) = 0x80000 - 0xFF4 := h.represents.tiles.2.1.size
  refine alloc_aligned_iff h.kheap h.represents (by decide)
    (findSmallestHole_one h.represents.index ?_) (rfl : [KHEAP_DATA + 0xFF4][0]? = _)
  rw [fits, hsize]
  decide

/-- In the fresh heap's one hole the payload is 12 bytes past a page boundary. -/
theorem alloc_misses_page : findSmallestHole 36 1 (layoutHeap [gap 0x80000] 1)
      (layoutKernel [gap 0x80000] [KHEAP_DATA]).mem = some 0 ∧
    ¬ ∃ p k', alloc 1 16 1 (layoutKernel [gap 0x80000] [KHEAP_DATA]) = .ok (p, k') ∧
      PlacesAligned (layoutKernel [gap 0x80000] [KHEAP_DATA]) k' KHEAP_DATA 16 p := by
  have h := heapState_whole
  have hfind : findSmallestHole 36 1 (layoutHeap [gap 0x80000] 1)
      (layoutKernel [gap 0x80000] [KHEAP_DATA]).mem = some 0 := by
    have hsize : hSize _ KHEAP_DATA = 0x80000 := h.represents.tiles.1.size
    refine findSmallestHole_one h.represents.index ?_
    rw [fits, hsize]
    decide
  refine ⟨hfind, ?_⟩
  rintro ⟨p, k', hrun, hplaces⟩
  rw [alloc_found h.kheap (by decide) hfind] at hrun
  have hpage := page_of_places h.represents (i := 0) (by decide) hrun hplaces
  exact absurd hpage (by decide)

end PandaOS

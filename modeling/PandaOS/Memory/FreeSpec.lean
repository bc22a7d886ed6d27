import PandaOS.Memory.HeapIndex

/-! What `free` does to the layout, stage by stage: the block becomes a hole, merges with a hole
to the left and with one to the right, contracts the heap if it now ends it, and is entered in the
index unless the left hole's entry already stands for it. The left hole is found through the
footer below the block, so the first merge depends on what that footer says. -/
namespace PandaOS
open ByteMemory Word32 Tiling
set_option autoImplicit false
set_option maxHeartbeats 250000

/-- The test of `free` for a hole to the left of the block at `header`, in the memory where the
block is already marked as a hole. -/
def LeftMerges (m : Mem) (header : ℕ) : Prop :=
  fMagic m (header - 8) = HEAP_MAGIC ∧
    hIsHole (setIsHole m header 1) (fHeader m (header - 8)) = 1

/-- The test of `free` for a hole to the right, at `testHeader`. -/
def RightMerges (m : Mem) (testHeader : ℕ) : Prop :=
  hMagic m testHeader = HEAP_MAGIC ∧ hIsHole m testHeader ≠ 0

variable {m m' : Mem} {k : Kernel} {heap : Heap} {index : OrderedArray} {hi lo : ℕ} {t u r : Tile}
  {pre post ts left right : List Tile} {l l' : List ℕ} {a b c e i n s : ℕ}

/-! ## The block becomes a hole -/

theorem tileAt_setIsHole (h : TileAt m b t) (htag : t.tagged = true) :
    TileAt (setIsHole m b 1) b (gap t.size) := by
  have hbig := h.big
  have hoff := sameOff_setIsHole m b 1
  have hlow : SameOn m (setIsHole m b 1) b (b+4) := hoff.sameOn (Or.inl le_rfl)
  have hhigh : SameOn m (setIsHole m b 1) (b+5) (b + t.size) := hoff.sameOn (Or.inr le_rfl)
  refine ⟨?_, load8_store8_self _ _ _, ?_, hbig, ?_, fun _ => rfl⟩
  · rw [hMagic_congr hlow le_rfl le_rfl, h.magic]
  · have hsize : hSize (setIsHole m b 1) b = hSize m b := hhigh.load32_eq (by omega) (by omega)
    rw [hsize, h.size]
    rfl
  · intro _
    simp only [gap_size]
    rw [fMagic_congr hhigh (by omega) (by omega), fHeader_congr hhigh (by omega) (by omega)]
    exact h.footer htag

/-! ## The left merge -/

/-- Either the test for a hole to the left fails, or that hole is the tile before the block and the
footer below the block names it. -/
inductive LeftCase (m : Mem) (a b : ℕ) : List Tile → Prop
  | none : a = b → ¬ LeftMerges m b → LeftCase m a b []
  | merge {u : Tile} : TileAt m a u → u.hole = true → a + u.size = b → LeftMerges m b →
      fHeader m (b - 8) = a → LeftCase m a b [u]

theorem LeftCase.total_eq (h : LeftCase m a b left) : a + total Tile.size left = b := by
  cases h with
  | none hab _ => simpa using hab
  | merge _ _ hsize _ _ => simpa using hsize

theorem freeLeft_spec (h : LeftCase m a b left) (htile : TileAt m b t) (htag : t.tagged = true)
    (hb : 8 ≤ b) (hend : b + t.size < 4294967296) :
    ∃ m', freeLeft b (b + t.size - 8) (setIsHole m b 1) = ((a, left.isEmpty), m') ∧
      TileAt m' a (gap (total Tile.size left + t.size)) ∧ SameOff m m' a (b + t.size) := by
  have hbig := htile.big
  have hbelow : sub32 b sizeofFooter = b - 8 := sub32_of_le hb (by omega)
  have hoff := sameOff_setIsHole m b 1
  have hlow : SameOn m (setIsHole m b 1) (b-8) b := hoff.sameOn (Or.inl (by omega))
  have hmagic := fMagic_congr (f := b - 8) hlow le_rfl (by omega)
  have hheader := fHeader_congr (f := b - 8) hlow le_rfl (by omega)
  have hblock := tileAt_setIsHole htile htag
  cases h with
  | none hab htest =>
    refine ⟨setIsHole m b 1, ?_, ?_, ?_⟩
    · unfold LeftMerges at htest
      simp only [freeLeft, hbelow, hmagic, hheader, if_neg htest, hab, List.isEmpty_nil]
    · rw [hab, total_nil, Nat.zero_add]
      exact hblock
    · exact hoff.mono (by omega) (by omega)
  | @merge u hleft hole hsize htest hname =>
    have hubig := hleft.big
    have hleft1 : TileAt (setIsHole m b 1) a u :=
      hleft.congr (hoff.sameOn (Or.inl (by omega : b ≤ b + 4))) le_rfl hsize.le
    -- the footer of the block now names the left hole
    have hoff2 := sameOff_setHeader (setIsHole m b 1) (b + t.size - 8) a
    have hon2 : SameOn (setIsHole m b 1) (setHeader (setIsHole m b 1) (b + t.size - 8) a) a (b + t.size - 4) :=
      hoff2.sameOn (Or.inl (by omega))
    obtain ⟨m2, hm2⟩ : ∃ m2, m2 = setHeader (setIsHole m b 1) (b + t.size - 8) a := ⟨_, rfl⟩
    rw [← hm2] at hoff2 hon2
    have hadd : add32 u.size t.size = u.size + t.size := add32_of_lt (by omega)
    have hoff3 := sameOff_setSize m2 a (u.size + t.size)
    refine ⟨setSize m2 a (u.size + t.size), ?_, ?_, ?_⟩
    · unfold LeftMerges at htest
      have hsize2 : hSize m2 a = u.size := by rw [hSize_congr hon2 le_rfl (by omega), hleft1.size]
      have hcache : hSize (setIsHole m b 1) b = t.size := hblock.size
      rw [hname] at htest
      simp only [freeLeft, hbelow, hmagic, hheader, hname, if_pos htest, hcache, ← hm2, hsize2, hadd,
        List.isEmpty_cons]
    · have hlow3 : SameOn m2 (setSize m2 a (u.size + t.size)) a (a+8) := hoff3.sameOn (Or.inl le_rfl)
      have hhigh3 : SameOn m2 (setSize m2 a (u.size + t.size)) (a+12) (b + t.size) :=
        hoff3.sameOn (Or.inr le_rfl)
      have hend3 : a + (total Tile.size [u] + t.size) - 8 = b + t.size - 8 := by
        simp only [total_cons, total_nil]
        omega
      refine ⟨?_, ?_, ?_, ?_, ?_, fun _ => rfl⟩
      · rw [hMagic_congr hlow3 le_rfl (by omega), hMagic_congr hon2 le_rfl (by omega), hleft1.magic]
      · rw [hIsHole_congr hlow3 le_rfl (by omega), hIsHole_congr hon2 le_rfl (by omega), hleft1.isHole,
          hole]
        rfl
      · rw [hSize_setSize (by omega)]
        simp
      · simp only [total_cons, total_nil, gap_size]
        omega
      · intro _
        rw [gap_size, hend3]
        refine ⟨?_, ?_⟩
        · rw [fMagic_congr hhigh3 (by omega) (by omega), fMagic_congr hon2 (by omega) (by omega)]
          exact (hblock.footer rfl).1
        · rw [fHeader_congr hhigh3 (by omega) (by omega), hm2]
          exact load32_store32_of_lt (by omega)
    · exact ((hoff.mono (by omega) (by omega)).trans (hoff2.mono (by omega) (by omega))).trans
        (hoff3.mono (by omega) (by omega))

/-! ## The right merge -/

/-- Either the test for a hole at `c` fails, or a tile that is a hole starts there. -/
inductive RightCase (m : Mem) (c : ℕ) (l : List ℕ) : List Tile → Prop
  | none : ¬ RightMerges m c → RightCase m c l []
  | merge {r : Tile} : TileAt m c r → r.hole = true → c ∈ l → RightCase m c l [r]

/-- The index without the entry of the right hole. -/
def withoutRight (c : ℕ) (right : List Tile) (l : List ℕ) : List ℕ :=
  if right.isEmpty then l else l.erase c

theorem freeRight_spec (h : RightCase m c l right) (htile : TileAt m a (gap n)) (hac : a + n = c)
    (hl : entries m index = l) (hcap : index.size ≤ index.maxSize)
    (hbound : index.maxSize < 4294967296)
    (hindex : Outside index.array (4*index.maxSize) a (c + total Tile.size right))
    (hend : c + total Tile.size right < 4294967296) :
    ∃ m', freeRight a (c - 8) index m =
        .ok (c + total Tile.size right - 8, (index.withSize (withoutRight c right l).length, m')) ∧
      TileAt m' a ⟨n + total Tile.size right, true, right.isEmpty⟩ ∧
      entries m' (index.withSize (withoutRight c right l).length) = withoutRight c right l ∧
      HeapTouch index m m' a c ∧
      (index.size < index.maxSize → CleanSlots m index → CleanSlots m' index) := by
  have hbig : 20 ≤ n := htile.big
  have hheader : add32 (c - 8) sizeofFooter = c := by
    rw [add32_of_lt (by simp only [sizeofFooter]; omega)]
    simp only [sizeofFooter]
    omega
  have hcount : index.size = l.length := by rw [← hl, entries_length]
  cases h with
  | none htest =>
    refine ⟨m, ?_, htile, ?_, HeapTouch.refl _ _ _ _, fun _ h => h⟩
    · unfold RightMerges at htest
      simp only [freeRight, hheader, if_neg htest, withoutRight, List.isEmpty_nil, if_true, ← hcount]
      rfl
    · simp only [withoutRight, List.isEmpty_nil, if_true, ← hcount]
      exact hl
  | @merge r hright hole hmem =>
    have hrbig := hright.big
    simp only [total_cons, total_nil, Nat.add_zero] at hend hindex ⊢
    unfold Outside at hindex
    obtain ⟨m1, hm1⟩ : ∃ m1, m1 = setSize m a (n + r.size) := ⟨_, rfl⟩
    have hoff : SameOff m m1 (a+8) (a+12) := by
      rw [hm1]
      exact sameOff_setSize m a (n + r.size)
    have hentries : entries m1 index = l := by
      rw [← hl]
      exact entries_congr (hoff.sameOn (by omega))
    have hpos : l.idxOf c < l.length := List.idxOf_lt_length_of_mem hmem
    obtain ⟨m2, hremove, hentries2, hoff2, hclean⟩ := removeOrderedArray_index hentries hpos hcap hbound
    rw [← List.erase_eq_eraseIdx_of_idxOf rfl] at hentries2
    have hlength : (l.erase c).length = l.length - 1 := List.length_erase_of_mem hmem
    have hheap2 : SameOn m1 m2 a (c + r.size) := hoff2.sameOn (by omega)
    refine ⟨m2, ?_, ?_, ?_, ?_, ?_⟩
    · have hadd : add32 n r.size = n + r.size := add32_of_lt (by omega)
      have hsize1 : hSize m1 c = r.size := by
        have hhead : SameOn m m1 c (c + 12) := hoff.sameOn (by omega)
        rw [hSize_congr hhead le_rfl le_rfl, hright.size]
      have hlast : sub32 (add32 c r.size) sizeofFooter = c + r.size - 8 := by
        rw [add32_of_lt hend]
        exact sub32_of_le (by simp only [sizeofFooter]; omega) hend
      have hscan := entryScan_all c hentries
      have hin : l.idxOf c < index.size := by omega
      have htest : hMagic m c = HEAP_MAGIC ∧ hIsHole m c ≠ 0 := by
        refine ⟨hright.magic, ?_⟩
        rw [hright.isHole, hole]
        decide
      have hsizea : hSize m a = n := htile.size
      simp only [freeRight, hheader, if_pos htest, hsizea, hright.size, hadd, ← hm1, hsize1, hlast,
        hscan, assert, decide_eq_true hin, if_true, ok_bind, hremove, withoutRight, List.isEmpty_cons,
        Bool.false_eq_true, if_false, hlength]
      rfl
    · have hlow : SameOn m m1 a (a+8) := hoff.sameOn (Or.inl le_rfl)
      refine TileAt.congr ?_ hheap2 le_rfl (by simp only; omega)
      refine ⟨?_, ?_, ?_, ?_, ?_, ?_⟩
      · rw [hMagic_congr hlow le_rfl (by omega), htile.magic]
      · rw [hIsHole_congr hlow le_rfl (by omega), htile.isHole]
        rfl
      · rw [hm1]
        exact hSize_setSize (by omega)
      · simp only
        omega
      · intro hfalse
        cases hfalse
      · intro hfalse
        cases hfalse
    · simp only [withoutRight, List.isEmpty_cons, Bool.false_eq_true, if_false, hlength]
      exact hentries2
    · exact (HeapTouch.of_sameOff (hoff.mono (by omega) (by omega))).trans (HeapTouch.of_index hoff2)
    · intro hlt hslots
      refine hclean hlt fun j hj => ?_
      rw [hoff.load32_eq (by unfold slot; omega)]
      exact hslots j hj

/-! ## The end of the heap -/

/-- The merged hole at `a` ends the heap and begins far enough below the minimal length. The heap
is cut to the minimal length and the hole to what is left of it. -/
theorem freeTail_spec (heap : Heap) (lo hi : ℕ) (hk : k.kheap = some heap) (hpaged : Paged k lo hi)
    (htile : TileAt k.mem a t) (hole : t.hole = true) (hend : a + t.size = heap.endAddress)
    (hstart : heap.startAddress ≤ a) (hlow : a - heap.startAddress + 20 ≤ HEAP_MIN_SIZE)
    (hmin : heap.startAddress + HEAP_MIN_SIZE ≤ heap.endAddress) (hlo : lo ≤ a)
    (hindex : lo ≤ heap.index.array ∧ heap.index.array + 4*heap.index.maxSize ≤ hi)
    (htop : heap.endAddress ≤ hi) (hbound : hi < 4294967296) :
    ∃ k', freeTail a c k = .ok k' ∧
      k'.kheap = some (heap.withEnd (heap.startAddress + HEAP_MIN_SIZE)) ∧
      TileAt k'.mem a (gap (heap.startAddress + HEAP_MIN_SIZE - a)) ∧
      Frame k k' heap.index lo hi a heap.endAddress ∧
      SameOn k.mem k'.mem lo a ∧ SameOn k.mem k'.mem heap.endAddress hi := by
  have hbig := htile.big
  simp only [HEAP_MIN_SIZE] at hlow hmin ⊢
  have hlength : sub32 heap.endAddress heap.startAddress = heap.endAddress - heap.startAddress :=
    sub32_of_le (by omega) (by omega)
  have hoffset : sub32 a heap.startAddress = a - heap.startAddress := sub32_of_le hstart (by omega)
  obtain ⟨k1, hcontract, htouch⟩ := contract_spec (a - heap.startAddress) hk hpaged
    (by rw [hlength]; omega)
  rw [contractedSize_min (by simp only [HEAP_MIN_SIZE]; omega)] at hcontract
  simp only [HEAP_MIN_SIZE] at hcontract
  rw [add32_of_lt (by omega)] at hcontract
  have hwindow := htouch.window
  have htile1 : TileAt k1.mem a t := htile.congr hwindow hlo (by omega)
  obtain ⟨n, hn⟩ : ∃ n, n = heap.startAddress + 0x70000 - a := ⟨_, rfl⟩
  have hshrink : sub32 t.size (sub32 (heap.endAddress - heap.startAddress) 0x70000) = n := by
    rw [sub32_of_le (by omega : 0x70000 ≤ heap.endAddress - heap.startAddress) (by omega),
      sub32_of_le (by omega) (by omega)]
    omega
  have hoff : SameOff k1.mem (writeFooter (setSize k1.mem a n) (a + n - 8) a) a heap.endAddress :=
    (sameOff_resize (by omega)).mono le_rfl (by omega)
  rw [← hn]
  refine ⟨(k1.withHeap (heap.withEnd (heap.startAddress + 0x70000))).withMem
    (writeFooter (setSize k1.mem a n) (a + n - 8) a), ?_, rfl, ?_, ?_, ?_, ?_⟩
  · have hfooter : sub32 (add32 a n) sizeofFooter = a + n - 8 := by
      rw [add32_of_lt (by omega)]
      exact sub32_of_le (by simp only [sizeofFooter]; omega) (by omega)
    have hsize1 : hSize k1.mem a = t.size := htile1.size
    have hset : hSize (setSize k1.mem a n) a = n := hSize_setSize (by omega)
    have hpos : n > 0 := by omega
    simp only [freeTail, heapOf_eq hk, ok_bind, hoffset, hcontract, Kernel.withHeap_mem, hsize1,
      hlength, hshrink, if_pos hpos, hset, hfooter]
    rfl
  · exact tileAt_resize htile1 hole (by omega) (by omega)
  · have hframe := Frame.of_page heap.index htouch
      (heap.withEnd (heap.startAddress + 0x70000)) a heap.endAddress
    exact hframe.trans (Frame.of_touch _ (k := k1.withHeap (heap.withEnd (heap.startAddress + 0x70000)))
      (hframe.paged hpaged) (HeapTouch.of_sameOff hoff) _ hindex hlo htop)
  · exact (hwindow.mono le_rfl (by omega)).trans (hoff.sameOn (Or.inl le_rfl))
  · exact (hwindow.mono (by omega) le_rfl).trans (hoff.sameOn (Or.inr le_rfl))

/-! ## The call -/

theorem rightMerges_congr {m1 : Mem} (h : SameOn m m1 c (c + 5)) : RightMerges m1 c ↔ RightMerges m c := by
  unfold RightMerges
  rw [hMagic_congr h le_rfl (by omega), hIsHole_congr h le_rfl le_rfl]

theorem RightCase.congr {m1 : Mem} (h : RightCase m c l right)
    (hon : SameOn m m1 c (c + total Tile.size right + 5)) : RightCase m1 c l right := by
  cases h with
  | none htest => exact .none (by rwa [rightMerges_congr (hon.mono le_rfl (by simp))])
  | @merge r hright hole hmem =>
    simp only [total_cons, total_nil, Nat.add_zero] at hon
    exact .merge (hright.congr hon le_rfl (by omega)) hole hmem

/-- The last two steps of `free`, for the merged hole at `a` that ends at `e`. -/
def freeFinish (a c e : ℕ) (doAdd : Bool) (heapEnd : ℕ) (k : Kernel) : Result Kernel := do
  let k ← if e = heapEnd then freeTail a c k else .ok k
  if doAdd then
    let heap ← heapOf k
    let (index, m) ← insertOrderedArray a heap.index k.mem
    return (k.withMem m).withHeap { heap with index := index }
  else return k

/-- `free` up to the merge with the right hole. -/
theorem free_merge_left (right post : List Tile) (hk : k.kheap = some heap)
    (h : Represents k.mem heap hi (pre ++ (left ++ t :: right) ++ post) l) (hlive : t.hole = false)
    (ha : a = heap.startAddress + total Tile.size pre) (hc : c = b + t.size)
    (hleft : LeftCase k.mem a b left) :
    ∃ m', free (b + 12) k = (do
        let (footer, (index, m)) ← freeRight a (c - 8) heap.index m'
        freeFinish a c (add32 footer sizeofFooter) left.isEmpty heap.endAddress
          ((k.withMem m).withHeap { heap with index := index })) ∧
      TileAt m' a (gap (total Tile.size left + t.size)) ∧ SameOff k.mem m' a c ∧
      entries m' heap.index = l := by
  have hend := h.end_eq
  simp only [total_append, total_cons] at hend
  have hab := hleft.total_eq
  have htop := h.top
  have hbound := h.bound
  have hstart := h.start
  have hcap := h.capacity
  have happart := h.apart
  unfold Outside at happart
  have htile : TileAt k.mem b t := by
    have hsplit : pre ++ (left ++ t :: right) ++ post = (pre ++ left) ++ t :: (right ++ post) := by simp
    have htiles := h.tiles
    rw [hsplit] at htiles
    have := (tiles_middle.mp htiles).2.1
    rwa [total_append, ← Nat.add_assoc, ← ha, hab] at this
  have hbig := htile.big
  have htag := htile.liveTagged hlive
  obtain ⟨m2, hleft2, htile2, hoff2⟩ := freeLeft_spec hleft htile htag (by omega) (by omega)
  rw [← hc] at hleft2 hoff2
  have hheader : sub32 (b + 12) sizeofHeader = b := by
    rw [sub32_of_le (by simp only [sizeofHeader]; omega) (by omega)]
    simp only [sizeofHeader]
    omega
  have hfooter : sub32 (add32 b t.size) sizeofFooter = c - 8 := by
    rw [add32_of_lt (by omega), hc]
    exact sub32_of_le (by simp only [sizeofFooter]; omega) (by omega)
  have htest : add32 (c - 8) sizeofFooter = c := by
    rw [add32_of_lt (by simp only [sizeofFooter]; omega)]
    simp only [sizeofFooter]
    omega
  have hmagic : fMagic k.mem (c - 8) = HEAP_MAGIC := by
    rw [hc]
    exact (htile.footer htag).1
  have hp : ¬ b + 12 = 0 := by omega
  refine ⟨m2, ?_, htile2, hoff2, ?_⟩
  · simp only [free, if_neg hp, heapOf_eq hk, ok_bind, hheader, htile.size, hfooter, htile.magic, hmagic,
      decide_true, assert, if_true, htest, hleft2]
    rfl
  · rw [← h.index]
    exact entries_congr (hoff2.sameOn (by omega))

/-- The two merges of `free`. -/
theorem free_merge (hk : k.kheap = some heap)
    (h : Represents k.mem heap hi (pre ++ (left ++ t :: right) ++ post) l) (hlive : t.hole = false)
    (ha : a = heap.startAddress + total Tile.size pre) (hc : c = b + t.size)
    (hleft : LeftCase k.mem a b left) (hright : RightCase k.mem c l right) :
    ∃ m', free (b + 12) k = freeFinish a c (c + total Tile.size right) left.isEmpty heap.endAddress
        ((k.withMem m').withHeap (heap.withCount (withoutRight c right l).length)) ∧
      TileAt m' a ⟨total Tile.size left + t.size + total Tile.size right, true, right.isEmpty⟩ ∧
      entries m' (heap.withCount (withoutRight c right l).length).index = withoutRight c right l ∧
      HeapTouch heap.index k.mem m' a c ∧
      (heap.index.size < heap.index.maxSize → CleanSlots k.mem heap.index →
        CleanSlots m' heap.index) := by
  obtain ⟨m2, hrun, htile2, hoff2, hentries2⟩ := free_merge_left right post hk h hlive ha hc hleft
  have hend := h.end_eq
  simp only [total_append, total_cons] at hend
  have hab := hleft.total_eq
  have htop := h.top
  have hbound := h.bound
  have hibound := h.indexBound
  have happart := h.apart
  unfold Outside at happart
  have hbig : 20 ≤ total Tile.size left + t.size := htile2.big
  obtain ⟨m3, hright3, htile3, hentries3, htouch3, hclean3⟩ :=
    freeRight_spec (hright.congr (hoff2.sameOn (Or.inr le_rfl))) htile2 (by omega) hentries2 h.capacity
      (by omega) (by unfold Outside; omega) (by omega)
  refine ⟨m3, ?_, htile3, hentries3,
    (HeapTouch.of_sameOff hoff2).trans htouch3, ?_⟩
  · have hlast : add32 (c + total Tile.size right - 8) sizeofFooter = c + total Tile.size right := by
      rw [add32_of_lt (by simp only [sizeofFooter]; omega)]
      simp only [sizeofFooter]
      omega
    rw [hrun, hright3, ok_bind]
    dsimp only
    rw [hlast]
    rfl
  · intro hlt hslots
    refine hclean3 hlt fun j hj => ?_
    rw [hoff2.load32_eq (by unfold slot; omega)]
    exact hslots j hj

/-- Behind the last block there is no hole to merge with: what looks like one is not in the index,
and the assertion fails. -/
theorem free_past_end (hk : k.kheap = some heap)
    (h : Represents k.mem heap hi (pre ++ (left ++ [t])) l) (hlive : t.hole = false)
    (ha : a = heap.startAddress + total Tile.size pre) (hc : c = b + t.size)
    (hleft : LeftCase k.mem a b left) (htest : RightMerges k.mem c) :
    free (b + 12) k = .error (.assertionFailed "iterator < heap->index.size") := by
  obtain ⟨m2, hrun, htile2, hoff2, hentries2⟩ :=
    free_merge_left [] [] hk (by simpa using h) hlive ha hc hleft
  have hend := h.end_eq
  simp only [total_append, total_cons, total_nil] at hend
  have hab := hleft.total_eq
  have hbig : 20 ≤ total Tile.size left + t.size := htile2.big
  have htop := h.top
  have hbound := h.bound
  have hout : c ∉ l := by
    intro hmem
    have := h.entry_bounds hmem
    omega
  have htest2 : RightMerges m2 c := (rightMerges_congr (hoff2.sameOn (Or.inr le_rfl))).mpr htest
  have hheader : add32 (c - 8) sizeofFooter = c := by
    rw [add32_of_lt (by simp only [sizeofFooter]; omega)]
    simp only [sizeofFooter]
    omega
  have happart := h.apart
  have hcap := h.capacity
  unfold Outside at happart
  have hentries3 : entries (setSize m2 a (add32 (hSize m2 a) (hSize m2 c))) heap.index = l := by
    rw [← hentries2]
    exact entries_congr ((sameOff_setSize _ _ _).sameOn (by omega))
  have hscan := entryScan_all c hentries3
  have hnot : ¬ l.idxOf c < heap.index.size := by
    rw [h.size_eq, List.idxOf_lt_length_iff]
    exact hout
  have hassert : freeRight a (c - 8) heap.index m2 =
      .error (.assertionFailed "iterator < heap->index.size") := by
    unfold RightMerges at htest2
    simp only [freeRight, hheader, if_pos htest2, hscan, assert, decide_eq_false hnot,
      Bool.false_eq_true, if_false, error_bind]
  rw [hrun, hassert, error_bind]

/-- The index after `free`: the right hole's entry goes, and the merged hole is entered unless the
left hole's entry stays for it. -/
def freedIndex (lt : ℕ → ℕ → Bool) (a c : ℕ) (left right : List Tile) (l : List ℕ) : List ℕ :=
  if left.isEmpty then insertEntry lt a (withoutRight c right l) else withoutRight c right l

theorem withoutRight_sublist (c : ℕ) (right : List Tile) (l : List ℕ) :
    (withoutRight c right l).Sublist l := by
  unfold withoutRight
  split
  · exact List.Sublist.refl l
  · exact List.erase_sublist

theorem withoutRight_perm (h : Represents m heap hi (pre ++ (left ++ t :: right) ++ post) l)
    (hlive : t.hole = false) (ha : a = heap.startAddress + total Tile.size pre) (hc : c = b + t.size)
    (hleft : LeftCase m a b left) (hright : RightCase m c l right) :
    (withoutRight c right l).Perm ((if left.isEmpty then [] else [a]) ++
      (holes heap.startAddress pre ++ holes (c + total Tile.size right) post)) := by
  have hperm := h.perm
  have hab := hleft.total_eq
  rw [holes_middle, ← ha] at hperm
  have hpost : a + total Tile.size (left ++ t :: right) = c + total Tile.size right := by
    simp only [total_append, total_cons]
    omega
  rw [hpost] at hperm
  have hmid : holes a (left ++ t :: right) = holes a left ++ holes c right := by
    rw [holes, starts_append, hab, starts_cons_of_not hlive, ← hc]
  have hl : holes a left = if left.isEmpty then [] else [a] := by
    cases hleft with
    | none _ _ => rfl
    | merge _ hole _ _ _ => simp [holes, starts, hole]
  rw [hmid, hl] at hperm
  obtain ⟨first, hfirst⟩ : ∃ first, first = if left.isEmpty then [] else [a] := ⟨_, rfl⟩
  rw [← hfirst] at hperm ⊢
  -- both sides hold the same addresses, in another order
  rw [List.perm_iff_count]
  intro x
  have hcount := hperm.count_eq x
  simp only [List.count_append] at hcount ⊢
  cases hright with
  | none _ =>
    simp only [withoutRight, List.isEmpty_nil, if_true, holes, starts, List.count_nil, total_nil,
      Nat.add_zero] at hcount ⊢
    omega
  | @merge r hrtile hole hmem =>
    have hr : holes c [r] = [c] := by simp [holes, starts, hole]
    have herase := (List.perm_cons_erase hmem).count_eq x
    rw [hr] at hcount
    simp only [withoutRight, List.isEmpty_cons, Bool.false_eq_true, if_false, List.count_cons,
      List.count_nil] at hcount herase ⊢
    omega

theorem freedIndex_perm (lt : ℕ → ℕ → Bool)
    (h : Represents m heap hi (pre ++ (left ++ t :: right) ++ post) l)
    (hlive : t.hole = false) (ha : a = heap.startAddress + total Tile.size pre) (hc : c = b + t.size)
    (hleft : LeftCase m a b left) (hright : RightCase m c l right) :
    (freedIndex lt a c left right l).Perm
      (a :: (holes heap.startAddress pre ++ holes (c + total Tile.size right) post)) := by
  have hperm := withoutRight_perm h hlive ha hc hleft hright
  unfold freedIndex
  cases hempty : left.isEmpty with
  | true =>
    rw [hempty] at hperm
    simp only [if_true, List.nil_append] at hperm ⊢
    exact (insertEntry_perm _ _ _).trans (hperm.cons a)
  | false =>
    rw [hempty] at hperm
    simpa using hperm

/-- The insertion at the end of `free`, in a heap whose other entries are all holes below `hi`. -/
theorem freeInsert_spec (heap : Heap) (hi : ℕ) (hless : heap.index.lessThan = some headerTLessThan)
    (hl : entries m heap.index = l) (hmem : ∀ x ∈ l, heap.startAddress ≤ x ∧ x + 12 ≤ hi)
    (ha : heap.startAddress ≤ a ∧ a + 12 ≤ hi) (hbound : hi < 4294967296)
    (happart : Outside heap.index.array (4*heap.index.maxSize) heap.startAddress hi)
    (hroom : l.length < heap.index.maxSize) (hibound : heap.index.maxSize < 4294967296) :
    ∃ m', insertOrderedArray a heap.index m = .ok (heap.index.withSize (l.length + 1), m') ∧
      entries m' (heap.index.withSize (l.length + 1)) = insertEntry (headerTLessThan m') a l ∧
      SameOff m m' heap.index.array (heap.index.array + 4*heap.index.maxSize) ∧
      (a ≠ HEAP_MAGIC → CleanSlots m heap.index → CleanSlots m' heap.index) := by
  obtain ⟨m', hinsert, hentries, hoff, hclean⟩ :=
    insertOrderedArray_index a hless hl (by omega) hroom hibound
  have hsame : SameOn m m' heap.startAddress hi := hoff.sameOn (by unfold Outside at happart; omega)
  refine ⟨m', hinsert, ?_, hoff, hclean⟩
  rw [hentries]
  apply insertEntry_congr
  intro x hx
  have hxb := hmem x hx
  rw [headerTLessThan, headerTLessThan, hSize_congr hsame hxb.1 hxb.2, hSize_congr hsame ha.1 ha.2]

/-- The last step of `free`: the merged hole is entered, unless the left hole's entry stays for it. -/
def freeEnter (a : ℕ) (doAdd : Bool) (k : Kernel) : Result Kernel := do
  if doAdd then
    let heap ← heapOf k
    let (index, m) ← insertOrderedArray a heap.index k.mem
    return (k.withMem m).withHeap { heap with index := index }
  else return k

theorem freeFinish_eq (a c e : ℕ) (doAdd : Bool) (heapEnd : ℕ) (k : Kernel) :
    freeFinish a c e doAdd heapEnd k = (if e = heapEnd then freeTail a c k else .ok k) >>= freeEnter a doAdd := by
  unfold freeFinish freeEnter
  split_ifs <;> rfl

theorem freeEnter_spec (hk : k.kheap = some heap) (hl : entries k.mem heap.index = withoutRight c right l)
    (hless : heap.index.lessThan = some headerTLessThan) (hmem : ∀ x ∈ l, heap.startAddress ≤ x ∧ x + 12 ≤ hi)
    (ha : heap.startAddress ≤ a ∧ a + 12 ≤ hi) (hbound : hi < 4294967296)
    (happart : Outside heap.index.array (4*heap.index.maxSize) heap.startAddress hi)
    (hcap : heap.index.size ≤ heap.index.maxSize)
    (hroom : left = [] → (withoutRight c right l).length < heap.index.maxSize)
    (hibound : heap.index.maxSize < 4294967296) :
    ∃ m', freeEnter a left.isEmpty k = .ok ((k.withMem m').withHeap
        (heap.withCount (freedIndex (headerTLessThan m') a c left right l).length)) ∧
      entries m' (heap.withCount (freedIndex (headerTLessThan m') a c left right l).length).index =
        freedIndex (headerTLessThan m') a c left right l ∧
      (freedIndex (headerTLessThan m') a c left right l).length ≤ heap.index.maxSize ∧
      SameOff k.mem m' heap.index.array (heap.index.array + 4*heap.index.maxSize) ∧
      (a ≠ HEAP_MAGIC → CleanSlots k.mem heap.index → CleanSlots m' heap.index) := by
  have hcount : heap.index.size = (withoutRight c right l).length := by rw [← hl, entries_length]
  cases hempty : left.isEmpty with
  | false =>
    have hl' : ∀ lt, freedIndex lt a c left right l = withoutRight c right l := by
      intro lt
      simp only [freedIndex, hempty, Bool.false_eq_true, if_false]
    have hheap : heap.withCount (withoutRight c right l).length = heap := by
      rw [← hcount]
      rfl
    refine ⟨k.mem, ?_, ?_, ?_, SameOff.refl _ _ _, fun _ hslots => hslots⟩
    · rw [hl', hheap, Kernel.withMem_self, Kernel.withHeap_self hk, freeEnter, if_neg Bool.false_ne_true]
      rfl
    · rw [hl', hheap, hl]
    · rw [hl', ← hcount]
      exact hcap
  | true =>
    have hnil : left = [] := List.isEmpty_iff.mp hempty
    have hl' : ∀ lt, freedIndex lt a c left right l = insertEntry lt a (withoutRight c right l) := by
      intro lt
      simp only [freedIndex, hempty, if_true]
    obtain ⟨m', hinsert, hentries, hoff, hclean⟩ := freeInsert_spec heap hi (a := a) hless hl
      (fun x hx => hmem x ((withoutRight_sublist c right l).subset hx)) ha hbound happart (hroom hnil) hibound
    have hlength : (freedIndex (headerTLessThan m') a c left right l).length =
        (withoutRight c right l).length + 1 := by
      rw [hl', (insertEntry_perm _ _ _).length_eq, List.length_cons]
    refine ⟨m', ?_, ?_, ?_, hoff, hclean⟩
    · rw [freeEnter, if_pos rfl, heapOf_eq hk, ok_bind, hinsert, hlength]
      rfl
    · rw [hlength, hl']
      exact hentries
    · rw [hlength]
      exact hroom hnil

/-- The hole that replaces the freed block and the holes merged with it. Its footer is truthful
unless the last part came from the right. -/
def mergedTile (left right : List Tile) (t : Tile) : Tile :=
  ⟨total Tile.size left + t.size + total Tile.size right, true, right.isEmpty⟩

/-- A block is freed that does not end the heap, merges included. -/
theorem free_inner_spec (hk : k.kheap = some heap)
    (h : Represents k.mem heap hi (pre ++ (left ++ t :: right) ++ post) l) (hlive : t.hole = false)
    (ha : a = heap.startAddress + total Tile.size pre) (hc : c = b + t.size)
    (hleft : LeftCase k.mem a b left) (hright : RightCase k.mem c l right)
    (hinner : c + total Tile.size right ≠ heap.endAddress)
    (hroom : left = [] → (withoutRight c right l).length < heap.index.maxSize) :
    ∃ m', free (b + 12) k = .ok ((k.withMem m').withHeap
        (heap.withCount (freedIndex (headerTLessThan m') a c left right l).length)) ∧
      Represents m' (heap.withCount (freedIndex (headerTLessThan m') a c left right l).length) hi
        (pre ++ [mergedTile left right t] ++ post) (freedIndex (headerTLessThan m') a c left right l) ∧
      HeapTouch heap.index k.mem m' a c ∧
      (HEAP_MAGIC < heap.startAddress → heap.index.size < heap.index.maxSize →
        CleanSlots k.mem heap.index → CleanSlots m' heap.index) := by
  obtain ⟨m1, hrun, htile, hentries, htouch, hclean⟩ := free_merge hk h hlive ha hc hleft hright
  have hend := h.end_eq
  have hab := hleft.total_eq
  simp only [total_append, total_cons] at hend
  have htop := h.top
  have hbound := h.bound
  have hibound := h.indexBound
  have hcap := h.capacity
  have hcount := h.size_eq
  have happart := h.apart
  have hle := (withoutRight_sublist c right l).length_le
  have hbig : 20 ≤ (mergedTile left right t).size := htile.big
  have htotal : total Tile.size (left ++ t :: right) = (mergedTile left right t).size := by
    simp only [mergedTile, total_append, total_cons]
    omega
  have hsize : a + (mergedTile left right t).size = c + total Tile.size right := by
    simp only [mergedTile]
    omega
  have hmem : ∀ x ∈ l, heap.startAddress ≤ x ∧ x + 12 ≤ hi := by
    intro x hx
    have := h.entry_bounds hx
    omega
  have hat : heap.startAddress ≤ a ∧ a + 12 ≤ hi := by omega
  obtain ⟨m2, henter, hentries2, hcap2, hoff2, hclean2⟩ :=
    freeEnter_spec (Kernel.withHeap_kheap (k.withMem m1) _) hentries h.lessThan hmem hat hbound happart
      (hle.trans (hcount.ge.trans hcap)) hroom (by simp only [Heap.withCount_maxSize]; omega)
  have htouch2 : HeapTouch heap.index k.mem m2 a c := htouch.trans (HeapTouch.of_index hoff2)
  refine ⟨m2, ?_, ?_, htouch2, fun habove hlt hslots => hclean2 (by omega) (hclean hlt hslots)⟩
  · rw [hrun, freeFinish_eq, if_neg hinner, ok_bind, henter]
    rfl
  · refine h.replace ?_ ?_ hentries2 ?_ hcap2
    · have hsame : SameOn m1 m2 a (c + total Tile.size right) := by
        unfold Outside at happart
        refine hoff2.sameOn ?_
        simp only [Heap.withCount_array, Heap.withCount_maxSize]
        omega
      rw [← ha, htotal]
      exact ⟨htile.congr hsame le_rfl hsize.le, rfl⟩
    · rw [← ha, htotal, hsize]
      exact htouch2.mono le_rfl (Nat.le_add_right c _)
    · have hone : holes a [mergedTile left right t] = [a] := rfl
      rw [holes_middle, ← ha, total_cons, total_nil, Nat.add_zero, hsize, hone]
      refine (freedIndex_perm _ h hlive ha hc hleft hright).trans ?_
      simpa using List.perm_middle.symm

/-- The layout of the heap that is cut to the minimal length, with what is left of the last hole at `a`. -/
theorem Represents.contracted (h : Represents m heap hi (pre ++ ts) l)
    (ha : a = heap.startAddress + total Tile.size pre) (htop : heap.startAddress + HEAP_MIN_SIZE ≤ hi)
    (hlow : a - heap.startAddress ≤ HEAP_MIN_SIZE)
    (htile : TileAt m' a (gap (heap.startAddress + HEAP_MIN_SIZE - a))) (hbefore : SameOn m m' heap.startAddress a)
    (hentries : entries m' (heap.withCount l'.length).index = l')
    (hperm : l'.Perm (a :: holes heap.startAddress pre)) (hcap : l'.length ≤ heap.index.maxSize) :
    Represents m' ((heap.withEnd (heap.startAddress + HEAP_MIN_SIZE)).withCount l'.length) hi
      (pre ++ [gap (heap.startAddress + HEAP_MIN_SIZE - a)]) l' := by
  have hpre := (tiles_append.mp h.tiles).1
  simp only [HEAP_MIN_SIZE] at hlow htop
  refine ⟨tiles_append.mpr ⟨tiles_congr hpre hbefore le_rfl ha.ge, ?_⟩, hentries, ?_, h.lessThan, hcap, h.apart, htop,
    h.bound, h.indexBound, h.start⟩
  · simp only [Heap.withCount_startAddress, Heap.withEnd_startAddress, Heap.withCount_endAddress,
      Heap.withEnd_endAddress]
    rw [← ha]
    refine ⟨htile, ?_⟩
    simp only [Tiles, gap_size, HEAP_MIN_SIZE]
    omega
  · have hone : holes a [gap (heap.startAddress + HEAP_MIN_SIZE - a)] = [a] := rfl
    simp only [Heap.withCount_startAddress, Heap.withEnd_startAddress]
    rw [holes, starts_append, ← ha, ← holes, ← holes, hone]
    exact hperm.trans (List.perm_append_singleton a _).symm

/-- A block is freed that, merges included, ends the heap: the heap is contracted. -/
theorem free_tail_spec (hk : k.kheap = some heap)
    (h : Represents k.mem heap hi (pre ++ (left ++ t :: right)) l) (hlive : t.hole = false)
    (ha : a = heap.startAddress + total Tile.size pre) (hc : c = b + t.size)
    (hleft : LeftCase k.mem a b left) (hright : RightCase k.mem c l right)
    (hlow : a - heap.startAddress + 20 ≤ HEAP_MIN_SIZE)
    (hmin : heap.startAddress + HEAP_MIN_SIZE ≤ heap.endAddress) (hpaged : Paged k lo hi)
    (hindex : lo ≤ heap.index.array ∧ heap.index.array + 4*heap.index.maxSize ≤ heap.startAddress)
    (hroom : left = [] → (withoutRight c right l).length < heap.index.maxSize) :
    ∃ k', free (b + 12) k = .ok k' ∧
      k'.kheap = some ((heap.withEnd (heap.startAddress + HEAP_MIN_SIZE)).withCount
        (freedIndex (headerTLessThan k'.mem) a c left right l).length) ∧
      Represents k'.mem ((heap.withEnd (heap.startAddress + HEAP_MIN_SIZE)).withCount
        (freedIndex (headerTLessThan k'.mem) a c left right l).length) hi
        (pre ++ [gap (heap.startAddress + HEAP_MIN_SIZE - a)])
        (freedIndex (headerTLessThan k'.mem) a c left right l) ∧
      Frame k k' heap.index lo hi a heap.endAddress ∧
      (HEAP_MAGIC < heap.startAddress → heap.index.size < heap.index.maxSize →
        CleanSlots k.mem heap.index → CleanSlots k'.mem heap.index) := by
  have h' : Represents k.mem heap hi (pre ++ (left ++ t :: right) ++ []) l := by simpa using h
  obtain ⟨m1, hrun, htile, hentries, htouch, hclean⟩ := free_merge hk h' hlive ha hc hleft hright
  have hend := h.end_eq
  have hab := hleft.total_eq
  simp only [total_append, total_cons] at hend
  have htop := h.top
  have hbound := h.bound
  have hibound := h.indexBound
  have hcount := h.size_eq
  have hcapacity := h.capacity
  have hle := (withoutRight_sublist c right l).length_le
  have hlast : c + total Tile.size right = heap.endAddress := by omega
  obtain ⟨n1, hn1⟩ : ∃ n, n = (withoutRight c right l).length := ⟨_, rfl⟩
  rw [← hn1] at hrun hentries hle
  -- the heap is contracted
  obtain ⟨k1, hk1⟩ : ∃ k1, k1 = (k.withMem m1).withHeap (heap.withCount n1) := ⟨_, rfl⟩
  have hframe1 : Frame k k1 heap.index lo hi a heap.endAddress := by
    rw [hk1]
    exact Frame.of_touch _ hpaged (htouch.mono le_rfl (by omega)) _ ⟨hindex.1, by omega⟩ (by omega) htop
  have hmem1 : k1.mem = m1 := by rw [hk1]; rfl
  obtain ⟨k2, htail, hkheap2, htile2, hframe2, hbelow2, -⟩ := freeTail_spec (c := c)
    (heap.withCount n1) lo hi (by rw [hk1]; rfl) (hframe1.paged hpaged)
    (by rw [hmem1]; exact htile) rfl (by simp only [Heap.withCount_endAddress]; omega)
    (by simp only [Heap.withCount_startAddress]; omega) hlow hmin (by omega)
    ⟨hindex.1, by simp only [Heap.withCount_array, Heap.withCount_maxSize]; omega⟩ htop hbound
  rw [hmem1] at hbelow2
  have hframe := hframe1.trans (hframe2.of_index_eq heap.index rfl rfl)
  obtain ⟨heap2, hheap2⟩ : ∃ x, x = (heap.withEnd (heap.startAddress + HEAP_MIN_SIZE)).withCount n1 := ⟨_, rfl⟩
  have hk2 : k2.kheap = some heap2 := by
    rw [hkheap2, hheap2]
    rfl
  have hindex2 : heap2.index = heap.index.withSize n1 := by rw [hheap2]; rfl
  have hstart2 : heap2.startAddress = heap.startAddress := by rw [hheap2]; rfl
  have hentries2 : entries k2.mem heap2.index = withoutRight c right l := by
    rw [← hentries, hheap2]
    exact entries_congr (hbelow2.mono hindex.1 (by
      simp only [Heap.withCount_array, Heap.withCount_size, Heap.withEnd_index]
      omega))
  have hslots2 : heap.index.size < heap.index.maxSize → CleanSlots k.mem heap.index →
      CleanSlots k2.mem heap.index := by
    intro hlt hslots j hj
    have hslot := hclean hlt hslots j hj
    rwa [← hbelow2.load32_eq (by unfold slot; omega) (by unfold slot; omega)] at hslot
  -- the hole is entered
  have happart := h.apart
  simp only [HEAP_MIN_SIZE] at hlow hmin
  have hmem : ∀ x ∈ l, heap2.startAddress ≤ x ∧ x + 12 ≤ hi := by
    intro x hx
    have := h.entry_bounds hx
    omega
  have hat : heap2.startAddress ≤ a ∧ a + 12 ≤ hi := by omega
  have harray2 : heap2.index.array = heap.index.array := by rw [hindex2]; rfl
  have hmax2 : heap2.index.maxSize = heap.index.maxSize := by rw [hindex2]; rfl
  have hsize2 : heap2.index.size = n1 := by rw [hindex2]; rfl
  have hroom2 : left = [] → (withoutRight c right l).length < heap2.index.maxSize := by rwa [hmax2]
  obtain ⟨m3, henter, hentries3, hcap3, hoff3, hclean3⟩ := freeEnter_spec hk2 hentries2
    (by rw [hindex2]; exact h.lessThan) hmem hat hbound (by rwa [harray2, hmax2, hstart2]) (by omega) hroom2 (by omega)
  rw [hmax2] at hcap3
  rw [harray2, hmax2] at hoff3
  rw [hindex2] at hclean3
  obtain ⟨l', hl'⟩ : ∃ l', l' = freedIndex (headerTLessThan m3) a c left right l := ⟨_, rfl⟩
  have hperm : l'.Perm (a :: holes heap.startAddress pre) := by
    rw [hl']
    simpa [holes, starts] using freedIndex_perm (headerTLessThan m3) h' hlive ha hc hleft hright
  rw [← hl'] at henter hentries3 hcap3
  have hbefore : SameOn k.mem m3 heap.startAddress a :=
    (hframe.sameOn (by omega) (by omega) (Or.inl (by omega)) (Or.inl le_rfl)).trans (hoff3.sameOn (by omega))
  have hwrites := Frame.of_touch heap.index (hframe.paged hpaged)
    (HeapTouch.of_index (a := a) (e := heap.endAddress) hoff3)
    ((heap.withEnd (heap.startAddress + HEAP_MIN_SIZE)).withCount l'.length) ⟨hindex.1, by omega⟩ (by omega) htop
  refine ⟨(k2.withMem m3).withHeap ((heap.withEnd (heap.startAddress + HEAP_MIN_SIZE)).withCount l'.length), ?_, ?_,
    ?_, hframe.trans hwrites, fun habove hlt hslots => hclean3 (by omega) (hslots2 hlt hslots)⟩
  · rw [hrun, freeFinish_eq, if_pos hlast, ← hk1, htail, ok_bind, henter, hheap2]
    rfl
  · simp only [Kernel.withHeap_kheap, Kernel.withHeap_mem, Kernel.withMem_mem, ← hl']
  · simp only [Kernel.withHeap_mem, Kernel.withMem_mem, ← hl']
    refine h.contracted ha (by simp only [HEAP_MIN_SIZE]; omega) (by simp only [HEAP_MIN_SIZE]; omega) ?_ hbefore ?_
      hperm hcap3
    · have hsame : SameOn k2.mem m3 a heap.endAddress := hoff3.sameOn (by omega)
      refine htile2.congr hsame le_rfl ?_
      simp only [Heap.withCount_startAddress, gap_size, HEAP_MIN_SIZE]
      omega
    · rw [hheap2] at hentries3
      exact hentries3

end PandaOS

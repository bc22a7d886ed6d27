import PandaOS.Library.Tiling
import PandaOS.Memory.Kheap

/-! The layout of the heap. A heap is described by the list of its tiles, in address order, and
by the list of the entries of its index. A tile is a live block or a hole; `tagged` records
whether its last eight bytes are a footer that names it, which the kernel guarantees for live
blocks only. `Represents` connects a memory with a layout. -/
namespace PandaOS
open ByteMemory Word32 Tiling
set_option autoImplicit false
set_option maxHeartbeats 250000

structure Tile where
  size : ℕ
  hole : Bool
  tagged : Bool
  deriving DecidableEq, Repr

/-- A block in use. -/
def live (n : ℕ) : Tile := ⟨n, false, true⟩

/-- A hole with a truthful footer. -/
def gap (n : ℕ) : Tile := ⟨n, true, true⟩

@[simp] theorem live_size (n : ℕ) : (live n).size = n := rfl
@[simp] theorem live_hole (n : ℕ) : (live n).hole = false := rfl
@[simp] theorem live_tagged (n : ℕ) : (live n).tagged = true := rfl
@[simp] theorem gap_size (n : ℕ) : (gap n).size = n := rfl
@[simp] theorem gap_hole (n : ℕ) : (gap n).hole = true := rfl
@[simp] theorem gap_tagged (n : ℕ) : (gap n).tagged = true := rfl

/-- The memory at `a` holds the header of the tile, and its footer if the tile is tagged. -/
structure TileAt (m : Mem) (a : ℕ) (t : Tile) : Prop where
  magic : hMagic m a = HEAP_MAGIC
  isHole : hIsHole m a = if t.hole then 1 else 0
  size : hSize m a = t.size
  big : 20 ≤ t.size
  footer : t.tagged = true → fMagic m (a + t.size - 8) = HEAP_MAGIC ∧ fHeader m (a + t.size - 8) = a
  liveTagged : t.hole = false → t.tagged = true

variable {m m' : Mem} {a b e f v n lo hi : ℕ} {t u : Tile} {ts pre post : List Tile}

/-! ## Headers and footers under stores -/

theorem hMagic_congr (h : SameOn m m' lo hi) (hl : lo ≤ a) (hh : a + 4 ≤ hi) :
    hMagic m' a = hMagic m a := h.load32_eq hl hh

theorem hIsHole_congr (h : SameOn m m' lo hi) (hl : lo ≤ a) (hh : a + 5 ≤ hi) :
    hIsHole m' a = hIsHole m a := h.load8_eq (by omega) (by omega)

theorem hSize_congr (h : SameOn m m' lo hi) (hl : lo ≤ a) (hh : a + 12 ≤ hi) :
    hSize m' a = hSize m a := h.load32_eq (by omega) (by omega)

theorem fMagic_congr (h : SameOn m m' lo hi) (hl : lo ≤ f) (hh : f + 4 ≤ hi) :
    fMagic m' f = fMagic m f := h.load32_eq hl hh

theorem fHeader_congr (h : SameOn m m' lo hi) (hl : lo ≤ f) (hh : f + 8 ≤ hi) :
    fHeader m' f = fHeader m f := h.load32_eq (by omega) (by omega)

theorem sameOff_setIsHole (m : Mem) (a v : ℕ) : SameOff m (setIsHole m a v) (a+4) (a+5) :=
  sameOff_store8 le_rfl (by omega)

theorem sameOff_setSize (m : Mem) (a v : ℕ) : SameOff m (setSize m a v) (a+8) (a+12) :=
  sameOff_store32 le_rfl (by omega)

theorem sameOff_setMagic (m : Mem) (a : ℕ) : SameOff m (setMagic m a) a (a+4) :=
  sameOff_store32 le_rfl (by omega)

theorem sameOff_setHeader (m : Mem) (f v : ℕ) : SameOff m (setHeader m f v) (f+4) (f+8) :=
  sameOff_store32 le_rfl (by omega)

theorem sameOff_writeHeader (m : Mem) (a v n : ℕ) : SameOff m (writeHeader m a v n) a (a+12) :=
  ((sameOff_setMagic m a).mono le_rfl (by omega)).trans
    (((sameOff_setIsHole _ a v).mono (by omega) (by omega)).trans
      ((sameOff_setSize _ a n).mono (by omega) le_rfl))

theorem sameOff_writeFooter (m : Mem) (f v : ℕ) : SameOff m (writeFooter m f v) f (f+8) :=
  ((sameOff_setMagic m f).mono le_rfl (by omega)).trans
    ((sameOff_setHeader _ f v).mono (by omega) le_rfl)

theorem hSize_setSize (hv : v < 4294967296) : hSize (setSize m a v) a = v :=
  load32_store32_of_lt hv

theorem hMagic_writeHeader (m : Mem) (a v n : ℕ) : hMagic (writeHeader m a v n) a = HEAP_MAGIC := by
  simp only [hMagic, writeHeader, setSize, setIsHole, setMagic]
  rw [load32_store32_of_off (by omega), load32_store8_of_off (by omega),
    load32_store32_of_lt (by decide)]

theorem hIsHole_writeHeader (m : Mem) (a n : ℕ) (hv : v < 256) :
    hIsHole (writeHeader m a v n) a = v := by
  simp only [hIsHole, writeHeader, setSize, setIsHole]
  rw [load8_store32_of_off (by omega), load8_store8_self, Nat.mod_eq_of_lt hv]

theorem hSize_writeHeader (m : Mem) (a v : ℕ) (hn : n < 4294967296) :
    hSize (writeHeader m a v n) a = n := hSize_setSize hn

/-- The order of the three stores does not matter. -/
theorem setIsHole_setSize (m : Mem) (a v n : ℕ) :
    setIsHole (setSize (setMagic m a) a n) a v = writeHeader m a v n :=
  store8_store32_comm (Or.inr (by omega))

theorem setMagic_setHeader (m : Mem) (f v : ℕ) : setMagic (setHeader m f v) f = writeFooter m f v :=
  store32_comm (Or.inr (by omega))

theorem fMagic_writeFooter (m : Mem) (f v : ℕ) : fMagic (writeFooter m f v) f = HEAP_MAGIC := by
  simp only [fMagic, writeFooter, setHeader, setMagic]
  rw [load32_store32_of_off (by omega), load32_store32_of_lt (by decide)]

theorem fHeader_writeFooter (m : Mem) (f : ℕ) (hv : v < 4294967296) :
    fHeader (writeFooter m f v) f = v := load32_store32_of_lt hv

/-! ## Tiles -/

theorem TileAt.congr (h : TileAt m a t) (hm : SameOn m m' lo hi) (hl : lo ≤ a)
    (hh : a + t.size ≤ hi) : TileAt m' a t := by
  have hbig := h.big
  refine ⟨?_, ?_, ?_, hbig, ?_, h.liveTagged⟩
  · rw [hMagic_congr hm hl (by omega), h.magic]
  · rw [hIsHole_congr hm hl (by omega), h.isHole]
  · rw [hSize_congr hm hl (by omega), h.size]
  · intro ht
    rw [fMagic_congr hm (by omega) (by omega), fHeader_congr hm (by omega) (by omega)]
    exact h.footer ht

theorem tiles_congr (h : Tiles Tile.size (TileAt m) a ts e) (hm : SameOn m m' lo hi) (hl : lo ≤ a)
    (hh : e ≤ hi) : Tiles Tile.size (TileAt m') a ts e :=
  h.imp (fun _ _ _ hb he ht => ht.congr hm (hl.trans hb) (he.trans hh))

/-- A header that is there already gets its footer. -/
theorem tileAt_writeFooter {hole : Bool} (hmagic : hMagic m a = HEAP_MAGIC)
    (hhole : hIsHole m a = if hole then 1 else 0) (hsize : hSize m a = n) (hn : 20 ≤ n)
    (ha : a < 4294967296) : TileAt (writeFooter m (a + n - 8) a) a ⟨n, hole, true⟩ := by
  have hon : SameOn m (writeFooter m (a + n - 8) a) a (a+12) :=
    (sameOff_writeFooter m (a + n - 8) a).sameOn (Or.inl (by omega))
  refine ⟨?_, ?_, ?_, hn, ?_, fun _ => rfl⟩
  · rw [hMagic_congr hon le_rfl (by omega), hmagic]
  · rw [hIsHole_congr hon le_rfl (by omega), hhole]
  · rw [hSize_congr hon le_rfl (by omega), hsize]
  · exact fun _ => ⟨fMagic_writeFooter _ _ _, fHeader_writeFooter _ _ ha⟩

/-- A fresh block: its header and then its footer. -/
theorem tileAt_write (m : Mem) (hole : Bool) (hn : 20 ≤ n) (hend : a + n < 4294967296) :
    TileAt (writeFooter (writeHeader m a (if hole then 1 else 0) n) (a + n - 8) a) a
      ⟨n, hole, true⟩ :=
  tileAt_writeFooter (hMagic_writeHeader _ _ _ _)
    (hIsHole_writeHeader _ _ _ (by split <;> omega)) (hSize_writeHeader _ _ _ (by omega)) hn (by omega)

/-- A hole gets a new size and a footer to match. -/
theorem tileAt_resize (h : TileAt m b t) (hole : t.hole = true) (hn : 20 ≤ n)
    (hend : b + n < 4294967296) :
    TileAt (writeFooter (setSize m b n) (b + n - 8) b) b (gap n) := by
  have hon : SameOn m (setSize m b n) b (b+8) := (sameOff_setSize m b n).sameOn (Or.inl le_rfl)
  refine tileAt_writeFooter ?_ ?_ (hSize_setSize (by omega)) hn (by omega)
  · rw [hMagic_congr hon le_rfl (by omega), h.magic]
  · rw [hIsHole_congr hon le_rfl (by omega), h.isHole, hole]

theorem sameOff_resize (hn : 20 ≤ n) :
    SameOff m (writeFooter (setSize m b n) (b + n - 8) b) b (b + n) :=
  ((sameOff_setSize m b n).mono (by omega) (by omega)).trans
    ((sameOff_writeFooter _ _ b).mono (by omega) (by omega))

theorem tiles_pos (h : Tiles Tile.size (TileAt m) a ts e) : ∀ t ∈ ts, 0 < t.size := by
  intro t ht
  obtain ⟨pre, post, rfl⟩ := List.append_of_mem ht
  have := (tiles_middle.mp h).2.1.big
  omega

/-! ## Layouts -/

/-- The addresses of the holes. -/
abbrev holes (a : ℕ) (ts : List Tile) : List ℕ := starts Tile.size Tile.hole a ts

/-- The memory holds a heap with the tiles `ts` and the index entries `l`. The index lies outside
`[startAddress, hi)`, which the heap does not leave. -/
structure Represents (m : Mem) (heap : Heap) (hi : ℕ) (ts : List Tile) (l : List ℕ) : Prop where
  tiles : Tiles Tile.size (TileAt m) heap.startAddress ts heap.endAddress
  index : entries m heap.index = l
  perm : l.Perm (holes heap.startAddress ts)
  lessThan : heap.index.lessThan = some headerTLessThan
  capacity : heap.index.size ≤ heap.index.maxSize
  apart : Outside heap.index.array (4*heap.index.maxSize) heap.startAddress hi
  top : heap.endAddress ≤ hi
  bound : hi < 4294967296
  indexBound : heap.index.array + 4*heap.index.maxSize < 4294967296
  start : 8 ≤ heap.startAddress

variable {heap : Heap} {l : List ℕ}

theorem Represents.size_eq (h : Represents m heap hi ts l) : heap.index.size = l.length := by
  rw [← h.index, entries_length]

theorem Represents.nodup (h : Represents m heap hi ts l) : l.Nodup :=
  h.perm.nodup_iff.mpr (starts_nodup (tiles_pos h.tiles))

theorem Represents.end_eq (h : Represents m heap hi ts l) :
    heap.endAddress = heap.startAddress + total Tile.size ts := h.tiles.end_eq

/-- An entry of the index is a hole of the heap, with tiles before and after it. -/
theorem Represents.split (h : Represents m heap hi ts l) (hb : b ∈ l) :
    ∃ pre t post, ts = pre ++ t :: post ∧ t.hole = true ∧
      b = heap.startAddress + total Tile.size pre := by
  obtain ⟨t, hat, hole⟩ := mem_starts.mp (h.perm.mem_iff.mp hb)
  obtain ⟨pre, post, rfl, rfl⟩ := at_iff_split.mp hat
  exact ⟨pre, t, post, rfl, hole, rfl⟩

theorem Represents.entry_bounds (h : Represents m heap hi ts l) (hb : b ∈ l) :
    heap.startAddress ≤ b ∧ b + 20 ≤ heap.endAddress := by
  obtain ⟨t, hat, _⟩ := mem_starts.mp (h.perm.mem_iff.mp hb)
  have h1 := hat.bounds
  have h2 := (h.tiles.at hat).big
  have h3 := h.end_eq
  omega

/-- The heap and its index lie in memory that stayed the same. -/
theorem Represents.congr (h : Represents m heap hi ts l) (hheap : SameOn m m' heap.startAddress heap.endAddress)
    (hindex : SameOn m m' heap.index.array (heap.index.array + 4*heap.index.size)) : Represents m' heap hi ts l := by
  refine ⟨tiles_congr h.tiles hheap le_rfl le_rfl, ?_, h.perm, h.lessThan, h.capacity, h.apart, h.top, h.bound,
    h.indexBound, h.start⟩
  rw [entries_congr hindex, h.index]

/-! ## Replacing tiles -/

/-- Outside the index and `[a, e)` the memory is the same. -/
def HeapTouch (index : OrderedArray) (m m' : Mem) (a e : ℕ) : Prop :=
  ∀ x, (x < index.array ∨ index.array + 4*index.maxSize ≤ x) → (x < a ∨ e ≤ x) → m' x = m x

variable {index : OrderedArray} {m'' : Mem}

theorem HeapTouch.refl (index : OrderedArray) (m : Mem) (a e : ℕ) : HeapTouch index m m a e :=
  fun _ _ _ => rfl

theorem HeapTouch.trans (h : HeapTouch index m m' a e) (h' : HeapTouch index m' m'' a e) :
    HeapTouch index m m'' a e := fun x h1 h2 => (h' x h1 h2).trans (h x h1 h2)

theorem HeapTouch.mono (h : HeapTouch index m m' a e) (hl : lo ≤ a) (hh : e ≤ hi) :
    HeapTouch index m m' lo hi := fun x h1 h2 => h x h1 (by omega)

theorem HeapTouch.of_sameOff (h : SameOff m m' a e) : HeapTouch index m m' a e :=
  fun x _ h2 => h x h2

theorem HeapTouch.of_index (h : SameOff m m' index.array (index.array + 4*index.maxSize)) :
    HeapTouch index m m' a e := fun x h1 _ => h x h1

theorem HeapTouch.sameOn (h : HeapTouch index m m' a e)
    (hindex : Outside index.array (4*index.maxSize) lo hi) (hd : hi ≤ a ∨ e ≤ lo) :
    SameOn m m' lo hi := by
  intro x h1 h2
  unfold Outside at hindex
  exact h x (by omega) (by omega)

/-- The same heap with `n` entries in its index. -/
def Heap.withCount (heap : Heap) (n : ℕ) : Heap :=
  { heap with index := { heap.index with size := n } }

@[simp] theorem Heap.withCount_startAddress (heap : Heap) (n : ℕ) :
    (heap.withCount n).startAddress = heap.startAddress := rfl
@[simp] theorem Heap.withCount_endAddress (heap : Heap) (n : ℕ) :
    (heap.withCount n).endAddress = heap.endAddress := rfl
@[simp] theorem Heap.withCount_maxAddress (heap : Heap) (n : ℕ) :
    (heap.withCount n).maxAddress = heap.maxAddress := rfl
@[simp] theorem Heap.withCount_array (heap : Heap) (n : ℕ) :
    (heap.withCount n).index.array = heap.index.array := rfl
@[simp] theorem Heap.withCount_maxSize (heap : Heap) (n : ℕ) :
    (heap.withCount n).index.maxSize = heap.index.maxSize := rfl
@[simp] theorem Heap.withCount_size (heap : Heap) (n : ℕ) :
    (heap.withCount n).index.size = n := rfl
@[simp] theorem Heap.withCount_withCount (heap : Heap) (n n' : ℕ) :
    (heap.withCount n).withCount n' = heap.withCount n' := rfl

/-- The same heap with another end. -/
def Heap.withEnd (heap : Heap) (e : ℕ) : Heap := { heap with endAddress := e }

@[simp] theorem Heap.withEnd_startAddress (heap : Heap) (e : ℕ) :
    (heap.withEnd e).startAddress = heap.startAddress := rfl
@[simp] theorem Heap.withEnd_endAddress (heap : Heap) (e : ℕ) :
    (heap.withEnd e).endAddress = e := rfl
@[simp] theorem Heap.withEnd_maxAddress (heap : Heap) (e : ℕ) :
    (heap.withEnd e).maxAddress = heap.maxAddress := rfl
@[simp] theorem Heap.withEnd_index (heap : Heap) (e : ℕ) : (heap.withEnd e).index = heap.index := rfl

variable {old mid : List Tile} {l' : List ℕ}

/-- Tiles in the middle of a tiling are exchanged for others of the same total size. -/
theorem tiles_replace (h : Tiles Tile.size (TileAt m) a (pre ++ old ++ post) e)
    (hpre : SameOn m m' a (a + total Tile.size pre))
    (hpost : SameOn m m' (a + total Tile.size pre + total Tile.size old) e)
    (hmid : Tiles Tile.size (TileAt m') (a + total Tile.size pre) mid
      (a + total Tile.size pre + total Tile.size old)) :
    Tiles Tile.size (TileAt m') a (pre ++ mid ++ post) e := by
  obtain ⟨h12, h3⟩ := tiles_append.mp h
  obtain ⟨h1, _⟩ := tiles_append.mp h12
  have htotal := hmid.end_eq
  rw [total_append] at h3
  refine tiles_append.mpr ⟨tiles_append.mpr ⟨tiles_congr h1 hpre le_rfl le_rfl, ?_⟩, ?_⟩
  · rwa [total_append, ← Nat.add_assoc, ← htotal]
  · rw [total_append]
    have := h3.end_eq
    have hshift : a + (total Tile.size pre + total Tile.size mid) =
        a + (total Tile.size pre + total Tile.size old) := by omega
    rw [hshift]
    exact tiles_congr h3 hpost (by omega) le_rfl

theorem holes_middle : holes a (pre ++ mid ++ post) =
    holes a pre ++ holes (a + total Tile.size pre) mid ++
      holes (a + total Tile.size pre + total Tile.size mid) post := by
  simp only [holes, starts_append, total_append, Nat.add_assoc]

theorem Represents.replace (h : Represents m heap hi (pre ++ old ++ post) l)
    (hmid : Tiles Tile.size (TileAt m') (heap.startAddress + total Tile.size pre) mid
      (heap.startAddress + total Tile.size pre + total Tile.size old))
    (htouch : HeapTouch heap.index m m' (heap.startAddress + total Tile.size pre)
      (heap.startAddress + total Tile.size pre + total Tile.size old))
    (hindex : entries m' (heap.withCount l'.length).index = l')
    (hperm : l'.Perm (holes heap.startAddress (pre ++ mid ++ post)))
    (hcapacity : l'.length ≤ heap.index.maxSize) :
    Represents m' (heap.withCount l'.length) hi (pre ++ mid ++ post) l' := by
  have hend := h.end_eq
  have htop := h.top
  rw [total_append, total_append] at hend
  have hwindow := h.apart
  unfold Outside at hwindow
  have htiles : Tiles Tile.size (TileAt m') heap.startAddress (pre ++ mid ++ post) heap.endAddress := by
    refine tiles_replace h.tiles (htouch.sameOn ?_ (Or.inl le_rfl)) (htouch.sameOn ?_ (Or.inr le_rfl))
      hmid
    · unfold Outside
      omega
    · unfold Outside
      omega
  exact ⟨htiles, hindex, hperm, h.lessThan, hcapacity, h.apart, h.top, h.bound, h.indexBound, h.start⟩

end PandaOS

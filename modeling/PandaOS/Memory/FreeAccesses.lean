import PandaOS.Memory.TailFree
import PandaOS.Library.Traced

/-! The fields of headers and footers that `free` reads and writes. `free` is written once more, with every such
field and every decision to merge recorded; without the record it is `free`. On a well-formed heap only
the look behind the last block leaves the heap. -/
namespace PandaOS
open ByteMemory Word32 Tiling Tracing Traced
set_option autoImplicit false
set_option maxHeartbeats 250000

/-- A field of a `header_t` or `footer_t` that is read or written, or a merge with the hole at `header`. -/
inductive FreeEvent
  | field (a width : ℕ)
  | merge (header : ℕ)
  deriving DecidableEq, Repr

/-- `magic`, the first field of both. -/
def magicField (a : ℕ) : FreeEvent := .field a 4

def isHoleField (header : ℕ) : FreeEvent := .field (header + 4) 1

def sizeField (header : ℕ) : FreeEvent := .field (header + 8) 4

/-- `footer->header` -/
def headerField (footer : ℕ) : FreeEvent := .field (footer + 4) 4

/-! ## free with its accesses -/

def freeLeftFields (header footer : ℕ) (m : Mem) : Traced Stop FreeEvent ((ℕ × Bool) × Mem) := do
  let testFooter := sub32 header sizeofFooter
  touch (magicField testFooter)
  if fMagic m testFooter = HEAP_MAGIC then
    touchAll [headerField testFooter, isHoleField (fHeader m testFooter)]
    if hIsHole m (fHeader m testFooter) = 1 then
      touchAll [.merge (fHeader m testFooter), sizeField header, headerField testFooter, headerField footer,
        sizeField (fHeader m testFooter)]
      let cacheSize := hSize m header
      let header := fHeader m testFooter
      let m := setHeader m footer header
      let m := setSize m header (add32 (hSize m header) cacheSize)
      pure ((header, false), m)
    else pure ((header, true), m)
  else pure ((header, true), m)

def freeRightFields (header footer : ℕ) (index : OrderedArray) (m : Mem) :
    Traced Stop FreeEvent (ℕ × (OrderedArray × Mem)) := do
  let testHeader := add32 footer sizeofFooter
  touch (magicField testHeader)
  if hMagic m testHeader = HEAP_MAGIC then
    touch (isHoleField testHeader)
    if hIsHole m testHeader ≠ 0 then
      touchAll [.merge testHeader, sizeField testHeader, sizeField header]
      let m := setSize m header (add32 (hSize m header) (hSize m testHeader))
      touch (sizeField testHeader)
      let testFooter := sub32 (add32 testHeader (hSize m testHeader)) sizeofFooter
      let iterator := entryScan testHeader index m index.size 0
      lift (assert (decide (iterator < index.size)) "iterator < heap->index.size")
      pure (testFooter, removeOrderedArray iterator index m)
    else pure (footer, (index, m))
  else pure (footer, (index, m))

def freeTailFields (header testHeader : ℕ) (k : Kernel) : Traced Stop FreeEvent Kernel := do
  let heap ← lift (heapOf k)
  let oldLength := sub32 heap.endAddress heap.startAddress
  let (newLength, k) ← lift (contract (sub32 header heap.startAddress) k)
  touch (sizeField header)
  if sub32 (hSize k.mem header) (sub32 oldLength newLength) > 0 then
    touch (sizeField header)
    let m := setSize k.mem header (sub32 (hSize k.mem header) (sub32 oldLength newLength))
    touch (sizeField header)
    let footer := sub32 (add32 header (hSize m header)) sizeofFooter
    touchAll [magicField footer, headerField footer]
    pure (k.withMem (writeFooter m footer header))
  else
    let heap ← lift (heapOf k)
    let iterator := entryScan testHeader heap.index k.mem heap.index.size 0
    if iterator < heap.index.size then
      let (index, m) := removeOrderedArray iterator heap.index k.mem
      pure ((k.withMem m).withHeap { heap with index := index })
    else pure k

/-- The comparisons of `insert_ordered_array` by `header_t_less_than`. -/
def insertScanFields (lt : ℕ → ℕ → Bool) (m : Mem) (array : OrderedArray) (item : ℕ) :
    ℕ → ℕ → Traced Stop FreeEvent ℕ
  | 0, iterator => pure iterator
  | n + 1, iterator => do
    touchAll [sizeField (load32 m (slot array iterator)), sizeField item]
    if lt (load32 m (slot array iterator)) item then insertScanFields lt m array item n (iterator + 1)
    else pure iterator

def insertFields (item : ℕ) (array : OrderedArray) (m : Mem) : Traced Stop FreeEvent (OrderedArray × Mem) :=
  match array.lessThan with
  | none => lift (.error (.assertionFailed "array->less_than"))
  | some lt => do
    let _ ← insertScanFields (lt m) m array item array.size 0
    lift (insertOrderedArray item array m)

def freeAddFields (header : ℕ) (doAdd : Bool) (k : Kernel) : Traced Stop FreeEvent Kernel :=
  if doAdd then do
    let heap ← lift (heapOf k)
    let (index, m) ← insertFields header heap.index k.mem
    pure ((k.withMem m).withHeap { heap with index := index })
  else pure k

/-- The end of the heap and the insertion, for the merged hole at `a` that ends at `e`. -/
def freeFinishFields (a c e : ℕ) (doAdd : Bool) (heapEnd : ℕ) (k : Kernel) : Traced Stop FreeEvent Kernel :=
  if e = heapEnd then do
    let k ← freeTailFields a c k
    freeAddFields a doAdd k
  else freeAddFields a doAdd k

/-- `free` behind the merge with a hole to the left. -/
def freeRestFields (header footer testHeader : ℕ) (doAdd : Bool) (heap : Heap) (m : Mem) (k : Kernel) :
    Traced Stop FreeEvent Kernel := do
  let (footer, (index, m)) ← freeRightFields header footer heap.index m
  freeFinishFields header testHeader (add32 footer sizeofFooter) doAdd heap.endAddress
    ((k.withMem m).withHeap { heap with index := index })

def freeFields (p : ℕ) (k : Kernel) : Traced Stop FreeEvent Kernel :=
  if p = 0 then pure k
  else do
    let heap ← lift (heapOf k)
    let header := sub32 p sizeofHeader
    touch (sizeField header)
    let footer := sub32 (add32 header (hSize k.mem header)) sizeofFooter
    touch (magicField header)
    lift (assert (decide (hMagic k.mem header = HEAP_MAGIC)) "header->magic == HEAP_MAGIC")
    touch (magicField footer)
    lift (assert (decide (fMagic k.mem footer = HEAP_MAGIC)) "footer->magic == HEAP_MAGIC")
    touch (isHoleField header)
    let m := setIsHole k.mem header 1
    let testHeader := add32 footer sizeofFooter
    let ((header, doAdd), m) ← freeLeftFields header footer m
    freeRestFields header footer testHeader doAdd heap m k

variable {m m' : Mem} {k k' : Kernel} {heap : Heap} {index array : OrderedArray} {ts pre left right post : List Tile}
  {t u : Tile} {l : List ℕ} {a b c e n i p item header footer testHeader : ℕ} {lt : ℕ → ℕ → Bool}
  {inside : FreeEvent → Prop}

/-! ## Without the record -/

theorem freeLeftFields_result (header footer : ℕ) (m : Mem) :
    (freeLeftFields header footer m).result = .ok (freeLeft header footer m) := by
  rw [freeLeftFields, freeLeft, result_bind, result_touch, ok_bind]
  by_cases hmagic : fMagic m (sub32 header sizeofFooter) = HEAP_MAGIC
  · by_cases hole : hIsHole m (fHeader m (sub32 header sizeofFooter)) = 1
    · rw [if_pos hmagic, if_pos hole, if_pos ⟨hmagic, hole⟩]
      rfl
    · rw [if_pos hmagic, if_neg hole, if_neg fun hand => hole hand.2]
      rfl
  · rw [if_neg hmagic, if_neg fun hand => hmagic hand.1]
    rfl

theorem freeRightFields_result (header footer : ℕ) (index : OrderedArray) (m : Mem) :
    (freeRightFields header footer index m).result = freeRight header footer index m := by
  rw [freeRightFields, freeRight, result_bind, result_touch, ok_bind]
  by_cases hmagic : hMagic m (add32 footer sizeofFooter) = HEAP_MAGIC
  · by_cases hole : hIsHole m (add32 footer sizeofFooter) ≠ 0
    · rw [if_pos hmagic, result_bind, result_touch, ok_bind, if_pos hole, if_pos ⟨hmagic, hole⟩]
      simp only [result_bind, result_touchAll, result_touch, ok_bind, result_lift, result_pure]
      rfl
    · rw [if_pos hmagic, result_bind, result_touch, ok_bind, if_neg hole, if_neg fun hand => hole hand.2]
      rfl
  · rw [if_neg hmagic, if_neg fun hand => hmagic hand.1]
    rfl

theorem freeTailFields_result (header testHeader : ℕ) (k : Kernel) :
    (freeTailFields header testHeader k).result = freeTail header testHeader k := by
  rw [freeTailFields, freeTail, result_bind, result_lift]
  congr 1
  funext heap
  rw [result_bind, result_lift]
  congr 1
  funext r
  obtain ⟨newLength, k1⟩ := r
  dsimp only
  rw [result_bind, result_touch, ok_bind]
  split
  · rfl
  · rw [result_bind, result_lift]
    congr 1
    funext heap1
    split
    · rfl
    · rfl

theorem insertScanFields_result (lt : ℕ → ℕ → Bool) (m : Mem) (array : OrderedArray) (item n i : ℕ) :
    (insertScanFields lt m array item n i).result = .ok (insertScan lt m array item n i) := by
  induction n generalizing i with
  | zero => rfl
  | succ n ih =>
    rw [insertScanFields, insertScan, result_bind, result_touchAll, ok_bind]
    split
    · exact ih (i+1)
    · rfl

theorem insertFields_result (item : ℕ) (array : OrderedArray) (m : Mem) :
    (insertFields item array m).result = insertOrderedArray item array m := by
  rw [insertFields]
  cases hless : array.lessThan with
  | none =>
    rw [insertOrderedArray, hless]
    rfl
  | some lt =>
    rw [result_bind, insertScanFields_result, ok_bind, result_lift]

theorem freeAddFields_result (header : ℕ) (doAdd : Bool) (k : Kernel) :
    (freeAddFields header doAdd k).result = (if doAdd then do
      let heap ← heapOf k
      let (index, m) ← insertOrderedArray header heap.index k.mem
      return (k.withMem m).withHeap { heap with index := index }
    else return k) := by
  rw [freeAddFields]
  split
  · rw [result_bind, result_lift]
    cases heapOf k with
    | error e => rfl
    | ok heap =>
      rw [ok_bind, ok_bind, result_bind, insertFields_result]
      rfl
  · rfl

theorem freeFinishFields_result (a c e : ℕ) (doAdd : Bool) (heapEnd : ℕ) (k : Kernel) :
    (freeFinishFields a c e doAdd heapEnd k).result = freeFinish a c e doAdd heapEnd k := by
  rw [freeFinishFields, freeFinish]
  split
  · rw [result_bind, freeTailFields_result]
    cases freeTail a c k with
    | error e => rfl
    | ok k1 => exact freeAddFields_result a doAdd k1
  · exact freeAddFields_result a doAdd k

/-- The recorded call is the call. -/
theorem freeFields_result (p : ℕ) (k : Kernel) : (freeFields p k).result = free p k := by
  rw [freeFields, free]
  split
  · rfl
  rw [result_bind, result_lift]
  cases heapOf k with
  | error e => rfl
  | ok heap =>
    rw [ok_bind, ok_bind]
    dsimp only
    obtain ⟨header, hheader⟩ : ∃ header, header = sub32 p sizeofHeader := ⟨_, rfl⟩
    obtain ⟨footer, hfooter⟩ : ∃ footer, footer = sub32 (add32 header (hSize k.mem header)) sizeofFooter := ⟨_, rfl⟩
    rw [← hheader, ← hfooter, result_bind, result_touch, ok_bind, result_bind, result_touch, ok_bind, result_bind,
      result_lift]
    cases assert (decide (hMagic k.mem header = HEAP_MAGIC)) "header->magic == HEAP_MAGIC" with
    | error e => rfl
    | ok _ =>
      rw [ok_bind, ok_bind, result_bind, result_touch, ok_bind, result_bind, result_lift]
      cases assert (decide (fMagic k.mem footer = HEAP_MAGIC)) "footer->magic == HEAP_MAGIC" with
      | error e => rfl
      | ok _ =>
        rw [ok_bind, ok_bind, result_bind, result_touch, ok_bind, result_bind, freeLeftFields_result, ok_bind]
        obtain ⟨⟨a, doAdd⟩, m⟩ := freeLeft header footer (setIsHole k.mem header 1)
        dsimp only
        rw [freeRestFields, result_bind, freeRightFields_result]
        cases freeRight a footer heap.index m with
        | error e => rfl
        | ok r => exact freeFinishFields_result _ _ _ _ _ _

/-! ## Inside the heap -/

/-- The field lies between the start of the index and the end of the heap; the merge is with a block. -/
def FreeEvent.Inside (heap : Heap) (ts : List Tile) : FreeEvent → Prop
  | .field a width => heap.index.array ≤ a ∧ a + width ≤ heap.endAddress
  | .merge header => ∃ u, At Tile.size heap.startAddress ts header u

theorem inside_header (ts : List Tile) (hl : heap.index.array ≤ a) (hh : a + 12 ≤ heap.endAddress) :
    (magicField a).Inside heap ts ∧ (isHoleField a).Inside heap ts ∧ (sizeField a).Inside heap ts := by
  simp only [magicField, isHoleField, sizeField, FreeEvent.Inside]
  omega

theorem inside_footer (ts : List Tile) (hl : heap.index.array ≤ a) (hh : a + 8 ≤ heap.endAddress) :
    (magicField a).Inside heap ts ∧ (headerField a).Inside heap ts := by
  simp only [magicField, headerField, FreeEvent.Inside]
  omega

/-- An index area followed by blocks with correct headers and footers. The two words in front of the first block
are slots of the index and cannot be taken for a footer. -/
structure BlockHeap (k : Kernel) (heap : Heap) (ts : List Tile) (l : List ℕ) : Prop where
  kheap : k.kheap = some heap
  represents : Represents k.mem heap heap.maxAddress ts l
  tagged : ∀ t ∈ ts, t.tagged = true
  adjacent : heap.index.array + 4*heap.index.maxSize = heap.startAddress
  two : 1 < heap.index.maxSize
  first : fMagic k.mem (heap.startAddress - 8) ≠ HEAP_MAGIC
  paged : Paged k heap.index.array heap.maxAddress
  minimum : heap.startAddress + HEAP_MIN_SIZE ≤ heap.endAddress

theorem HeapState.blocks (h : HeapState k heap ts l) (htagged : ∀ t ∈ ts, t.tagged = true)
    (hindex : heap.index.array + 4*heap.index.maxSize = heap.startAddress) : BlockHeap k heap ts l :=
  ⟨h.kheap, h.represents, htagged, hindex, h.two, h.below_start hindex, h.paged, h.minimum⟩

/-- The header of a block. -/
theorem BlockHeap.inside_tile (h : BlockHeap k heap ts l) (hat : At Tile.size heap.startAddress ts a u) :
    heap.index.array ≤ a ∧ a + u.size ≤ heap.endAddress ∧ 20 ≤ u.size := by
  have hend := h.represents.end_eq
  have hindex := h.adjacent
  have hbounds := hat.bounds
  exact ⟨by omega, by omega, (h.represents.tiles.at hat).big⟩

/-- What looks like a footer in front of a block is one, and names the block before it. -/
theorem BlockHeap.footer_below (h : BlockHeap k heap (pre ++ t :: post) l)
    (hb : b = heap.startAddress + total Tile.size pre) (hmagic : fMagic k.mem (b - 8) = HEAP_MAGIC) :
    ∃ u, At Tile.size heap.startAddress (pre ++ t :: post) (fHeader k.mem (b - 8)) u := by
  rcases List.eq_nil_or_concat' pre with rfl | ⟨pre', u, rfl⟩
  · rw [total_nil, Nat.add_zero] at hb
    rw [hb] at hmagic
    exact absurd hmagic h.first
  · have hsplit : (pre' ++ [u]) ++ t :: post = pre' ++ u :: (t :: post) := by simp
    have hu := at_middle Tile.size heap.startAddress pre' u (t :: post)
    have htag : u.tagged = true := h.tagged u (by simp)
    have htiles := h.represents.tiles
    rw [hsplit] at htiles ⊢
    have hfooter := ((htiles.at hu).footer htag).2
    simp only [total_append, total_cons, total_nil, Nat.add_zero] at hb
    have hplace : b - 8 = heap.startAddress + total Tile.size pre' + u.size - 8 := by omega
    rw [hplace, hfooter]
    exact ⟨u, hu⟩

theorem freeLeftFields_within (h : BlockHeap k heap ts l) (hat : At Tile.size heap.startAddress ts b t)
    (hbelow : fMagic k.mem (b - 8) = HEAP_MAGIC → ∃ u, At Tile.size heap.startAddress ts (fHeader k.mem (b - 8)) u) :
    Within (FreeEvent.Inside heap ts) (freeLeftFields b (b + t.size - 8) (setIsHole k.mem b 1)) := by
  have hindex := h.adjacent
  have htwo := h.two
  have htop := h.represents.top
  have hbound := h.represents.bound
  have hstart := hat.bounds.1
  obtain ⟨hl, hh, hbig⟩ := h.inside_tile hat
  have hfoot : sub32 b sizeofFooter = b - 8 := sub32_of_le (by simp only [sizeofFooter]; omega) (by omega)
  have hlow : SameOn k.mem (setIsHole k.mem b 1) (b-8) b := (sameOff_setIsHole k.mem b 1).sameOn (Or.inl (by omega))
  have hmagic := fMagic_congr (f := b - 8) hlow le_rfl (by omega)
  have hheader := fHeader_congr (f := b - 8) hlow le_rfl (by omega)
  have htest : (magicField (b - 8)).Inside heap ts ∧ (headerField (b - 8)).Inside heap ts :=
    inside_footer _ (by omega) (by omega)
  rw [freeLeftFields, hfoot, hmagic, hheader, within_touch_bind]
  refine ⟨htest.1, ?_⟩
  split
  · next heq =>
    obtain ⟨u, hu⟩ := hbelow heq
    obtain ⟨hul, huh, hubig⟩ := h.inside_tile hu
    have hfields := inside_header ts hul (by omega : fHeader k.mem (b - 8) + 12 ≤ heap.endAddress)
    rw [within_touchAll_bind]
    refine ⟨?_, ?_⟩
    · simp only [List.mem_cons, List.not_mem_nil, or_false, forall_eq_or_imp, forall_eq]
      exact ⟨htest.2, hfields.2.1⟩
    · split
      · rw [within_touchAll_bind]
        refine ⟨?_, within_pure _⟩
        simp only [List.mem_cons, List.not_mem_nil, or_false, forall_eq_or_imp, forall_eq]
        exact ⟨⟨u, hu⟩, (inside_header _ hl (by omega)).2.2, htest.2,
          (inside_footer _ (by omega) (by omega)).2, hfields.2.2⟩
      · exact within_pure _
  · exact within_pure _

/-- The look at the block behind, where there is one. -/
theorem freeRightFields_within (h : BlockHeap k heap ts l) (hat : At Tile.size heap.startAddress ts c u)
    (ha : heap.index.array ≤ a) (hac : a + 20 ≤ c) (index : OrderedArray) (m : Mem) :
    Within (FreeEvent.Inside heap ts) (freeRightFields a (c - 8) index m) := by
  have htop := h.represents.top
  have hbound := h.represents.bound
  obtain ⟨hl, hh, hbig⟩ := h.inside_tile hat
  have hheader : add32 (c - 8) sizeofFooter = c := by
    rw [add32_of_lt (by simp only [sizeofFooter]; omega)]
    simp only [sizeofFooter]
    omega
  have hfields := inside_header ts hl (by omega : c + 12 ≤ heap.endAddress)
  rw [freeRightFields, hheader, within_touch_bind]
  refine ⟨hfields.1, ?_⟩
  split
  · rw [within_touch_bind]
    refine ⟨hfields.2.1, ?_⟩
    split
    · rw [within_touchAll_bind]
      refine ⟨?_, ?_⟩
      · simp only [List.mem_cons, List.not_mem_nil, or_false, forall_eq_or_imp, forall_eq]
        exact ⟨⟨u, hat⟩, hfields.2.2, (inside_header _ ha (by omega)).2.2⟩
      · rw [within_touch_bind]
        exact ⟨hfields.2.2, within_bind (within_lift _) fun _ _ => within_pure _⟩
    · exact within_pure _
  · exact within_pure _

/-- Behind the last block the look leaves the heap. -/
theorem not_within_last (hbig : 8 ≤ heap.endAddress) (hend : heap.endAddress < 4294967296) (a : ℕ) (index : OrderedArray)
    (m : Mem) : ¬ Within (FreeEvent.Inside heap ts) (freeRightFields a (heap.endAddress - 8) index m) := by
  have hheader : add32 (heap.endAddress - 8) sizeofFooter = heap.endAddress := by
    rw [add32_of_lt (by simp only [sizeofFooter]; omega)]
    simp only [sizeofFooter]
    omega
  rw [freeRightFields, hheader, within_touch_bind]
  rintro ⟨hinside, -⟩
  simp only [magicField, FreeEvent.Inside] at hinside
  omega

theorem insertScanFields_within (hall : ∀ x ∈ entries m array, inside (sizeField x)) (hitem : inside (sizeField item))
    (lt : ℕ → ℕ → Bool) (hn : i + n ≤ array.size) : Within inside (insertScanFields lt m array item n i) := by
  induction n generalizing i with
  | zero => exact within_pure i
  | succ n ih =>
    rw [insertScanFields, within_touchAll_bind]
    refine ⟨?_, ?_⟩
    · simp only [List.mem_cons, List.not_mem_nil, or_false, forall_eq_or_imp, forall_eq]
      exact ⟨hall _ (mem_entries.mpr ⟨i, by omega, rfl⟩), hitem⟩
    · split
      · exact ih (by omega)
      · exact within_pure i

theorem freeAddFields_within (hk : k.kheap = some heap) (hall : ∀ x ∈ entries k.mem heap.index, inside (sizeField x))
    (hitem : inside (sizeField a)) (doAdd : Bool) : Within inside (freeAddFields a doAdd k) := by
  rw [freeAddFields]
  split
  · rw [heapOf_eq hk, lift_ok_bind]
    refine within_bind ?_ fun _ _ => within_pure _
    rw [insertFields]
    cases heap.index.lessThan with
    | none => exact within_lift _
    | some lt => exact within_bind (insertScanFields_within hall hitem _ (Nat.zero_add _).le) fun _ _ => within_lift _
  · exact within_pure k

/-! ## The end of the heap -/

/-- Where the heap is cut below the hole's end, the hole's new footer is at the new end or none is written. -/
theorem freeTailFields_within {lo hi : ℕ} (hk : k.kheap = some heap) (hpaged : Paged k lo hi)
    (htile : TileAt k.mem a t) (hend : a + t.size = heap.endAddress) (hstart : heap.startAddress ≤ a)
    (hmin : heap.startAddress + HEAP_MIN_SIZE ≤ heap.endAddress) (hbelow : heap.index.array ≤ heap.startAddress)
    (hlo : lo ≤ a) (htop : heap.endAddress ≤ hi) (hbound : heap.endAddress < 4294967296) (c : ℕ) :
    Within (FreeEvent.Inside heap ts) (freeTailFields a c k) := by
  have hbig := htile.big
  simp only [HEAP_MIN_SIZE] at hmin
  have hlength : sub32 heap.endAddress heap.startAddress = heap.endAddress - heap.startAddress :=
    sub32_of_le (by omega) hbound
  obtain ⟨o, ho⟩ : ∃ o, o = a - heap.startAddress := ⟨_, rfl⟩
  have hoffset : sub32 a heap.startAddress = o := by
    rw [ho]
    exact sub32_of_le hstart (by omega)
  obtain ⟨k1, hcontract, htouch⟩ := contract_spec o hk hpaged (by rw [hlength]; omega)
  have hsize : hSize k1.mem a = t.size := (htile.congr htouch.window hlo (by omega)).size
  have hfield := (inside_header ts (by omega : heap.index.array ≤ a) (by omega : a + 12 ≤ heap.endAddress)).2.2
  rw [freeTailFields, heapOf_eq hk, lift_ok_bind]
  dsimp only
  rw [hoffset, hcontract, lift_ok_bind]
  dsimp only
  rw [Kernel.withHeap_mem, hsize, hlength, within_touch_bind]
  refine ⟨hfield, ?_⟩
  obtain ⟨n, hn⟩ : ∃ n, n = sub32 t.size (sub32 (heap.endAddress - heap.startAddress) (contractedSize o)) := ⟨_, rfl⟩
  rw [← hn]
  split
  · next hpos =>
    have hn32 : n < 4294967296 := by
      rw [hn]
      exact sub32_lt _ _
    have hset : hSize (setSize k1.mem a n) a = n := hSize_setSize hn32
    have hfooter : sub32 (add32 a n) sizeofFooter = heap.startAddress + 0x70000 - 8 := by
      have hcut : contractedSize o = 0x70000 := by
        refine (contractedSize_cases o).resolve_right fun hself => ?_
        rw [hself, sub32_of_le (by omega : o ≤ heap.endAddress - heap.startAddress) (by omega)] at hn
        have hall : heap.endAddress - heap.startAddress - o = t.size := by omega
        rw [hall, sub32_self (by omega)] at hn
        omega
      rw [hcut, sub32_of_le (by omega : 0x70000 ≤ heap.endAddress - heap.startAddress) (by omega)] at hn
      have hadd : add32 a n = heap.startAddress + 0x70000 := by
        unfold add32
        rcases Nat.lt_or_ge t.size (heap.endAddress - heap.startAddress - 0x70000) with hlt | hle
        · rw [sub32_of_lt hlt (by omega)] at hn
          omega
        · rw [sub32_of_le hle (by omega)] at hn
          omega
      rw [hadd]
      exact sub32_of_le (by simp only [sizeofFooter]; omega) (by omega)
    rw [within_touch_bind, within_touch_bind, hset, hfooter, within_touchAll_bind]
    refine ⟨hfield, hfield, ?_, within_pure _⟩
    simp only [List.mem_cons, List.not_mem_nil, or_false, forall_eq_or_imp, forall_eq]
    exact inside_footer _ (by omega) (by omega)
  · refine within_bind (within_lift _) fun _ _ => ?_
    split
    · exact within_pure _
    · exact within_pure _

/-- The contraction does not change the index. -/
theorem freeTail_entries {lo hi : ℕ} (hk : k.kheap = some heap) (hpaged : Paged k lo hi)
    (htile : TileAt k.mem a t) (hole : t.hole = true) (hend : a + t.size = heap.endAddress)
    (hstart : heap.startAddress ≤ a) (hmin : heap.startAddress + HEAP_MIN_SIZE ≤ heap.endAddress)
    (hl : entries k.mem heap.index = l) (hc : c ∉ l) (hcap : heap.index.size ≤ heap.index.maxSize)
    (hindex : lo ≤ heap.index.array ∧ heap.index.array + 4*heap.index.maxSize ≤ heap.startAddress)
    (htop : heap.endAddress ≤ hi) (hbound : hi < 4294967296) :
    ∃ k' heap', freeTail a c k = .ok k' ∧ k'.kheap = some heap' ∧ heap'.index = heap.index ∧
      entries k'.mem heap.index = l := by
  rcases Nat.lt_or_ge HEAP_MIN_SIZE (a - heap.startAddress + 20) with hhigh | hlow
  · obtain ⟨k', hrun, hkheap, hentries⟩ := freeTail_high heap lo hi hk hpaged htile hend hstart hhigh hmin hl hc hcap
      hindex htop hbound
    exact ⟨k', _, hrun, hkheap, rfl, hentries⟩
  · obtain ⟨k', hrun, hkheap, -, -, hsame, -⟩ := freeTail_spec (c := c) heap lo hi hk hpaged htile hole hend hstart hlow
      hmin (by omega) ⟨hindex.1, by omega⟩ htop hbound
    refine ⟨k', _, hrun, hkheap, rfl, ?_⟩
    rw [← hl]
    exact entries_congr (hsame.mono hindex.1 (by omega))

/-! ## The call -/

/-- `free` up to the first merge, and what is left of it behind that. -/
theorem freeFields_within_iff (h : BlockHeap k heap (pre ++ t :: post) l) (hlive : t.hole = false)
    (hb : b = heap.startAddress + total Tile.size pre) (hc : c = b + t.size) (hleft : LeftCase k.mem a b left)
    (ts : List Tile) :
    ∃ m', TileAt m' a (gap (total Tile.size left + t.size)) ∧ SameOff k.mem m' a c ∧
      (Within (FreeEvent.Inside heap ts) (freeFields (b + 12) k) ↔
        (Within (FreeEvent.Inside heap ts) (freeLeftFields b (c - 8) (setIsHole k.mem b 1)) ∧
          Within (FreeEvent.Inside heap ts) (freeRestFields a (c - 8) c left.isEmpty heap m' k))) := by
  have htop := h.represents.top
  have hbound := h.represents.bound
  have htwo := h.two
  have hindex := h.adjacent
  have hend := h.represents.end_eq
  simp only [total_append, total_cons] at hend
  have htile := (tiles_middle.mp h.represents.tiles).2.1
  rw [← hb] at htile
  have hbig := htile.big
  have htag := htile.liveTagged hlive
  obtain ⟨m1, hleft1, htile1, hoff1⟩ := freeLeft_spec hleft htile htag (by omega) (by omega)
  rw [← hc] at hleft1 hoff1
  have hp : ¬ b + 12 = 0 := by omega
  have hheader : sub32 (b + 12) sizeofHeader = b := by
    rw [sub32_of_le (by simp only [sizeofHeader]; omega) (by omega)]
    simp only [sizeofHeader]
    omega
  have hfooter : sub32 (add32 b t.size) sizeofFooter = c - 8 := by
    rw [add32_of_lt (by omega), hc]
    exact sub32_of_le (by simp only [sizeofFooter]; omega) (by omega)
  have htest : add32 (c - 8) sizeofFooter = c := by
    rw [add32_of_lt (by simp only [sizeofFooter]; omega)]
    simp only [sizeofFooter]
    omega
  have hmagic : fMagic k.mem (c - 8) = HEAP_MAGIC := by
    rw [hc]
    exact (htile.footer htag).1
  have hassert1 : assert (decide (hMagic k.mem b = HEAP_MAGIC)) "header->magic == HEAP_MAGIC" = .ok () :=
    assert_eq_ok.mpr (decide_eq_true htile.magic)
  have hassert2 : assert (decide (fMagic k.mem (c - 8) = HEAP_MAGIC)) "footer->magic == HEAP_MAGIC" = .ok () :=
    assert_eq_ok.mpr (decide_eq_true hmagic)
  have hfields := inside_header ts (by omega : heap.index.array ≤ b) (by omega : b + 12 ≤ heap.endAddress)
  have hfoot := inside_footer ts (by omega : heap.index.array ≤ c - 8) (by omega : c - 8 + 8 ≤ heap.endAddress)
  have hresult := (freeLeftFields_result b (c - 8) (setIsHole k.mem b 1)).trans (congrArg Except.ok hleft1)
  refine ⟨m1, htile1, hoff1, ?_⟩
  rw [freeFields, if_neg hp, heapOf_eq h.kheap, lift_ok_bind]
  dsimp only
  rw [hheader, htile.size, hfooter, htest, hassert1, hassert2, within_touch_bind, within_touch_bind, lift_ok_bind,
    within_touch_bind, lift_ok_bind, within_touch_bind, and_iff_right hfields.2.2, and_iff_right hfields.1,
    and_iff_right hfoot.1, and_iff_right hfields.2.1, within_bind_ok hresult]

/-- Behind the first merge nothing outside the heap is touched, if there is a block behind the freed one. -/
theorem freeRestFields_within (h : BlockHeap k heap (pre ++ (left ++ t :: right) ++ post) l)
    (ha : a = heap.startAddress + total Tile.size pre) (hc : c = b + t.size) (hleft : LeftCase k.mem a b left)
    (hright : RightCase k.mem c l right) (hat : At Tile.size heap.startAddress ts c u) (hts : BlockHeap k heap ts l)
    (htile : TileAt m a (gap (total Tile.size left + t.size))) (hoff : SameOff k.mem m a c) :
    Within (FreeEvent.Inside heap ts) (freeRestFields a (c - 8) c left.isEmpty heap m k) := by
  have hrep := h.represents
  have hend := hrep.end_eq
  have hab := hleft.total_eq
  simp only [total_append, total_cons] at hend
  have htop := hrep.top
  have hbound := hrep.bound
  have hibound := hrep.indexBound
  have hcap := hrep.capacity
  have hcount := hrep.size_eq
  have hindex := h.adjacent
  have hbig : 20 ≤ total Tile.size left + t.size := htile.big
  have hentries : entries m heap.index = l := by
    rw [← hrep.index]
    exact entries_congr (hoff.sameOn (by omega))
  obtain ⟨m2, hrun, htile2, hentries2, htouch2, -⟩ :=
    freeRight_spec (hright.congr (hoff.sameOn (Or.inr le_rfl))) htile (by omega) hentries hcap (by omega)
      (by unfold Outside; omega) (by omega)
  have hfooter : add32 (c + total Tile.size right - 8) sizeofFooter = c + total Tile.size right := by
    rw [add32_of_lt (by simp only [sizeofFooter]; omega)]
    simp only [sizeofFooter]
    omega
  obtain ⟨n1, hn1⟩ : ∃ n, n = (withoutRight c right l).length := ⟨_, rfl⟩
  have hsub := withoutRight_sublist c right l
  have hle := hsub.length_le
  rw [← hn1] at hrun hentries2 hle
  obtain ⟨k1, hk1⟩ : ∃ k1, k1 = (k.withMem m2).withHeap (heap.withCount n1) := ⟨_, rfl⟩
  have hkheap1 : k1.kheap = some (heap.withCount n1) := by rw [hk1]; rfl
  have hmem1 : k1.mem = m2 := by rw [hk1]; rfl
  have hitem : (sizeField a).Inside heap ts := (inside_header _ (by omega) (by omega)).2.2
  -- the entries that are left belong to blocks of the heap
  have hall : ∀ x ∈ withoutRight c right l, (sizeField x).Inside heap ts := by
    intro x hx
    have hbounds := hrep.entry_bounds (hsub.subset hx)
    exact (inside_header _ (by omega) (by omega)).2.2
  rw [freeRestFields, within_bind_ok ((freeRightFields_result _ _ _ _).trans hrun)]
  refine ⟨freeRightFields_within hts hat (by omega) (by omega) _ _, ?_⟩
  dsimp only
  rw [hfooter]
  show Within (FreeEvent.Inside heap ts) (freeFinishFields a c (c + total Tile.size right) left.isEmpty heap.endAddress
    ((k.withMem m2).withHeap (heap.withCount n1)))
  rw [← hk1, freeFinishFields]
  split
  · next hlast =>
    have hpaged1 : Paged k1 heap.index.array heap.maxAddress := by
      have htouch : HeapTouch heap.index k.mem m2 a heap.endAddress :=
        ((HeapTouch.of_sameOff hoff).trans htouch2).mono le_rfl (by omega)
      have hframe : Frame k k1 heap.index heap.index.array heap.maxAddress a heap.endAddress := by
        rw [hk1]
        exact Frame.of_touch _ h.paged htouch _ ⟨le_rfl, by omega⟩ (by omega) htop
      exact hframe.paged h.paged
    have hout : c ∉ withoutRight c right l := not_mem_withoutRight hrep hright hlast
    rw [← hmem1] at htile2 hentries2
    obtain ⟨k2, heap2, htail, hkheap2, hindex2, hentries3⟩ := freeTail_entries hkheap1 hpaged1 htile2 rfl
      (by simp only [Heap.withCount_endAddress]; omega) (by simp only [Heap.withCount_startAddress]; omega) h.minimum
      hentries2 hout (by simp only [Heap.withCount_size, Heap.withCount_maxSize]; omega) ⟨le_rfl, hindex.le⟩ htop hbound
    rw [within_bind_ok ((freeTailFields_result _ _ _).trans htail)]
    refine ⟨?_, freeAddFields_within hkheap2 ?_ hitem _⟩
    · exact freeTailFields_within hkheap1 hpaged1 htile2 (by simp only [Heap.withCount_endAddress]; omega)
        (by simp only [Heap.withCount_startAddress]; omega) h.minimum
        (by simp only [Heap.withCount_array, Heap.withCount_startAddress]; omega) (by omega) htop
        (by simp only [Heap.withCount_endAddress]; omega) c
    · rw [hindex2, hentries3]
      exact hall
  · have hkept : entries k1.mem (heap.withCount n1).index = withoutRight c right l := by
      rw [hmem1]
      exact hentries2
    refine freeAddFields_within hkheap1 ?_ hitem _
    rw [hkept]
    exact hall

theorem BlockHeap.left_hole (h : BlockHeap k heap (pre ++ t :: post) l)
    (hb : b = heap.startAddress + total Tile.size pre) :
    ∃ pre' left, pre = pre' ++ left ∧ LeftCase k.mem (heap.startAddress + total Tile.size pre') b left := by
  have hrep := h.represents
  obtain ⟨pre', left, hpre, hleft, -, -⟩ := left_case hrep hb
    (left_named hrep (fun u hu => h.tagged u (List.mem_append_left _ hu)) (fun _ htest => h.first htest.1) hb)
  exact ⟨pre', left, hpre, hleft⟩

/-- `free` of the last block looks for a header behind the heap. -/
theorem free_last_outside (h : BlockHeap k heap (pre ++ [t]) l) (hlive : t.hole = false)
    (hb : b = heap.startAddress + total Tile.size pre) :
    ¬ ∀ e ∈ (freeFields (b + sizeofHeader) k).touched, e.Inside heap (pre ++ [t]) := by
  obtain ⟨pre', left, rfl, hleft⟩ := h.left_hole hb
  obtain ⟨m, -, -, hwithin⟩ := freeFields_within_iff h hlive hb rfl hleft (pre' ++ left ++ [t])
  have hend := h.represents.end_eq
  have hstart := h.represents.start
  have hlast : b + t.size = heap.endAddress := by
    rw [hend, total_append, total_cons, total_nil, ← Nat.add_assoc, ← hb]
    rfl
  show ¬ Within (FreeEvent.Inside heap (pre' ++ left ++ [t])) (freeFields (b + 12) k)
  rw [hwithin, hlast, freeRestFields]
  rintro ⟨-, hrest⟩
  exact not_within_last (by omega) (h.represents.top.trans_lt h.represents.bound) _ _ _ (within_bind_iff.mp hrest).1

theorem free_inner_inside (h : BlockHeap k heap (pre ++ t :: u :: post) l) (hlive : t.hole = false)
    (hb : b = heap.startAddress + total Tile.size pre) :
    ∀ e ∈ (freeFields (b + sizeofHeader) k).touched, e.Inside heap (pre ++ t :: u :: post) := by
  have hrep := h.represents
  obtain ⟨ts, hts⟩ : ∃ ts, ts = pre ++ t :: u :: post := ⟨_, rfl⟩
  obtain ⟨pre', left, hpre, hleft⟩ := h.left_hole hb
  obtain ⟨m, htile, hoff, hwithin⟩ := freeFields_within_iff h hlive hb rfl hleft ts
  have hplace : b + t.size = heap.startAddress + total Tile.size pre + t.size := congrArg (· + t.size) hb
  obtain ⟨right, post', hpost, hright, -, -⟩ := right_case hrep hplace fun hnil => nomatch hnil
  have hat : At Tile.size heap.startAddress ts b t := by
    rw [hb, hts]
    exact at_middle Tile.size heap.startAddress pre t (u :: post)
  have hnext : At Tile.size heap.startAddress ts (b + t.size) u := by
    have hmid := at_middle Tile.size heap.startAddress (pre ++ [t]) u post
    have hsplit : (pre ++ [t]) ++ u :: post = pre ++ t :: u :: post := by simp
    rwa [hsplit, ← hts, total_append, total_cons, total_nil, Nat.add_zero, ← Nat.add_assoc, ← hplace] at hmid
  have hlayout : ts = pre' ++ (left ++ t :: right) ++ post' := by
    rw [hts, hpre, hpost]
    simp
  have hbelow := h.footer_below hb
  rw [← hts] at h hbelow ⊢
  have hstate : BlockHeap k heap (pre' ++ (left ++ t :: right) ++ post') l := by rwa [← hlayout]
  show Within (FreeEvent.Inside heap ts) (freeFields (b + 12) k)
  rw [hwithin]
  exact ⟨freeLeftFields_within h hat hbelow,
    freeRestFields_within hstate rfl rfl hleft hright hnext h htile hoff⟩

/-- `free` of a block keeps to the heap exactly if there is a block behind it. -/
theorem free_inside_iff (h : BlockHeap k heap ts l) (hat : At Tile.size heap.startAddress ts b t)
    (hlive : t.hole = false) :
    (∀ e ∈ (freeFields (b + sizeofHeader) k).touched, e.Inside heap ts) ↔ b + t.size ≠ heap.endAddress := by
  obtain ⟨pre, post, rfl, hb⟩ := at_iff_split.mp hat
  cases post with
  | nil =>
    have hend := h.represents.end_eq
    rw [total_append, total_cons, total_nil, Nat.add_zero, ← Nat.add_assoc, ← hb] at hend
    exact iff_of_false (free_last_outside h hlive hb) fun hne => hne hend.symm
  | cons u post =>
    refine iff_of_true (free_inner_inside h hlive hb) ?_
    have hend := h.represents.end_eq
    have hpos := tiles_pos h.represents.tiles u (by simp)
    rw [total_append, total_cons, total_cons] at hend
    omega

/-- The first block of a heap with a hole behind it. -/
theorem free_inside_iff_first_block :
    (∀ e ∈ (freeFields (KHEAP_DATA + sizeofHeader) onlyBlock).touched,
      e.Inside (layoutHeap [live 100, gap (0x80000 - 100)] 1) [live 100, gap (0x80000 - 100)]) ↔
    KHEAP_DATA + 100 ≠ KHEAP_DATA + 0x80000 := by
  have h := (heapState_pair (by decide : 20 ≤ 100) (by decide)).blocks (by simp)
    (by decide : KHEAP_START + 4*HEAP_INDEX_SIZE = KHEAP_DATA)
  exact free_inside_iff h (Or.inl ⟨rfl, rfl⟩) rfl

/-- A heap that one block fills. -/
def fullHeap : Kernel := layoutKernel [live 0x80000] []

/-- Freeing that block reads the word behind the heap. -/
theorem free_looks_outside :
    BlockHeap fullHeap (layoutHeap [live 0x80000] 0) [live 0x80000] [] ∧
    ¬ ∀ e ∈ (freeFields (KHEAP_DATA + sizeofHeader) fullHeap).touched,
      e.Inside (layoutHeap [live 0x80000] 0) [live 0x80000] := by
  have h : HeapState fullHeap (layoutHeap [live 0x80000] 0) [live 0x80000] [] :=
    heapState_layout (by simp) (List.Perm.refl _) (by decide) (by decide) (by decide) (by decide)
  have hblocks := h.blocks (by simp) (by decide : KHEAP_START + 4*HEAP_INDEX_SIZE = KHEAP_DATA)
  have hsplit : BlockHeap fullHeap (layoutHeap [live 0x80000] 0) ([] ++ [live 0x80000]) [] := hblocks
  exact ⟨hblocks, free_last_outside hsplit rfl rfl⟩

end PandaOS

import PandaOS.Memory.Paging
import PandaOS.Utils.OrderedArray

/-! `kheap.c`. A block begins with a `header_t` and ends with a `footer_t`; the index is an ordered
array of the holes' headers. The long functions are cut at their comments: `alloc` is the search,
`allocGrow` when nothing was found and `allocHole` when something was; `free` is its two merges,
the end of the heap, and the insertion. The recursion of `alloc` (also through `expand`,
`get_page` and `kmalloc_ap`) is bounded by a fuel argument. -/
namespace PandaOS
open ByteMemory Word32
set_option autoImplicit false
set_option maxHeartbeats 250000

def KHEAP_START : ℕ := 0xC0000000
def KHEAP_INITIAL_SIZE : ℕ := 0x100000
def HEAP_INDEX_SIZE : ℕ := 0x20000
def HEAP_MAGIC : ℕ := 0x123890AB
def HEAP_MIN_SIZE : ℕ := 0x70000

def sizeofHeader : ℕ := 12
def sizeofFooter : ℕ := 8
def sizeofHeap : ℕ := 32

/-! ## header_t and footer_t -/

def hMagic (m : Mem) (header : ℕ) : ℕ := load32 m header
def hIsHole (m : Mem) (header : ℕ) : ℕ := load8 m (header + 4)
def hSize (m : Mem) (header : ℕ) : ℕ := load32 m (header + 8)
def fMagic (m : Mem) (footer : ℕ) : ℕ := load32 m footer
def fHeader (m : Mem) (footer : ℕ) : ℕ := load32 m (footer + 4)

def setMagic (m : Mem) (a : ℕ) : Mem := store32 m a HEAP_MAGIC
def setIsHole (m : Mem) (header v : ℕ) : Mem := store8 m (header + 4) v
def setSize (m : Mem) (header v : ℕ) : Mem := store32 m (header + 8) v
def setHeader (m : Mem) (footer v : ℕ) : Mem := store32 m (footer + 4) v

/-- The three stores that make a header. -/
def writeHeader (m : Mem) (header isHole size : ℕ) : Mem :=
  setSize (setIsHole (setMagic m header) header isHole) header size

def writeFooter (m : Mem) (footer header : ℕ) : Mem := setHeader (setMagic m footer) footer header

def headerTLessThan (m : Mem) (a b : ℕ) : Bool := decide (hSize m a < hSize m b)

/-- The heap behind the pointer `kheap`. -/
def heapOf (k : Kernel) : Result Heap :=
  match k.kheap with
  | none => .error (.undefined "null heap")
  | some heap => .ok heap

def Kernel.withHeap (k : Kernel) (heap : Heap) : Kernel := { k with kheap := some heap }

/-! ## expand and contract -/

/-- The loop of `expand` with `n` pages left. -/
def expandLoop (kmallocAp : KmallocAp) (newSize : ℕ) : ℕ → ℕ → Kernel → Result Kernel
  | 0, _, k => .ok k
  | n + 1, i, k =>
    if i < newSize then do
      let heap ← heapOf k
      let (page, k) ← getPage kmallocAp (add32 heap.startAddress i) 1 k.kernelDirectory k
      let k ← allocFrame page (if heap.supervisor ≠ 0 then 1 else 0)
        (if heap.readonly ≠ 0 then 0 else 1) k
      expandLoop kmallocAp newSize n (add32 i PAGE_SIZE) k
    else .ok k

/-- `new_size` brought up to a whole number of pages. -/
def roundUp (newSize : ℕ) : ℕ :=
  if newSize &&& 0xFFFFF000 ≠ 0 then add32 (newSize &&& 0xFFFFF000) PAGE_SIZE else newSize

def expand (kmallocAp : KmallocAp) (newSize : ℕ) (k : Kernel) : Result Kernel := do
  let heap ← heapOf k
  assert (decide (newSize > sub32 heap.endAddress heap.startAddress))
    "new_size > heap->end_address - heap->start_address"
  let newSize := roundUp newSize
  assert (decide (add32 heap.startAddress newSize ≤ heap.maxAddress))
    "heap->start_address+new_size <= heap->max_address"
  let oldSize := sub32 heap.endAddress heap.startAddress
  let k ← expandLoop kmallocAp newSize ((newSize - oldSize + 0xFFF) / 0x1000) oldSize k
  let heap ← heapOf k
  return k.withHeap { heap with endAddress := add32 heap.startAddress newSize }

/-- The loop of `contract` with `n` pages left. -/
def contractLoop (newSize startAddress : ℕ) : ℕ → ℕ → Kernel → Result Kernel
  | 0, _, k => .ok k
  | n + 1, i, k =>
    if newSize < i then do
      let (page, k) ← findPage (add32 startAddress i) k.kernelDirectory k
      contractLoop newSize startAddress n (sub32 i PAGE_SIZE) (freeFrame page k)
    else .ok k

/-- The length `contract` settles on. `new_size &= PAGE_SIZE` keeps one bit. -/
def contractedSize (newSize : ℕ) : ℕ :=
  let newSize := if newSize &&& PAGE_SIZE ≠ 0 then add32 (newSize &&& PAGE_SIZE) PAGE_SIZE else newSize
  if newSize < HEAP_MIN_SIZE then HEAP_MIN_SIZE else newSize

def contract (newSize : ℕ) (k : Kernel) : Result (ℕ × Kernel) := do
  let heap ← heapOf k
  assert (decide (newSize < sub32 heap.endAddress heap.startAddress))
    "new_size < heap->end_address-heap->start_address"
  let newSize := contractedSize newSize
  let oldSize := sub32 heap.endAddress heap.startAddress
  let i := sub32 oldSize PAGE_SIZE
  let k ← contractLoop newSize heap.startAddress ((i - newSize + 0xFFF) / 0x1000) i k
  return (newSize, k.withHeap { heap with endAddress := add32 heap.startAddress newSize })

/-! ## find_smallest_hole -/

/-- The test of one hole: enough room, from the next usable page boundary on when aligned. -/
def fits (m : Mem) (size pageAlign header : ℕ) : Bool :=
  if pageAlign > 0 then
    let location := header
    let offset : ℤ :=
      if add32 location sizeofHeader &&& 0x00000FFF ≠ 0 then
        PAGE_SIZE - (add32 location sizeofHeader % PAGE_SIZE)
      else 0
    decide (toInt32 (hSize m header) - offset ≥ toInt32 size)
  else decide (hSize m header ≥ size)

/-- The loop of `find_smallest_hole` with `n` entries left; `none` is the result -1. -/
def holeScan (size pageAlign : ℕ) (index : OrderedArray) (m : Mem) : ℕ → ℕ → Option ℕ
  | 0, _ => none
  | n + 1, iterator =>
    if fits m size pageAlign (load32 m (slot index iterator)) then some iterator
    else holeScan size pageAlign index m n (iterator + 1)

def findSmallestHole (size pageAlign : ℕ) (heap : Heap) (m : Mem) : Option ℕ :=
  holeScan size pageAlign heap.index m heap.index.size 0

/-! ## alloc -/

/-- `idx` after the loop that looks for the largest entry, with `n` entries left; `none` is -1. -/
def highestScan (index : OrderedArray) (m : Mem) : ℕ → ℕ → Option ℕ → ℕ → Option ℕ
  | 0, _, idx, _ => idx
  | n + 1, iterator, idx, value =>
    let tmp := load32 m (slot index iterator)
    if tmp > value then highestScan index m n (iterator + 1) (some iterator) tmp
    else highestScan index m n (iterator + 1) idx value

/-- `alloc` after an expansion, with no entry in the index: a hole of the new memory. -/
def addLastHole (oldEndAddress growth : ℕ) (k : Kernel) : Result Kernel := do
  let heap ← heapOf k
  let header := oldEndAddress
  let m := setMagic k.mem header
  let m := setSize m header growth
  let m := setIsHole m header 1
  let footer := sub32 (add32 oldEndAddress (hSize m header)) sizeofFooter
  let m := writeFooter m footer header
  let (index, m) ← insertOrderedArray header heap.index m
  return (k.withMem m).withHeap { heap with index := index }

/-- `alloc` after an expansion: the hole with the highest address takes the new memory. -/
def growHole (idx growth : ℕ) (k : Kernel) : Result Kernel := do
  let heap ← heapOf k
  let header ← lookupOrderedArray idx heap.index k.mem
  let m := setSize k.mem header (add32 (hSize k.mem header) growth)
  let footer := sub32 (add32 header (hSize m header)) sizeofFooter
  let m := setMagic (setHeader m footer header) footer
  return k.withMem m

/-- `alloc` when no hole was found. -/
def allocGrow (kmallocAp : KmallocAp) (newSize : ℕ) (k : Kernel) : Result Kernel := do
  let heap ← heapOf k
  let oldLength := sub32 heap.endAddress heap.startAddress
  let k ← expand kmallocAp (add32 oldLength newSize) k
  let expanded ← heapOf k
  let newLength := sub32 expanded.endAddress expanded.startAddress
  match highestScan expanded.index k.mem expanded.index.size 0 none 0x0 with
  | none => addLastHole heap.endAddress (sub32 newLength oldLength) k
  | some idx => growHole idx (sub32 newLength oldLength) k

/-- The hole's position and size after the alignment branch, and the index. `+` and `-` bind
tighter than `&` in `orig_hole_pos&0xFFFFF000 + PAGE_SIZE - sizeof(header_t)`. -/
def alignHole (pageAlign iterator pos holeSize : ℕ) (index : OrderedArray) (m : Mem) :
    (ℕ × ℕ) × (OrderedArray × Mem) :=
  if pageAlign ≠ 0 ∧ pos &&& 0x00000FFF ≠ 0 then
    let newLocation := pos &&& sub32 (add32 0xFFFFF000 PAGE_SIZE) sizeofHeader
    let m := setSize m pos (sub32 newLocation pos)
    let m := setMagic m pos
    let m := setIsHole m pos 1
    let m := writeFooter m (sub32 newLocation sizeofFooter) pos
    ((newLocation, sub32 holeSize (hSize m pos)), (index, m))
  else ((pos, holeSize), removeOrderedArray iterator index m)

/-- `size` and `new_size`, with a remainder too small for a hole added to the block. -/
def useHole (size newSize holeSize : ℕ) : ℕ × ℕ :=
  if sub32 holeSize newSize < sizeofHeader + sizeofFooter then
    (add32 size (sub32 holeSize newSize), holeSize)
  else (size, newSize)

/-- The block's header and footer at `pos`, and a hole behind it where something is left. -/
def placeBlock (pos holeSize size newSize endAddress : ℕ) (index : OrderedArray) (m : Mem) :
    Result (OrderedArray × Mem) :=
  let m := writeHeader m pos 0 newSize
  let m := writeFooter m (add32 (add32 pos sizeofHeader) size) pos
  if sub32 holeSize newSize > 0 then
    let hole := add32 (add32 (add32 pos sizeofHeader) size) sizeofFooter
    let m := writeHeader m hole 1 (sub32 holeSize newSize)
    let holeFooter := sub32 (sub32 (add32 hole holeSize) newSize) sizeofFooter
    let m := if holeFooter < endAddress then writeFooter m holeFooter hole else m
    insertOrderedArray hole index m
  else .ok (index, m)

/-- `alloc` from the hole in place `iterator` of the index. -/
def allocHole (size newSize pageAlign iterator : ℕ) (heap : Heap) (k : Kernel) :
    Result (ℕ × Kernel) := do
  let pos ← lookupOrderedArray iterator heap.index k.mem
  let holeSize := hSize k.mem pos
  let (size, newSize) := useHole size newSize holeSize
  let ((pos, holeSize), (index, m)) := alignHole pageAlign iterator pos holeSize heap.index k.mem
  let (index, m) ← placeBlock pos holeSize size newSize heap.endAddress index m
  return (add32 pos sizeofHeader, (k.withMem m).withHeap { heap with index := index })

/-- `kmalloc_int` over a given `alloc`: the address, and what is stored through `phys` (0 where
`phys` is null). -/
def kmallocInt (alloc : ℕ → ℕ → Kernel → Result (ℕ × Kernel)) (sz align : ℕ) (phys : Bool)
    (k : Kernel) : Result ((ℕ × ℕ) × Kernel) :=
  match k.kheap with
  | some _ => do
    let (addr, k) ← alloc sz (align % 256) k
    if phys then
      let (page, k) ← findPage addr k.kernelDirectory k
      let frameAddress := (loadPage k.mem page).frame <<< 12
      let unknownOffset := addr &&& 0xFFF
      return ((addr, add32 frameAddress unknownOffset), k)
    else return ((addr, 0), k)
  | none =>
    let placement :=
      if align = 1 ∧ k.placementAddress &&& 0x00000FFF ≠ 0 then
        add32 (k.placementAddress &&& 0xFFFFF000) PAGE_SIZE
      else k.placementAddress
    let phys := if phys then placement else 0
    .ok ((placement, phys), { k with placementAddress := add32 placement sz })

def alloc : ℕ → ℕ → ℕ → Kernel → Result (ℕ × Kernel)
  | 0, _, _, _ => .error .outOfFuel
  | fuel + 1, size, pageAlign, k => do
    let heap ← heapOf k
    let newSize := add32 (add32 size sizeofHeader) sizeofFooter
    match findSmallestHole newSize pageAlign heap k.mem with
    | none =>
      let k ← allocGrow (fun sz => kmallocInt (alloc fuel) sz 1 true) newSize k
      alloc fuel size pageAlign k
    | some iterator => allocHole size newSize pageAlign iterator heap k

/-! ## free -/

/-- The merge with a hole to the left: the header of the merged hole and `do_add`. -/
def freeLeft (header footer : ℕ) (m : Mem) : (ℕ × Bool) × Mem :=
  let testFooter := sub32 header sizeofFooter
  if fMagic m testFooter = HEAP_MAGIC ∧ hIsHole m (fHeader m testFooter) = 1 then
    let cacheSize := hSize m header
    let header := fHeader m testFooter
    let m := setHeader m footer header
    let m := setSize m header (add32 (hSize m header) cacheSize)
    ((header, false), m)
  else ((header, true), m)

/-- `while (iterator < size && lookup(iterator) != target) iterator++;` with `n` entries left. -/
def entryScan (target : ℕ) (index : OrderedArray) (m : Mem) : ℕ → ℕ → ℕ
  | 0, iterator => iterator
  | n + 1, iterator =>
    if load32 m (slot index iterator) ≠ target then entryScan target index m n (iterator + 1)
    else iterator

/-- The merge with a hole to the right: the footer of the merged hole and the index. -/
def freeRight (header footer : ℕ) (index : OrderedArray) (m : Mem) :
    Result (ℕ × (OrderedArray × Mem)) :=
  let testHeader := add32 footer sizeofFooter
  if hMagic m testHeader = HEAP_MAGIC ∧ hIsHole m testHeader ≠ 0 then do
    let m := setSize m header (add32 (hSize m header) (hSize m testHeader))
    let testFooter := sub32 (add32 testHeader (hSize m testHeader)) sizeofFooter
    let iterator := entryScan testHeader index m index.size 0
    assert (decide (iterator < index.size)) "iterator < heap->index.size"
    return (testFooter, removeOrderedArray iterator index m)
  else .ok (footer, (index, m))

/-- The merged hole reaches the end of the heap, and the heap is contracted. -/
def freeTail (header testHeader : ℕ) (k : Kernel) : Result Kernel := do
  let heap ← heapOf k
  let oldLength := sub32 heap.endAddress heap.startAddress
  let (newLength, k) ← contract (sub32 header heap.startAddress) k
  if sub32 (hSize k.mem header) (sub32 oldLength newLength) > 0 then
    let m := setSize k.mem header (sub32 (hSize k.mem header) (sub32 oldLength newLength))
    let footer := sub32 (add32 header (hSize m header)) sizeofFooter
    return k.withMem (writeFooter m footer header)
  else
    let heap ← heapOf k
    let iterator := entryScan testHeader heap.index k.mem heap.index.size 0
    if iterator < heap.index.size then
      let (index, m) := removeOrderedArray iterator heap.index k.mem
      return (k.withMem m).withHeap { heap with index := index }
    else return k

def free (p : ℕ) (k : Kernel) : Result Kernel :=
  if p = 0 then .ok k
  else do
    let heap ← heapOf k
    let header := sub32 p sizeofHeader
    let footer := sub32 (add32 header (hSize k.mem header)) sizeofFooter
    assert (decide (hMagic k.mem header = HEAP_MAGIC)) "header->magic == HEAP_MAGIC"
    assert (decide (fMagic k.mem footer = HEAP_MAGIC)) "footer->magic == HEAP_MAGIC"
    let m := setIsHole k.mem header 1
    let testHeader := add32 footer sizeofFooter
    let ((header, doAdd), m) := freeLeft header footer m
    let (footer, (index, m)) ← freeRight header footer heap.index m
    let k := (k.withMem m).withHeap { heap with index := index }
    let k ← if add32 footer sizeofFooter = heap.endAddress then freeTail header testHeader k else .ok k
    if doAdd then
      let heap ← heapOf k
      let (index, m) ← insertOrderedArray header heap.index k.mem
      return (k.withMem m).withHeap { heap with index := index }
    else return k

/-! ## kmalloc -/

def kmalloc (fuel sz : ℕ) (k : Kernel) : Result (ℕ × Kernel) := do
  let ((addr, _), k) ← kmallocInt (alloc fuel) sz 0 false k
  return (addr, k)

def kmallocAp (fuel : ℕ) : KmallocAp := fun sz => kmallocInt (alloc fuel) sz 1 true

def kfree (p : ℕ) (k : Kernel) : Result Kernel := free p k

/-! ## create_heap -/

def createHeap (fuel start endAddr max supervisor readonly : ℕ) (k : Kernel) :
    Result (Heap × Kernel) := do
  let (_, k) ← kmalloc fuel sizeofHeap k
  assert (decide (start % PAGE_SIZE = 0)) "start%PAGE_SIZE == 0"
  assert (decide (endAddr % PAGE_SIZE = 0)) "end_addr%PAGE_SIZE == 0"
  let (index, m) := placeOrderedArray start HEAP_INDEX_SIZE (some headerTLessThan) k.mem
  let start := add32 start (4*HEAP_INDEX_SIZE)
  let start := if start &&& 0x00000FFF ≠ 0 then add32 (start &&& 0xFFFFF000) PAGE_SIZE else start
  let hole := start
  let m := setSize m hole (sub32 endAddr start)
  let m := setMagic m hole
  let m := setIsHole m hole 1
  let (index, m) ← insertOrderedArray hole index m
  let heap : Heap := ⟨index, start, endAddr, max, supervisor, readonly⟩
  return (heap, k.withMem m)

end PandaOS

import PandaOS.Memory.BootMapping
import PandaOS.Library.Regions

/-! `clone_table`, `clone_directory` and `copy_page_physical`. The kernel is carried together with a
record of the stores that go through the pointers `kmalloc_ap` returned, each with the number of bytes
that were asked for; nothing reads that record. -/
namespace PandaOS
open ByteMemory Word32
set_option autoImplicit false
set_option maxHeartbeats 250000

/-! ## The record -/

/-- Bytes stored through a pointer that was returned for `requested` bytes. -/
structure Access where
  block : ℕ
  requested : ℕ
  address : ℕ
  length : ℕ
  deriving DecidableEq, Repr

/-- The bytes lie inside the block. -/
def Access.Inside (s : Access) : Prop := s.block ≤ s.address ∧ s.address + s.length ≤ s.block + s.requested

structure Cloning where
  kernel : Kernel
  accesses : List Access

def Cloning.stored (c : Cloning) (s : Access) (m : Mem) : Cloning := ⟨c.kernel.withMem m, c.accesses ++ [s]⟩

/-! ## The functions -/

/-- The loop of `copy_page_physical` with `edx` words left, at `ebx` and `ecx`. -/
def copyWords : ℕ → ℕ → ℕ → Mem → Mem
  | 0, _, _, m => m
  | edx + 1, ebx, ecx, m => copyWords edx (add32 ebx 4) (add32 ecx 4) (store32 m ecx (load32 m ebx))

/-- With paging off, physical memory is copied. -/
def copyPagePhysical (src dest : ℕ) (k : Kernel) : Kernel := { k with phys := copyWords 1024 src dest k.phys }

/-- `if (src->pages[i].flag) table->pages[i].flag = 1;` -/
def copyFlag (flag : Page → ℕ) (set : Page → Page) (src page : ℕ) (m : Mem) : Mem :=
  if flag (loadPage m src) ≠ 0 then storePage m page (set (loadPage m page)) else m

def copyFlags (src page : ℕ) (m : Mem) : Mem :=
  let m := copyFlag Page.present (fun p => { p with present := 1 }) src page m
  let m := copyFlag Page.rw (fun p => { p with rw := 1 }) src page m
  let m := copyFlag Page.user (fun p => { p with user := 1 }) src page m
  let m := copyFlag Page.accessed (fun p => { p with accessed := 1 }) src page m
  copyFlag Page.dirty (fun p => { p with dirty := 1 }) src page m

/-- One round of the loop of `clone_table`. -/
def cloneEntry (src table i : ℕ) (c : Cloning) : Result Cloning :=
  if (loadPage c.kernel.mem (pagesSlot src i)).frame ≠ 0 then do
    let k ← allocFrame (pagesSlot table i) 0 0 c.kernel
    let c := (Cloning.mk k c.accesses).stored ⟨table, sizeofPageTable, pagesSlot table i, 4⟩
      (copyFlags (pagesSlot src i) (pagesSlot table i) k.mem)
    let source := (loadPage c.kernel.mem (pagesSlot src i)).frame * 0x1000
    let dest := (loadPage c.kernel.mem (pagesSlot table i)).frame * 0x1000
    return { c with kernel := copyPagePhysical source dest c.kernel }
  else .ok c

/-- The loop with `n` entries left. -/
def cloneTableLoop (src table : ℕ) : ℕ → ℕ → Cloning → Result Cloning
  | 0, _, c => .ok c
  | n + 1, i, c => do
    let c ← cloneEntry src table i c
    cloneTableLoop src table n (i + 1) c

/-- The new table and its physical address. `memset` is called with the size of a directory. -/
def cloneTable (kmallocAp : KmallocAp) (src : ℕ) (c : Cloning) : Result ((ℕ × ℕ) × Cloning) := do
  let ((table, physicalAddress), k) ← kmallocAp sizeofPageTable c.kernel
  let c := (Cloning.mk k c.accesses).stored ⟨table, sizeofPageTable, table, sizeofPageDirectory⟩
    (memset k.mem table 0 sizeofPageDirectory)
  let c ← cloneTableLoop src table 1024 0 c
  return ((table, physicalAddress), c)

/-- A store to a word of the directory. -/
def setSlot (dir slot v : ℕ) (c : Cloning) : Cloning :=
  c.stored ⟨dir, sizeofPageDirectory, slot, 4⟩ (store32 c.kernel.mem slot v)

/-- `clone_directory` up to its loop. -/
def newDirectory (kmallocAp : KmallocAp) (k : Kernel) : Result (ℕ × Cloning) := do
  let ((dir, physicalAddress), k) ← kmallocAp sizeofPageDirectory k
  let c := (Cloning.mk k []).stored ⟨dir, sizeofPageDirectory, dir, sizeofPageDirectory⟩
    (memset k.mem dir 0 sizeofPageDirectory)
  let offset := sub32 (tablesPhysicalSlot dir 0) dir
  return (dir, setSlot dir (physicalAddressSlot dir) (add32 physicalAddress offset) c)

/-- One round of the loop of `clone_directory`. -/
def cloneSlot (kmallocAp : KmallocAp) (src dir i : ℕ) (c : Cloning) : Result Cloning :=
  if load32 c.kernel.mem (tablesSlot src i) = 0 then .ok c
  else if load32 c.kernel.mem (tablesSlot c.kernel.kernelDirectory i) = load32 c.kernel.mem (tablesSlot src i) then
    let c := setSlot dir (tablesSlot dir i) (load32 c.kernel.mem (tablesSlot src i)) c
    .ok (setSlot dir (tablesPhysicalSlot dir i) (load32 c.kernel.mem (tablesPhysicalSlot src i)) c)
  else do
    let ((table, physicalAddress), c) ← cloneTable kmallocAp (load32 c.kernel.mem (tablesSlot src i)) c
    let c := setSlot dir (tablesSlot dir i) table c
    return setSlot dir (tablesPhysicalSlot dir i) (physicalAddress ||| 0x07) c

def cloneDirectoryLoop (kmallocAp : KmallocAp) (src dir : ℕ) : ℕ → ℕ → Cloning → Result Cloning
  | 0, _, c => .ok c
  | n + 1, i, c => do
    let c ← cloneSlot kmallocAp src dir i c
    cloneDirectoryLoop kmallocAp src dir n (i + 1) c

def cloneDirectory (kmallocAp : KmallocAp) (src : ℕ) (k : Kernel) : Result (ℕ × Cloning) := do
  let (dir, c) ← newDirectory kmallocAp k
  let c ← cloneDirectoryLoop kmallocAp src dir 1024 0 c
  return (dir, c)

/-! ## The new directory -/

variable {ap : KmallocAp} {k k1 : Kernel} {dir : ℕ}

/-- The directory before its loop. -/
theorem newDirectory_spec {physical : ℕ} (hnew : ap sizeofPageDirectory k = .ok ((dir, physical), k1)) :
    ∃ m, newDirectory ap k = .ok (dir, ⟨k1.withMem m, [⟨dir, sizeofPageDirectory, dir, sizeofPageDirectory⟩,
        ⟨dir, sizeofPageDirectory, physicalAddressSlot dir, 4⟩]⟩) ∧
      SameOff k1.mem m dir (dir + 8196) ∧
      load32 m (physicalAddressSlot dir) = add32 physical (sub32 (tablesPhysicalSlot dir 0) dir) := by
  obtain ⟨n, hn⟩ : ∃ n, n = sizeofPageDirectory := ⟨_, rfl⟩
  have hsize : n = 8196 := hn
  rw [← hn] at hnew ⊢
  obtain ⟨m1, hm1⟩ : ∃ m1, m1 = memset k1.mem dir 0 n := ⟨_, rfl⟩
  obtain ⟨v, hv⟩ : ∃ v, v = add32 physical (sub32 (tablesPhysicalSlot dir 0) dir) := ⟨_, rfl⟩
  have hclear : SameOff k1.mem m1 dir (dir + n) := by
    rw [hm1]
    exact sameOff_memset k1.mem dir 0 n
  have hstore : SameOff m1 (store32 m1 (physicalAddressSlot dir) v) dir (dir + n) :=
    sameOff_store32 (by unfold physicalAddressSlot; omega) (by unfold physicalAddressSlot; omega)
  refine ⟨store32 m1 (physicalAddressSlot dir) v, ?_, (hclear.trans hstore).mono le_rfl (by omega), ?_⟩
  · rw [newDirectory, ← hn, hnew, ok_bind]
    simp only [setSlot, Cloning.stored, Kernel.withMem_mem, Kernel.withMem_withMem, ← hn, ← hm1, ← hv]
    rfl
  · rw [load32_store32_of_lt (hv ▸ add32_lt _ _), hv]

end PandaOS

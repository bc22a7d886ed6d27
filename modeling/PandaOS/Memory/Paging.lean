import PandaOS.Memory.Frames

/-! `get_page` and `switch_page_directory`. `get_page` asks `kmalloc_ap` for a new table, and
`kmalloc_ap` may itself need new pages, so the allocator is a parameter here and the knot is tied
in `kheap.c`. With `make = 0`, or where the table exists, the allocator is not called. -/
namespace PandaOS
open ByteMemory Word32
set_option autoImplicit false
set_option maxHeartbeats 250000

/-! ## page_directory_t -/

/-- `&dir->tables[i]` -/
def tablesSlot (dir i : ℕ) : ℕ := dir + 4*i

/-- `&dir->tables_physical[i]` -/
def tablesPhysicalSlot (dir i : ℕ) : ℕ := dir + 4096 + 4*i

/-- `&dir->physical_address_of_tables_physical` -/
def physicalAddressSlot (dir : ℕ) : ℕ := dir + 8192

/-- `&table->pages[j]` -/
def pagesSlot (table j : ℕ) : ℕ := table + 4*j

def sizeofPageTable : ℕ := 4096

def sizeofPageDirectory : ℕ := 8196

/-! ## The functions -/

/-- `kmalloc_ap(sz, &phys)`: the address, the physical address, and the kernel afterwards. -/
abbrev KmallocAp := ℕ → Kernel → Result ((ℕ × ℕ) × Kernel)

def tableIndex (address : ℕ) : ℕ := address / 0x1000 / 1024

def pageIndex (address : ℕ) : ℕ := address / 0x1000 % 1024

def getPage (kmallocAp : KmallocAp) (address make dir : ℕ) (k : Kernel) : Result (ℕ × Kernel) :=
  let t := tableIndex address
  if load32 k.mem (tablesSlot dir t) ≠ 0 then
    .ok (pagesSlot (load32 k.mem (tablesSlot dir t)) (pageIndex address), k)
  else if make ≠ 0 then do
    let ((table, tmp), k) ← kmallocAp sizeofPageTable k
    let k := k.withMem (store32 k.mem (tablesSlot dir t) table)
    let k := k.withMem (memset k.mem (load32 k.mem (tablesSlot dir t)) 0 0x1000)
    let k := k.withMem (store32 k.mem (tablesPhysicalSlot dir t) (tmp ||| 0x7))
    return (pagesSlot (load32 k.mem (tablesSlot dir t)) (pageIndex address), k)
  else .ok (0, k)

/-- `get_page(address, 0, dir)`, which never allocates. -/
def findPage (address dir : ℕ) (k : Kernel) : Result (ℕ × Kernel) :=
  getPage (fun _ _ => .error .outOfFuel) address 0 dir k

def switchPageDirectory (dir : ℕ) (k : Kernel) : Kernel :=
  { k with
    currentDirectory := dir
    cr3 := load32 k.mem (physicalAddressSlot dir)
    pagingEnabled := true }

variable {k k' : Kernel} {kmallocAp : KmallocAp} {address make dir page t : ℕ}

theorem tableIndex_lt (h : address < 4294967296) : tableIndex address < 1024 := by
  unfold tableIndex
  omega

theorem pageIndex_lt (address : ℕ) : pageIndex address < 1024 := Nat.mod_lt _ (by norm_num)

theorem getPage_of_table (h : load32 k.mem (tablesSlot dir (tableIndex address)) ≠ 0) :
    getPage kmallocAp address make dir k =
      .ok (pagesSlot (load32 k.mem (tablesSlot dir (tableIndex address))) (pageIndex address), k) :=
  if_pos h

/-! ## Paging structures outside a window

`Paged k lo hi` says that the frame bitmap, the kernel directory and the tables it names lie
outside `[lo, hi)` and that the directory is apart from what `alloc_frame` and `free_frame` write.
Neither function then changes anything inside the window or moves a table. -/

/-- The `n` bytes at `a` are outside `[lo, hi)`. -/
def Outside (a n lo hi : ℕ) : Prop := a + n ≤ lo ∨ hi ≤ a

structure Paged (k : Kernel) (lo hi : ℕ) : Prop where
  frameCount : k.frameCount ≤ 4096
  null : 4 ≤ lo ∧ 4 ≤ k.kernelDirectory ∧ 4 ≤ k.frames
  bitmap : Outside k.frames 512 lo hi
  directory : Outside k.kernelDirectory 4096 lo hi
  bitmapDirectory : Outside k.frames 512 k.kernelDirectory (k.kernelDirectory + 4096)
  tables : ∀ t < 1024, load32 k.mem (tablesSlot k.kernelDirectory t) ≠ 0 →
    Outside (load32 k.mem (tablesSlot k.kernelDirectory t)) 4096 lo hi ∧
    Outside (load32 k.mem (tablesSlot k.kernelDirectory t)) 4096 k.kernelDirectory
      (k.kernelDirectory + 4096) ∧
    Outside (load32 k.mem (tablesSlot k.kernelDirectory t)) 4096 k.frames (k.frames + 512)

/-- What `get_page` can return without making a table: null or an entry of an existing one. -/
def IsPage (k : Kernel) (page : ℕ) : Prop :=
  page = 0 ∨ ∃ t < 1024, ∃ j < 1024, load32 k.mem (tablesSlot k.kernelDirectory t) ≠ 0 ∧
    page = pagesSlot (load32 k.mem (tablesSlot k.kernelDirectory t)) j

/-- Only memory changed, none of it in the window or in the directory. -/
structure PageTouch (k k' : Kernel) (lo hi : ℕ) : Prop where
  fields : k' = k.withMem k'.mem
  window : SameOn k.mem k'.mem lo hi
  directory : SameOn k.mem k'.mem k.kernelDirectory (k.kernelDirectory + 4096)

variable {lo hi isKernel isWriteable : ℕ}

theorem PageTouch.refl (k : Kernel) (lo hi : ℕ) : PageTouch k k lo hi :=
  ⟨rfl, SameOn.refl _ _ _, SameOn.refl _ _ _⟩

theorem PageTouch.trans {k'' : Kernel} (h : PageTouch k k' lo hi) (h' : PageTouch k' k'' lo hi) :
    PageTouch k k'' lo hi := by
  have hdir : k'.kernelDirectory = k.kernelDirectory := by rw [h.fields]; rfl
  refine ⟨?_, h.window.trans h'.window, h.directory.trans (hdir ▸ h'.directory)⟩
  rw [h'.fields, h.fields]
  rfl

theorem Paged.congr {m : Mem} (h : Paged k lo hi)
    (hdir : SameOn k.mem m k.kernelDirectory (k.kernelDirectory + 4096)) :
    Paged (k.withMem m) lo hi := by
  refine ⟨h.frameCount, h.null, h.bitmap, h.directory, h.bitmapDirectory, ?_⟩
  intro t ht
  have hword : load32 m (tablesSlot k.kernelDirectory t) =
      load32 k.mem (tablesSlot k.kernelDirectory t) :=
    hdir.load32_eq (by unfold tablesSlot; omega) (by unfold tablesSlot; omega)
  simp only [Kernel.withMem_mem, Kernel.withMem_kernelDirectory, Kernel.withMem_frames, hword]
  exact h.tables t ht

theorem Paged.touch (h : Paged k lo hi) (ht : PageTouch k k' lo hi) : Paged k' lo hi := by
  rw [ht.fields]
  exact h.congr ht.directory

/-- A store anywhere in the window leaves the paging structures as they are. -/
theorem Paged.store {m : Mem} (h : Paged k lo hi) (hoff : SameOff k.mem m lo hi) :
    Paged (k.withMem m) lo hi :=
  h.congr (hoff.sameOn h.directory)

theorem Paged.apart (h : Paged k lo hi) (hp : IsPage k page) :
    Outside page 4 lo hi ∧ Outside page 4 k.kernelDirectory (k.kernelDirectory + 4096) ∧
      BitmapApart k page := by
  obtain ⟨h1, h2, h3⟩ := h.null
  rcases hp with rfl | ⟨t, ht, j, hj, hne, rfl⟩
  · exact ⟨Or.inl (by omega), Or.inl (by omega), Or.inl (by omega)⟩
  · obtain ⟨ha, hb, hc⟩ := h.tables t ht hne
    unfold Outside at *
    unfold BitmapApart pagesSlot
    omega

theorem touch_of_writes {m : Mem} (h : Paged k lo hi) (hp : IsPage k page)
    (hm : ∀ x, (x < page ∨ page + 4 ≤ x) → (x < k.frames ∨ k.frames + 512 ≤ x) → m x = k.mem x) :
    PageTouch k (k.withMem m) lo hi := by
  obtain ⟨h1, h2, _⟩ := h.apart hp
  have h3 := h.bitmap
  have h4 := h.bitmapDirectory
  unfold Outside at *
  refine ⟨rfl, ?_, ?_⟩
  · intro x hl hh
    exact hm x (by omega) (by omega)
  · intro x hl hh
    exact hm x (by omega) (by omega)

theorem allocFrame_touch (h : Paged k lo hi) (hp : IsPage k page)
    (hrun : allocFrame page isKernel isWriteable k = .ok k') : PageTouch k k' lo hi := by
  rcases allocFrame_cases hrun with ⟨_, rfl⟩ | ⟨_, f, hf, hk⟩
  · exact PageTouch.refl _ _ _
  · obtain ⟨_, _, _, _, hrest⟩ := allocated_spec h.frameCount hf (h.apart hp).2.2 hk
    have hfields : k' = k.withMem k'.mem := by rw [hk]; rfl
    rw [hfields]
    exact touch_of_writes h hp hrest

theorem freeFrame_touch (h : Paged k lo hi) (hp : IsPage k page) :
    PageTouch k (freeFrame page k) lo hi := by
  by_cases hzero : (loadPage k.mem page).frame = 0
  · rw [freeFrame_of_zero hzero]
    exact PageTouch.refl _ _ _
  · obtain ⟨hfields, hrest⟩ := freeFrame_writes hzero
    rw [hfields]
    exact touch_of_writes h hp hrest

theorem findPage_isPage (haddr : address < 4294967296) :
    ∃ page, findPage address k.kernelDirectory k = .ok (page, k) ∧ IsPage k page := by
  by_cases h : load32 k.mem (tablesSlot k.kernelDirectory (tableIndex address)) ≠ 0
  · exact ⟨_, getPage_of_table h,
      Or.inr ⟨_, tableIndex_lt haddr, _, pageIndex_lt address, h, rfl⟩⟩
  · refine ⟨0, ?_, Or.inl rfl⟩
    unfold findPage getPage
    rw [if_neg h]
    rfl

end PandaOS

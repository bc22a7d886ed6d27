import PandaOS.Library.ByteMemory

/-! The kernel's state and the ways a kernel function can fail to return. Pointers are addresses
in one byte memory, so structures that overlap in the kernel overlap here. The globals of
`kheap.c` and `paging.c` are fields; `heap_t` is a record because only the kernel's code reads
it through `kheap`. `phys` holds the contents of the physical frames, which the kernel touches
directly only while `copy_page_physical` has paging off. -/
namespace PandaOS
open ByteMemory Word32
set_option autoImplicit false
set_option maxHeartbeats 250000

/-- Why a call does not return: a failed `ASSERT`, a `PANIC`, a C expression without a meaning,
or the recursion bound of the model. -/
inductive Stop
  | assertionFailed (desc : String)
  | panic (message : String)
  | undefined (reason : String)
  | outOfFuel
  deriving DecidableEq, Repr

abbrev Result (α : Type) := Except Stop α

/-- `ASSERT(b)`: `panic_assert` prints the condition's text and never returns. -/
def assert (b : Bool) (desc : String) : Result Unit :=
  if b then .ok () else .error (.assertionFailed desc)

/-- `ordered_array_t`. The elements lie in memory from `array` on, four bytes each. -/
structure OrderedArray where
  array : ℕ
  size : ℕ
  maxSize : ℕ
  lessThan : Option (Mem → ℕ → ℕ → Bool)

/-- `heap_t`. -/
structure Heap where
  index : OrderedArray
  startAddress : ℕ
  endAddress : ℕ
  maxAddress : ℕ
  supervisor : ℕ
  readonly : ℕ

structure Kernel where
  mem : Mem
  phys : Mem
  placementAddress : ℕ
  kheap : Option Heap
  kernelDirectory : ℕ
  currentDirectory : ℕ
  frames : ℕ
  frameCount : ℕ
  cr3 : ℕ
  pagingEnabled : Bool

def PAGE_SIZE : ℕ := 0x1000

/-- The same kernel after stores to its memory. -/
def Kernel.withMem (k : Kernel) (m : Mem) : Kernel := { k with mem := m }

@[simp] theorem Kernel.withMem_mem (k : Kernel) (m : Mem) : (k.withMem m).mem = m := rfl
@[simp] theorem Kernel.withMem_phys (k : Kernel) (m : Mem) : (k.withMem m).phys = k.phys := rfl
@[simp] theorem Kernel.withMem_placementAddress (k : Kernel) (m : Mem) :
    (k.withMem m).placementAddress = k.placementAddress := rfl
@[simp] theorem Kernel.withMem_kheap (k : Kernel) (m : Mem) : (k.withMem m).kheap = k.kheap := rfl
@[simp] theorem Kernel.withMem_kernelDirectory (k : Kernel) (m : Mem) :
    (k.withMem m).kernelDirectory = k.kernelDirectory := rfl
@[simp] theorem Kernel.withMem_currentDirectory (k : Kernel) (m : Mem) :
    (k.withMem m).currentDirectory = k.currentDirectory := rfl
@[simp] theorem Kernel.withMem_frames (k : Kernel) (m : Mem) : (k.withMem m).frames = k.frames := rfl
@[simp] theorem Kernel.withMem_frameCount (k : Kernel) (m : Mem) :
    (k.withMem m).frameCount = k.frameCount := rfl
@[simp] theorem Kernel.withMem_withMem (k : Kernel) (m m' : Mem) :
    (k.withMem m).withMem m' = k.withMem m' := rfl
@[simp] theorem Kernel.withMem_self (k : Kernel) : k.withMem k.mem = k := rfl

/-! ## Inversion of results -/

variable {α β : Type} {x : Result α} {f : α → Result β} {b : β}

theorem bind_eq_ok : (x >>= f) = .ok b ↔ ∃ a, x = .ok a ∧ f a = .ok b := by
  cases x with
  | error e => simp [bind, Except.bind]
  | ok a => simp [bind, Except.bind]

@[simp] theorem ok_bind (a : α) (f : α → Result β) : ((.ok a : Result α) >>= f) = f a := rfl

@[simp] theorem error_bind (e : Stop) (f : α → Result β) :
    ((.error e : Result α) >>= f) = .error e := rfl

theorem assert_eq_ok {c : Bool} {desc : String} : assert c desc = .ok () ↔ c = true := by
  unfold assert
  cases c <;> simp

theorem assert_bind_eq_ok {c : Bool} {desc : String} {f : Unit → Result β} :
    (assert c desc >>= f) = .ok b ↔ c = true ∧ f () = .ok b := by
  rw [bind_eq_ok]
  constructor
  · rintro ⟨_, ha, hf⟩
    exact ⟨assert_eq_ok.mp ha, hf⟩
  · rintro ⟨hc, hf⟩
    exact ⟨(), assert_eq_ok.mpr hc, hf⟩

end PandaOS

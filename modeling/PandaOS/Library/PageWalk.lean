import PandaOS.Library.ByteMemory

/-! Address translation as a processor with two levels of tables does it. A directory and a table have
1024 words; the low bits of a word say whether the entry is present, may be written and may be used
by user code, and the bits from 12 on are the address of the next level. -/
namespace PageWalk
open ByteMemory
set_option autoImplicit false
set_option maxHeartbeats 250000

/-- Where an address is mapped, and what user code may do there. -/
structure Mapping where
  address : ℕ
  writable : Bool
  user : Bool
  deriving DecidableEq, Repr

/-- The address in an entry, or in the register that points to the directory. -/
def base (e : ℕ) : ℕ := e / 4096 * 4096

/-- The entry of the directory for the address `v`. -/
def directorySlot (root v : ℕ) : ℕ := base root + 4*(v / 4096 / 1024)

/-- The entry for `v` of the table in the directory entry `e`. -/
def tableSlot (e v : ℕ) : ℕ := base e + 4*(v / 4096 % 1024)

def walk (m : Mem) (root v : ℕ) : Option Mapping :=
  let e := load32 m (directorySlot root v)
  if e.testBit 0 then
    let p := load32 m (tableSlot e v)
    if p.testBit 0 then some ⟨base p + v % 4096, e.testBit 1 && p.testBit 1, e.testBit 2 && p.testBit 2⟩
    else none
  else none

/-- The error code of a refused access: what the address is mapped for does not allow it, or it is not mapped. -/
def faultCode (mapped write user : Bool) : BitVec 32 :=
  (if mapped then 1 else 0) ||| (if write then 2 else 0) ||| (if user then 4 else 0)

/-- An access by user code or by the kernel, which may write everywhere that is mapped. -/
def access (m : Mem) (root v : ℕ) (write user : Bool) : Except (BitVec 32) ℕ :=
  match walk m root v with
  | none => .error (faultCode false write user)
  | some a => if user && (!a.user || (write && !a.writable)) then .error (faultCode true write user) else .ok a.address

variable {m : Mem} {root v e a : ℕ}

theorem base_of_dvd (h : a % 4096 = 0) : base a = a := by
  unfold base
  omega

/-- An address with flags below it. -/
theorem base_add (h : a % 4096 = 0) (hv : v < 4096) : base (a + v) = a := by
  unfold base
  omega

theorem walk_absent (he : (load32 m (directorySlot root v)).testBit 0 = false) : walk m root v = none := by
  rw [walk, he]
  rfl

theorem walk_table (h : load32 m (directorySlot root v) = e) (he : e.testBit 0 = true) :
    walk m root v = if (load32 m (tableSlot e v)).testBit 0 then
      some ⟨base (load32 m (tableSlot e v)) + v % 4096, e.testBit 1 && (load32 m (tableSlot e v)).testBit 1,
        e.testBit 2 && (load32 m (tableSlot e v)).testBit 2⟩ else none := by
  rw [walk, h]
  exact if_pos he

/-- The walk reads two words. -/
theorem walk_congr {m' : Mem} (h : SameOn m m' (directorySlot root v) (directorySlot root v + 4))
    (ht : SameOn m m' (tableSlot (load32 m (directorySlot root v)) v) (tableSlot (load32 m (directorySlot root v)) v + 4)) :
    walk m' root v = walk m root v := by
  unfold walk
  dsimp only
  rw [h.load32_eq le_rfl le_rfl, ht.load32_eq le_rfl le_rfl]

end PageWalk

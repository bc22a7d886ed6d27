import PandaOS.Library.ByteMemory

/-! Segment and gate descriptors as a 32-bit x86 processor reads them from the tables that its two table registers
point to. A register holds the offset of the table's last byte and its address. -/
namespace Descriptors
open ByteMemory
set_option autoImplicit false
set_option maxHeartbeats 250000

def load16 (m : Mem) (a : ℕ) : ℕ := load8 m a + 256 * load8 m (a+1)

def store16 (m : Mem) (a v : ℕ) : Mem := store8 (store8 m a v) (a+1) (v / 256)

structure TableRegister where
  limit : ℕ
  base : ℕ
  deriving DecidableEq, Repr

/-- A segment of memory; `accessible` says that data may be written or code be read. -/
structure Segment where
  base : ℕ
  last : ℕ
  present : Bool
  privilege : ℕ
  memory : Bool
  executable : Bool
  accessible : Bool
  wide : Bool
  deriving DecidableEq, Repr

def readSegment (m : Mem) (a : ℕ) : Segment :=
  let access := load8 m (a+5)
  let granularity := load8 m (a+6)
  let limit := load16 m a + 65536 * (granularity % 16)
  { base := load16 m (a+2) + 65536 * load8 m (a+4) + 16777216 * load8 m (a+7)
    last := if granularity.testBit 7 then limit * 4096 + 4095 else limit
    present := access.testBit 7
    privilege := access / 32 % 4
    memory := access.testBit 4
    executable := access.testBit 3
    accessible := access.testBit 1
    wide := granularity.testBit 6 }

/-- The segment of a selector: the first entry of the table is none, and bit 2 of a selector names another table. -/
def segmentAt (m : Mem) (gdtr : TableRegister) (selector : ℕ) : Option Segment :=
  if selector / 8 = 0 ∨ selector.testBit 2 ∨ gdtr.limit < selector / 8 * 8 + 7 then none
  else some (readSegment m (gdtr.base + selector / 8 * 8))

structure Gate where
  offset : ℕ
  selector : ℕ
  present : Bool
  privilege : ℕ
  kind : ℕ
  deriving DecidableEq, Repr

/-- The kind of a 32-bit gate that clears the interrupt flag. -/
def INTERRUPT_GATE : ℕ := 0xE

def readGate (m : Mem) (a : ℕ) : Gate :=
  let flags := load8 m (a+5)
  { offset := load16 m a + 65536 * load16 m (a+6)
    selector := load16 m (a+2)
    present := flags.testBit 7
    privilege := flags / 32 % 4
    kind := flags % 32 }

/-- The gate of a vector. -/
def gateAt (m : Mem) (idtr : TableRegister) (vector : ℕ) : Option Gate :=
  if idtr.limit < vector * 8 + 7 then none
  else if (readGate m (idtr.base + vector * 8)).present then some (readGate m (idtr.base + vector * 8)) else none

variable {m m' : Mem} {a b v lo hi : ℕ}

/-! ## Words of two bytes -/

theorem load16_store16_self (m : Mem) (a : ℕ) (h : v < 65536) : load16 (store16 m a v) a = v := by
  unfold load16 store16
  rw [load8_store8_of_ne (by omega), load8_store8_self, load8_store8_self]
  omega

theorem load16_store16_of_off (h : b + 2 ≤ a ∨ a + 2 ≤ b) : load16 (store16 m a v) b = load16 m b := by
  unfold load16 store16
  rw [load8_store8_of_ne (by omega), load8_store8_of_ne (by omega), load8_store8_of_ne (by omega),
    load8_store8_of_ne (by omega)]

theorem load16_store8_of_off (h : a < b ∨ b + 2 ≤ a) : load16 (store8 m a v) b = load16 m b := by
  unfold load16
  rw [load8_store8_of_ne (by omega), load8_store8_of_ne (by omega)]

theorem load8_store16_of_off (h : b < a ∨ a + 2 ≤ b) : load8 (store16 m a v) b = load8 m b := by
  unfold store16
  rw [load8_store8_of_ne (by omega), load8_store8_of_ne (by omega)]

theorem load16_store32_of_off (h : b + 2 ≤ a ∨ a + 4 ≤ b) : load16 (store32 m a v) b = load16 m b := by
  unfold load16
  rw [load8_store32_of_off (by omega), load8_store32_of_off (by omega)]

theorem sameOff_store16 (hl : lo ≤ a) (hh : a + 2 ≤ hi) : SameOff m (store16 m a v) lo hi := by
  intro x hx
  unfold store16
  rw [store8_of_ne (by omega), store8_of_ne (by omega)]

theorem sameOn_load16_eq (h : SameOn m m' lo hi) (hl : lo ≤ a) (hh : a + 2 ≤ hi) :
    load16 m' a = load16 m a := by
  unfold load16
  rw [h.load8_eq hl (by omega), h.load8_eq (by omega) (by omega)]

/-! ## Tables elsewhere in memory -/

theorem readGate_congr (h : SameOn m m' lo hi) (hl : lo ≤ a) (hh : a + 8 ≤ hi) : readGate m' a = readGate m a := by
  unfold readGate
  rw [sameOn_load16_eq h hl (by omega), sameOn_load16_eq h (by omega) (by omega), sameOn_load16_eq h (by omega) (by omega),
    h.load8_eq (by omega) (by omega)]

theorem readSegment_congr (h : SameOn m m' lo hi) (hl : lo ≤ a) (hh : a + 8 ≤ hi) : readSegment m' a = readSegment m a := by
  unfold readSegment
  rw [sameOn_load16_eq h hl (by omega), sameOn_load16_eq h (by omega) (by omega), h.load8_eq (by omega) (by omega),
    h.load8_eq (by omega) (by omega), h.load8_eq (by omega) (by omega), h.load8_eq (by omega) (by omega)]

theorem gateAt_congr {idtr : TableRegister} (h : SameOn m m' idtr.base (idtr.base + (idtr.limit + 1))) :
    gateAt m' idtr v = gateAt m idtr v := by
  unfold gateAt
  by_cases hlt : idtr.limit < v * 8 + 7
  · rw [if_pos hlt, if_pos hlt]
  · rw [readGate_congr h (by omega) (by omega)]

theorem segmentAt_congr {gdtr : TableRegister} (h : SameOn m m' gdtr.base (gdtr.base + (gdtr.limit + 1))) :
    segmentAt m' gdtr v = segmentAt m gdtr v := by
  unfold segmentAt
  by_cases hnone : v / 8 = 0 ∨ v.testBit 2 = true ∨ gdtr.limit < v / 8 * 8 + 7
  · rw [if_pos hnone, if_pos hnone]
  · rw [if_neg hnone, if_neg hnone, readSegment_congr h (by omega) (by omega)]

end Descriptors

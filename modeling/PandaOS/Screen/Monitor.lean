import Mathlib.Tactic

/-! `monitor.c`: the text framebuffer of the VGA controller. A cell is a word, the character in its
low byte and the colours in its high byte; the framebuffer is addressed by the number of the cell.
Stores to it and bytes sent to a port are logged, the newest first. A `char` is signed. -/
namespace PandaOS
set_option autoImplicit false
set_option maxHeartbeats 250000

structure Monitor where
  videoMemory : ℕ → BitVec 16
  cursorX : BitVec 8
  cursorY : BitVec 8
  backgroundColor : BitVec 8
  foregroundColor : BitVec 8
  stores : List ℕ
  ports : List (ℕ × BitVec 8)

/-- `video_memory[i] = v` -/
def Monitor.poke (m : Monitor) (i : ℕ) (v : BitVec 16) : Monitor :=
  { m with videoMemory := fun j => if j = i then v else m.videoMemory j, stores := i :: m.stores }

def outb (port : ℕ) (value : BitVec 8) (m : Monitor) : Monitor :=
  { m with ports := (port, value) :: m.ports }

def getAttributeByte (m : Monitor) : BitVec 8 :=
  (m.backgroundColor <<< 4) ||| (m.foregroundColor &&& 0x0F)

def Monitor.attribute (m : Monitor) : BitVec 16 := (getAttributeByte m).setWidth 16 <<< 8

def Monitor.blank (m : Monitor) : BitVec 16 := 0x20 ||| m.attribute

/-- `cursor_y*80 + cursor_x` -/
def Monitor.location (m : Monitor) : ℕ := m.cursorY.toNat*80 + m.cursorX.toNat

def moveCursor (m : Monitor) : Monitor :=
  let cursorLoc : BitVec 16 := BitVec.ofNat 16 m.location
  let m := outb 0x3D4 14 m
  let m := outb 0x3D5 ((cursorLoc >>> 8).setWidth 8) m
  let m := outb 0x3D4 15 m
  outb 0x3D5 (cursorLoc.setWidth 8) m

/-- `for (; n != 0; i++) video_memory[i] = video_memory[i+80];` with `n` cells left. -/
def copyRows : ℕ → ℕ → Monitor → Monitor
  | 0, _, m => m
  | n + 1, i, m => copyRows n (i + 1) (m.poke i (m.videoMemory (i + 80)))

/-- `for (; n != 0; i++) video_memory[i] = blank;` with `n` cells left. -/
def fillCells (blank : BitVec 16) : ℕ → ℕ → Monitor → Monitor
  | 0, _, m => m
  | n + 1, i, m => fillCells blank n (i + 1) (m.poke i blank)

def scroll (m : Monitor) : Monitor :=
  if m.cursorY.toNat ≥ 25 then
    { fillCells m.blank (1*80) (24*80) (copyRows (24*80) 0 m) with cursorY := 24 }
  else m

/-- What `monitor_put` does for the character itself. -/
def placeChar (c : BitVec 8) (m : Monitor) : Monitor :=
  if c = 0x08 ∧ m.cursorX ≠ 0 then
    let m := { m with cursorX := m.cursorX - 1 }
    m.poke m.location m.blank
  else if c = 0x09 then { m with cursorX := (m.cursorX + 8) &&& ~~~(8 - 1) }
  else if c = 0x0A ∨ c = 0x0D then { m with cursorX := 0, cursorY := m.cursorY + 1 }
  else if c.toInt ≥ 0x20 then
    let m := m.poke m.location (c.signExtend 16 ||| m.attribute)
    { m with cursorX := m.cursorX + 1 }
  else m

/-- `wrap cursor to the next line if necessary` -/
def wrapCursor (m : Monitor) : Monitor :=
  if m.cursorX.toNat ≥ 80 then { m with cursorX := 0, cursorY := m.cursorY + 1 } else m

def monitorPut (c : BitVec 8) (m : Monitor) : Monitor :=
  moveCursor (scroll (wrapCursor (placeChar c m)))

def monitorClear (m : Monitor) : Monitor :=
  moveCursor { fillCells m.blank (80*25) 0 m with cursorX := 0, cursorY := 0 }

variable {m : Monitor} {blank : BitVec 16} {c : BitVec 8} {n i : ℕ}

/-! ## The loops -/

theorem copyRows_eq (n i : ℕ) (m : Monitor) : copyRows n i m =
    { m with
      videoMemory := fun j => if i ≤ j ∧ j < i + n then m.videoMemory (j + 80) else m.videoMemory j
      stores := (List.range' i n).reverse ++ m.stores } := by
  induction n generalizing i m with
  | zero =>
    have hmem : (fun j => if i ≤ j ∧ j < i + 0 then m.videoMemory (j + 80) else m.videoMemory j) =
        m.videoMemory := by
      funext j
      exact if_neg (by omega)
    rw [copyRows, hmem]
    rfl
  | succ n ih =>
    rw [copyRows, ih, List.range'_succ, List.reverse_cons, List.append_assoc]
    simp only [Monitor.poke, Monitor.mk.injEq, and_self, and_true, List.singleton_append]
    funext j
    -- the cells still to be read lie above the one just written
    by_cases hj : j = i
    · rw [if_neg (by omega), if_pos hj, if_pos (by omega), hj]
    · by_cases hin : i + 1 ≤ j ∧ j < i + 1 + n
      · rw [if_pos hin, if_neg (by omega), if_pos (by omega)]
      · rw [if_neg hin, if_neg hj, if_neg (by omega)]

theorem fillCells_eq (blank : BitVec 16) (n i : ℕ) (m : Monitor) : fillCells blank n i m =
    { m with
      videoMemory := fun j => if i ≤ j ∧ j < i + n then blank else m.videoMemory j
      stores := (List.range' i n).reverse ++ m.stores } := by
  induction n generalizing i m with
  | zero =>
    have hmem : (fun j => if i ≤ j ∧ j < i + 0 then blank else m.videoMemory j) = m.videoMemory := by
      funext j
      exact if_neg (by omega)
    rw [fillCells, hmem]
    rfl
  | succ n ih =>
    rw [fillCells, ih, List.range'_succ, List.reverse_cons, List.append_assoc]
    simp only [Monitor.poke, Monitor.mk.injEq, and_self, and_true, List.singleton_append]
    funext j
    by_cases hj : j = i
    · rw [if_neg (by omega), if_pos hj, if_pos (by omega)]
    · by_cases hin : i + 1 ≤ j ∧ j < i + 1 + n
      · rw [if_pos hin, if_pos (by omega)]
      · rw [if_neg hin, if_neg hj, if_neg (by omega)]

/-! ## Characters of cells -/

/-- The character byte of cell `i`. -/
def Monitor.charAt (m : Monitor) (i : ℕ) : BitVec 8 := (m.videoMemory i).setWidth 8

theorem attribute_char (m : Monitor) : m.attribute.setWidth 8 = 0 := by
  ext i hi
  simp [Monitor.attribute]

theorem blank_char (m : Monitor) : m.blank.setWidth 8 = 0x20 := by
  rw [Monitor.blank, BitVec.setWidth_or, attribute_char]
  decide

theorem cell_char (c : BitVec 8) (m : Monitor) :
    (c.signExtend 16 ||| m.attribute).setWidth 8 = c := by
  rw [BitVec.setWidth_or, attribute_char]
  revert c
  decide

/-! ## The cursor at the ports -/

/-- The last bytes sent to the ports place the cursor at cell `loc`. -/
def SentCursor (ports : List (ℕ × BitVec 8)) (loc : ℕ) : Prop :=
  ∃ hi lo sent, ports = (0x3D5, lo) :: (0x3D4, 15) :: (0x3D5, hi) :: (0x3D4, 14) :: sent ∧
    hi.toNat*256 + lo.toNat = loc

theorem moveCursor_location (m : Monitor) : (moveCursor m).location = m.location := rfl

theorem moveCursor_stores (m : Monitor) : (moveCursor m).stores = m.stores := rfl

theorem moveCursor_sent (h : m.location < 65536) :
    SentCursor (moveCursor m).ports (moveCursor m).location := by
  rw [moveCursor_location]
  refine ⟨_, _, m.ports, rfl, ?_⟩
  simp only [BitVec.toNat_setWidth, BitVec.toNat_ushiftRight, BitVec.toNat_ofNat, Nat.shiftRight_eq_div_pow]
  omega

end PandaOS

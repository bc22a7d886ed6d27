import PandaOS.Drivers.KeyboardMapping
import PandaOS.Library.GuardedRun
import PandaOS.Screen.Monitor

/-! `keyboard.c`, and the keys that are down. One bit of `keyboard_flags` stands for two shift keys:
a release of either clears it. It is right in every run where no shift key is released while the
other is down. -/
namespace PandaOS
open GuardedRun
set_option autoImplicit false
set_option maxHeartbeats 250000

structure Keyboard where
  keyboardFlags : BitVec 8
  monitor : Monitor

def SHIFT : BitVec 8 := 1
def CAPS_LOCK : BitVec 8 := 2
def CTRL : BitVec 8 := 4

def updateKeyboardFlagsOnPress (scanCode keyboardFlags : BitVec 8) : BitVec 8 :=
  if scanCode.toNat = KEY_LEFT_SHIFT ∨ scanCode.toNat = KEY_RIGHT_SHIFT then keyboardFlags ||| SHIFT
  else if scanCode.toNat = KEY_LEFT_CONTROL ∨ scanCode.toNat = KEY_RIGHT_CONTROL then
    keyboardFlags ||| CTRL
  else if scanCode.toNat = KEY_CAPS_LOCK then keyboardFlags ||| CAPS_LOCK
  else keyboardFlags

def updateKeyboardFlagsOnRelease (scanCode keyboardFlags : BitVec 8) : BitVec 8 :=
  if scanCode.toNat = KEY_LEFT_SHIFT ||| 0x80 ∨ scanCode.toNat = KEY_RIGHT_SHIFT ||| 0x80 then
    keyboardFlags &&& ~~~SHIFT
  else if scanCode.toNat = KEY_CAPS_LOCK ||| 0x80 then keyboardFlags &&& ~~~CAPS_LOCK
  else if scanCode.toNat = KEY_LEFT_CONTROL ||| 0x80 ∨ scanCode.toNat = KEY_RIGHT_CONTROL ||| 0x80 then
    keyboardFlags &&& ~~~CTRL
  else keyboardFlags

/-- An entry of a table as a `char`. -/
def keymapChar (table : List (ℕ × ℕ)) (scanCode : BitVec 8) : BitVec 8 :=
  BitVec.ofNat 8 ((table.lookup scanCode.toNat).getD 0)

/-- `get_char_for_scan_code` where no shift key is down. -/
def unshiftedChar (scanCode keyboardFlags : BitVec 8) : BitVec 8 :=
  if keyboardFlags &&& CAPS_LOCK ≠ 0 then
    let charForScanCode := keymapChar keymapBase scanCode
    if charForScanCode.toInt ≥ 'a'.toNat ∧ charForScanCode.toInt ≤ 'z'.toNat then
      keymapChar keymapShift scanCode
    else charForScanCode
  else keymapChar keymapBase scanCode

def getCharForScanCode (scanCode keyboardFlags : BitVec 8) : BitVec 8 :=
  if keyboardFlags &&& SHIFT ≠ 0 then keymapChar keymapShift scanCode
  else unshiftedChar scanCode keyboardFlags

def keyboardHandler (scanCode : BitVec 8) (k : Keyboard) : Keyboard :=
  if scanCode &&& 0x80 ≠ 0 then
    { k with keyboardFlags := updateKeyboardFlagsOnRelease scanCode k.keyboardFlags }
  else
    let keyboardFlags := updateKeyboardFlagsOnPress scanCode k.keyboardFlags
    ⟨keyboardFlags, monitorPut (getCharForScanCode scanCode keyboardFlags) k.monitor⟩

/-! ## The keyboard behind the controller -/

/-- The driver and the keys that are down. -/
structure Typing where
  keyboard : Keyboard
  held : BitVec 8 → Bool

def hold (held : BitVec 8 → Bool) (key : BitVec 8) (down : Bool) : BitVec 8 → Bool :=
  fun k => if k = key then down else held k

/-- A scan code arrives: a key goes down or repeats, or a key that is down goes up. -/
inductive Sends : Typing → BitVec 8 → Typing → Prop
  | make {s : Typing} {key : BitVec 8} : key &&& 0x80 = 0 →
      Sends s key ⟨keyboardHandler key s.keyboard, hold s.held key true⟩
  | release {s : Typing} {key : BitVec 8} : key &&& 0x80 = 0 → s.held key = true →
      Sends s (0x80 ||| key) ⟨keyboardHandler (0x80 ||| key) s.keyboard, hold s.held key false⟩

def Typing.Start (s : Typing) : Prop := s.keyboard.keyboardFlags = 0 ∧ s.held = fun _ => false

def Typing.ShiftHeld (s : Typing) : Prop := s.held 0x2A = true ∨ s.held 0x36 = true

def Typing.ShiftSet (s : Typing) : Prop := s.keyboard.keyboardFlags &&& SHIFT ≠ 0

instance (s : Typing) : Decidable s.ShiftHeld := inferInstanceAs (Decidable (_ ∨ _))

/-- The bit says whether a shift key is down, and every key that is pressed next under the guard
writes the character of the shifted table exactly when one is; without one the driver looks in the
other table, where Caps Lock makes letters capitals. -/
def Typing.Lawful (guard : Typing → BitVec 8 → Prop) (s : Typing) : Prop :=
  (s.ShiftSet ↔ s.ShiftHeld) ∧
    ∀ key s', guard s key → Sends s key s' → key &&& 0x80 = 0 →
      s'.keyboard.monitor = monitorPut
        (if s'.ShiftHeld then keymapChar keymapShift key
          else unshiftedChar key s'.keyboard.keyboardFlags) s.keyboard.monitor

variable {s s' : Typing} {key scanCode flags : BitVec 8} {guard : Typing → BitVec 8 → Prop}

theorem toNat_eq_iff {c : BitVec 8} {n : ℕ} (h : n < 256) : c.toNat = n ↔ c = BitVec.ofNat 8 n := by
  constructor
  · rintro rfl
    simp
  · rintro rfl
    exact Nat.mod_eq_of_lt h

/-- Only the shift keys touch the bit when a key goes down. -/
theorem press_shift : updateKeyboardFlagsOnPress scanCode flags &&& SHIFT =
    if scanCode = 0x2A ∨ scanCode = 0x36 then SHIFT else flags &&& SHIFT := by
  have hset : ∀ f : BitVec 8, (f ||| SHIFT) &&& SHIFT = SHIFT := by decide
  have hctrl : ∀ f : BitVec 8, (f ||| CTRL) &&& SHIFT = f &&& SHIFT := by decide
  have hcaps : ∀ f : BitVec 8, (f ||| CAPS_LOCK) &&& SHIFT = f &&& SHIFT := by decide
  have hkeys : (scanCode.toNat = KEY_LEFT_SHIFT ∨ scanCode.toNat = KEY_RIGHT_SHIFT) ↔
      (scanCode = 0x2A ∨ scanCode = 0x36) :=
    or_congr (toNat_eq_iff (by decide)) (toNat_eq_iff (by decide))
  unfold updateKeyboardFlagsOnPress
  by_cases hshift : scanCode = 0x2A ∨ scanCode = 0x36
  · rw [if_pos (hkeys.mpr hshift), if_pos hshift, hset]
  · rw [if_neg (fun h => hshift (hkeys.mp h)), if_neg hshift]
    split_ifs
    · exact hctrl flags
    · exact hcaps flags
    · rfl

/-- Only the shift keys touch the bit when a key goes up. -/
theorem release_shift : updateKeyboardFlagsOnRelease scanCode flags &&& SHIFT =
    if scanCode = 0xAA ∨ scanCode = 0xB6 then 0 else flags &&& SHIFT := by
  have hclear : ∀ f : BitVec 8, (f &&& ~~~SHIFT) &&& SHIFT = 0 := by decide
  have hctrl : ∀ f : BitVec 8, (f &&& ~~~CTRL) &&& SHIFT = f &&& SHIFT := by decide
  have hcaps : ∀ f : BitVec 8, (f &&& ~~~CAPS_LOCK) &&& SHIFT = f &&& SHIFT := by decide
  have hkeys : (scanCode.toNat = KEY_LEFT_SHIFT ||| 0x80 ∨ scanCode.toNat = KEY_RIGHT_SHIFT ||| 0x80) ↔
      (scanCode = 0xAA ∨ scanCode = 0xB6) :=
    or_congr (toNat_eq_iff (by decide)) (toNat_eq_iff (by decide))
  unfold updateKeyboardFlagsOnRelease
  by_cases hshift : scanCode = 0xAA ∨ scanCode = 0xB6
  · rw [if_pos (hkeys.mpr hshift), if_pos hshift, hclear]
  · rw [if_neg (fun h => hshift (hkeys.mp h)), if_neg hshift]
    split_ifs
    · exact hcaps flags
    · exact hctrl flags
    · rfl

end PandaOS

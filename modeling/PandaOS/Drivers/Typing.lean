import PandaOS.Drivers.Keyboard
import PandaOS.Screen.Text

/-! What a sequence of scan codes types, said by the keys that are down and without the driver's flags; and that the
driver writes it. -/
namespace PandaOS
set_option autoImplicit false
set_option maxHeartbeats 250000

/-! ## The keys -/

/-- The keys that are down after a code. -/
def press (held : BitVec 8 → Bool) (code : BitVec 8) : BitVec 8 → Bool :=
  if code &&& 0x80 = 0 then hold held code true else hold held (code &&& 0x7F) false

def heldAfter (codes : List (BitVec 8)) : BitVec 8 → Bool := codes.foldl press fun _ => false

/-- A key with a small letter. -/
def LetterKey (key : BitVec 8) : Prop :=
  (keymapChar keymapBase key).toInt ≥ 'a'.toNat ∧ (keymapChar keymapBase key).toInt ≤ 'z'.toNat

instance (key : BitVec 8) : Decidable (LetterKey key) := inferInstanceAs (Decidable (_ ∧ _))

/-- The character of a key while these keys are down: the shifted one with a shift key, and for letters with Caps Lock. -/
def keyChar (held : BitVec 8 → Bool) (key : BitVec 8) : BitVec 8 :=
  if (held 0x2A = true ∨ held 0x36 = true) ∨ (held 0x3A = true ∧ LetterKey key) then keymapChar keymapShift key
  else keymapChar keymapBase key

/-- What a code types: a key that goes down its character, a key that goes up nothing. -/
def codeText (held : BitVec 8 → Bool) (code : BitVec 8) : List (BitVec 8) :=
  if code &&& 0x80 = 0 then [keyChar (press held code) code] else []

def textFrom (held : BitVec 8 → Bool) : List (BitVec 8) → List (BitVec 8)
  | [] => []
  | code :: codes => codeText held code ++ textFrom (press held code) codes

/-- What the codes type when no key was down. -/
def typedText (codes : List (BitVec 8)) : List (BitVec 8) := textFrom (fun _ => false) codes

/-- A shift key goes up only while the other one is not down. -/
def ShiftsApart (held : BitVec 8 → Bool) (code : BitVec 8) : Prop :=
  (code = 0xAA → held 0x36 = false) ∧ (code = 0xB6 → held 0x2A = false)

/-- The flags of the driver say which of these keys are down. -/
structure Tracks (keyboardFlags : BitVec 8) (held : BitVec 8 → Bool) : Prop where
  shift : keyboardFlags &&& SHIFT ≠ 0 ↔ held 0x2A = true ∨ held 0x36 = true
  capsLock : keyboardFlags &&& CAPS_LOCK ≠ 0 ↔ held 0x3A = true

variable {held : BitVec 8 → Bool} {code flags : BitVec 8} {codes : List (BitVec 8)} {k : Keyboard}

theorem heldAfter_snoc (codes : List (BitVec 8)) (code : BitVec 8) :
    heldAfter (codes ++ [code]) = press (heldAfter codes) code :=
  List.foldl_concat _ _ _ _

theorem textFrom_snoc (held : BitVec 8 → Bool) (codes : List (BitVec 8)) (code : BitVec 8) :
    textFrom held (codes ++ [code]) = textFrom held codes ++ codeText (codes.foldl press held) code := by
  induction codes generalizing held with
  | nil => exact List.append_nil _
  | cons c codes ih =>
    show codeText held c ++ textFrom (press held c) (codes ++ [code]) = _
    rw [ih, ← List.append_assoc]
    rfl

theorem typedText_snoc (codes : List (BitVec 8)) (code : BitVec 8) :
    typedText (codes ++ [code]) = typedText codes ++ codeText (heldAfter codes) code := textFrom_snoc _ codes code

/-! ## The flags -/

theorem press_capsLock : updateKeyboardFlagsOnPress code flags &&& CAPS_LOCK =
    if code = 0x3A then CAPS_LOCK else flags &&& CAPS_LOCK := by
  have hset : ∀ f : BitVec 8, (f ||| CAPS_LOCK) &&& CAPS_LOCK = CAPS_LOCK := by decide
  have hctrl : ∀ f : BitVec 8, (f ||| CTRL) &&& CAPS_LOCK = f &&& CAPS_LOCK := by decide
  have hshift : ∀ f : BitVec 8, (f ||| SHIFT) &&& CAPS_LOCK = f &&& CAPS_LOCK := by decide
  have hkeys : ∀ c : BitVec 8, (c.toNat = KEY_LEFT_SHIFT ∨ c.toNat = KEY_RIGHT_SHIFT → c ≠ 0x3A) ∧
      (c.toNat = KEY_LEFT_CONTROL ∨ c.toNat = KEY_RIGHT_CONTROL → c ≠ 0x3A) ∧ (c.toNat = KEY_CAPS_LOCK ↔ c = 0x3A) := by
    decide
  obtain ⟨hnotShift, hnotCtrl, hcaps⟩ := hkeys code
  unfold updateKeyboardFlagsOnPress
  by_cases hs : code.toNat = KEY_LEFT_SHIFT ∨ code.toNat = KEY_RIGHT_SHIFT
  · rw [if_pos hs, if_neg (hnotShift hs), hshift]
  · rw [if_neg hs]
    by_cases hc : code.toNat = KEY_LEFT_CONTROL ∨ code.toNat = KEY_RIGHT_CONTROL
    · rw [if_pos hc, if_neg (hnotCtrl hc), hctrl]
    · rw [if_neg hc]
      by_cases hl : code.toNat = KEY_CAPS_LOCK
      · rw [if_pos hl, if_pos (hcaps.mp hl), hset]
      · rw [if_neg hl, if_neg (fun h => hl (hcaps.mpr h))]

theorem release_capsLock : updateKeyboardFlagsOnRelease code flags &&& CAPS_LOCK =
    if code = 0xBA then 0 else flags &&& CAPS_LOCK := by
  have hclear : ∀ f : BitVec 8, (f &&& ~~~CAPS_LOCK) &&& CAPS_LOCK = 0 := by decide
  have hctrl : ∀ f : BitVec 8, (f &&& ~~~CTRL) &&& CAPS_LOCK = f &&& CAPS_LOCK := by decide
  have hshift : ∀ f : BitVec 8, (f &&& ~~~SHIFT) &&& CAPS_LOCK = f &&& CAPS_LOCK := by decide
  have hkeys : ∀ c : BitVec 8, (c.toNat = KEY_LEFT_SHIFT ||| 0x80 ∨ c.toNat = KEY_RIGHT_SHIFT ||| 0x80 → c ≠ 0xBA) ∧
      (c.toNat = KEY_CAPS_LOCK ||| 0x80 ↔ c = 0xBA) := by decide
  obtain ⟨hnotShift, hcaps⟩ := hkeys code
  unfold updateKeyboardFlagsOnRelease
  by_cases hs : code.toNat = KEY_LEFT_SHIFT ||| 0x80 ∨ code.toNat = KEY_RIGHT_SHIFT ||| 0x80
  · rw [if_pos hs, if_neg (hnotShift hs), hshift]
  · rw [if_neg hs]
    by_cases hl : code.toNat = KEY_CAPS_LOCK ||| 0x80
    · rw [if_pos hl, if_pos (hcaps.mp hl), hclear]
    · rw [if_neg hl, if_neg (fun h => hl (hcaps.mpr h))]
      split_ifs
      · exact hctrl flags
      · rfl

theorem tracks_start : Tracks 0 fun _ => false := ⟨by decide, by decide⟩

theorem Tracks.down (h : Tracks flags held) (hcode : code &&& 0x80 = 0) :
    Tracks (updateKeyboardFlagsOnPress code flags) (press held code) := by
  have hshift : SHIFT ≠ 0 := by decide
  have hcaps : CAPS_LOCK ≠ 0 := by decide
  rw [press, if_pos hcode]
  refine ⟨?_, ?_⟩
  · rw [press_shift]
    simp only [hold]
    by_cases hkey : code = 0x2A ∨ code = 0x36
    · rw [if_pos hkey]
      refine iff_of_true hshift ?_
      rcases hkey with rfl | rfl
      · exact Or.inl (if_pos rfl)
      · exact Or.inr (if_pos rfl)
    · rw [not_or] at hkey
      rw [if_neg (not_or.mpr hkey), if_neg (Ne.symm hkey.1), if_neg (Ne.symm hkey.2)]
      exact h.shift
  · rw [press_capsLock]
    simp only [hold]
    by_cases hkey : code = 0x3A
    · rw [if_pos hkey, if_pos hkey.symm]
      exact iff_of_true hcaps rfl
    · rw [if_neg hkey, if_neg (Ne.symm hkey)]
      exact h.capsLock

theorem Tracks.up (h : Tracks flags held) (hcode : code &&& 0x80 ≠ 0) (hshifts : ShiftsApart held code) :
    Tracks (updateKeyboardFlagsOnRelease code flags) (press held code) := by
  have hkeys : ∀ c : BitVec 8, c &&& 0x80 ≠ 0 → (0x2A = c &&& 0x7F ↔ c = 0xAA) ∧ (0x36 = c &&& 0x7F ↔ c = 0xB6) ∧
      (0x3A = c &&& 0x7F ↔ c = 0xBA) := by decide
  obtain ⟨hleft, hright, hcaps⟩ := hkeys code hcode
  rw [press, if_neg hcode]
  refine ⟨?_, ?_⟩
  · rw [release_shift]
    simp only [hold, hleft, hright]
    by_cases hkey : code = 0xAA ∨ code = 0xB6
    · rw [if_pos hkey]
      refine iff_of_false (fun hne => hne rfl) ?_
      rcases hkey with rfl | rfl
      · rw [if_pos rfl, if_neg (by decide), hshifts.1 rfl]
        decide
      · rw [if_neg (by decide), if_pos rfl, hshifts.2 rfl]
        decide
    · rw [not_or] at hkey
      rw [if_neg (not_or.mpr hkey), if_neg hkey.1, if_neg hkey.2]
      exact h.shift
  · rw [release_capsLock]
    simp only [hold, hcaps]
    by_cases hkey : code = 0xBA
    · rw [if_pos hkey, if_pos hkey]
      exact iff_of_false (fun hne => hne rfl) Bool.false_ne_true
    · rw [if_neg hkey, if_neg hkey]
      exact h.capsLock

/-! ## The driver -/

theorem Tracks.char (h : Tracks flags held) (key : BitVec 8) : getCharForScanCode key flags = keyChar held key := by
  unfold getCharForScanCode keyChar
  by_cases hshift : held 0x2A = true ∨ held 0x36 = true
  · rw [if_pos (h.shift.mpr hshift), if_pos (Or.inl hshift)]
  · rw [if_neg (fun hset => hshift (h.shift.mp hset)), unshiftedChar]
    by_cases hcaps : held 0x3A = true
    · rw [if_pos (h.capsLock.mpr hcaps)]
      by_cases hletter : LetterKey key
      · rw [if_pos (Or.inr ⟨hcaps, hletter⟩)]
        exact if_pos hletter
      · rw [if_neg (not_or.mpr ⟨hshift, fun hboth => hletter hboth.2⟩)]
        exact if_neg hletter
    · rw [if_neg (fun hset => hcaps (h.capsLock.mp hset)), if_neg (not_or.mpr ⟨hshift, fun hboth => hcaps hboth.1⟩)]

/-- One code: the flags follow the keys, and its character is written. -/
theorem keyboardHandler_types (h : Tracks k.keyboardFlags held) (hshifts : ShiftsApart held code) :
    Tracks (keyboardHandler code k).keyboardFlags (press held code) ∧
      Prints (codeText held code) k.monitor (keyboardHandler code k).monitor := by
  unfold keyboardHandler codeText
  by_cases hcode : code &&& 0x80 = 0
  · rw [if_neg (fun hne => hne hcode), if_pos hcode]
    have htracks := h.down hcode
    refine ⟨htracks, ?_⟩
    rw [← htracks.char code]
    exact monitorPut_prints _ k.monitor
  · rw [if_pos hcode, if_neg hcode]
    exact ⟨h.up hcode hshifts, Prints.nil k.monitor⟩

end PandaOS

import Mathlib.Tactic

/-! `keyboard_mapping.h` and `keyboard_mapping.c`: the scan codes and the two tables from scan codes
to characters. A key without a character holds -1, a code that is not listed holds 0. -/
namespace PandaOS
set_option autoImplicit false
set_option maxHeartbeats 250000

def KEY_ESCAPE : ℕ := 0x01
def KEY_ONE : ℕ := 0x02
def KEY_TWO : ℕ := 0x03
def KEY_THREE : ℕ := 0x04
def KEY_FOUR : ℕ := 0x05
def KEY_FIVE : ℕ := 0x06
def KEY_SIX : ℕ := 0x07
def KEY_SEVEN : ℕ := 0x08
def KEY_EIGHT : ℕ := 0x09
def KEY_NINE : ℕ := 0x0A
def KEY_ZERO : ℕ := 0x0B
def KEY_APOSTROPHE : ℕ := 0x0C
def KEY_I_ACC : ℕ := 0x0D
def KEY_BACKSPACE : ℕ := 0x0E
def KEY_TAB : ℕ := 0x0F
def KEY_Q : ℕ := 0x10
def KEY_W : ℕ := 0x11
def KEY_E : ℕ := 0x12
def KEY_R : ℕ := 0x13
def KEY_T : ℕ := 0x14
def KEY_Y : ℕ := 0x15
def KEY_U : ℕ := 0x16
def KEY_I : ℕ := 0x17
def KEY_O : ℕ := 0x18
def KEY_P : ℕ := 0x19
def KEY_LEFT_BRAKET : ℕ := 0x1A
def KEY_RIGHT_BRAKET : ℕ := 0x1B
def KEY_ENTER : ℕ := 0x1C
def KEY_LEFT_CONTROL : ℕ := 0x1D
def KEY_A : ℕ := 0x1E
def KEY_S : ℕ := 0x1F
def KEY_D : ℕ := 0x20
def KEY_F : ℕ := 0x21
def KEY_G : ℕ := 0x22
def KEY_H : ℕ := 0x23
def KEY_J : ℕ := 0x24
def KEY_K : ℕ := 0x25
def KEY_L : ℕ := 0x26
def KEY_SEMICOLON : ℕ := 0x27
def KEY_DOUBLE_QUOTES : ℕ := 0x28
def KEY_GRAVE : ℕ := 0x29
def KEY_LEFT_SHIFT : ℕ := 0x2A
def KEY_BACKSLASH : ℕ := 0x2B
def KEY_Z : ℕ := 0x2c
def KEY_X : ℕ := 0x2d
def KEY_C : ℕ := 0x2e
def KEY_V : ℕ := 0x2f
def KEY_B : ℕ := 0x30
def KEY_N : ℕ := 0x31
def KEY_M : ℕ := 0x32
def KEY_COMMA : ℕ := 0x33
def KEY_PERIOD : ℕ := 0x34
def KEY_MINUS : ℕ := 0x35
def KEY_RIGHT_SHIFT : ℕ := 0x36
def KEY_KP_MUL : ℕ := 0x37
def KEY_LEFT_ALT : ℕ := 0x38
def KEY_SPACE : ℕ := 0x39
def KEY_CAPS_LOCK : ℕ := 0x3a
def KEY_F1 : ℕ := 0x3B
def KEY_F2 : ℕ := 0x3C
def KEY_F3 : ℕ := 0x3D
def KEY_F4 : ℕ := 0x3E
def KEY_F5 : ℕ := 0x3F
def KEY_F6 : ℕ := 0x40
def KEY_F7 : ℕ := 0x41
def KEY_F8 : ℕ := 0x42
def KEY_F9 : ℕ := 0x43
def KEY_F10 : ℕ := 0x44
def KEY_NUM_LOCK : ℕ := 0x45
def KEY_SCROLL_LOCK : ℕ := 0x46
def KEY_KP7 : ℕ := 0x47
def KEY_KP8 : ℕ := 0x48
def KEY_KP9 : ℕ := 0x49
def KEY_KP_SUB : ℕ := 0x4A
def KEY_KP4 : ℕ := 0x4B
def KEY_KP5 : ℕ := 0x4C
def KEY_KP6 : ℕ := 0x4D
def KEY_KP_ADD : ℕ := 0x4E
def KEY_KP1 : ℕ := 0x4F
def KEY_KP2 : ℕ := 0x50
def KEY_KP3 : ℕ := 0x51
def KEY_KP0 : ℕ := 0x52
def KEY_KP_DEC : ℕ := 0x53
def KEY_KP_LESS : ℕ := 0x56
def KEY_RIGHT_CONTROL : ℕ := 0xE01D
def KEY_KP_DIV : ℕ := 0xE035

/-- `(size_t)-1` -/
def NO_CHAR : ℕ := 0xFFFFFFFF

/-- `keymap.base` -/
def keymapBase : List (ℕ × ℕ) :=
  [(0, NO_CHAR), (KEY_ESCAPE, 27), (KEY_ONE, '1'.toNat), (KEY_TWO, '2'.toNat),
   (KEY_THREE, '3'.toNat), (KEY_FOUR, '4'.toNat), (KEY_FIVE, '5'.toNat), (KEY_SIX, '6'.toNat),
   (KEY_SEVEN, '7'.toNat), (KEY_EIGHT, '8'.toNat), (KEY_NINE, '9'.toNat), (KEY_ZERO, '0'.toNat),
   (KEY_APOSTROPHE, 39), (KEY_I_ACC, 141), (KEY_BACKSPACE, 8), (KEY_TAB, 9), (KEY_Q, 'q'.toNat),
   (KEY_W, 'w'.toNat), (KEY_E, 'e'.toNat), (KEY_R, 'r'.toNat), (KEY_T, 't'.toNat),
   (KEY_Y, 'y'.toNat), (KEY_U, 'u'.toNat), (KEY_I, 'i'.toNat), (KEY_O, 'o'.toNat),
   (KEY_P, 'p'.toNat), (KEY_LEFT_BRAKET, 138), (KEY_RIGHT_BRAKET, 43), (KEY_ENTER, 13),
   (KEY_LEFT_CONTROL, NO_CHAR), (KEY_A, 'a'.toNat), (KEY_S, 's'.toNat), (KEY_D, 'd'.toNat),
   (KEY_F, 'f'.toNat), (KEY_G, 'g'.toNat), (KEY_H, 'h'.toNat), (KEY_J, 'j'.toNat),
   (KEY_K, 'k'.toNat), (KEY_L, 'l'.toNat), (KEY_SEMICOLON, 149), (KEY_DOUBLE_QUOTES, 133),
   (KEY_GRAVE, 92), (KEY_LEFT_SHIFT, NO_CHAR), (KEY_BACKSLASH, 151), (KEY_Z, 'z'.toNat),
   (KEY_X, 'x'.toNat), (KEY_C, 'c'.toNat), (KEY_V, 'v'.toNat), (KEY_B, 'b'.toNat),
   (KEY_N, 'n'.toNat), (KEY_M, 'm'.toNat), (KEY_COMMA, 44), (KEY_PERIOD, 46), (KEY_MINUS, 45),
   (KEY_RIGHT_SHIFT, NO_CHAR), (KEY_KP_MUL, 42), (KEY_LEFT_ALT, NO_CHAR), (KEY_SPACE, 32),
   (KEY_CAPS_LOCK, NO_CHAR), (KEY_F1, NO_CHAR), (KEY_F2, NO_CHAR), (KEY_F3, NO_CHAR),
   (KEY_F4, NO_CHAR), (KEY_F5, NO_CHAR), (KEY_F6, NO_CHAR), (KEY_F7, NO_CHAR), (KEY_F8, NO_CHAR),
   (KEY_F9, NO_CHAR), (KEY_F10, NO_CHAR), (KEY_NUM_LOCK, NO_CHAR), (KEY_SCROLL_LOCK, NO_CHAR),
   (KEY_KP7, NO_CHAR), (KEY_KP8, NO_CHAR), (KEY_KP9, NO_CHAR), (KEY_KP_SUB, 45),
   (KEY_KP4, NO_CHAR), (KEY_KP5, NO_CHAR), (KEY_KP6, NO_CHAR), (KEY_KP_ADD, 43),
   (KEY_KP1, NO_CHAR), (KEY_KP2, NO_CHAR), (KEY_KP3, NO_CHAR), (KEY_KP0, NO_CHAR),
   (KEY_KP_DEC, NO_CHAR), (84, NO_CHAR), (85, NO_CHAR), (KEY_KP_LESS, 60), (87, NO_CHAR),
   (88, NO_CHAR), (KEY_KP_DIV, 47)]

/-- `keymap.shift` -/
def keymapShift : List (ℕ × ℕ) :=
  [(0, NO_CHAR), (KEY_ESCAPE, NO_CHAR), (KEY_ONE, 33), (KEY_TWO, 34), (KEY_THREE, 156),
   (KEY_FOUR, 36), (KEY_FIVE, 37), (KEY_SIX, 38), (KEY_SEVEN, 47), (KEY_EIGHT, 40),
   (KEY_NINE, 41), (KEY_ZERO, 61), (KEY_APOSTROPHE, 63), (KEY_I_ACC, 94),
   (KEY_BACKSPACE, NO_CHAR), (KEY_TAB, NO_CHAR), (KEY_Q, 'Q'.toNat), (KEY_W, 'W'.toNat),
   (KEY_E, 'E'.toNat), (KEY_R, 'R'.toNat), (KEY_T, 'T'.toNat), (KEY_Y, 'Y'.toNat),
   (KEY_U, 'U'.toNat), (KEY_I, 'I'.toNat), (KEY_O, 'O'.toNat), (KEY_P, 'P'.toNat),
   (KEY_LEFT_BRAKET, 130), (KEY_RIGHT_BRAKET, 42), (KEY_ENTER, NO_CHAR),
   (KEY_LEFT_CONTROL, NO_CHAR), (KEY_A, 'A'.toNat), (KEY_S, 'S'.toNat), (KEY_D, 'D'.toNat),
   (KEY_F, 'F'.toNat), (KEY_G, 'G'.toNat), (KEY_H, 'H'.toNat), (KEY_J, 'J'.toNat),
   (KEY_K, 'K'.toNat), (KEY_L, 'L'.toNat), (KEY_SEMICOLON, 128), (KEY_DOUBLE_QUOTES, 167),
   (KEY_GRAVE, 124), (KEY_LEFT_SHIFT, NO_CHAR), (KEY_BACKSLASH, NO_CHAR), (KEY_Z, 'Z'.toNat),
   (KEY_X, 'X'.toNat), (KEY_C, 'C'.toNat), (KEY_V, 'V'.toNat), (KEY_B, 'B'.toNat),
   (KEY_N, 'N'.toNat), (KEY_M, 'M'.toNat), (KEY_COMMA, 59), (KEY_PERIOD, 58), (KEY_MINUS, 95),
   (KEY_RIGHT_SHIFT, NO_CHAR), (KEY_KP_MUL, 42), (KEY_LEFT_ALT, NO_CHAR), (KEY_SPACE, 32),
   (KEY_CAPS_LOCK, NO_CHAR), (KEY_F1, NO_CHAR), (KEY_F2, NO_CHAR), (KEY_F3, NO_CHAR),
   (KEY_F4, NO_CHAR), (KEY_F5, NO_CHAR), (KEY_F6, NO_CHAR), (KEY_F7, NO_CHAR), (KEY_F8, NO_CHAR),
   (KEY_F9, NO_CHAR), (KEY_F10, NO_CHAR), (KEY_NUM_LOCK, NO_CHAR), (KEY_SCROLL_LOCK, NO_CHAR),
   (KEY_KP7, NO_CHAR), (KEY_KP8, NO_CHAR), (KEY_KP9, NO_CHAR), (KEY_KP_SUB, 45),
   (KEY_KP4, NO_CHAR), (KEY_KP5, NO_CHAR), (KEY_KP6, NO_CHAR), (KEY_KP_ADD, 43),
   (KEY_KP1, NO_CHAR), (KEY_KP2, NO_CHAR), (KEY_KP3, NO_CHAR), (KEY_KP0, NO_CHAR),
   (KEY_KP_DEC, NO_CHAR), (84, NO_CHAR), (85, NO_CHAR), (KEY_KP_LESS, 62), (87, NO_CHAR),
   (88, NO_CHAR), (KEY_KP_DIV, 47)]

end PandaOS

import PandaOS.Screen.Numbers
import PandaOS.Screen.Terminal
import PandaOS.Utils.Strings

/-! Text on the screen: the writing functions of `monitor.c`, and `panic.c`, which writes its report and stays in a
loop. Whatever is written shows on the terminal, and the colours are afterwards what they were. -/
namespace PandaOS
open ByteMemory Numerals Word32
set_option autoImplicit false
set_option maxHeartbeats 250000

/-! ## The functions -/

/-- The characters of a string literal. -/
def ascii (s : String) : List (BitVec 8) := s.toList.map fun c => BitVec.ofNat 8 c.toNat

/-- An array that holds these characters and a 0 behind them. -/
def chars (cs : List (BitVec 8)) : ℕ → BitVec 8 := fun i => cs.getD i 0

def monitorWriteString (cs : List (BitVec 8)) (m : Monitor) : Result Monitor :=
  monitorWrite monitorPut (chars cs) (cs.length + 1) 0 m

/-- The array `c` has `n` places. -/
def monitorWriteColor (c : ℕ → BitVec 8) (n : ℕ) (color : BitVec 8) (m : Monitor) : Result Monitor := do
  let temp := m.foregroundColor
  let m := { m with foregroundColor := color }
  let m ← monitorWrite monitorPut c n 0 m
  return { m with foregroundColor := temp }

def monitorWriteSys (cs : List (BitVec 8)) (m : Monitor) : Result Monitor :=
  monitorWriteColor (chars cs) (cs.length + 1) 4 m

/-- The characters at an address. -/
def charsAt (mem : Mem) (p : ℕ) : ℕ → BitVec 8 := fun i => (mem (p + i)).toBitVec

/-- `monitor_write_sys` of a string in memory. -/
def monitorWriteSysAt (mem : Mem) (p : ℕ) (m : Monitor) : Result Monitor :=
  monitorWriteColor (charsAt mem p) ADDRESS_SPACE 4 m

/-- What `panic` has on the screen when it stays in its loop. -/
def panic (message file : List (BitVec 8)) (c c2 : ℕ → BitVec 8) (line : ℕ) (m : Monitor) : Result Monitor := do
  let m ← monitorWriteSys (ascii "PANIC(") m
  let m ← monitorWriteSys message m
  let m ← monitorWriteSys (ascii ") at ") m
  let m ← monitorWriteSys file m
  let m ← monitorWriteSys (ascii ":") m
  let m ← monitorWriteDec monitorPut c c2 line m
  monitorWriteSys (ascii "\n") m

/-- The same of `panic_assert`. -/
def panicAssert (file : List (BitVec 8)) (c c2 : ℕ → BitVec 8) (line : ℕ) (desc : List (BitVec 8)) (m : Monitor) :
    Result Monitor := do
  let m ← monitorWriteSys (ascii "ASSERTION-FAILED(") m
  let m ← monitorWriteSys desc m
  let m ← monitorWriteSys (ascii ") at ") m
  let m ← monitorWriteSys file m
  let m ← monitorWriteSys (ascii ":") m
  let m ← monitorWriteDec monitorPut c c2 line m
  monitorWriteSys (ascii "\n") m

/-- The globals of `monitor.c` when the kernel is loaded. -/
def loadedMonitor : Monitor := ⟨fun _ => 0, 0, 0, 3, 15, [], []⟩

/-! ## What is written -/

def Terminal.write (cs : List (BitVec 8)) (t : Terminal) : Terminal := cs.foldl (fun t c => t.put c) t

/-- The text of `monitor_write_dec`: nothing from 2^31 on. -/
def decText (n : ℕ) : List (BitVec 8) :=
  if n = 0 then [0x30] else if n < 2147483648 then (Nat.digits 10 n).reverse.map hexChar else []

/-- The terminal's rows are on the screen, and the cursor was sent to the ports. -/
structure OnScreen (m : Monitor) (t : Terminal) : Prop where
  displays : Displays m t
  cursor : SentCursor m.ports m.location

/-- From `m` to `m'` this text was written, wherever the cursor was. -/
structure Prints (cs : List (BitVec 8)) (m m' : Monitor) : Prop where
  shown : ∀ t, OnScreen m t → OnScreen m' (t.write cs) ∧ StoresInside m m'
  colors : m'.backgroundColor = m.backgroundColor ∧ m'.foregroundColor = m.foregroundColor

variable {m m' m'' : Monitor} {t : Terminal} {cs ds : List (BitVec 8)} {c c2 : ℕ → BitVec 8} {n i : ℕ} {color : BitVec 8}

theorem Terminal.write_append (cs ds : List (BitVec 8)) (t : Terminal) : t.write (cs ++ ds) = (t.write cs).write ds :=
  List.foldl_append

theorem Prints.nil (m : Monitor) : Prints [] m m := ⟨fun _ h => ⟨h, StoresInside.of_eq rfl⟩, rfl, rfl⟩

theorem Prints.trans (h : Prints cs m m') (h' : Prints ds m' m'') : Prints (cs ++ ds) m m'' := by
  refine ⟨fun t ht => ?_, h'.colors.1.trans h.colors.1, h'.colors.2.trans h.colors.2⟩
  obtain ⟨hshown, hstores⟩ := h.shown t ht
  obtain ⟨hshown', hstores'⟩ := h'.shown _ hshown
  rw [Terminal.write_append]
  exact ⟨hshown', hstores.trans hstores'⟩

/-- New colours do not show. -/
theorem OnScreen.recolor (h : OnScreen m t) (background foreground : BitVec 8) :
    OnScreen { m with backgroundColor := background, foregroundColor := foreground } t :=
  ⟨⟨h.displays.1, h.displays.2, h.displays.3, h.displays.4⟩, h.cursor⟩

theorem monitorClear_onScreen (m : Monitor) : OnScreen (monitorClear m) Terminal.empty := by
  have hclear := monitorClear_displays m
  have hloc := hclear.location_lt
  rw [monitorClear, moveCursor_location] at hloc
  exact ⟨hclear, moveCursor_sent (hloc.trans (by decide))⟩

/-! ## One character -/

theorem placeChar_colors (c : BitVec 8) (m : Monitor) :
    (placeChar c m).backgroundColor = m.backgroundColor ∧ (placeChar c m).foregroundColor = m.foregroundColor := by
  unfold placeChar
  split_ifs <;> exact ⟨rfl, rfl⟩

theorem wrapCursor_colors (m : Monitor) :
    (wrapCursor m).backgroundColor = m.backgroundColor ∧ (wrapCursor m).foregroundColor = m.foregroundColor := by
  unfold wrapCursor
  split_ifs <;> exact ⟨rfl, rfl⟩

theorem scroll_colors (m : Monitor) :
    (scroll m).backgroundColor = m.backgroundColor ∧ (scroll m).foregroundColor = m.foregroundColor := by
  by_cases h : 25 ≤ m.cursorY.toNat
  · rw [scroll_of_full h]
    exact ⟨rfl, rfl⟩
  · rw [scroll, if_neg h]
    exact ⟨rfl, rfl⟩

theorem moveCursor_colors (m : Monitor) :
    (moveCursor m).backgroundColor = m.backgroundColor ∧ (moveCursor m).foregroundColor = m.foregroundColor := ⟨rfl, rfl⟩

theorem monitorPut_prints (c : BitVec 8) (m : Monitor) : Prints [c] m (monitorPut c m) := by
  refine ⟨fun t h => ?_, ?_, ?_⟩
  · obtain ⟨hdisplays, hcursor, hstores⟩ := output_step (.put c) h.displays h.cursor
    exact ⟨⟨hdisplays, hcursor⟩, hstores⟩
  · rw [monitorPut, (moveCursor_colors _).1, (scroll_colors _).1, (wrapCursor_colors _).1, (placeChar_colors c m).1]
  · rw [monitorPut, (moveCursor_colors _).2, (scroll_colors _).2, (wrapCursor_colors _).2, (placeChar_colors c m).2]

/-! ## Functions that write -/

/-- The function returns, and has written this text. -/
def Printer (f : Monitor → Result Monitor) (cs : List (BitVec 8)) : Prop := ∀ m, ∃ m', f m = .ok m' ∧ Prints cs m m'

variable {f g : Monitor → Result Monitor}

theorem Printer.bind (hf : Printer f cs) (hg : Printer g ds) : Printer (fun m => f m >>= g) (cs ++ ds) := by
  intro m
  obtain ⟨m1, hrun, hprints⟩ := hf m
  obtain ⟨m2, hrun', hprints'⟩ := hg m1
  refine ⟨m2, ?_, hprints.trans hprints'⟩
  dsimp only
  rw [hrun, ok_bind, hrun']

theorem monitorPut_printer (c : BitVec 8) : Printer (fun m => .ok (monitorPut c m)) [c] :=
  fun m => ⟨_, rfl, monitorPut_prints c m⟩

theorem puts_prints (cs : List (BitVec 8)) (m : Monitor) : Prints cs m (cs.foldl (fun m c => monitorPut c m) m) := by
  induction cs generalizing m with
  | nil => exact Prints.nil m
  | cons c cs ih => exact (monitorPut_prints c m).trans (ih (monitorPut c m))

theorem Writes.printer {f : (σ : Type) → (BitVec 8 → σ → σ) → σ → Result σ} (h : Writes f cs) :
    Printer (f Monitor monitorPut) cs := fun m => ⟨_, h Monitor monitorPut m, puts_prints cs m⟩

/-- The characters of a string. -/
def ZeroFree (cs : List (BitVec 8)) : Prop := ∀ c ∈ cs, c ≠ 0

theorem zeroFree_ascii {s : String} (h : s.toList.all (fun c => c.toNat % 256 != 0) = true) : ZeroFree (ascii s) := by
  intro c hc hzero
  obtain ⟨d, hd, rfl⟩ := List.mem_map.mp hc
  have hne := List.all_eq_true.mp h d hd
  have hmod : d.toNat % 256 = 0 := congrArg BitVec.toNat hzero
  rw [hmod] at hne
  cases hne

/-- The array holds this string. -/
structure Spells (c : ℕ → BitVec 8) (n : ℕ) (cs : List (BitVec 8)) : Prop where
  chars : ∀ j (hj : j < cs.length), c j = cs[j]
  zeroFree : ZeroFree cs
  ends : c cs.length = 0
  room : cs.length < n

theorem spells_chars (h : ZeroFree cs) : Spells (chars cs) (cs.length + 1) cs :=
  ⟨fun _ hj => List.getD_eq_getElem _ _ hj, h, List.getD_eq_default _ _ le_rfl, Nat.lt_succ_self _⟩

/-- The bytes of a string as characters. -/
def text (s : List UInt8) : List (BitVec 8) := s.map UInt8.toBitVec

theorem spells_charsAt {mem : Mem} {p : ℕ} {s : List UInt8} (h : CString mem p s) (hn : s.length < n) :
    Spells (charsAt mem p) n (text s) := by
  have hlength : (text s).length = s.length := List.length_map _
  refine ⟨fun j hj => ?_, fun x hx hzero => ?_, ?_, by rw [hlength]; exact hn⟩
  · rw [hlength] at hj
    have hread := readBytes_getElem (m := mem) (a := p) hj
    have hbytes : readBytes mem p s.length = s := h.bytes
    rw [hbytes, List.getElem?_eq_getElem hj, Option.some.injEq] at hread
    have hget : (text s)[j] = (s[j]).toBitVec := List.getElem_map _
    rw [hget, hread, charsAt]
  · obtain ⟨b, hb, rfl⟩ := List.mem_map.mp hx
    have hb0 : b = 0 := UInt8.toBitVec_inj.mp hzero
    rw [hb0] at hb
    exact h.2 hb
  · rw [hlength, charsAt, h.zero]
    rfl

theorem Spells.writes {c : ℕ → BitVec 8} (h : Spells c n cs) : Writes (fun _ put s => monitorWrite put c n 0 s) cs := by
  intro σ put s
  refine monitorWrite_spec (fun j hj => ?_) h.zeroFree ?_ h.room
  · rw [Nat.zero_add]
    exact h.chars j hj
  · rw [Nat.zero_add]
    exact h.ends

theorem monitorWriteString_printer (h : ZeroFree cs) : Printer (monitorWriteString cs) cs := (spells_chars h).writes.printer

/-- The text in another colour, and the colour is put back. -/
theorem monitorWriteColor_printer {c : ℕ → BitVec 8} (h : Spells c n cs) (color : BitVec 8) :
    Printer (monitorWriteColor c n color) cs := by
  intro m
  obtain ⟨m1, hrun, hprints⟩ := h.writes.printer { m with foregroundColor := color }
  refine ⟨{ m1 with foregroundColor := m.foregroundColor }, ?_, fun t ht => ?_, hprints.colors.1, rfl⟩
  · dsimp only at hrun
    rw [monitorWriteColor, hrun]
    rfl
  · obtain ⟨hshown, hstores⟩ := hprints.shown t (ht.recolor m.backgroundColor color)
    exact ⟨hshown.recolor m1.backgroundColor m.foregroundColor, hstores⟩

theorem monitorWriteSys_printer (h : ZeroFree cs) : Printer (monitorWriteSys cs) cs :=
  monitorWriteColor_printer (spells_chars h) 4

theorem monitorWriteSysAt_printer {mem : Mem} {p : ℕ} {s : List UInt8} (h : CString mem p s)
    (hs : s.length < ADDRESS_SPACE) : Printer (monitorWriteSysAt mem p) (text s) :=
  monitorWriteColor_printer (spells_charsAt h hs) 4

theorem monitorWriteDec_printer (c c2 : ℕ → BitVec 8) (hn : n < 4294967296) :
    Printer (monitorWriteDec monitorPut c c2 n) (decText n) := by
  by_cases h0 : n = 0
  · rw [h0]
    exact monitorPut_printer 0x30
  · by_cases hlow : n < 2147483648
    · rw [decText, if_neg h0, if_pos hlow]
      exact (writes_dec c c2 h0 hlow).printer
    · rw [decText, if_neg h0, if_neg hlow]
      exact (writes_dec_negative c c2 (by omega) hn).printer

/-! ## panic.c -/

/-- Both reports: what failed, then the place in the source. -/
def reportText (start what file : List (BitVec 8)) (line : ℕ) : List (BitVec 8) :=
  start ++ (what ++ (ascii ") at " ++ (file ++ (ascii ":" ++ (decText line ++ ascii "\n")))))

theorem report_printer {start what file : List (BitVec 8)} {line : ℕ} (c c2 : ℕ → BitVec 8) (hstart : ZeroFree start)
    (hwhat : ZeroFree what) (hfile : ZeroFree file) (hline : line < 4294967296) :
    Printer (fun m => do
      let m ← monitorWriteSys start m
      let m ← monitorWriteSys what m
      let m ← monitorWriteSys (ascii ") at ") m
      let m ← monitorWriteSys file m
      let m ← monitorWriteSys (ascii ":") m
      let m ← monitorWriteDec monitorPut c c2 line m
      monitorWriteSys (ascii "\n") m) (reportText start what file line) :=
  (monitorWriteSys_printer hstart).bind <| (monitorWriteSys_printer hwhat).bind <|
    (monitorWriteSys_printer (zeroFree_ascii rfl)).bind <| (monitorWriteSys_printer hfile).bind <|
      (monitorWriteSys_printer (zeroFree_ascii rfl)).bind <| (monitorWriteDec_printer c c2 hline).bind <|
        monitorWriteSys_printer (zeroFree_ascii rfl)

theorem panicAssert_printer {file desc : List (BitVec 8)} {line : ℕ} (c c2 : ℕ → BitVec 8) (hfile : ZeroFree file)
    (hdesc : ZeroFree desc) (hline : line < 4294967296) :
    Printer (panicAssert file c c2 line desc) (reportText (ascii "ASSERTION-FAILED(") desc file line) :=
  report_printer c c2 (zeroFree_ascii rfl) hdesc hfile hline

end PandaOS

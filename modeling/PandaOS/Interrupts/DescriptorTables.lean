import PandaOS.Library.Descriptors
import PandaOS.Library.Pic8259
import PandaOS.Library.Regions
import PandaOS.Utils.Mem

/-! `descriptor_tables.c`, `gdt.s` and `idt.s`: the two tables in memory, the registers that point to them, and the
bytes for the interrupt controllers. The addresses are those that the linker gives. -/
namespace PandaOS.Interrupts
open ByteMemory Descriptors Pic8259
set_option autoImplicit false
set_option maxHeartbeats 250000

/-! ## The functions -/

/-- Where the linker puts the tables, and the stubs of `interrupt.s`. -/
structure Layout where
  gdtEntries : ℕ
  gdtPtr : ℕ
  idtEntries : ℕ
  idtPtr : ℕ
  interruptHandlers : ℕ
  isr : ℕ → ℕ
  irq : ℕ → ℕ

structure Platform where
  mem : Mem
  pics : Pair
  gdtr : TableRegister
  idtr : TableRegister

def Platform.withMem (p : Platform) (m : Mem) : Platform := { p with mem := m }

def Platform.outb (port : ℕ) (value : BitVec 8) (p : Platform) : Result Platform :=
  match p.pics.out port value with
  | some pics => .ok { p with pics := pics }
  | none => .error (.undefined "a command that the model of the controllers leaves out")

/-- `sizeof(gdt_entry_t)` and `sizeof(idt_entry_t)` -/
def sizeofEntry : ℕ := 8

def gdtSetGate (entries num base limit access gran : ℕ) (m : Mem) : Mem :=
  let e := entries + num * sizeofEntry
  let m := store16 m (e+2) (base &&& 0xFFFF)
  let m := store8 m (e+4) (base >>> 16 &&& 0xFF)
  let m := store8 m (e+7) (base >>> 24 &&& 0xFF)
  let m := store16 m e (limit &&& 0xFFFF)
  let m := store8 m (e+6) (limit >>> 16 &&& 0x0F)
  let m := store8 m (e+6) (load8 m (e+6) ||| (gran &&& 0xF0))
  store8 m (e+5) access

def idtSetGate (entries num base sel flags : ℕ) (m : Mem) : Mem :=
  let e := entries + num * sizeofEntry
  let m := store16 m e (base &&& 0xFFFF)
  let m := store16 m (e+6) (base >>> 16 &&& 0xFFFF)
  let m := store16 m (e+2) sel
  let m := store8 m (e+4) 0
  store8 m (e+5) flags

/-- `lgdt` and `lidt` read the register from memory. -/
def readTableRegister (m : Mem) (a : ℕ) : TableRegister := ⟨load16 m a, load32 m (a+2)⟩

def gdtFlush (ptr : ℕ) (p : Platform) : Platform := { p with gdtr := readTableRegister p.mem ptr }

def idtFlush (ptr : ℕ) (p : Platform) : Platform := { p with idtr := readTableRegister p.mem ptr }

def initGdt (l : Layout) (p : Platform) : Platform :=
  let m := store16 p.mem l.gdtPtr (sizeofEntry * 5 - 1)
  let m := store32 m (l.gdtPtr+2) l.gdtEntries
  let m := gdtSetGate l.gdtEntries 0 0 0 0 0 m
  let m := gdtSetGate l.gdtEntries 1 0 0xFFFFFFFF 0x9A 0xCF m
  let m := gdtSetGate l.gdtEntries 2 0 0xFFFFFFFF 0x92 0xCF m
  let m := gdtSetGate l.gdtEntries 3 0 0xFFFFFFFF 0xFA 0xCF m
  let m := gdtSetGate l.gdtEntries 4 0 0xFFFFFFFF 0xF2 0xCF m
  gdtFlush l.gdtPtr (p.withMem m)

/-- The bytes for the two controllers, in the order of the calls of `outb`. -/
def remap : List (ℕ × BitVec 8) :=
  [(0x20, 0x11), (0xA0, 0x11), (0x21, 0x20), (0xA1, 0x28), (0x21, 0x04), (0xA1, 0x02), (0x21, 0x01), (0xA1, 0x01),
   (0x21, 0x0), (0xA1, 0x0)]

/-- The calls of `idt_set_gate` for the stubs `isr0` to `isr31` and `irq0` to `irq15`. -/
def setGates (l : Layout) (m : Mem) : Mem :=
  let m := (List.range 32).foldl (fun m i => idtSetGate l.idtEntries i (l.isr i) 0x08 0x8E m) m
  (List.range 16).foldl (fun m i => idtSetGate l.idtEntries (32 + i) (l.irq i) 0x08 0x8E m) m

def initIdt (l : Layout) (p : Platform) : Result Platform := do
  let m := store16 p.mem l.idtPtr (sizeofEntry * 256 - 1)
  let m := store32 m (l.idtPtr+2) l.idtEntries
  let p := p.withMem (memset m l.idtEntries 0 (sizeofEntry * 256))
  let p ← remap.foldlM (fun p o => p.outb o.1 o.2) p
  return idtFlush l.idtPtr (p.withMem (setGates l p.mem))

def initDescriptorTables (l : Layout) (p : Platform) : Result Platform := do
  let p := initGdt l p
  let p ← initIdt l p
  return p.withMem (memset p.mem l.interruptHandlers 0 (4 * 256))

variable {m m' : Mem} {l : Layout} {p p' : Platform} {entries num n base limit access gran sel flags a v lo hi : ℕ}

/-! ## One entry -/

theorem granularity_bits (limit gran : ℕ) :
    ((limit >>> 16 &&& 0x0F) ||| (gran &&& 0xF0)) % 16 = limit / 65536 % 16 ∧
      ((limit >>> 16 &&& 0x0F) ||| (gran &&& 0xF0)).testBit 7 = gran.testBit 7 ∧
      ((limit >>> 16 &&& 0x0F) ||| (gran &&& 0xF0)).testBit 6 = gran.testBit 6 ∧
      ((limit >>> 16 &&& 0x0F) ||| (gran &&& 0xF0)) < 256 := by
  have hlow : limit >>> 16 &&& 0x0F = limit / 65536 % 16 := by
    rw [Nat.shiftRight_eq_div_pow]
    exact Nat.and_two_pow_sub_one_eq_mod _ 4
  have hfits : (limit >>> 16 &&& 0x0F) < 2 ^ 4 := by
    rw [hlow]
    exact Nat.mod_lt _ (by norm_num)
  have hhigh : gran &&& 0xF0 < 2 ^ 8 := Nat.lt_of_le_of_lt Nat.and_le_right (by norm_num)
  have hbit : ∀ i ≥ 4, (limit >>> 16 &&& 0x0F).testBit i = false := fun i hi =>
    Nat.testBit_lt_two_pow (hfits.trans_le (Nat.pow_le_pow_right (by norm_num) hi))
  refine ⟨?_, ?_, ?_, ?_⟩
  · have hmod : (gran &&& 0xF0) % 2 ^ 4 = 0 := by
      rw [Nat.and_mod_two_pow]
      exact Nat.and_zero _
    have hor : ((limit >>> 16 &&& 0x0F) ||| (gran &&& 0xF0)) % 2 ^ 4 = (limit >>> 16 &&& 0x0F) := by
      rw [Nat.or_mod_two_pow, hmod, Nat.or_zero, Nat.mod_eq_of_lt hfits]
    rw [← hlow]
    exact hor
  · rw [Nat.testBit_or, hbit 7 (by norm_num), Nat.testBit_and, Bool.false_or]
    exact Bool.and_true _
  · rw [Nat.testBit_or, hbit 6 (by norm_num), Nat.testBit_and, Bool.false_or]
    exact Bool.and_true _
  · exact Nat.or_lt_two_pow (hfits.trans (by norm_num)) hhigh

theorem sameOff_gdtSetGate (entries num base limit access gran : ℕ) (m : Mem) :
    SameOff m (gdtSetGate entries num base limit access gran m) (entries + num * sizeofEntry)
      (entries + num * sizeofEntry + sizeofEntry) := by
  have hsize : sizeofEntry = 8 := rfl
  unfold gdtSetGate
  dsimp only
  obtain ⟨e, he⟩ : ∃ e, e = entries + num * sizeofEntry := ⟨_, rfl⟩
  rw [← he]
  refine (sameOff_store16 ?_ ?_).trans ((sameOff_store8 ?_ ?_).trans ((sameOff_store8 ?_ ?_).trans
    ((sameOff_store16 ?_ ?_).trans ((sameOff_store8 ?_ ?_).trans ((sameOff_store8 ?_ ?_).trans (sameOff_store8 ?_ ?_))))))
  all_goals omega

/-- The processor reads back what `gdt_set_gate` was told, except for the highest 12 bits of the limit. -/
theorem readSegment_gdtSetGate (m : Mem) (hbase : base < 4294967296) (haccess : access < 256) :
    readSegment (gdtSetGate entries num base limit access gran m) (entries + num * sizeofEntry) =
      { base := base
        last := if gran.testBit 7 then limit % 0x100000 * 4096 + 4095 else limit % 0x100000
        present := access.testBit 7
        privilege := access / 32 % 4
        memory := access.testBit 4
        executable := access.testBit 3
        accessible := access.testBit 1
        wide := gran.testBit 6 } := by
  obtain ⟨e, he⟩ : ∃ e, e = entries + num * sizeofEntry := ⟨_, rfl⟩
  obtain ⟨hgran, h7, h6, hlt⟩ := granularity_bits limit gran
  have hand : ∀ x, x &&& 0xFFFF = x % 65536 := fun x => Nat.and_two_pow_sub_one_eq_mod x 16
  have hbyte : ∀ x, x &&& 0xFF = x % 256 := fun x => Nat.and_two_pow_sub_one_eq_mod x 8
  have hnibble : limit >>> 16 &&& 0x0F < 256 := Nat.lt_of_le_of_lt Nat.and_le_right (by norm_num)
  unfold gdtSetGate readSegment
  rw [← he]
  simp (disch := omega) only [load8_store8_of_ne, load16_store8_of_off, load16_store16_of_off, load8_store16_of_off,
    load8_store8_self, load16_store16_self, hand, hbyte, Nat.mod_mod]
  rw [Nat.mod_eq_of_lt hnibble, Nat.mod_eq_of_lt hlt, hgran, h7, h6, Nat.mod_eq_of_lt haccess,
    Nat.shiftRight_eq_div_pow, Nat.shiftRight_eq_div_pow]
  have hbase' : base % 65536 + 65536 * (base / 2 ^ 16 % 256) + 16777216 * (base / 2 ^ 24 % 256) = base := by omega
  have hlimit : limit % 65536 + 65536 * (limit / 65536 % 16) = limit % 0x100000 := by omega
  rw [hbase', hlimit]

theorem sameOff_idtSetGate (entries num base sel flags : ℕ) (m : Mem) :
    SameOff m (idtSetGate entries num base sel flags m) (entries + num * sizeofEntry)
      (entries + num * sizeofEntry + sizeofEntry) := by
  have hsize : sizeofEntry = 8 := rfl
  unfold idtSetGate
  dsimp only
  obtain ⟨e, he⟩ : ∃ e, e = entries + num * sizeofEntry := ⟨_, rfl⟩
  rw [← he]
  refine (sameOff_store16 ?_ ?_).trans ((sameOff_store16 ?_ ?_).trans ((sameOff_store16 ?_ ?_).trans
    ((sameOff_store8 ?_ ?_).trans (sameOff_store8 ?_ ?_))))
  all_goals omega

/-- The processor reads back what `idt_set_gate` was told. -/
theorem readGate_idtSetGate (m : Mem) (hbase : base < 4294967296) (hsel : sel < 65536) (hflags : flags < 256) :
    readGate (idtSetGate entries num base sel flags m) (entries + num * sizeofEntry) =
      ⟨base, sel, flags.testBit 7, flags / 32 % 4, flags % 32⟩ := by
  obtain ⟨e, he⟩ : ∃ e, e = entries + num * sizeofEntry := ⟨_, rfl⟩
  have hand : ∀ x, x &&& 0xFFFF = x % 65536 := fun x => Nat.and_two_pow_sub_one_eq_mod x 16
  unfold idtSetGate readGate
  rw [← he]
  simp (disch := omega) only [load16_store8_of_off, load16_store16_of_off, load8_store8_self, load16_store16_self, hand,
    Nat.shiftRight_eq_div_pow]
  have hbase' : base % 65536 + 65536 * (base / 2 ^ 16 % 65536) = base := by omega
  rw [hbase', Nat.mod_eq_of_lt hflags]

/-! ## The gates of the stubs -/

/-- Entries `start` to `start + n` of the table, set one after the other. -/
theorem setGates_loop (entries sel flags : ℕ) (f : ℕ → ℕ) (start n : ℕ) (m : Mem) (hf : ∀ i < n, f i < 4294967296) (hsel : sel < 65536)
    (hflags : flags < 256) :
    SameOff m ((List.range n).foldl (fun m i => idtSetGate entries (start + i) (f i) sel flags m) m)
        (entries + start * 8) (entries + (start + n) * 8) ∧
      ∀ i < n, readGate ((List.range n).foldl (fun m i => idtSetGate entries (start + i) (f i) sel flags m) m)
        (entries + (start + i) * 8) = ⟨f i, sel, flags.testBit 7, flags / 32 % 4, flags % 32⟩ := by
  induction n with
  | zero => exact ⟨SameOff.refl _ _ _, fun i hi => absurd hi (Nat.not_lt_zero i)⟩
  | succ n ih =>
    obtain ⟨hoff, hgates⟩ := ih fun i hi => hf i (by omega)
    rw [List.range_succ, List.foldl_append, List.foldl_cons, List.foldl_nil]
    obtain ⟨m1, hm1⟩ : ∃ m1, m1 = (List.range n).foldl (fun m i => idtSetGate entries (start + i) (f i) sel flags m) m :=
      ⟨_, rfl⟩
    rw [← hm1] at hoff hgates ⊢
    have hlast : SameOff m1 (idtSetGate entries (start + n) (f n) sel flags m1) (entries + (start + n) * 8)
        (entries + (start + n) * 8 + 8) := sameOff_idtSetGate entries (start + n) (f n) sel flags m1
    refine ⟨(hoff.mono le_rfl (by omega)).trans (hlast.mono (by omega) (by omega)), fun i hi => ?_⟩
    by_cases hin : i = n
    · rw [hin]
      exact readGate_idtSetGate m1 (hf n (by omega)) hsel hflags
    · have hbelow : SameOn m1 (idtSetGate entries (start + n) (f n) sel flags m1) (entries + start * 8)
          (entries + (start + n) * 8) := hlast.sameOn (Or.inl le_rfl)
      rw [readGate_congr hbelow (by omega) (by omega)]
      exact hgates i (by omega)

/-- What the processor finds for a vector. -/
def Layout.gate (l : Layout) (v : ℕ) : Option Gate :=
  if v < 32 then some ⟨l.isr v, 0x08, true, 0, INTERRUPT_GATE⟩
  else if v < 48 then some ⟨l.irq (v - 32), 0x08, true, 0, INTERRUPT_GATE⟩
  else none

/-- The stubs have 32-bit addresses. -/
def Layout.Stubs (l : Layout) : Prop := (∀ i < 32, l.isr i < 4294967296) ∧ ∀ i < 16, l.irq i < 4294967296

theorem setGates_spec (hl : l.Stubs) (hzero : ∀ x, l.idtEntries ≤ x → x < l.idtEntries + 2048 → m x = 0) :
    SameOff m (setGates l m) l.idtEntries (l.idtEntries + 384) ∧
      ∀ v < 256, gateAt (setGates l m) ⟨2047, l.idtEntries⟩ v = l.gate v := by
  obtain ⟨hoff1, hgates1⟩ := setGates_loop l.idtEntries 0x08 0x8E l.isr 0 32 m hl.1
    (by norm_num) (by norm_num)
  simp only [Nat.zero_add, Nat.zero_mul, Nat.add_zero] at hoff1 hgates1
  obtain ⟨m1, hm1⟩ : ∃ m1, m1 = (List.range 32).foldl (fun m i => idtSetGate l.idtEntries i (l.isr i) 0x08 0x8E m) m :=
    ⟨_, rfl⟩
  rw [← hm1] at hoff1 hgates1
  obtain ⟨hoff2, hgates2⟩ := setGates_loop l.idtEntries 0x08 0x8E l.irq 32 16 m1 hl.2
    (by norm_num) (by norm_num)
  have hset : setGates l m = (List.range 16).foldl (fun m i => idtSetGate l.idtEntries (32 + i) (l.irq i) 0x08 0x8E m) m1 := by
    rw [hm1]
    rfl
  rw [← hset] at hoff2 hgates2
  refine ⟨(hoff1.mono le_rfl (by omega)).trans (hoff2.mono (by omega) (by omega)), fun v hv => ?_⟩
  have hlow : SameOn m1 (setGates l m) l.idtEntries (l.idtEntries + 32 * 8) := hoff2.sameOn (Or.inl le_rfl)
  unfold gateAt Layout.gate
  dsimp only
  rw [if_neg (by omega)]
  by_cases h32 : v < 32
  · rw [readGate_congr hlow (by omega) (by omega), hgates1 v h32, if_pos h32]
    rfl
  · by_cases h48 : v < 48
    · have hgate := hgates2 (v - 32) (by omega)
      have hplace : 32 + (v - 32) = v := by omega
      rw [hplace] at hgate
      rw [hgate, if_neg h32, if_pos h48]
      rfl
    · have hflags : load8 (setGates l m) (l.idtEntries + v * 8 + 5) = 0 := by
        rw [hoff2.load8_eq (by omega), hoff1.load8_eq (by omega), load8, hzero _ (by omega) (by omega)]
        rfl
      have habsent : (readGate (setGates l m) (l.idtEntries + v * 8)).present = false := by
        unfold readGate
        dsimp only
        rw [hflags]
        rfl
      rw [habsent, if_neg h32, if_neg h48]
      rfl

/-! ## The tables as the processor reads them -/

/-- The areas that are written. -/
def Layout.areas (l : Layout) : List (ℕ × ℕ) :=
  [(l.gdtEntries, 40), (l.gdtPtr, 6), (l.idtEntries, 2048), (l.idtPtr, 6), (l.interruptHandlers, 1024)]

structure Layout.Linked (l : Layout) : Prop where
  stubs : l.Stubs
  below : l.gdtEntries < 4294967296 ∧ l.idtEntries < 4294967296
  apart : l.areas.Pairwise Apart

/-- A segment of the whole memory. -/
def flat (privilege : ℕ) (executable : Bool) : Segment :=
  ⟨0, 0xFFFFFFFF, true, privilege, true, executable, true, true⟩

/-- The segments by number of the entry. -/
def kernelSegments : ℕ → Option Segment
  | 1 => some (flat 0 true)
  | 2 => some (flat 0 false)
  | 3 => some (flat 3 true)
  | 4 => some (flat 3 false)
  | _ => none

/-- The controllers are initialised, with nothing masked, and the slave on line 2. -/
structure Programmed (pics : Pair) : Prop where
  ready : pics.master.phase = .ready ∧ pics.slave.phase = .ready
  base : pics.master.base = 0x20 ∧ pics.slave.base = 0x28
  mask : pics.master.mask = 0 ∧ pics.slave.mask = 0
  cascade : pics.master.cascade = 0x04 ∧ pics.slave.cascade = 0x02

structure Installed (l : Layout) (p : Platform) : Prop where
  gdtr : p.gdtr = ⟨39, l.gdtEntries⟩
  idtr : p.idtr = ⟨2047, l.idtEntries⟩
  segments : ∀ i rpl, rpl < 4 → segmentAt p.mem p.gdtr (i * 8 + rpl) = kernelSegments i
  gates : ∀ v, gateAt p.mem p.idtr v = l.gate v
  handlers : ∀ n < 256, load32 p.mem (l.interruptHandlers + 4 * n) = 0
  controllers : Programmed p.pics

/-- The ten bytes. -/
theorem remap_programs (p : Platform) (hservice : p.pics.master.Idle ∧ p.pics.slave.Idle) :
    ∃ pics, remap.foldlM (fun p o => p.outb o.1 o.2) p = .ok { p with pics := pics } ∧ Programmed pics ∧
      pics.master.Idle ∧ pics.slave.Idle :=
  ⟨_, rfl, ⟨⟨rfl, rfl⟩, ⟨rfl, rfl⟩, ⟨rfl, rfl⟩, ⟨rfl, rfl⟩⟩, hservice⟩

theorem initGdt_spec (l : Layout) (p : Platform) :
    ∃ m, initGdt l p = gdtFlush l.gdtPtr (p.withMem m) ∧
      SameOff (store32 (store16 p.mem l.gdtPtr 39) (l.gdtPtr+2) l.gdtEntries) m l.gdtEntries (l.gdtEntries + 40) ∧
      ∀ i, 0 < i → i < 5 → some (readSegment m (l.gdtEntries + i * 8)) = kernelSegments i := by
  obtain ⟨m0, hm0⟩ : ∃ m0, m0 = store32 (store16 p.mem l.gdtPtr 39) (l.gdtPtr+2) l.gdtEntries := ⟨_, rfl⟩
  obtain ⟨e, he⟩ : ∃ e, e = l.gdtEntries := ⟨_, rfl⟩
  obtain ⟨m1, hm1⟩ : ∃ m1, m1 = gdtSetGate e 0 0 0 0 0 m0 := ⟨_, rfl⟩
  obtain ⟨m2, hm2⟩ : ∃ m2, m2 = gdtSetGate e 1 0 0xFFFFFFFF 0x9A 0xCF m1 := ⟨_, rfl⟩
  obtain ⟨m3, hm3⟩ : ∃ m3, m3 = gdtSetGate e 2 0 0xFFFFFFFF 0x92 0xCF m2 := ⟨_, rfl⟩
  obtain ⟨m4, hm4⟩ : ∃ m4, m4 = gdtSetGate e 3 0 0xFFFFFFFF 0xFA 0xCF m3 := ⟨_, rfl⟩
  obtain ⟨m5, hm5⟩ : ∃ m5, m5 = gdtSetGate e 4 0 0xFFFFFFFF 0xF2 0xCF m4 := ⟨_, rfl⟩
  have hoff1 : SameOff m0 m1 e (e + 8) := hm1 ▸ sameOff_gdtSetGate e 0 0 0 0 0 m0
  have hoff2 : SameOff m1 m2 (e + 8) (e + 16) := hm2 ▸ sameOff_gdtSetGate e 1 0 0xFFFFFFFF 0x9A 0xCF m1
  have hoff3 : SameOff m2 m3 (e + 16) (e + 24) := hm3 ▸ sameOff_gdtSetGate e 2 0 0xFFFFFFFF 0x92 0xCF m2
  have hoff4 : SameOff m3 m4 (e + 24) (e + 32) := hm4 ▸ sameOff_gdtSetGate e 3 0 0xFFFFFFFF 0xFA 0xCF m3
  have hoff5 : SameOff m4 m5 (e + 32) (e + 40) := hm5 ▸ sameOff_gdtSetGate e 4 0 0xFFFFFFFF 0xF2 0xCF m4
  have hrun : initGdt l p = gdtFlush l.gdtPtr (p.withMem m5) := by
    rw [hm5, hm4, hm3, hm2, hm1, hm0, he]
    rfl
  have hread : ∀ n access, access < 256 → ∀ m, readSegment (gdtSetGate e n 0 0xFFFFFFFF access 0xCF m) (e + n * 8) =
      ⟨0, 0xFFFFFFFF, access.testBit 7, access / 32 % 4, access.testBit 4, access.testBit 3, access.testBit 1, true⟩ :=
    fun n access haccess m => readSegment_gdtSetGate m (by norm_num) haccess
  -- each entry is what its own call wrote
  have h1 : readSegment m5 (e + 1 * 8) = flat 0 true := by
    have hkeep : SameOn m2 m5 (e + 8) (e + 16) :=
      ((hoff3.sameOn (Or.inl le_rfl)).trans (hoff4.sameOn (Or.inl (by omega)))).trans (hoff5.sameOn (Or.inl (by omega)))
    rw [readSegment_congr hkeep (by omega) (by omega), hm2, hread 1 0x9A (by norm_num)]
    rfl
  have h2 : readSegment m5 (e + 2 * 8) = flat 0 false := by
    have hkeep : SameOn m3 m5 (e + 16) (e + 24) := (hoff4.sameOn (Or.inl le_rfl)).trans (hoff5.sameOn (Or.inl (by omega)))
    rw [readSegment_congr hkeep (by omega) (by omega), hm3, hread 2 0x92 (by norm_num)]
    rfl
  have h3 : readSegment m5 (e + 3 * 8) = flat 3 true := by
    have hkeep : SameOn m4 m5 (e + 24) (e + 32) := hoff5.sameOn (Or.inl le_rfl)
    rw [readSegment_congr hkeep (by omega) (by omega), hm4, hread 3 0xFA (by norm_num)]
    rfl
  have h4 : readSegment m5 (e + 4 * 8) = flat 3 false := by
    rw [hm5, hread 4 0xF2 (by norm_num)]
    rfl
  rw [← hm0, ← he]
  refine ⟨m5, hrun, ?_, fun i hpos hi => ?_⟩
  · exact (hoff1.mono le_rfl (by omega)).trans ((hoff2.mono (by omega) (by omega)).trans ((hoff3.mono (by omega) (by omega)).trans
      ((hoff4.mono (by omega) (by omega)).trans (hoff5.mono (by omega) le_rfl))))
  · interval_cases i
    · rw [h1]
      rfl
    · rw [h2]
      rfl
    · rw [h3]
      rfl
    · rw [h4]
      rfl

theorem initIdt_spec (hl : l.Linked) (hservice : p.pics.master.Idle ∧ p.pics.slave.Idle) :
    ∃ m pics, initIdt l p = .ok (idtFlush l.idtPtr { p with mem := m, pics := pics }) ∧ Programmed pics ∧
      (pics.master.Idle ∧ pics.slave.Idle) ∧
      SameOff (store32 (store16 p.mem l.idtPtr 2047) (l.idtPtr+2) l.idtEntries) m l.idtEntries (l.idtEntries + 2048) ∧
      ∀ v < 256, gateAt m ⟨2047, l.idtEntries⟩ v = l.gate v := by
  obtain ⟨m0, hm0⟩ : ∃ m0, m0 = store32 (store16 p.mem l.idtPtr 2047) (l.idtPtr+2) l.idtEntries := ⟨_, rfl⟩
  obtain ⟨m1, hm1⟩ : ∃ m1, m1 = memset m0 l.idtEntries 0 2048 := ⟨_, rfl⟩
  have hoff1 : SameOff m0 m1 l.idtEntries (l.idtEntries + 2048) := hm1 ▸ sameOff_memset _ _ _ _
  have hzero : ∀ x, l.idtEntries ≤ x → x < l.idtEntries + 2048 → m1 x = 0 := by
    intro x hlow hhigh
    rw [hm1, memset_eq]
    exact if_pos ⟨hlow, hhigh⟩
  obtain ⟨pics, hremap, hprogrammed, hidle⟩ := remap_programs (p.withMem m1) hservice
  obtain ⟨hoff2, hgates⟩ := setGates_spec hl.stubs hzero
  have hrun : initIdt l p = .ok (idtFlush l.idtPtr { p with mem := setGates l m1, pics := pics }) := by
    have hbind : initIdt l p = remap.foldlM (fun p o => p.outb o.1 o.2) (p.withMem m1) >>= fun p =>
        .ok (idtFlush l.idtPtr (p.withMem (setGates l p.mem))) := by
      rw [hm1, hm0]
      rfl
    rw [hbind, hremap, ok_bind]
    rfl
  rw [← hm0]
  exact ⟨setGates l m1, pics, hrun, hprogrammed, hidle, hoff1.trans (hoff2.mono le_rfl (by omega)), hgates⟩

theorem segmentAt_table (hsegments : ∀ i, 0 < i → i < 5 → some (readSegment m (a + i * 8)) = kernelSegments i)
    (i rpl : ℕ) (hrpl : rpl < 4) : segmentAt m ⟨39, a⟩ (i * 8 + rpl) = kernelSegments i := by
  have hdiv : (i * 8 + rpl) / 8 = i := by omega
  have htable : (i * 8 + rpl).testBit 2 = false := by
    rw [Nat.testBit_eq_decide_div_mod_eq, decide_eq_false_iff_not]
    omega
  unfold segmentAt
  rw [hdiv, htable]
  dsimp only
  by_cases h0 : i = 0
  · rw [if_pos (Or.inl h0), h0]
    rfl
  · by_cases h5 : i < 5
    · rw [if_neg (by simp; omega), hsegments i (by omega) h5]
    · rw [if_pos (Or.inr (Or.inr (by omega)))]
      unfold kernelSegments
      split <;> first | rfl | omega

theorem gate_none (hv : 256 ≤ v) : l.gate v = none := by
  rw [Layout.gate, if_neg (by omega), if_neg (by omega)]

theorem descriptor_tables_returns (hl : l.Linked) (hservice : p.pics.master.Idle ∧ p.pics.slave.Idle) :
    ∃ p', initDescriptorTables l p = .ok p' ∧ Installed l p' ∧ (p'.pics.master.Idle ∧ p'.pics.slave.Idle) ∧
      ∀ x, (∀ r ∈ l.areas, x < r.1 ∨ r.1 + r.2 ≤ x) → p'.mem x = p.mem x := by
  have hbelow := hl.below
  have hapart := hl.apart
  simp only [Layout.areas, List.pairwise_cons, List.mem_cons, List.not_mem_nil, forall_eq_or_imp, Apart] at hapart
  obtain ⟨⟨hgg, hgi, hgp, hgh, -⟩, ⟨hpi, hpp, hph, -⟩, ⟨hip, hih, -⟩, ⟨hqh, -⟩, -⟩ := hapart
  -- the segments
  obtain ⟨m1, hrun1, hoff1, hsegments⟩ := initGdt_spec l p
  obtain ⟨m0, hm0⟩ : ∃ m0, m0 = store32 (store16 p.mem l.gdtPtr 39) (l.gdtPtr+2) l.gdtEntries := ⟨_, rfl⟩
  rw [← hm0] at hoff1
  have hoff0 : SameOff p.mem m0 l.gdtPtr (l.gdtPtr + 6) :=
    hm0 ▸ (sameOff_store16 le_rfl (by omega)).trans (sameOff_store32 (by omega) (by omega))
  have hptr0 : load16 m0 l.gdtPtr = 39 ∧ load32 m0 (l.gdtPtr+2) = l.gdtEntries := by
    rw [hm0, load16_store32_of_off (Or.inl le_rfl), load16_store16_self _ _ (by norm_num)]
    exact ⟨rfl, load32_store32_of_lt hbelow.1⟩
  have hkeep1 : SameOn m0 m1 l.gdtPtr (l.gdtPtr + 6) := hoff1.sameOn (by omega)
  have hgdtr : (initGdt l p).gdtr = ⟨39, l.gdtEntries⟩ := by
    rw [hrun1]
    show readTableRegister m1 l.gdtPtr = _
    rw [readTableRegister, sameOn_load16_eq hkeep1 le_rfl (by omega), hkeep1.load32_eq (by omega) (by omega), hptr0.1, hptr0.2]
  obtain ⟨p1, hp1⟩ : ∃ p1, p1 = initGdt l p := ⟨_, rfl⟩
  have hmem1 : p1.mem = m1 := by
    rw [hp1, hrun1]
    rfl
  have hpics1 : p1.pics = p.pics := by
    rw [hp1, hrun1]
    rfl
  rw [← hp1] at hgdtr
  -- the gates
  obtain ⟨m2, pics, hrun2, hprogrammed, hidle, hoff2, hgates⟩ := initIdt_spec (p := p1) hl (hpics1 ▸ hservice)
  obtain ⟨m0', hm0'⟩ : ∃ m0', m0' = store32 (store16 p1.mem l.idtPtr 2047) (l.idtPtr+2) l.idtEntries := ⟨_, rfl⟩
  rw [← hm0'] at hoff2
  have hoff0' : SameOff m1 m0' l.idtPtr (l.idtPtr + 6) :=
    hmem1 ▸ hm0' ▸ (sameOff_store16 le_rfl (by omega)).trans (sameOff_store32 (by omega) (by omega))
  have hptr0' : load16 m0' l.idtPtr = 2047 ∧ load32 m0' (l.idtPtr+2) = l.idtEntries := by
    rw [hm0', load16_store32_of_off (Or.inl le_rfl), load16_store16_self _ _ (by norm_num)]
    exact ⟨rfl, load32_store32_of_lt hbelow.2⟩
  have hkeep2 : SameOn m0' m2 l.idtPtr (l.idtPtr + 6) := hoff2.sameOn (by omega)
  have hidtr : readTableRegister m2 l.idtPtr = ⟨2047, l.idtEntries⟩ := by
    rw [readTableRegister, sameOn_load16_eq hkeep2 le_rfl (by omega), hkeep2.load32_eq (by omega) (by omega), hptr0'.1, hptr0'.2]
  -- the handlers
  obtain ⟨size, hsize⟩ : ∃ size, size = 1024 := ⟨_, rfl⟩
  obtain ⟨m3, hm3⟩ : ∃ m3, m3 = memset m2 l.interruptHandlers 0 size := ⟨_, rfl⟩
  have hoff3 : SameOff m2 m3 l.interruptHandlers (l.interruptHandlers + size) := hm3 ▸ sameOff_memset _ _ _ _
  obtain ⟨p', hp'⟩ : ∃ p' : Platform, p' = ⟨m3, pics, p1.gdtr, readTableRegister m2 l.idtPtr⟩ := ⟨_, rfl⟩
  have hrun : initDescriptorTables l p = .ok p' := by
    rw [initDescriptorTables, ← hp1, hrun2, ok_bind, hp', hm3, hsize]
    rfl
  rw [hgdtr, hidtr] at hp'
  refine ⟨p', hrun, ⟨?_, ?_, fun i rpl hrpl => ?_, fun v => ?_, fun n hn => ?_, ?_⟩, ?_, fun x hx => ?_⟩
  · rw [hp']
  · rw [hp']
  · rw [hp']
    refine segmentAt_table (fun i hpos hi => ?_) i rpl hrpl
    have hkeep : SameOn m1 m3 l.gdtEntries (l.gdtEntries + 40) :=
      ((hoff0'.sameOn (by omega)).trans (hoff2.sameOn (by omega))).trans (hoff3.sameOn (by omega))
    rw [readSegment_congr hkeep (by omega) (by omega)]
    exact hsegments i hpos hi
  · rw [hp']
    have hkeep : SameOn m2 m3 l.idtEntries (l.idtEntries + (2047 + 1)) := hoff3.sameOn (by omega)
    rw [gateAt_congr hkeep]
    by_cases hv : v < 256
    · exact hgates v hv
    · rw [gate_none (by omega), gateAt, if_pos (by dsimp only; omega)]
  · rw [hp', hm3]
    exact load32_memset_zero (by omega) (by omega)
  · rw [hp']
    exact hprogrammed
  · rw [hp']
    exact hidle
  · simp only [Layout.areas, List.mem_cons, List.not_mem_nil, or_false, forall_eq_or_imp, forall_eq] at hx
    obtain ⟨hx1, hx2, hx3, hx4, hx5⟩ := hx
    rw [hp']
    show m3 x = p.mem x
    rw [hoff3 x (hsize ▸ hx5), hoff2 x hx3, hoff0' x hx4, hoff1 x hx1, hoff0 x hx2]

/-- After `init_descriptor_tables` the processor finds the four segments of the whole memory and the gates of the 48
stubs, and no others; the controllers use the vectors behind those of the exceptions; and no handler is registered. -/
theorem descriptor_tables_installed (hl : l.Linked) (hservice : p.pics.master.Idle ∧ p.pics.slave.Idle) :
    ∃ p', initDescriptorTables l p = .ok p' ∧ Installed l p' ∧ (p'.pics.master.Idle ∧ p'.pics.slave.Idle) ∧
      ∀ x, (∀ r ∈ l.areas, x < r.1 ∨ r.1 + r.2 ≤ x) → p'.mem x = p.mem x :=
  descriptor_tables_returns hl hservice

/-- A link layout with the tables one behind the other. -/
def sampleLayout : Layout := ⟨0x1000, 0x1028, 0x1030, 0x1830, 0x1838, fun i => 0x100000 + 16 * i, fun i => 0x100200 + 16 * i⟩

theorem sampleLayout_linked : sampleLayout.Linked :=
  ⟨⟨by decide, by decide⟩, by decide, by
    simp only [Layout.areas, sampleLayout, List.pairwise_cons, List.mem_cons, List.not_mem_nil, forall_eq_or_imp, Apart]
    simp⟩

/-- A chip before it is initialised. -/
def coldChip : Chip := ⟨.ready, 0, 0, 0, fun _ => false, fun _ => false⟩

def coldPlatform : Platform := ⟨fun _ => 0, ⟨coldChip, coldChip⟩, ⟨0, 0⟩, ⟨0, 0⟩⟩

theorem descriptor_tables_installed_sample : ∃ p', initDescriptorTables sampleLayout coldPlatform = .ok p' ∧
    Installed sampleLayout p' ∧ (p'.pics.master.Idle ∧ p'.pics.slave.Idle) ∧
      ∀ x, (∀ r ∈ sampleLayout.areas, x < r.1 ∨ r.1 + r.2 ≤ x) → p'.mem x = coldPlatform.mem x :=
  descriptor_tables_installed sampleLayout_linked ⟨fun _ => rfl, fun _ => rfl⟩

end PandaOS.Interrupts

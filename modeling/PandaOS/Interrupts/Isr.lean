import PandaOS.Interrupts.DescriptorTables
import PandaOS.Interrupts.Transparency
import PandaOS.Library.Ps2
import PandaOS.Screen.Text

/-! `isr.c`: the table of handlers and the two functions that the stubs call, and `page_fault` of `paging.c`. A C function
is known by its address. From the vector that the processor takes, through its gate and the stub behind it, the
handler is found that was last registered for it. -/
namespace PandaOS.Interrupts
open ByteMemory Descriptors Pic8259 Ps2 WordStack
set_option autoImplicit false
set_option maxHeartbeats 250000

/-! ## The functions -/

structure Machine where
  platform : Platform
  monitor : Monitor
  keyboardFlags : BitVec 8
  keyboardPort : Port (BitVec 8)

/-- The C functions by address. -/
abbrev Functions := ℕ → Registers → Machine → Result Machine

/-- `interrupt_handlers[n]` -/
def handlerAt (l : Layout) (m : Mem) (n : ℕ) : ℕ := load32 m (l.interruptHandlers + 4 * n)

def registerInterruptHandler (l : Layout) (n : BitVec 8) (handler : BitVec 32) (m : Mem) : Mem :=
  store32 m (l.interruptHandlers + 4 * n.toNat) handler.toNat

def Machine.outb (port : ℕ) (value : BitVec 8) (s : Machine) : Result Machine := do
  let p ← s.platform.outb port value
  return { s with platform := p }

/-- What `isr_handler` writes where no handler is registered. -/
def unhandled (c c2 : ℕ → BitVec 8) (intNo : ℕ) (m : Monitor) : Result Monitor := do
  let m ← monitorWriteSys (ascii "unhandled interrupt: ") m
  let m ← monitorWriteDec monitorPut c c2 intNo m
  return monitorPut 0x0A m

def isrHandler (l : Layout) (code : Functions) (c c2 : ℕ → BitVec 8) (regs : Registers) (s : Machine) : Result Machine :=
  if handlerAt l s.platform.mem regs.intNo.toNat ≠ 0 then
    code (handlerAt l s.platform.mem regs.intNo.toNat) regs s
  else do
    let m ← unhandled c c2 regs.intNo.toNat s.monitor
    return { s with monitor := m }

/-- `irq_handler` after the end of interrupt. -/
def callHandler (l : Layout) (code : Functions) (regs : Registers) (s : Machine) : Result Machine :=
  if handlerAt l s.platform.mem regs.intNo.toNat ≠ 0 then
    code (handlerAt l s.platform.mem regs.intNo.toNat) regs s
  else .ok s

def irqHandler (l : Layout) (code : Functions) (regs : Registers) (s : Machine) : Result Machine := do
  let s ← (if regs.intNo.toNat ≥ 40 then s.outb 0xA0 0x20 else .ok s)
  let s ← s.outb 0x20 0x20
  callHandler l code regs s

/-- `page_fault`; the address is the one in cr2. -/
def pageFault (file : List (BitVec 8)) (line : ℕ) (c c2 : ℕ → BitVec 8) (faultingAddress : BitVec 32) (regs : Registers)
    (m : Monitor) : Result Monitor := do
  let m ← monitorWriteSys (ascii "Page fault! ( ") m
  let m ← .ok (monitorWriteHex monitorPut regs.errCode.toNat m)
  let m ← (if regs.errCode &&& 0x1 = 0 then monitorWriteSys (ascii " not present ") m else .ok m)
  let m ← (if regs.errCode &&& 0x2 ≠ 0 then monitorWriteSys (ascii "read-only ") m else .ok m)
  let m ← (if regs.errCode &&& 0x4 ≠ 0 then monitorWriteSys (ascii "user-mode ") m else .ok m)
  let m ← (if regs.errCode &&& 0x8 ≠ 0 then monitorWriteSys (ascii "reserved ") m else .ok m)
  let m ← monitorWriteSys (ascii ") at ") m
  let m ← .ok (monitorWriteHex monitorPut faultingAddress.toNat m)
  let m ← monitorWriteSys (ascii " - EIP: ") m
  let m ← .ok (monitorWriteHex monitorPut regs.eip.toNat m)
  let m ← monitorWriteSys (ascii "\n") m
  panic (ascii "Page fault") file c c2 line m

variable {l : Layout} {s s' : Machine} {m : Mem} {n v : ℕ} {p : Platform} {regs : Registers}

/-! ## Reports -/

def unhandledText (intNo : ℕ) : List (BitVec 8) := ascii "unhandled interrupt: " ++ (decText intNo ++ [0x0A])

theorem unhandled_printer (c c2 : ℕ → BitVec 8) (hn : n < 4294967296) : Printer (unhandled c c2 n) (unhandledText n) :=
  (monitorWriteSys_printer (zeroFree_ascii rfl)).bind <| (monitorWriteDec_printer c c2 hn).bind <| monitorPut_printer 0x0A

/-! ## The table of handlers -/

theorem handlerAt_register_self (l : Layout) (n : BitVec 8) (handler : BitVec 32) (m : Mem) :
    handlerAt l (registerInterruptHandler l n handler m) n.toNat = handler.toNat :=
  load32_store32_of_lt handler.isLt

theorem handlerAt_register_ne (l : Layout) {k : BitVec 8} (handler : BitVec 32) (m : Mem) (h : n ≠ k.toNat) :
    handlerAt l (registerInterruptHandler l k handler m) n = handlerAt l m n :=
  load32_store32_of_off (by omega)

theorem sameOff_register (l : Layout) (n : BitVec 8) (handler : BitVec 32) (m : Mem) :
    SameOff m (registerInterruptHandler l n handler m) l.interruptHandlers (l.interruptHandlers + 1024) := by
  have hn := n.isLt
  exact sameOff_store32 (by omega) (by omega)

/-- Calls of `register_interrupt_handler`, in order. -/
def registerAll (l : Layout) (rs : List (BitVec 8 × BitVec 32)) (m : Mem) : Mem :=
  rs.foldl (fun m r => registerInterruptHandler l r.1 r.2 m) m

/-- What the calls registered last for a vector. -/
def lastRegistered (rs : List (BitVec 8 × BitVec 32)) (n : ℕ) : Option (BitVec 32) :=
  (rs.reverse.find? fun r => r.1.toNat = n).map Prod.snd

theorem registerAll_spec (l : Layout) (rs : List (BitVec 8 × BitVec 32)) (m : Mem) :
    SameOff m (registerAll l rs m) l.interruptHandlers (l.interruptHandlers + 1024) ∧
      ∀ n, handlerAt l (registerAll l rs m) n = ((lastRegistered rs n).map BitVec.toNat).getD (handlerAt l m n) := by
  induction rs using List.reverseRecOn with
  | nil => exact ⟨SameOff.refl _ _ _, fun n => rfl⟩
  | append_singleton rs r ih =>
    obtain ⟨hoff, hat⟩ := ih
    have hlast : registerAll l (rs ++ [r]) m = registerInterruptHandler l r.1 r.2 (registerAll l rs m) := by
      rw [registerAll, List.foldl_append]
      rfl
    rw [hlast]
    refine ⟨hoff.trans (sameOff_register l r.1 r.2 _), fun n => ?_⟩
    unfold lastRegistered
    rw [List.reverse_append, List.reverse_singleton, List.singleton_append, List.find?_cons]
    by_cases hn : r.1.toNat = n
    · rw [decide_eq_true hn, ← hn]
      exact handlerAt_register_self l r.1 r.2 _
    · rw [decide_eq_false hn, handlerAt_register_ne l r.2 _ (Ne.symm hn), hat n]
      rfl

/-! ## From the vector to the handler -/

/-- The address of the stub of the vector. -/
def Layout.stubAddress (l : Layout) (v : ℕ) : ℕ := if v < 32 then l.isr v else l.irq (v - 32)

theorem gate_stub (hv : v < 48) : l.gate v = some ⟨l.stubAddress v, 0x08, true, 0, INTERRUPT_GATE⟩ := by
  unfold Layout.gate Layout.stubAddress
  by_cases h32 : v < 32
  · rw [if_pos h32, if_pos h32]
  · rw [if_neg h32, if_neg h32, if_pos hv]

/-- What lies at the argument of the C function, for all 48 stubs. -/
theorem seen_words (h : Handler) (hv : v < 48) (e : BitVec 32) (c : Cpu) :
    ∃ d, Holds (stateAt .call v e h c).mem (stateAt .call v e h c).top
      (saved d (execAll h (front v) (interrupt v e c)) ++ BitVec.ofNat 32 v :: ((if HasErrCodeStub v then [] else [0]) ++
        ((if PushesErrorCode v then [e] else []) ++ [c.eip, c.cs.setWidth 32, c.eflags]))) := by
  have hin := entered_front h hv e c
  have hlen : (BitVec.ofNat 32 v :: ((if HasErrCodeStub v then [] else [0]) ++
      ((if PushesErrorCode v then [e] else []) ++ [c.eip, c.cs.setWidth 32, c.eflags]))).length ≤ 7 := by
    split_ifs <;> simp
  obtain ⟨d, c', hseen, -⟩ := entered_iret h hin hlen
  rw [stateAt_call h hv]
  exact ⟨d, hseen⟩

/-- The handler sees the vector in `int_no`. -/
theorem seen_intNo (h : Handler) (hv : v < 48) (e : BitVec 32) (c : Cpu) :
    (seenRegisters (stateAt .call v e h c)).intNo.toNat = v := by
  obtain ⟨d, hseen⟩ := seen_words h hv e c
  have hword : (seenRegisters (stateAt .call v e h c)).intNo = BitVec.ofNat 32 v := hseen.get 9 (by simp [saved])
  rw [hword, BitVec.toNat_ofNat]
  omega

/-- What `irq_handler` sends before it calls the handler. -/
def endOfInterrupt (intNo : ℕ) : List (ℕ × BitVec 8) :=
  (if intNo ≥ 40 then [(0xA0, 0x20)] else []) ++ [(0x20, 0x20)]

/-- The controllers after that. -/
def ended (intNo : ℕ) (pics : Pair) : Pair :=
  ⟨pics.master.endOfInterrupt, if intNo ≥ 40 then pics.slave.endOfInterrupt else pics.slave⟩

def Machine.withPics (s : Machine) (pics : Pair) : Machine := { s with platform := { s.platform with pics := pics } }

theorem endOfInterrupt_run (n : ℕ) (s : Machine) :
    (endOfInterrupt n).foldlM (fun s o => s.outb o.1 o.2) s = .ok (s.withPics (ended n s.platform.pics)) := by
  unfold endOfInterrupt ended
  by_cases h : n ≥ 40
  · rw [if_pos h, if_pos h]
    rfl
  · rw [if_neg h, if_neg h]
    rfl

theorem irqHandler_eq (l : Layout) (code : Functions) (regs : Registers) (s : Machine) :
    irqHandler l code regs s =
      (endOfInterrupt regs.intNo.toNat).foldlM (fun s o => s.outb o.1 o.2) s >>= callHandler l code regs := by
  unfold irqHandler endOfInterrupt
  by_cases h : regs.intNo.toNat ≥ 40
  · rw [if_pos h, if_pos h]
    rfl
  · rw [if_neg h, if_neg h]
    rfl

/-- The function that is called for the vector, or 0. -/
def registered (rs : List (BitVec 8 × BitVec 32)) (v : ℕ) : ℕ := ((lastRegistered rs v).map BitVec.toNat).getD 0

/-- What an interrupt does, from its vector on. -/
structure Dispatched (l : Layout) (rs : List (BitVec 8 × BitVec 32)) (v : ℕ) (code : Functions) (c c2 : ℕ → BitVec 8)
    (regs : Registers) (s : Machine) : Prop where
  gate : gateAt s.platform.mem s.platform.idtr v = some ⟨l.stubAddress v, 0x08, true, 0, INTERRUPT_GATE⟩
  segment : segmentAt s.platform.mem s.platform.gdtr 0x08 = some (flat 0 true)
  intNo : regs.intNo.toNat = v
  exception : v < 32 → if registered rs v ≠ 0 then isrHandler l code c c2 regs s = code (registered rs v) regs s
    else ∃ m', isrHandler l code c c2 regs s = .ok { s with monitor := m' } ∧ Prints (unhandledText v) s.monitor m'
  request : 32 ≤ v → irqHandler l code regs s =
    if registered rs v ≠ 0 then code (registered rs v) regs (s.withPics (ended v s.platform.pics))
    else .ok (s.withPics (ended v s.platform.pics))

/-- Whatever was registered since `init_descriptor_tables`, an interrupt goes through the gate of its vector to the stub of
that vector, which calls the function registered last for it; without one an exception is reported on the screen. -/
theorem interrupt_dispatch (hl : l.Linked) (hinstalled : Installed l p) (rs : List (BitVec 8 × BitVec 32)) (hv : v < 48)
    (h : Handler) (e : BitVec 32) (cpu : Cpu) (code : Functions) (c c2 : ℕ → BitVec 8) (s : Machine) :
    Dispatched l rs v code c c2 (seenRegisters (stateAt .call v e h cpu))
      { s with platform := p.withMem (registerAll l rs p.mem) } := by
  have hint := seen_intNo h hv e cpu
  obtain ⟨regs, hregs⟩ : ∃ regs, regs = seenRegisters (stateAt .call v e h cpu) := ⟨_, rfl⟩
  obtain ⟨s, hs⟩ : ∃ x : Machine, x = { s with platform := p.withMem (registerAll l rs p.mem) } := ⟨_, rfl⟩
  rw [← hregs] at hint ⊢
  rw [← hs]
  obtain ⟨hoff, hat⟩ := registerAll_spec l rs p.mem
  have hmem : s.platform.mem = registerAll l rs p.mem := by rw [hs]; rfl
  have hregisters : s.platform.gdtr = p.gdtr ∧ s.platform.idtr = p.idtr := by rw [hs]; exact ⟨rfl, rfl⟩
  have hhandler : handlerAt l s.platform.mem v = registered rs v := by
    have hnull : handlerAt l p.mem v = 0 := hinstalled.handlers v (by omega)
    rw [hmem, hat v, hnull]
    rfl
  have hapart := hl.apart
  simp only [Layout.areas, List.pairwise_cons, List.mem_cons, List.not_mem_nil, forall_eq_or_imp, Apart] at hapart
  obtain ⟨⟨-, -, -, hgh, -⟩, -, ⟨-, hih, -⟩, -, -⟩ := hapart
  refine ⟨?_, ?_, hint, fun hlow => ?_, fun hhigh => ?_⟩
  · have hkeep : SameOn p.mem (registerAll l rs p.mem) p.idtr.base (p.idtr.base + (p.idtr.limit + 1)) := by
      rw [hinstalled.idtr]
      exact hoff.sameOn (by dsimp only; omega)
    rw [hmem, hregisters.2, gateAt_congr hkeep, hinstalled.gates v, gate_stub hv]
  · have hkeep : SameOn p.mem (registerAll l rs p.mem) p.gdtr.base (p.gdtr.base + (p.gdtr.limit + 1)) := by
      rw [hinstalled.gdtr]
      exact hoff.sameOn (by dsimp only; omega)
    rw [hmem, hregisters.1, segmentAt_congr hkeep]
    exact hinstalled.segments 1 0 (by norm_num)
  · unfold isrHandler
    rw [hint, hhandler]
    by_cases hzero : registered rs v ≠ 0
    · rw [if_pos hzero, if_pos hzero]
    · rw [if_neg hzero, if_neg hzero]
      obtain ⟨m', hrun, hprints⟩ := unhandled_printer c c2 (by omega : v < 4294967296) s.monitor
      refine ⟨m', ?_, hprints⟩
      rw [hrun]
      rfl
  · have hsame : handlerAt l (s.withPics (ended v s.platform.pics)).platform.mem v = registered rs v := hhandler
    rw [irqHandler_eq, hint, endOfInterrupt_run, ok_bind, callHandler, hint, hsame]

/-- The devices and the globals of the drivers when the kernel is loaded. -/
def loadedMachine : Machine := ⟨coldPlatform, loadedMonitor, 0, ⟨0, false, []⟩⟩

/-- The request of the keyboard, with a handler for it and one for page faults. -/
theorem interrupt_dispatch_keyboard : ∃ p, Installed sampleLayout p ∧
    Dispatched sampleLayout [(14, 0x101000), (33, 0x102000)] 33 (fun _ _ s => .ok s) (fun _ => 0) (fun _ => 0)
      (seenRegisters (stateAt .call 33 0 idleHandler blankCpu))
      { loadedMachine with platform := p.withMem (registerAll sampleLayout [(14, 0x101000), (33, 0x102000)] p.mem) } := by
  obtain ⟨p, -, hinstalled, -⟩ := descriptor_tables_returns sampleLayout_linked (p := coldPlatform) ⟨fun _ => rfl, fun _ => rfl⟩
  exact ⟨p, hinstalled, interrupt_dispatch sampleLayout_linked hinstalled [(14, 0x101000), (33, 0x102000)] (by norm_num)
    idleHandler 0 blankCpu (fun _ _ s => .ok s) (fun _ => 0) (fun _ => 0) loadedMachine⟩

end PandaOS.Interrupts

import PandaOS.Interrupts.Typing
import PandaOS.Kernel.Main

/-! The kernel after `kernel_main`, in the loop of `boot.s`: keys are typed, and an access that the tables refuse ends in
the report of `page_fault`. -/
namespace PandaOS
open ByteMemory Descriptors GuardedRun Interrupts PageWalk Pic8259 Ps2
set_option autoImplicit false
set_option maxHeartbeats 250000

/-- The functions at the two addresses that are registered. `file` and `line` are the place of the `PANIC`, `c` and `c2` what
`monitor_write_dec` finds in its arrays, and `cr2` is the register. -/
def KernelImage.functions (i : KernelImage) (file : List (BitVec 8)) (line : ℕ) (c c2 : ℕ → BitVec 8) (cr2 : BitVec 32) :
    Functions := fun address regs s =>
  if address = i.keyboardHandler.toNat then .ok s.keyboardHandler
  else if address = i.pageFault.toNat then do
    let m ← Interrupts.pageFault file line c c2 cr2 regs s.monitor
    return { s with monitor := m }
  else .error (.undefined "call of an address that is no function")

/-- What the linker makes of the two handlers. -/
structure KernelImage.HandlersLinked (i : KernelImage) : Prop where
  keyboard : i.keyboardHandler ≠ 0
  pageFault : i.pageFault ≠ 0
  apart : i.pageFault ≠ i.keyboardHandler

/-- The session that begins when `kernel_main` returns, with the codes that are in the port by then. -/
def Computer.session (c : Computer) (port : Port (BitVec 8)) : Session :=
  ⟨c.kernel.mem, c.gdtr, c.idtr, ⟨c.pics, true, [], [], fun i => (c.pics.pending i).toNat, fun _ => 0, fun _ => 0⟩, c.monitor, 0, port,
    none, port.unread⟩

def Computer.Waits (c : Computer) (s : Session) : Prop :=
  ∃ port, s = c.session port ∧ c.pics.pending keyboardLine = port.full ∧ AllApart port.unread

/-- The text of `kernel_main`, and behind it what the codes that were read typed; the other codes wait. -/
structure Types (files : List InputFile) (c : Computer) (s : Session) : Prop where
  screen : ∃ read, s.typed = read ++ s.keyboardPort.unread ∧
    OnScreen s.monitor (Terminal.empty.write (mainText (volumeOf files) ++ typedText read))
  requests : Open s.delivery
  tables : s.mem = c.kernel.mem ∧ s.gdtr = c.gdtr ∧ s.idtr = c.idtr

variable {i : KernelImage} {files : List InputFile} {last line v : ℕ} {c : Computer} {s : Session} {file : List (BitVec 8)}
  {d d2 : ℕ → BitVec 8} {cr2 : BitVec 32} {write user : Bool} {err : BitVec 32}

/-! ## Keys -/

theorem Running.keyboardOnly (h : Running i files last c) (hi : i.HandlersLinked) :
    KeyboardOnly i.layout (i.functions file line d d2 cr2) c.kernel.mem := by
  have hkeyboard : handlerAt i.layout c.kernel.mem 33 = i.keyboardHandler.toNat := h.handlers 33 (by norm_num)
  refine ⟨fun v hl hh hne => ?_, ?_, fun regs s => ?_⟩
  · rw [h.handlers v (by omega), KernelImage.handler, if_neg hne, if_neg (by omega)]
  · rw [hkeyboard]
    exact fun hzero => hi.keyboard (BitVec.eq_of_toNat_eq hzero)
  · rw [hkeyboard, KernelImage.functions, if_pos rfl]

theorem Running.start (h : Running i files last c) (hs : c.Waits s) :
    s.Start c.kernel.mem c.gdtr c.idtr (Terminal.empty.write (mainText (volumeOf files))) := by
  obtain ⟨port, rfl, hrequest, hapart⟩ := hs
  exact ⟨⟨h.controllers.1, h.controllers.2, ⟨rfl, rfl⟩, fun _ => ⟨rfl, rfl, rfl⟩⟩, rfl, ⟨rfl, rfl, rfl⟩, h.screen, rfl, rfl, hrequest,
    rfl, hapart⟩

theorem Running.reach (h : Running i files last c)
    (hreach : Reach c.Waits Session.Guard (Session.Step i.layout (i.functions file line d d2 cr2)) s) :
    Reach (Session.Start c.kernel.mem c.gdtr c.idtr (Terminal.empty.write (mainText (volumeOf files)))) Session.Guard
      (Session.Step i.layout (i.functions file line d d2 cr2)) s := by
  induction hreach with
  | start hs => exact .start (h.start hs)
  | next _ hguard hstep ih => exact ih.next hguard hstep

theorem Running.types (hrunning : Running i files last c) (hi : i.HandlersLinked)
    (h : Reach c.Waits Session.Guard (Session.Step i.layout (i.functions file line d d2 cr2)) s) : Types files c s := by
  obtain ⟨⟨read, htyped, hscreen⟩, hrequests, htables⟩ :=
    (reach_state (hrunning.keyboardOnly hi) (hrunning.reach h)).shows
  rw [← Terminal.write_append] at hscreen
  exact ⟨⟨read, htyped, hscreen⟩, hrequests, htables⟩

/-- In every order of key codes, requests of other devices, interrupts and returns of handlers the screen shows what was
typed, with nothing lost, doubled or moved. -/
theorem kernel_types (hrunning : Running i files last c) (hi : i.HandlersLinked)
    (h : Reach c.Waits Session.Guard (Session.Step i.layout (i.functions file line d d2 cr2)) s) : Types files c s :=
  hrunning.types hi h

/-- The low kernel with one file, when `kernel_main` has returned. -/
theorem running_hi : ∃ c, Running lowKernel [hiFile] 0x100000 c := by
  have hopen : ∀ f ∈ [hiFile], (fun _ : List UInt8 => some [0x68, 0x69]) f.path = some f.contents := by
    intro f hf
    rw [List.mem_singleton.mp hf]
    rfl
  obtain ⟨image, -, hlength, hat⟩ := createInitrd_spec (fun _ => some [0x68, 0x69]) [hiFile] (fun _ => 0)
    (by decide) hopen (by decide) (by decide)
  obtain ⟨c, -, hrunning⟩ := (loadedAt_coldComputer (hlength.trans_lt (by decide))).runs 0 (by norm_num : 0x300 < 0x301)
    (by decide) (by decide) (fun m => hat m 0x10000) hlength
  exact ⟨c, hrunning⟩

theorem lowKernel_handlers : lowKernel.HandlersLinked := ⟨by decide, by decide, by decide⟩

/-- The functions of the low kernel, with a file name for the reports. -/
def lowFunctions : Functions := lowKernel.functions (ascii "paging.c") 193 (fun _ => 0) (fun _ => 0) 0

/-- The key H goes down; a code that makes the left shift key go down may be in the port before. -/
theorem reach_key (c : Computer) : ∃ s, s.typed.getLast? = some 0x23 ∧
    Reach c.Waits Session.Guard (Session.Step lowKernel.layout lowFunctions) s := by
  obtain ⟨port, hport⟩ : ∃ port : Port (BitVec 8), port = ⟨0x2A, c.pics.pending keyboardLine, []⟩ := ⟨_, rfl⟩
  have hapart : ∀ held, ShiftsApart held 0x2A ∧ ShiftsApart held 0x23 :=
    fun held => ⟨⟨fun h => absurd h (by decide), fun h => absurd h (by decide)⟩,
      ⟨fun h => absurd h (by decide), fun h => absurd h (by decide)⟩⟩
  have hwaits : c.Waits (c.session port) := by
    refine ⟨port, rfl, by rw [hport], fun pre code post heq => ?_⟩
    have hmem : code ∈ port.unread := heq ▸ List.mem_append_right pre List.mem_cons_self
    have hcode : code = 0x2A := by
      rw [hport, Port.unread] at hmem
      dsimp only at hmem
      split at hmem
      · exact List.mem_singleton.mp hmem
      · cases hmem
    rw [hcode]
    exact (hapart _).1
  have hguard : (c.session port).Guard (.key 0x23) := (hapart _).2
  exact ⟨_, List.getLast?_concat, (Reach.start hwaits).next hguard .key⟩

theorem kernel_types_key : ∃ c s, Running lowKernel [hiFile] 0x100000 c ∧ s.typed.getLast? = some 0x23 ∧ Types [hiFile] c s := by
  obtain ⟨c, hrunning⟩ := running_hi
  obtain ⟨s, hlast, hreach⟩ := reach_key c
  exact ⟨c, s, hrunning, hlast, kernel_types hrunning lowKernel_handlers hreach⟩

/-- When nothing more is typed and no device makes requests, the kernel comes to rest with all that was typed on the screen. -/
theorem kernel_settles (hrunning : Running i files last c) (hi : i.HandlersLinked)
    (h : Reach c.Waits Session.Guard (Session.Step i.layout (i.functions file line d d2 cr2)) s) :
    (∀ run : ℕ → Session, run 0 = s → ¬ ∀ n, (run n).Works i.layout (i.functions file line d d2 cr2) (run (n + 1))) ∧
      ∀ s', Relation.ReflTransGen (Session.Works i.layout (i.functions file line d d2 cr2)) s s' →
        (∀ s'', ¬ s'.Works i.layout (i.functions file line d d2 cr2) s'') →
          s'.typed = s.typed ∧ s'.Rests (Terminal.empty.write (mainText (volumeOf files))) :=
  typing_settles (hrunning.keyboardOnly hi) (hrunning.reach h)

theorem kernel_settles_key : ∃ c s, Running lowKernel [hiFile] 0x100000 c ∧ s.typed.getLast? = some 0x23 ∧
    ∀ s', Relation.ReflTransGen (Session.Works lowKernel.layout lowFunctions) s s' →
      (∀ s'', ¬ s'.Works lowKernel.layout lowFunctions s'') →
        s'.typed = s.typed ∧ s'.Rests (Terminal.empty.write (mainText (volumeOf [hiFile]))) := by
  obtain ⟨c, hrunning⟩ := running_hi
  obtain ⟨s, hlast, hreach⟩ := reach_key c
  exact ⟨c, s, hrunning, hlast, (kernel_settles hrunning lowKernel_handlers hreach).2⟩

/-! ## Accesses -/

/-- The processor's access in this session. -/
def Computer.access (c : Computer) (s : Session) (v : ℕ) (write user : Bool) : Except (BitVec 32) ℕ :=
  PageWalk.access s.mem c.kernel.cr3 v write user

end PandaOS

import PandaOS.Drivers.Typing
import PandaOS.Interrupts.Delivery

/-! Keys typed while interrupts are on. The keyboard sends codes at any time, and the other devices make requests at any
time, also between the bytes of `irq_handler` and while a handler runs. Every code is read once, in the order in which
the codes were sent, and what it types is written. -/
namespace PandaOS.Interrupts
open ByteMemory Descriptors GuardedRun Pic8259 Ps2
set_option autoImplicit false
set_option maxHeartbeats 250000

/-- `keyboard_handler`; `inb(0x60)` reads the port. -/
def Machine.keyboardHandler (s : Machine) : Machine :=
  let (scanCode, port) := s.keyboardPort.read
  let k := PandaOS.keyboardHandler scanCode ⟨s.keyboardFlags, s.monitor⟩
  { s with monitor := k.monitor, keyboardFlags := k.keyboardFlags, keyboardPort := port }

/-! ## The machine -/

/-- `calls` holds the registers of an interrupt whose handler has still to be called; `typed` is not part of the machine:
all codes that the keyboard has sent. -/
structure Session where
  mem : Mem
  gdtr : TableRegister
  idtr : TableRegister
  delivery : Delivery
  monitor : Monitor
  keyboardFlags : BitVec 8
  keyboardPort : Port (BitVec 8)
  calls : Option Registers
  typed : List (BitVec 8)

def Session.machine (s : Session) : Machine :=
  ⟨⟨s.mem, s.delivery.pics, s.gdtr, s.idtr⟩, s.monitor, s.keyboardFlags, s.keyboardPort⟩

/-- The handler has returned. -/
def Session.returned (s : Session) (m : Machine) : Session :=
  { s with
    mem := m.platform.mem
    gdtr := m.platform.gdtr
    idtr := m.platform.idtr
    delivery := { s.delivery with pics := m.platform.pics }
    monitor := m.monitor
    keyboardFlags := m.keyboardFlags
    keyboardPort := m.keyboardPort
    calls := none }

/-- The line of the keyboard. -/
def keyboardLine : Line := .master ⟨1, Nat.succ_lt_succ (Nat.succ_pos 6)⟩

inductive Signal
  | key (code : BitVec 8)
  | load
  | raise (i : Line)
  | withdraw (i : Line)
  | interrupt
  | send
  | call
  | iret

/-- A code that enters the port makes the request of the keyboard. The other lines are requested and withdrawn at will.
An interrupt comes with the registers that its stub shows to `irq_handler`. -/
inductive Session.Step (l : Layout) (code : Functions) : Session → Signal → Session → Prop
  | key {s : Session} {c : BitVec 8} :
      Step l code s (.key c) { s with keyboardPort := s.keyboardPort.arrive c, typed := s.typed ++ [c] }
  | load {s : Session} {p : Port (BitVec 8)} : s.keyboardPort.load = some p →
      Step l code s .load { s with keyboardPort := p, delivery := s.delivery.raise keyboardLine }
  | raise {s : Session} {i : Line} : i ≠ keyboardLine →
      Step l code s (.raise i) { s with delivery := s.delivery.raise i }
  | withdraw {s : Session} {i : Line} : i ≠ keyboardLine →
      Step l code s (.withdraw i) { s with delivery := s.delivery.withdraw i }
  | interrupt {s : Session} {regs : Registers} : s.delivery.enabled = true → s.delivery.sends = [] →
      (∃ h e cpu, regs = seenRegisters (stateAt .call s.delivery.pics.acknowledge.1 e h cpu)) →
      Step l code s .interrupt { s with delivery := s.delivery.acknowledge, calls := some regs }
  | send {s : Session} {d : Delivery} : Happens s.delivery .send d → Step l code s .send { s with delivery := d }
  | call {s : Session} {regs : Registers} {m : Machine} : s.calls = some regs → s.delivery.sends = [] →
      callHandler l code regs s.machine = .ok m → Step l code s .call (s.returned m)
  | iret {s : Session} {d : Delivery} : s.calls = none → Happens s.delivery .iret d →
      Step l code s .iret { s with delivery := d }

/-- The codes come from a keyboard where a shift key goes up only while the other one is not down. -/
def Session.Guard (s : Session) : Signal → Prop
  | .key c => ShiftsApart (heldAfter s.typed) c
  | _ => True

/-- Of the vectors of the controllers only the keyboard's has a handler. -/
structure KeyboardOnly (l : Layout) (code : Functions) (m : Mem) : Prop where
  others : ∀ v, 32 ≤ v → v < 48 → v ≠ 33 → handlerAt l m v = 0
  keyboard : handlerAt l m 33 ≠ 0
  runs : ∀ regs s, code (handlerAt l m 33) regs s = .ok s.keyboardHandler

/-- Each code went to the keyboard with the shift keys apart. -/
def AllApart (codes : List (BitVec 8)) : Prop :=
  ∀ pre c post, codes = pre ++ c :: post → ShiftsApart (heldAfter pre) c

/-- The kernel waits, with this memory and this screen. Codes may be in the port already. -/
structure Session.Start (mem : Mem) (gdtr idtr : TableRegister) (t : Terminal) (s : Session) : Prop where
  delivery : s.delivery.Start
  enabled : s.delivery.enabled = true
  tables : s.mem = mem ∧ s.gdtr = gdtr ∧ s.idtr = idtr
  screen : OnScreen s.monitor t
  flags : s.keyboardFlags = 0
  calls : s.calls = none
  request : s.delivery.pics.pending keyboardLine = s.keyboardPort.full
  typed : s.typed = s.keyboardPort.unread ∧ AllApart s.typed

/-- The codes are those that were read and those that wait; the text of the read ones is on the screen; requests stay
open, and the memory is as before. -/
structure Session.Shows (mem : Mem) (gdtr idtr : TableRegister) (t : Terminal) (s : Session) : Prop where
  screen : ∃ read, s.typed = read ++ s.keyboardPort.unread ∧ OnScreen s.monitor (t.write (typedText read))
  requests : Open s.delivery
  tables : s.mem = mem ∧ s.gdtr = gdtr ∧ s.idtr = idtr

/-- The handler that is to be called is the keyboard's. -/
def Session.reading (s : Session) : Bool := s.calls.any fun regs => decide (regs.intNo.toNat = 33)

/-- The invariant of the runs. -/
structure SessionState (mem : Mem) (gdtr idtr : TableRegister) (t : Terminal) (s : Session) : Prop where
  delivery : DeliveryState s.delivery
  on : s.delivery.enabled = true → s.delivery.sends = [] ∧ s.calls = none ∧ s.delivery.running = []
  off : s.delivery.enabled = false → ∃ v, s.delivery.running = [v]
  vector : ∀ regs, s.calls = some regs → 32 ≤ regs.intNo.toNat ∧ regs.intNo.toNat < 48
  request : s.keyboardPort.full.toNat = (s.delivery.pics.pending keyboardLine).toNat + s.reading.toNat
  written : ∃ read, s.typed = read ++ s.keyboardPort.unread ∧ OnScreen s.monitor (t.write (typedText read)) ∧
    Tracks s.keyboardFlags (heldAfter read)
  apart : AllApart s.typed
  tables : s.mem = mem ∧ s.gdtr = gdtr ∧ s.idtr = idtr

variable {l : Layout} {code : Functions} {mem : Mem} {gdtr idtr : TableRegister} {t : Terminal} {s s' : Session}
  {e : Signal} {c : BitVec 8} {pics : Pair} {regs : Registers} {i : Line} {codes : List (BitVec 8)} {m : Machine}

/-! ## The parts -/

theorem AllApart.snoc (h : AllApart codes) (hc : ShiftsApart (heldAfter codes) c) : AllApart (codes ++ [c]) := by
  intro pre d post heq
  rcases List.eq_nil_or_concat post with rfl | ⟨post', x, rfl⟩
  · obtain ⟨rfl, hlast⟩ := List.append_inj' heq rfl
    cases hlast
    exact hc
  · have hsplit : codes ++ [c] = (pre ++ d :: post') ++ [x] := by
      rw [heq, List.concat_eq_append, List.append_assoc, List.cons_append]
    obtain ⟨heq', -⟩ := List.append_inj' hsplit rfl
    exact h pre d post' heq'

/-- The acknowledgement takes the request of the keyboard exactly when it answers with its vector. -/
theorem acknowledge_keyboard (h : Programmed pics) (hidle : pics.Idle) : (pics.pending keyboardLine).toNat =
    (pics.acknowledge.2.pending keyboardLine).toNat + (decide (pics.acknowledge.1 = 33)).toNat := by
  have hanswer := Pair.acknowledge_answer hidle h.mask h.wired
  have hvector : ∀ j, pics.vector j = 33 ↔ j = keyboardLine := by
    intro j
    cases j with
    | master j =>
      have hj := j.isLt
      rw [Pair.vector, h.base.1, keyboardLine, Line.master.injEq, Fin.ext_iff]
      show 0x20 + j.val = 33 ↔ j.val = 1
      omega
    | slave j =>
      rw [Pair.vector, h.base.2]
      refine iff_of_false (by omega) (fun heq => by cases heq)
  have hne : keyboardLine ≠ .master 2 := by decide
  revert hanswer
  generalize pics.acknowledge = a
  intro hanswer
  cases hanswer with
  | @served j p' hj hpending _ hrest =>
    rw [hrest keyboardLine hne]
    by_cases heq : j = keyboardLine
    · rw [decide_eq_true ((hvector j).mpr heq), heq, decide_eq_false (not_not.mpr rfl), Bool.and_false, ← heq, hpending]
      rfl
    · rw [decide_eq_false (fun hv => heq ((hvector j).mp hv)), decide_eq_true (Ne.symm heq), Bool.and_true]
      rfl
  | @gone p' _ _ hrest =>
    rw [hrest keyboardLine, decide_eq_true hne, Bool.and_true, decide_eq_false (fun hv => absurd ((hvector (.slave 7)).mp hv) (by decide))]
    rfl
  | nothing => rw [decide_eq_false (fun hv => absurd ((hvector _).mp hv) (by decide))]; rfl

/-! ## One step -/

theorem Session.Start.state (h : s.Start mem gdtr idtr t) : SessionState mem gdtr idtr t s := by
  refine ⟨h.delivery.state, fun _ => ⟨h.delivery.quiet.1, h.calls, h.delivery.quiet.2⟩, fun hoff => ?_, fun regs hregs => ?_,
    ?_, ⟨[], h.typed.1, h.screen, ?_⟩, h.typed.2, h.tables⟩
  · rw [h.enabled] at hoff
    cases hoff
  · rw [h.calls] at hregs
    cases hregs
  · rw [h.request, Session.reading, h.calls]
    rfl
  · rw [h.flags]
    exact tracks_start

theorem SessionState.reading_on (h : SessionState mem gdtr idtr t s) (hon : s.delivery.enabled = true) : s.reading = false := by
  rw [Session.reading, (h.on hon).2.1]
  rfl

theorem SessionState.key (h : SessionState mem gdtr idtr t s) (hc : ShiftsApart (heldAfter s.typed) c) :
    SessionState mem gdtr idtr t { s with keyboardPort := s.keyboardPort.arrive c, typed := s.typed ++ [c] } := by
  obtain ⟨read, htyped, hscreen, htracks⟩ := h.written
  refine ⟨h.delivery, h.on, h.off, h.vector, h.request, ⟨read, ?_, hscreen, htracks⟩, h.apart.snoc hc, h.tables⟩
  show s.typed ++ [c] = read ++ (s.keyboardPort.arrive c).unread
  rw [unread_arrive, htyped, List.append_assoc]

theorem SessionState.load {p : Port (BitVec 8)} (h : SessionState mem gdtr idtr t s) (hload : s.keyboardPort.load = some p) :
    SessionState mem gdtr idtr t { s with keyboardPort := p, delivery := s.delivery.raise keyboardLine } := by
  obtain ⟨read, htyped, hscreen, htracks⟩ := h.written
  refine ⟨h.delivery.raise keyboardLine, h.on, h.off, h.vector, ?_, ⟨read, ?_, hscreen, htracks⟩, h.apart, h.tables⟩
  · obtain ⟨hempty, c, cs, -, rfl⟩ := load_some hload
    have hrequest := h.request
    rw [hempty] at hrequest
    have hnone : s.reading.toNat = 0 := by
      simp only [Bool.toNat_false] at hrequest
      omega
    show (true : Bool).toNat = ((s.delivery.pics.setRequest keyboardLine true).pending keyboardLine).toNat + s.reading.toNat
    rw [pending_setRequest, if_pos rfl, hnone]
    rfl
  · show s.typed = read ++ p.unread
    rw [unread_load hload, htyped]

theorem SessionState.device {d : Delivery} (h : SessionState mem gdtr idtr t s) (hd : DeliveryState d)
    (hflag : d.enabled = s.delivery.enabled ∧ d.running = s.delivery.running) (hsends : s.delivery.enabled = true → d.sends = [])
    (hpending : d.pics.pending keyboardLine = s.delivery.pics.pending keyboardLine) :
    SessionState mem gdtr idtr t { s with delivery := d } := by
  refine ⟨hd, fun hon => ?_, fun hoff => ?_, h.vector, ?_, h.written, h.apart, h.tables⟩
  · have hon' : s.delivery.enabled = true := hflag.1.symm.trans hon
    obtain ⟨-, hcalls, hrunning⟩ := h.on hon'
    exact ⟨hsends hon', hcalls, hflag.2.trans hrunning⟩
  · rw [hflag.2]
    exact h.off (hflag.1.symm.trans hoff)
  · show s.keyboardPort.full.toNat = (d.pics.pending keyboardLine).toNat + s.reading.toNat
    rw [hpending]
    exact h.request

theorem SessionState.interrupt {hd : Handler} {err : BitVec 32} {cpu : Cpu} (h : SessionState mem gdtr idtr t s)
    (hon : s.delivery.enabled = true) (hregs : regs = seenRegisters (stateAt .call s.delivery.pics.acknowledge.1 err hd cpu)) :
    SessionState mem gdtr idtr t { s with delivery := s.delivery.acknowledge, calls := some regs } := by
  obtain ⟨hsends, -, hrunning⟩ := h.on hon
  have hidle := h.delivery.law.idle hsends
  have hvector := answer_vector h.delivery.programmed (h.delivery.law.answer hsends)
  have hint : regs.intNo.toNat = s.delivery.pics.acknowledge.1 := by
    rw [hregs]
    exact seen_intNo hd (by omega) err cpu
  refine ⟨h.delivery.acknowledge hsends, fun hon' => ?_, fun _ => ⟨s.delivery.pics.acknowledge.1, ?_⟩, fun regs' hregs' => ?_, ?_,
    h.written, h.apart, h.tables⟩
  · cases hon'
  · show s.delivery.pics.acknowledge.1 :: s.delivery.running = _
    rw [hrunning]
  · cases hregs'
    rw [hint]
    exact hvector
  · have hrequest := h.request
    rw [h.reading_on hon, acknowledge_keyboard h.delivery.programmed hidle] at hrequest
    show s.keyboardPort.full.toNat =
      (s.delivery.pics.acknowledge.2.pending keyboardLine).toNat + (decide (regs.intNo.toNat = 33)).toNat
    rw [hint, hrequest]
    rfl

/-- The handler of the keyboard reads the code that made the request, and writes its text. -/
theorem SessionState.read (h : SessionState mem gdtr idtr t s) (hreading : s.reading = true) :
    SessionState mem gdtr idtr t (s.returned s.machine.keyboardHandler) := by
  obtain ⟨read, htyped, hscreen, htracks⟩ := h.written
  have hrequest := h.request
  rw [hreading] at hrequest
  have hfull : s.keyboardPort.full = true := by
    cases hf : s.keyboardPort.full with
    | true => rfl
    | false =>
      rw [hf] at hrequest
      simp only [Bool.toNat_false, Bool.toNat_true] at hrequest
      omega
  have hnone : (s.delivery.pics.pending keyboardLine).toNat = 0 := by
    rw [hfull] at hrequest
    simp only [Bool.toNat_true] at hrequest
    omega
  rw [unread_read hfull] at htyped
  obtain ⟨htracks', hprints⟩ := keyboardHandler_types (k := ⟨s.keyboardFlags, s.monitor⟩) htracks (h.apart read _ _ htyped)
  refine ⟨h.delivery, fun hon => ?_, h.off, (fun regs hregs => by cases hregs), ?_,
    ⟨read ++ [s.keyboardPort.read.1], ?_, ?_, ?_⟩, h.apart, h.tables⟩
  · rw [h.reading_on hon] at hreading
    cases hreading
  · show (false : Bool).toNat = (s.delivery.pics.pending keyboardLine).toNat + (false : Bool).toNat
    rw [hnone]
    rfl
  · show s.typed = (read ++ [s.keyboardPort.read.1]) ++ s.keyboardPort.read.2.unread
    rw [htyped, List.append_assoc, List.singleton_append]
  · rw [typedText_snoc, Terminal.write_append]
    exact (hprints.shown _ hscreen).1
  · rw [heldAfter_snoc]
    exact htracks'

/-- The handler that is called is the keyboard's, or there is none. -/
theorem SessionState.called (h : SessionState mem gdtr idtr t s) (hcode : KeyboardOnly l code mem) (hcalls : s.calls = some regs)
    (hrun : callHandler l code regs s.machine = .ok m) :
    (s.reading = true ∧ m = s.machine.keyboardHandler) ∨ (s.reading = false ∧ m = s.machine) := by
  have hmem : s.machine.platform.mem = mem := h.tables.1
  have hreading : s.reading = decide (regs.intNo.toNat = 33) := by
    rw [Session.reading, hcalls]
    rfl
  rw [callHandler, hmem] at hrun
  by_cases hkeyboard : regs.intNo.toNat = 33
  · rw [hkeyboard, if_pos hcode.keyboard, hcode.runs] at hrun
    cases hrun
    exact Or.inl ⟨hreading.trans (decide_eq_true hkeyboard), rfl⟩
  · obtain ⟨hlow, hhigh⟩ := h.vector regs hcalls
    rw [hcode.others _ hlow hhigh hkeyboard, if_neg (not_not.mpr rfl)] at hrun
    cases hrun
    exact Or.inr ⟨hreading.trans (decide_eq_false hkeyboard), rfl⟩

theorem SessionState.call (h : SessionState mem gdtr idtr t s) (hcode : KeyboardOnly l code mem) (hcalls : s.calls = some regs)
    (hrun : callHandler l code regs s.machine = .ok m) : SessionState mem gdtr idtr t (s.returned m) := by
  rcases h.called hcode hcalls hrun with ⟨hreading, rfl⟩ | ⟨hreading, rfl⟩
  · exact h.read hreading
  · refine ⟨h.delivery, fun hon => ⟨(h.on hon).1, rfl, (h.on hon).2.2⟩, h.off, (fun regs hregs => by cases hregs), ?_, h.written,
      h.apart, h.tables⟩
    have hrequest := h.request
    rw [hreading] at hrequest
    exact hrequest

theorem SessionState.step (h : SessionState mem gdtr idtr t s) (hcode : KeyboardOnly l code mem) (hguard : s.Guard e)
    (hstep : s.Step l code e s') : SessionState mem gdtr idtr t s' := by
  cases hstep with
  | key => exact h.key hguard
  | load hload => exact h.load hload
  | raise hi =>
    refine h.device (h.delivery.raise _) ⟨rfl, rfl⟩ (fun hon => (h.on hon).1) ?_
    exact (pending_setRequest _ _ _ _).trans (if_neg (Ne.symm hi))
  | withdraw hi =>
    refine h.device (h.delivery.withdraw _) ⟨rfl, rfl⟩ (fun hon => (h.on hon).1) ?_
    exact (pending_setRequest _ _ _ _).trans (if_neg (Ne.symm hi))
  | interrupt hon _ hregs =>
    obtain ⟨hd, err, cpu, hregs⟩ := hregs
    exact h.interrupt hon hregs
  | send hsend =>
    have hd := h.delivery.step hsend
    cases hsend with
    | send hsends hout =>
      have hending := h.delivery.ending
      rw [hsends] at hending
      obtain ⟨pics', hout', -, -, hpending⟩ := hending.send
      rw [hout] at hout'
      cases hout'
      refine h.device hd ⟨rfl, rfl⟩ (fun hon => ?_) (hpending keyboardLine)
      rw [(h.on hon).1] at hsends
      cases hsends
  | call hcalls _ hrun => exact h.call hcode hcalls hrun
  | iret hcalls hiret =>
    have hd := h.delivery.step hiret
    cases hiret with
    | @iret v running hsends hrunning =>
      have hrest : running = [] := by
        cases hon : s.delivery.enabled with
        | true =>
          rw [(h.on hon).2.2] at hrunning
          cases hrunning
        | false =>
          obtain ⟨w, hw⟩ := h.off hon
          rw [hw] at hrunning
          cases hrunning
          rfl
      exact ⟨hd, fun _ => ⟨hsends, hcalls, hrest⟩, (fun hoff => by cases hoff), h.vector, h.request, h.written, h.apart, h.tables⟩

theorem SessionState.shows (h : SessionState mem gdtr idtr t s) : s.Shows mem gdtr idtr t := by
  obtain ⟨read, htyped, hscreen, -⟩ := h.written
  exact ⟨⟨read, htyped, hscreen⟩, h.delivery.law, h.tables⟩

theorem reach_state (hcode : KeyboardOnly l code mem)
    (h : Reach (Session.Start mem gdtr idtr t) Session.Guard (Session.Step l code) s) : SessionState mem gdtr idtr t s :=
  h.invariant (fun _ hs => hs.state) fun _ _ _ hs hguard hstep => hs.step hcode hguard hstep

/-- Whatever the devices do and whenever the handlers run, the screen shows what the codes that were read type, in the order
in which the keyboard sent them, and the other codes wait. -/
theorem typing_shown (hcode : KeyboardOnly l code mem)
    (h : Reach (Session.Start mem gdtr idtr t) Session.Guard (Session.Step l code) s) : s.Shows mem gdtr idtr t :=
  (reach_state hcode h).shows

/-! ## Rest -/

/-- The steps of the kernel and of the port, with interrupts that were requested. -/
def Signal.Quiet (s : Session) : Signal → Prop
  | .load | .send | .call | .iret => True
  | .interrupt => ∃ i, s.delivery.pics.pending i = true
  | _ => False

def Session.Works (l : Layout) (code : Functions) (s s' : Session) : Prop := ∃ e : Signal, e.Quiet s ∧ s.Step l code e s'

/-- What is left to do. -/
def Session.work (s : Session) : ℕ :=
  10*s.keyboardPort.waiting.length + 5*s.delivery.left + (s.delivery.sends.length + s.calls.isSome.toNat +
    s.delivery.running.length)

/-- Nothing is left. -/
structure Session.Rests (t : Terminal) (s : Session) : Prop where
  screen : OnScreen s.monitor (t.write (typedText s.typed))
  unread : s.keyboardPort.unread = []
  pending : ∀ i, s.delivery.pics.pending i = false
  enabled : s.delivery.enabled = true

theorem left_raise (d : Delivery) (i : Line) : (d.raise i).left ≤ d.left + 1 := by
  unfold Delivery.left
  refine (Finset.card_le_card (t := insert i (Finset.univ.filter fun j => d.pics.pending j = true)) fun j hj => ?_).trans
    (Finset.card_insert_le _ _)
  have hpending : (d.pics.setRequest i true).pending j = true := (Finset.mem_filter.mp hj).2
  rw [pending_setRequest] at hpending
  by_cases hji : j = i
  · exact Finset.mem_insert.mpr (Or.inl hji)
  · rw [if_neg hji] at hpending
    exact Finset.mem_insert_of_mem (Finset.mem_filter.mpr ⟨Finset.mem_univ j, hpending⟩)

theorem SessionState.work_lt (h : SessionState mem gdtr idtr t s) (hcode : KeyboardOnly l code mem) (hworks : s.Works l code s') :
    s'.work < s.work := by
  obtain ⟨e, hquiet, hstep⟩ := hworks
  cases hstep with
  | key => exact hquiet.elim
  | raise hi => exact hquiet.elim
  | withdraw hi => exact hquiet.elim
  | @load p hload =>
    obtain ⟨-, c, cs, hwaiting, rfl⟩ := load_some hload
    have hleft := left_raise s.delivery keyboardLine
    show 10*cs.length + 5*(s.delivery.raise keyboardLine).left + (s.delivery.sends.length + s.calls.isSome.toNat +
      s.delivery.running.length) < s.work
    rw [Session.work, hwaiting, List.length_cons]
    omega
  | interrupt hon hsends hregs =>
    obtain ⟨i, hi⟩ := hquiet
    have hfewer := h.delivery.left_acknowledge hsends hi
    have hlength : (endOfInterrupt s.delivery.pics.acknowledge.1).length ≤ 2 := by
      unfold endOfInterrupt
      split_ifs <;> simp
    obtain ⟨-, hcalls, hrunning⟩ := h.on hon
    show 10*s.keyboardPort.waiting.length + 5*s.delivery.acknowledge.left +
      ((endOfInterrupt s.delivery.pics.acknowledge.1).length + 1 + (s.delivery.running.length + 1)) < s.work
    rw [Session.work, hsends, hcalls, hrunning]
    simp only [List.length_nil]
    omega
  | send hsend =>
    have hending := h.delivery.ending
    cases hsend with
    | @send o sends pics hsends hout =>
      rw [hsends] at hending
      obtain ⟨pics', hout', -, -, hpending⟩ := hending.send
      rw [hout] at hout'
      cases hout'
      have hleft : Delivery.left { s.delivery with pics := pics, sends := sends } = s.delivery.left := by
        unfold Delivery.left
        simp only [hpending]
      show 10*s.keyboardPort.waiting.length + 5*Delivery.left { s.delivery with pics := pics, sends := sends } +
        (sends.length + s.calls.isSome.toNat + s.delivery.running.length) < s.work
      rw [hleft, Session.work, hsends, List.length_cons]
      omega
  | @call regs m hcalls _ hrun =>
    have hleaves : m.keyboardPort.waiting = s.keyboardPort.waiting ∧ m.platform.pics = s.delivery.pics := by
      rcases h.called hcode hcalls hrun with ⟨-, rfl⟩ | ⟨-, rfl⟩ <;> exact ⟨rfl, rfl⟩
    obtain ⟨hwaiting, hpics⟩ := hleaves
    have hleft : Delivery.left { s.delivery with pics := m.platform.pics } = s.delivery.left := by rw [hpics]
    show 10*m.keyboardPort.waiting.length + 5*Delivery.left { s.delivery with pics := m.platform.pics } +
      (s.delivery.sends.length + 0 + s.delivery.running.length) < s.work
    rw [hleft, hwaiting, Session.work, hcalls]
    show _ < 10*s.keyboardPort.waiting.length + 5*s.delivery.left +
      (s.delivery.sends.length + 1 + s.delivery.running.length)
    omega
  | iret hcalls hiret =>
    cases hiret with
    | @iret v running hsends hrunning =>
      show 10*s.keyboardPort.waiting.length + 5*s.delivery.left +
        (s.delivery.sends.length + s.calls.isSome.toNat + running.length) < s.work
      rw [Session.work, hrunning, List.length_cons]
      omega

/-- A state where nothing can be done has nothing left to do. -/
theorem SessionState.works_or_rests (h : SessionState mem gdtr idtr t s) (hcode : KeyboardOnly l code mem) :
    (∃ s', s.Works l code s') ∨ s.Rests t := by
  cases hsends : s.delivery.sends with
  | cons o sends =>
    have hending := h.delivery.ending
    rw [hsends] at hending
    obtain ⟨pics, hout, -⟩ := hending.send
    exact Or.inl ⟨_, .send, trivial, .send (.send hsends hout)⟩
  | nil =>
    cases hcalls : s.calls with
    | some regs =>
      obtain ⟨m, hrun⟩ : ∃ m, callHandler l code regs s.machine = .ok m := by
        have hmem : s.machine.platform.mem = mem := h.tables.1
        obtain ⟨hlow, hhigh⟩ := h.vector regs hcalls
        rw [callHandler, hmem]
        by_cases hkeyboard : regs.intNo.toNat = 33
        · rw [hkeyboard, if_pos hcode.keyboard, hcode.runs]
          exact ⟨_, rfl⟩
        · rw [hcode.others _ hlow hhigh hkeyboard, if_neg (not_not.mpr rfl)]
          exact ⟨_, rfl⟩
      exact Or.inl ⟨_, .call, trivial, .call hcalls hsends hrun⟩
    | none =>
      cases hon : s.delivery.enabled with
      | false =>
        obtain ⟨v, hrunning⟩ := h.off hon
        exact Or.inl ⟨_, .iret, trivial, .iret hcalls (.iret hsends hrunning)⟩
      | true =>
        by_cases hpending : ∃ i, s.delivery.pics.pending i = true
        · exact Or.inl ⟨_, .interrupt, hpending,
            .interrupt hon hsends ⟨idleHandler, 0, blankCpu, rfl⟩⟩
        · simp only [not_exists, Bool.not_eq_true] at hpending
          have hempty : s.keyboardPort.full = false := by
            have hrequest := h.request
            rw [hpending, h.reading_on hon] at hrequest
            cases hf : s.keyboardPort.full with
            | false => rfl
            | true =>
              rw [hf] at hrequest
              cases hrequest
          by_cases hwaiting : s.keyboardPort.waiting = []
          · obtain ⟨read, htyped, hscreen, -⟩ := h.written
            have hunread : s.keyboardPort.unread = [] := by rw [Port.unread, hempty, hwaiting]; rfl
            rw [hunread, List.append_nil] at htyped
            exact Or.inr ⟨htyped ▸ hscreen, hunread, hpending, hon⟩
          · obtain ⟨p, hload⟩ := load_of_waiting hempty hwaiting
            exact Or.inl ⟨_, .load, trivial, .load hload⟩

theorem Session.Works.guard {s : Session} (h : e.Quiet s) : s.Guard e := by
  cases e with
  | key => exact h.elim
  | _ => trivial

theorem Session.Works.typed (h : s.Works l code s') : s'.typed = s.typed := by
  obtain ⟨e, hquiet, hstep⟩ := h
  cases hstep with
  | key => exact hquiet.elim
  | _ => rfl

/-- When no more codes and requests come, the kernel comes to rest, in whatever order the steps that are left are taken, and
then all that was typed is on the screen. -/
theorem typing_settles (hcode : KeyboardOnly l code mem)
    (h : Reach (Session.Start mem gdtr idtr t) Session.Guard (Session.Step l code) s) :
    (∀ run : ℕ → Session, run 0 = s → ¬ ∀ n, (run n).Works l code (run (n + 1))) ∧
      ∀ s', Relation.ReflTransGen (Session.Works l code) s s' → (∀ s'', ¬ s'.Works l code s'') → s'.typed = s.typed ∧ s'.Rests t := by
  refine ⟨fun run hstart hworks => ?_, fun s' hrun hend => ?_⟩
  · -- the work left would go down without end
    have hstate : ∀ n, SessionState mem gdtr idtr t (run n) := by
      intro n
      induction n with
      | zero =>
        rw [hstart]
        exact reach_state hcode h
      | succ n ih =>
        obtain ⟨e, hquiet, hstep⟩ := hworks n
        exact ih.step hcode (Session.Works.guard hquiet) hstep
    have hless : ∀ n, (run n).work + n ≤ (run 0).work := by
      intro n
      induction n with
      | zero => exact le_rfl
      | succ n ih =>
        have hlt := (hstate n).work_lt hcode (hworks n)
        omega
    have hlast := hless ((run 0).work + 1)
    omega
  · have hboth : SessionState mem gdtr idtr t s' ∧ s'.typed = s.typed := by
      clear hend
      induction hrun with
      | refl => exact ⟨reach_state hcode h, rfl⟩
      | tail _ hworks ih =>
        obtain ⟨hstate, htyped⟩ := ih
        refine ⟨?_, hworks.typed.trans htyped⟩
        obtain ⟨e, hquiet, hstep⟩ := hworks
        exact hstate.step hcode (Session.Works.guard hquiet) hstep
    refine ⟨hboth.2, ?_⟩
    rcases hboth.1.works_or_rests hcode with ⟨s'', hworks⟩ | hrests
    · exact absurd hworks (hend s'')
    · exact hrests

end PandaOS.Interrupts

import PandaOS.Interrupts.Isr
import PandaOS.Library.GuardedRun

/-! Requests of the devices on their way to the handlers. Devices raise and withdraw requests at any time, also while
`irq_handler` sends its bytes; handlers may switch interrupts on and be interrupted in turn. Because the end of
interrupt is sent before the handler is called, no request ever waits for one that is being handled. -/
namespace PandaOS.Interrupts
open GuardedRun Pic8259
set_option autoImplicit false
set_option maxHeartbeats 250000

/-- The controllers, the interrupt flag, the bytes that `irq_handler` has still to send, and the vectors of the
interrupts being handled, the newest first. The counters are not part of the machine: how often a request of a line
was latched, was answered, and was withdrawn before. -/
structure Delivery where
  pics : Pair
  enabled : Bool
  sends : List (ℕ × BitVec 8)
  running : List ℕ
  latched : Line → ℕ
  served : Line → ℕ
  dropped : Line → ℕ

inductive Event
  | raise (i : Line)
  | withdraw (i : Line)
  | acknowledge
  | send
  | setFlag (b : Bool)
  | iret

def Delivery.raise (s : Delivery) (i : Line) : Delivery :=
  { s with
    pics := s.pics.setRequest i true
    latched := if s.pics.pending i then s.latched else Function.update s.latched i (s.latched i + 1) }

def Delivery.withdraw (s : Delivery) (i : Line) : Delivery :=
  { s with
    pics := s.pics.setRequest i false
    dropped := if s.pics.pending i then Function.update s.dropped i (s.dropped i + 1) else s.dropped }

/-- The processor takes the interrupt, and the stub calls `irq_handler`. -/
def Delivery.acknowledge (s : Delivery) : Delivery :=
  { s with
    pics := s.pics.acknowledge.2
    enabled := false
    sends := endOfInterrupt s.pics.acknowledge.1
    running := s.pics.acknowledge.1 :: s.running
    served := fun i => s.served i + (s.pics.pending i && !s.pics.acknowledge.2.pending i).toNat }

/-- While bytes are to be sent the interrupt flag is off, and only devices act. The flags that `iret` puts back had
interrupts on. -/
inductive Happens : Delivery → Event → Delivery → Prop
  | raise {s : Delivery} {i : Line} : Happens s (.raise i) (s.raise i)
  | withdraw {s : Delivery} {i : Line} : Happens s (.withdraw i) (s.withdraw i)
  | acknowledge {s : Delivery} : s.enabled = true → s.sends = [] → Happens s .acknowledge s.acknowledge
  | send {s : Delivery} {o : ℕ × BitVec 8} {sends : List (ℕ × BitVec 8)} {pics : Pair} : s.sends = o :: sends →
      s.pics.out o.1 o.2 = some pics → Happens s .send { s with pics := pics, sends := sends }
  | setFlag {s : Delivery} {b : Bool} : s.sends = [] → Happens s (.setFlag b) { s with enabled := b }
  | iret {s : Delivery} {v : ℕ} {running : List ℕ} : s.sends = [] → s.running = v :: running →
      Happens s .iret { s with enabled := true, running := running }

/-- After `init_descriptor_tables`, before interrupts are switched on. -/
structure Delivery.Start (s : Delivery) : Prop where
  programmed : Programmed s.pics
  idle : s.pics.Idle
  quiet : s.sends = [] ∧ s.running = []
  counted : ∀ i, s.latched i = (s.pics.pending i).toNat ∧ s.served i = 0 ∧ s.dropped i = 0

/-- Whatever is being handled, the controllers have nothing in service, so a pending request is offered to the processor,
the one of highest priority first; each latched request is answered once, or withdrawn before; and the bytes that
`irq_handler` sends are those that end the interrupt. -/
structure Open (s : Delivery) : Prop where
  idle : s.sends = [] → s.pics.Idle
  offered : s.sends = [] → (∃ i, s.pics.pending i = true) → s.pics.line ≠ none
  answer : s.sends = [] → Answer 2 s.pics s.pics.acknowledge
  vectors : ∀ v ∈ s.running, 32 ≤ v ∧ v < 48
  counted : ∀ i, s.latched i = s.served i + s.dropped i + (s.pics.pending i).toNat
  sends : ∀ o rest, s.sends = o :: rest → ∃ pics, s.pics.out o.1 o.2 = some pics

/-- What is in service while the bytes are sent. -/
inductive Ending (pics : Pair) : List (ℕ × BitVec 8) → Prop
  | done : pics.Idle → Ending pics []
  | master : pics.master.Single → pics.slave.Idle → Ending pics [(0x20, 0x20)]
  | both : pics.master.Single → pics.slave.Single → Ending pics [(0xA0, 0x20), (0x20, 0x20)]

/-- The invariant of the runs. -/
structure DeliveryState (s : Delivery) : Prop where
  programmed : Programmed s.pics
  ending : Ending s.pics s.sends
  vectors : ∀ v ∈ s.running, 32 ≤ v ∧ v < 48
  counted : ∀ i, s.latched i = s.served i + s.dropped i + (s.pics.pending i).toNat

variable {s s' : Delivery} {e : Event} {pics pics' : Pair} {sends : List (ℕ × BitVec 8)} {i : Line} {b : Bool}

/-! ## The controllers -/

theorem Programmed.wired (h : Programmed pics) : pics.Wired 2 := by
  intro i
  unfold Pair.cascaded
  rw [h.cascade.1, h.cascade.2]
  revert i
  decide

theorem Programmed.congr (h : Programmed pics) (hmaster : SameSetup pics.master pics'.master)
    (hslave : SameSetup pics.slave pics'.slave) : Programmed pics' := by
  refine ⟨⟨?_, ?_⟩, ⟨?_, ?_⟩, ⟨?_, ?_⟩, ?_, ?_⟩
  · exact hmaster.phase.trans h.ready.1
  · exact hslave.phase.trans h.ready.2
  · exact hmaster.base.trans h.base.1
  · exact hslave.base.trans h.base.2
  · exact hmaster.mask.trans h.mask.1
  · exact hslave.mask.trans h.mask.2
  · exact hmaster.cascade.trans h.cascade.1
  · exact hslave.cascade.trans h.cascade.2

theorem Programmed.vector (h : Programmed pics) (i : Line) : 32 ≤ pics.vector i ∧ pics.vector i < 48 ∧
    (pics.vector i < 40 ↔ ∃ j, i = .master j) := by
  cases i with
  | master j =>
    have hj := j.isLt
    have hv : pics.vector (.master j) = 0x20 + j.val := by rw [Pair.vector, h.base.1]
    refine ⟨by omega, by omega, fun _ => ⟨j, rfl⟩, fun _ => by omega⟩
  | slave j =>
    have hv : pics.vector (.slave j) = 0x28 + j.val := by rw [Pair.vector, h.base.2]
    refine ⟨by omega, by omega, fun hlt => by omega, fun ⟨j', hj'⟩ => by cases hj'⟩

theorem answer_vector {a : ℕ × Pair} (h : Programmed pics) (ha : Answer 2 pics a) : 32 ≤ a.1 ∧ a.1 < 48 := by
  cases ha with
  | served => exact ⟨(h.vector _).1, (h.vector _).2.1⟩
  | gone => exact ⟨(h.vector (.slave 7)).1, (h.vector (.slave 7)).2.1⟩
  | nothing => exact ⟨(h.vector (.master 7)).1, (h.vector (.master 7)).2.1⟩

/-! ## One event -/

theorem Ending.setRequest (h : Ending pics sends) (i : Line) (b : Bool) : Ending (pics.setRequest i b) sends := by
  cases i with
  | master i =>
    cases h with
    | done h => exact .done ⟨h.1, h.2⟩
    | master hm hs => exact .master hm hs
    | both hm hs => exact .both hm hs
  | slave i =>
    cases h with
    | done h => exact .done ⟨h.1, h.2⟩
    | master hm hs => exact .master hm hs
    | both hm hs => exact .both hm hs

theorem Programmed.setRequest (h : Programmed pics) (i : Line) (b : Bool) : Programmed (pics.setRequest i b) := by
  cases i with
  | master i => exact ⟨h.ready, h.base, h.mask, h.cascade⟩
  | slave i => exact ⟨h.ready, h.base, h.mask, h.cascade⟩

theorem Ending.idle (h : Ending pics []) : pics.Idle := by
  cases h with
  | done h => exact h

/-- A byte that `irq_handler` sends. -/
theorem Ending.send {o : ℕ × BitVec 8} (h : Ending pics (o :: sends)) :
    ∃ pics', pics.out o.1 o.2 = some pics' ∧ Ending pics' sends ∧ (Programmed pics → Programmed pics') ∧
      ∀ i, pics'.pending i = pics.pending i := by
  cases h with
  | master hm hs =>
    obtain ⟨hphase, hbase, hmask, hcascade, hrequest⟩ := pics.master.endOfInterrupt_same
    refine ⟨⟨pics.master.endOfInterrupt, pics.slave⟩, rfl, .done ⟨hm.endOfInterrupt, hs⟩, fun hp => ?_, fun i => ?_⟩
    · exact hp.congr ⟨hphase, hbase, hmask, hcascade⟩ (SameSetup.refl _)
    · cases i with
      | master i => exact congrFun hrequest i
      | slave i => rfl
  | both hm hs =>
    obtain ⟨hphase, hbase, hmask, hcascade, hrequest⟩ := pics.slave.endOfInterrupt_same
    refine ⟨⟨pics.master, pics.slave.endOfInterrupt⟩, rfl, .master hm hs.endOfInterrupt, fun hp => ?_, fun i => ?_⟩
    · exact hp.congr (SameSetup.refl _) ⟨hphase, hbase, hmask, hcascade⟩
    · cases i with
      | master i => rfl
      | slave i => exact congrFun hrequest i

/-- What the acknowledgement puts in service is ended by the bytes for its vector. -/
theorem ending_acknowledge (h : Programmed pics) (hidle : pics.Idle) :
    Ending pics.acknowledge.2 (endOfInterrupt pics.acknowledge.1) := by
  obtain ⟨hmaster, hslave, -, -⟩ := Pair.acknowledge_single hidle
  unfold endOfInterrupt
  by_cases hv : pics.acknowledge.1 ≥ 40
  · rw [if_pos hv]
    exact .both hmaster hslave
  · rw [if_neg hv]
    have hsame := Pair.acknowledge_master (by rw [h.base.2]; omega : pics.acknowledge.1 < pics.slave.base)
    exact .master hmaster (by rw [hsame]; exact hidle.2)

/-- No request is lost by an acknowledgement: what it takes away is counted as answered. -/
theorem pending_acknowledge (pics : Pair) (i : Line) :
    (pics.pending i).toNat =
      (pics.pending i && !pics.acknowledge.2.pending i).toNat + (pics.acknowledge.2.pending i).toNat := by
  have hle := Pair.acknowledge_pending pics i
  revert hle
  cases pics.pending i <;> cases pics.acknowledge.2.pending i <;> simp

theorem DeliveryState.raise (h : DeliveryState s) (i : Line) : DeliveryState (s.raise i) := by
  refine ⟨h.programmed.setRequest i true, h.ending.setRequest i true, h.vectors, fun j => ?_⟩
  have hcounted := h.counted j
  show (if s.pics.pending i then s.latched else Function.update s.latched i (s.latched i + 1)) j =
    s.served j + s.dropped j + ((s.pics.setRequest i true).pending j).toNat
  rw [pending_setRequest]
  by_cases hj : j = i
  · subst hj
    rw [if_pos rfl]
    cases hp : s.pics.pending j with
    | true =>
      rw [if_pos rfl, hcounted, hp]
    | false =>
      rw [if_neg Bool.false_ne_true, Function.update_self, hcounted, hp]
      rfl
  · rw [if_neg hj, ← hcounted]
    split_ifs
    · rfl
    · rw [Function.update_of_ne hj]

theorem DeliveryState.withdraw (h : DeliveryState s) (i : Line) : DeliveryState (s.withdraw i) := by
  refine ⟨h.programmed.setRequest i false, h.ending.setRequest i false, h.vectors, fun j => ?_⟩
  have hcounted := h.counted j
  show s.latched j = s.served j + (if s.pics.pending i then Function.update s.dropped i (s.dropped i + 1) else s.dropped) j +
    ((s.pics.setRequest i false).pending j).toNat
  rw [pending_setRequest]
  by_cases hj : j = i
  · subst hj
    rw [if_pos rfl]
    cases hp : s.pics.pending j with
    | true =>
      rw [if_pos rfl, Function.update_self, hcounted, hp]
      rfl
    | false =>
      rw [if_neg Bool.false_ne_true, hcounted, hp]
  · rw [if_neg hj, hcounted]
    split_ifs
    · rw [Function.update_of_ne hj]
    · rfl

theorem DeliveryState.acknowledge (h : DeliveryState s) (hsends : s.sends = []) : DeliveryState s.acknowledge := by
  have hending := h.ending
  rw [hsends] at hending
  have hidle := hending.idle
  obtain ⟨-, -, hmaster, hslave⟩ := Pair.acknowledge_single hidle
  refine ⟨h.programmed.congr hmaster hslave, ending_acknowledge h.programmed hidle, fun v hv => ?_, fun i => ?_⟩
  · rcases List.mem_cons.mp hv with rfl | hv
    · exact answer_vector h.programmed (Pair.acknowledge_answer hidle h.programmed.mask h.programmed.wired)
    · exact h.vectors v hv
  · have hcounted := h.counted i
    have hpending := pending_acknowledge s.pics i
    show s.latched i = s.served i + (s.pics.pending i && !s.pics.acknowledge.2.pending i).toNat + s.dropped i +
      (s.pics.acknowledge.2.pending i).toNat
    omega

theorem DeliveryState.step (h : DeliveryState s) (hstep : Happens s e s') : DeliveryState s' := by
  cases hstep with
  | raise => exact h.raise _
  | withdraw => exact h.withdraw _
  | acknowledge _ hsends => exact h.acknowledge hsends
  | send hsends hout =>
    have hending := h.ending
    rw [hsends] at hending
    obtain ⟨pics', hout', hending', hprogrammed, hpending⟩ := hending.send
    rw [hout] at hout'
    cases hout'
    refine ⟨hprogrammed h.programmed, hending', h.vectors, fun i => ?_⟩
    show s.latched i = s.served i + s.dropped i + (_ : Bool).toNat
    rw [hpending i]
    exact h.counted i
  | setFlag hsends => exact ⟨h.programmed, h.ending, h.vectors, h.counted⟩
  | iret hsends hrunning =>
    refine ⟨h.programmed, h.ending, fun v hv => h.vectors v ?_, h.counted⟩
    rw [hrunning]
    exact List.mem_cons_of_mem _ hv

/-! ## The law -/

theorem DeliveryState.law (h : DeliveryState s) : Open s := by
  have hidle : s.sends = [] → s.pics.Idle := by
    intro hsends
    have hending := h.ending
    rw [hsends] at hending
    exact hending.idle
  refine ⟨hidle, fun hsends hpending => ?_, fun hsends => ?_, h.vectors, h.counted, fun o rest hsends => ?_⟩
  · obtain ⟨i, hi⟩ := hpending
    exact Pair.line_of_pending (hidle hsends) h.programmed.mask h.programmed.wired hi
  · exact Pair.acknowledge_answer (hidle hsends) h.programmed.mask h.programmed.wired
  · have hending := h.ending
    rw [hsends] at hending
    obtain ⟨pics', hout, -⟩ := hending.send
    exact ⟨pics', hout⟩

theorem Delivery.Start.state (h : s.Start) : DeliveryState s := by
  refine ⟨h.programmed, ?_, ?_, fun i => ?_⟩
  · rw [h.quiet.1]
    exact .done h.idle
  · rw [h.quiet.2]
    exact fun v hv => absurd hv List.not_mem_nil
  · obtain ⟨hlatched, hserved, hdropped⟩ := h.counted i
    rw [hlatched, hserved, hdropped, Nat.zero_add]

/-- In every order of requests, interrupts, returns and changes of the interrupt flag. -/
theorem requests_open (h : Reach Delivery.Start (fun _ _ => True) Happens s) : Open s :=
  (h.invariant (fun _ hs => hs.state) fun _ _ _ hs _ hstep => hs.step hstep).law

/-- The controllers as the kernel programs them, with no request. -/
def quietPair : Pair :=
  ⟨⟨.ready, 0x20, 0, 0x04, fun _ => false, fun _ => false⟩, ⟨.ready, 0x28, 0, 0x02, fun _ => false, fun _ => false⟩⟩

def quietDelivery : Delivery := ⟨quietPair, false, [], [], fun _ => 0, fun _ => 0, fun _ => 0⟩

theorem quietDelivery_start : quietDelivery.Start :=
  ⟨⟨⟨rfl, rfl⟩, ⟨rfl, rfl⟩, ⟨rfl, rfl⟩, ⟨rfl, rfl⟩⟩, ⟨fun _ => rfl, fun _ => rfl⟩, ⟨rfl, rfl⟩, fun i => by
    cases i <;> exact ⟨rfl, rfl, rfl⟩⟩

/-- A key was pressed, and the processor has taken the interrupt. -/
theorem requests_open_keyboard : ∃ s, s.running = [33] ∧ Reach Delivery.Start (fun _ _ => True) Happens s ∧ Open s := by
  obtain ⟨s, hs⟩ : ∃ s, s = ({ quietDelivery.raise (.master 1) with enabled := true } : Delivery).acknowledge := ⟨_, rfl⟩
  have hreach : Reach Delivery.Start (fun _ _ => True) Happens s := by
    have hraise := (Reach.start quietDelivery_start : Reach Delivery.Start (fun _ _ => True) Happens quietDelivery).next
      trivial (Happens.raise (i := .master 1))
    rw [hs]
    exact (hraise.next trivial (.setFlag (b := true) rfl)).next trivial (.acknowledge rfl rfl)
  refine ⟨s, ?_, hreach, requests_open hreach⟩
  rw [hs]
  decide

/-! ## Draining -/

/-- What the processor and `irq_handler` do, without the devices. -/
def Handles (s s' : Delivery) : Prop :=
  Happens s .acknowledge s' ∨ Happens s .send s' ∨ Happens s .iret s'

/-- The requests that are left. -/
def Delivery.left (s : Delivery) : ℕ := (Finset.univ.filter fun i => s.pics.pending i = true).card

/-- Interrupts are on and none is being entered. -/
structure Delivery.Ready (s : Delivery) : Prop where
  state : DeliveryState s
  enabled : s.enabled = true
  sends : s.sends = []

/-- The same but for requests that were answered. -/
structure Handled (s s' : Delivery) : Prop where
  run : Relation.ReflTransGen Handles s s'
  running : s'.running = s.running
  counters : s'.latched = s.latched ∧ s'.dropped = s.dropped

theorem Handled.refl (s : Delivery) : Handled s s := ⟨.refl, rfl, rfl, rfl⟩

theorem Handled.trans {s'' : Delivery} (h : Handled s s') (h' : Handled s' s'') : Handled s s'' :=
  ⟨h.run.trans h'.run, h'.running.trans h.running, h'.counters.1.trans h.counters.1, h'.counters.2.trans h.counters.2⟩

/-- The bytes are sent one after the other. -/
theorem sends_run (h : DeliveryState s) : ∃ s', Relation.ReflTransGen Handles s s' ∧ DeliveryState s' ∧ s'.sends = [] ∧
    s'.running = s.running ∧ (s'.latched = s.latched ∧ s'.dropped = s.dropped) ∧
      ∀ i, s'.pics.pending i = s.pics.pending i := by
  obtain ⟨sends, hsends⟩ : ∃ sends, sends = s.sends := ⟨_, rfl⟩
  induction sends generalizing s with
  | nil => exact ⟨s, .refl, h, hsends.symm, rfl, ⟨rfl, rfl⟩, fun _ => rfl⟩
  | cons o sends ih =>
    have hending := h.ending
    rw [← hsends] at hending
    obtain ⟨pics', hout, -, -, hpending⟩ := hending.send
    have hstep : Happens s .send { s with pics := pics', sends := sends } := .send hsends.symm hout
    obtain ⟨s', hrun, hstate, hend, hrunning, hcounters, hsame⟩ := ih (h.step hstep) rfl
    exact ⟨s', .head (Or.inr (Or.inl hstep)) hrun, hstate, hend, hrunning, hcounters, fun i => (hsame i).trans (hpending i)⟩

/-- An interrupt that was requested takes a request away. -/
theorem DeliveryState.left_acknowledge (h : DeliveryState s) (hsends : s.sends = []) (hi : s.pics.pending i = true) :
    s.acknowledge.left < s.left := by
  obtain ⟨j, hj, hgone⟩ := (h.law.answer hsends).fewer hi
  refine Finset.card_lt_card ⟨fun k hk => ?_, fun hsub => ?_⟩
  · exact Finset.mem_filter.mpr ⟨Finset.mem_univ k, Pair.acknowledge_pending _ _ (Finset.mem_filter.mp hk).2⟩
  · have hmem := (Finset.mem_filter.mp (hsub (Finset.mem_filter.mpr ⟨Finset.mem_univ j, hj⟩))).2
    exact Bool.false_ne_true (hgone.symm.trans hmem)

/-- One interrupt from its acknowledgement to the return of its handler. -/
theorem Delivery.Ready.round (h : s.Ready) (hi : s.pics.pending i = true) :
    ∃ s', Handled s s' ∧ s'.Ready ∧ s'.left < s.left := by
  have hack : Happens s .acknowledge s.acknowledge := .acknowledge h.enabled h.sends
  obtain ⟨s1, hrun, hstate, hsends, hrunning, hcounters, hsame⟩ := sends_run (h.state.step hack)
  have hiret : Happens s1 .iret { s1 with enabled := true, running := s.running } := .iret hsends hrunning
  have hfirst : Handles s s.acknowledge := Or.inl hack
  have hlast : Handles s1 { s1 with enabled := true, running := s.running } := Or.inr (Or.inr hiret)
  refine ⟨{ s1 with enabled := true, running := s.running }, ⟨(hrun.head hfirst).tail hlast, rfl, hcounters⟩,
    ⟨hstate.step hiret, rfl, hsends⟩, ?_⟩
  have hleft : Delivery.left { s1 with enabled := true, running := s.running } = s.acknowledge.left := by
    unfold Delivery.left
    simp only [hsame]
  rw [hleft]
  exact h.state.left_acknowledge h.sends hi

theorem Delivery.Ready.drain (h : s.Ready) : ∃ s', Handled s s' ∧ s'.Ready ∧ ∀ i, s'.pics.pending i = false := by
  induction hn : s.left using Nat.strong_induction_on generalizing s with
  | _ n ih =>
    by_cases hnone : ∀ i, s.pics.pending i = false
    · exact ⟨s, Handled.refl s, h, hnone⟩
    · simp only [not_forall, Bool.not_eq_false] at hnone
      obtain ⟨i, hi⟩ := hnone
      obtain ⟨s1, hround, hready, hless⟩ := h.round hi
      obtain ⟨s', hrest, hready', hdone⟩ := ih s1.left (hn ▸ hless) hready rfl
      exact ⟨s', hround.trans hrest, hready', hdone⟩

/-- From every reachable state with interrupts on, interrupts that return lead to one without requests, where every request
that was pending has been answered once. -/
theorem requests_drain (h : Reach Delivery.Start (fun _ _ => True) Happens s) (henabled : s.enabled = true)
    (hsends : s.sends = []) :
    ∃ s', Handled s s' ∧ ∀ i, s'.pics.pending i = false ∧ s'.served i = s.served i + (s.pics.pending i).toNat := by
  have hstate := h.invariant (fun _ hs => hs.state) fun _ _ _ hs _ hstep => hs.step hstep
  obtain ⟨s', hhandled, hready, hdone⟩ := Delivery.Ready.drain ⟨hstate, henabled, hsends⟩
  refine ⟨s', hhandled, fun i => ⟨hdone i, ?_⟩⟩
  have hcounted := hstate.counted i
  have hcounted' := hready.state.counted i
  rw [hdone i, hhandled.counters.1, hhandled.counters.2] at hcounted'
  simp only [Bool.toNat_false] at hcounted'
  omega

theorem requests_drain_two : ∃ s s' : Delivery, (s.pics.pending (.master 1) = true ∧ s.pics.pending (.slave 6) = true) ∧
    Handled s s' ∧ ∀ i, s'.pics.pending i = false ∧ s'.served i = s.served i + (s.pics.pending i).toNat := by
  obtain ⟨s, hs⟩ : ∃ s : Delivery, s = { (quietDelivery.raise (.master 1)).raise (.slave 6) with enabled := true } := ⟨_, rfl⟩
  have hreach : Reach Delivery.Start (fun _ _ => True) Happens s := by
    have hraise := (Reach.start quietDelivery_start : Reach Delivery.Start (fun _ _ => True) Happens quietDelivery).next
      trivial (Happens.raise (i := .master 1))
    rw [hs]
    exact (hraise.next trivial (.raise (i := .slave 6))).next trivial (.setFlag (b := true) rfl)
  obtain ⟨s', hdrain⟩ := requests_drain hreach (by rw [hs]) (by rw [hs]; rfl)
  exact ⟨s, s', by rw [hs]; decide, hdrain⟩

end PandaOS.Interrupts

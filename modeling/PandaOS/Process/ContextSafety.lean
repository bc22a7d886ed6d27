import PandaOS.Process.Switching

/-! Every jump of `switch_task` loads the context of the task it makes current, in runs where no tick
arrives in the middle of a switch. -/
namespace PandaOS
open GuardedRun LinkedList
set_option autoImplicit false
set_option maxHeartbeats 250000

variable {here p eip fuel directory : ℕ} {s s' : Cpu} {c d : Call} {cs : List Call} {next : Statement}
  {regs : Registers} {r : ℤ} {tasking : Tasking}

/-! ## Before the first store -/

/-- Statements that only touch the locals. -/
theorem Cpu.Safe.locals (h : s.Safe here) (hcurrent : s.tasking.currentTask = s.running)
    (hc : c.Calm here (s.tasking.tasks s.running).eip) (hcalm : ∀ d ∈ cs, d.Calm here (s.tasking.tasks s.running).eip)
    (hnext : c.next = .nullCheck ∨ c.next = .oneCheck ∨ c.next = .readEsp ∨ c.next = .readEbp ∨ c.next = .readEip ∨
      c.next = .dummyCheck) : (execute here c cs s).Safe here := by
  rcases hnext with hnext | hnext | hnext | hnext | hnext | hnext
  · simp only [execute, hnext]
    refine h.goto_calm hcurrent ?_ hcalm
    split <;> exact trivial
  · simp only [execute, hnext]
    refine h.goto_calm hcurrent ?_ hcalm
    split <;> exact trivial
  · simp only [execute, hnext]
    exact h.goto_calm hcurrent rfl hcalm
  · simp only [Call.Calm, hnext] at hc
    simp only [execute, hnext]
    exact h.goto_calm hcurrent ⟨hc, rfl⟩ hcalm
  · simp only [Call.Calm, hnext] at hc
    simp only [execute, hnext]
    exact h.goto_calm hcurrent (.inr ⟨hc.1, hc.2, rfl⟩) hcalm
  · simp only [Call.Calm, hnext] at hc
    simp only [execute, hnext]
    refine h.goto_calm hcurrent ?_ hcalm
    split
    · exact trivial
    · next hne =>
      rcases hc with hdummy | hread
      · exact absurd hdummy hne
      · exact ⟨hread.esp, hread.ebp, hread.eip⟩

theorem update_running (f : Task → Task) (hcurrent : s.tasking.currentTask = s.running) :
    (s.tasking.update s.tasking.currentTask f).tasks s.running = f (s.tasking.tasks s.running) := by
  rw [hcurrent, Tasking.update_self]

theorem update_other (f : Task → Task) (hcurrent : s.tasking.currentTask = s.running) {t : ℕ} (ht : t ≠ s.running) :
    (s.tasking.update s.tasking.currentTask f).tasks t = s.tasking.tasks t :=
  Tasking.update_of_ne (hcurrent ▸ ht)

theorem Call.Calm.of_saved {eip eip' : ℕ} (h : c.Calm here eip) (heip : eip' = here) : c.Calm here eip' := by
  unfold Call.Calm at h ⊢
  cases hnext : c.next <;> rw [hnext] at h
  case saveEsp => exact ⟨h.1, heip⟩
  all_goals exact h

theorem Cpu.Safe.saveEip (h : s.Safe here) (hcurrent : s.tasking.currentTask = s.running)
    (hc : c.Calm here (s.tasking.tasks s.running).eip) (hcalm : ∀ d ∈ cs, d.Calm here (s.tasking.tasks s.running).eip)
    (hnext : c.next = .saveEip) : (execute here c cs s).Safe here := by
  simp only [Call.Calm, hnext] at hc
  simp only [execute, hnext]
  have hslot := update_running (fun t => { t with eip := c.eip }) hcurrent
  have heip : ((PandaOS.saveEip c.eip s.tasking).tasks s.running).eip = here := by
    exact (congrArg Task.eip hslot).trans hc.eip
  refine h.within (sameQueue_saveEip _ _) (fun t ht => update_other (fun t => { t with eip := c.eip }) hcurrent ht)
    (.calm hcurrent ?_)
  intro d hd
  rcases List.mem_cons.mp hd with rfl | hd
  · exact ⟨⟨hc.esp, hc.ebp, hc.eip⟩, heip⟩
  · exact (hcalm d hd).of_saved heip

theorem Cpu.Safe.saveEsp (h : s.Safe here) (hcurrent : s.tasking.currentTask = s.running)
    (hc : c.Calm here (s.tasking.tasks s.running).eip) (hcalm : ∀ d ∈ cs, d.Calm here (s.tasking.tasks s.running).eip)
    (hnext : c.next = .saveEsp) : (execute here c cs s).Safe here := by
  simp only [Call.Calm, hnext] at hc
  obtain ⟨hread, heip⟩ := hc
  simp only [execute, hnext]
  have hslot := update_running (fun t => { t with esp := c.esp }) hcurrent
  have heip' : ((PandaOS.saveEsp c.esp s.tasking).tasks s.running).eip = here := by
    exact (congrArg Task.eip hslot).trans heip
  refine h.within (sameQueue_saveEsp _ _) (fun t ht => update_other (fun t => { t with esp := c.esp }) hcurrent ht)
    (.saving rfl ?_ ?_)
  · refine ⟨hcurrent, hread.ebp, ?_, heip'⟩
    exact (congrArg Task.esp hslot).trans hread.esp
  · exact fun d hd => (hcalm d hd).of_saved heip'

/-- A call returns to the code below it. -/
theorem Cpu.Safe.leave (h : s.Safe here) (hcurrent : s.tasking.currentTask = s.running)
    (hcalm : ∀ d ∈ cs, d.Calm here (s.tasking.tasks s.running).eip) (hnext : c.next = .leave) :
    (execute here c cs s).Safe here := by
  simp only [execute, hnext]
  exact h.within (SameQueue.refl _) (fun _ _ => rfl) (.calm hcurrent hcalm)

theorem Cpu.Safe.execute_calm (h : s.Safe here) (hcurrent : s.tasking.currentTask = s.running)
    (hc : c.Calm here (s.tasking.tasks s.running).eip) (hcalm : ∀ d ∈ cs, d.Calm here (s.tasking.tasks s.running).eip) :
    (execute here c cs s).Safe here := by
  cases hnext : c.next
  case saveEip => exact h.saveEip hcurrent hc hcalm hnext
  case saveEsp => exact h.saveEsp hcurrent hc hcalm hnext
  case leave => exact h.leave hcurrent hcalm hnext
  case saveEbp | advance | wrap | loadEip | loadEsp | loadEbp | takeDirectory | jump =>
    simp only [Call.Calm, hnext] at hc
  all_goals exact h.locals hcurrent hc hcalm (by simp only [hnext, true_or, or_true])

/-! ## From the first store to the jump -/

theorem Cpu.Safe.saveEbp (h : s.Safe here) (hc : c.Saving here s)
    (hcalm : ∀ d ∈ cs, d.Calm here (s.tasking.tasks s.running).eip) (hnext : c.next = .saveEbp) :
    (execute here c cs s).Safe here := by
  simp only [Call.Saving, hnext] at hc
  obtain ⟨hcurrent, hebp, hesp, heip⟩ := hc
  simp only [execute, hnext]
  have hslot := update_running (fun t => { t with ebp := c.ebp }) hcurrent
  have hholds : (s.tell (PandaOS.saveEbp c.ebp s.tasking)).Holds here c := by
    exact ⟨(congrArg Task.esp hslot).trans hesp, (congrArg Task.ebp hslot).trans hebp, (congrArg Task.eip hslot).trans heip⟩
  refine h.within (sameQueue_saveEbp _ _) (fun t ht => update_other (fun t => { t with ebp := c.ebp }) hcurrent ht)
    (.saving rfl ?_ ?_)
  · exact ⟨hcurrent, hholds.esp, hholds.ebp, hholds.eip⟩
  · exact fun d hd => (hcalm d hd).of_saved hholds.eip

theorem Cpu.Safe.advance (h : s.Safe here) (hc : c.Saving here s)
    (hcalm : ∀ d ∈ cs, d.Calm here (s.tasking.tasks s.running).eip) (hnext : c.next = .advance) :
    (execute here c cs s).Safe here := by
  simp only [Call.Saving, hnext] at hc
  obtain ⟨hcurrent, hholds⟩ := hc
  simp only [execute, hnext]
  refine h.within ⟨fun _ => rfl, fun _ => rfl, fun _ => rfl, rfl, rfl⟩ (fun _ _ => rfl) (.saving rfl ?_ hcalm)
  refine ⟨?_, hholds.esp, hholds.ebp, hholds.eip⟩
  show (s.tasking.tasks s.tasking.currentTask).next = (s.tasking.tasks s.running).next
  rw [hcurrent]

theorem Cpu.Safe.wrap (h : s.Safe here) (hc : c.Saving here s)
    (hcalm : ∀ d ∈ cs, d.Calm here (s.tasking.tasks s.running).eip) (hnext : c.next = .wrap) :
    (execute here c cs s).Safe here := by
  simp only [Call.Saving, hnext] at hc
  obtain ⟨hcurrent, hholds⟩ := hc
  simp only [execute, hnext]
  have htasks : (PandaOS.wrap s.tasking).tasks = s.tasking.tasks := by
    unfold PandaOS.wrap
    split <;> rfl
  have hsuccessor : (PandaOS.wrap s.tasking).currentTask = s.successor := by
    unfold PandaOS.wrap Cpu.successor cyclicNext
    rw [hcurrent]
    split
    · rfl
    · exact hcurrent
  have hsame := sameQueue_wrap s.tasking
  refine h.within hsame (fun t _ => congrFun htasks t) (.saving rfl ?_ ?_)
  · refine ⟨?_, ?_, ?_, ?_⟩
    · show (PandaOS.wrap s.tasking).currentTask =
        cyclicNext (PandaOS.wrap s.tasking).next (PandaOS.wrap s.tasking).readyQueue s.running
      rw [hsuccessor, hsame.next_eq, hsame.readyQueue, Cpu.successor]
    · exact (congrArg Task.esp (congrFun htasks _)).trans hholds.esp
    · exact (congrArg Task.ebp (congrFun htasks _)).trans hholds.ebp
    · exact (congrArg Task.eip (congrFun htasks _)).trans hholds.eip
  · intro d hd
    show d.Calm here ((PandaOS.wrap s.tasking).tasks s.running).eip
    rw [htasks]
    exact hcalm d hd

/-- The loads into the locals. -/
theorem Cpu.Safe.load (h : s.Safe here) (hc : c.Saving here s)
    (hcalm : ∀ d ∈ cs, d.Calm here (s.tasking.tasks s.running).eip)
    (hnext : c.next = .loadEip ∨ c.next = .loadEsp ∨ c.next = .loadEbp ∨ c.next = .takeDirectory) :
    (execute here c cs s).Safe here := by
  rcases hnext with hnext | hnext | hnext | hnext <;> simp only [Call.Saving, hnext] at hc <;>
    simp only [execute, hnext]
  · obtain ⟨hcurrent, hholds⟩ := hc
    exact h.goto_saving ⟨hcurrent, ⟨hholds.esp, hholds.ebp, hholds.eip⟩, rfl⟩ hcalm
  · obtain ⟨hcurrent, hholds, heip⟩ := hc
    exact h.goto_saving ⟨hcurrent, ⟨hholds.esp, hholds.ebp, hholds.eip⟩, heip, rfl⟩ hcalm
  · obtain ⟨hcurrent, hholds, heip, hesp⟩ := hc
    exact h.goto_saving ⟨hcurrent, ⟨hholds.esp, hholds.ebp, hholds.eip⟩, heip, hesp, rfl⟩ hcalm
  · obtain ⟨hcurrent, hholds, heip, hesp, hebp⟩ := hc
    refine h.within ⟨fun _ => rfl, fun _ => rfl, fun _ => rfl, rfl, rfl⟩ (fun _ _ => rfl) (.saving rfl ?_ hcalm)
    refine ⟨hcurrent, ⟨hholds.esp, hholds.ebp, hholds.eip⟩, ?_⟩
    show Context.mk c.esp c.ebp c.eip _ = Context.mk _ _ _ _
    rw [hesp, hebp, heip]
    rfl

/-! ## The jump -/

theorem Cpu.Safe.successor_mem (h : s.Safe here) : s.successor ∈ s.created := h.queue.cyclicNext_mem

/-- The running task, suspended in `c`, holds the context it is suspended with. -/
theorem Cpu.Safe.suspended_running (h : s.Safe here) (hholds : s.Holds here c) :
    (s.tasking.tasks s.running).context = (s.suspend here c cs).suspended s.running := by
  show Context.mk _ _ _ _ = Function.update s.suspended s.running _ s.running
  rw [Function.update_self, hholds.esp, hholds.ebp, hholds.eip, h.directory]

theorem Cpu.Safe.suspended (h : s.Safe here) (hholds : s.Holds here c) (cs : List Call) {t : ℕ} (ht : t ∈ s.created) :
    (s.tasking.tasks t).context = (s.suspend here c cs).suspended t := by
  by_cases hrunning : t = s.running
  · rw [hrunning]
    exact h.suspended_running hholds
  · refine (h.slots t ht hrunning).trans ?_
    exact (Function.update_of_ne hrunning ..).symm

/-- The calls of every task are calm once the running one is suspended. -/
theorem Cpu.Safe.parked_suspend (h : s.Safe here) (hcalm : ∀ d ∈ cs, d.Calm here here) {t : ℕ} (ht : t ∈ s.created) :
    ∀ d ∈ (s.suspend here c cs).parked t, d.Calm here ((s.suspend here c cs).suspended t).eip := by
  by_cases hrunning : t = s.running
  · subst hrunning
    show ∀ d ∈ Function.update s.parked s.running _ s.running, d.Calm here (Function.update s.suspended s.running _ s.running).eip
    rw [Function.update_self, Function.update_self]
    intro d hd
    rcases List.mem_cons.mp hd with rfl | hd
    · exact .inl rfl
    · exact hcalm d hd
  · show ∀ d ∈ Function.update s.parked s.running _ t, d.Calm here (Function.update s.suspended s.running _ t).eip
    rw [Function.update_of_ne hrunning, Function.update_of_ne hrunning]
    exact h.parked t ht hrunning

theorem Cpu.Safe.jump (h : s.Safe here) (hc : c.Saving here s)
    (hcalm : ∀ d ∈ cs, d.Calm here (s.tasking.tasks s.running).eip) (hnext : c.next = .jump) :
    (execute here c cs s).Safe here := by
  simp only [Call.Saving, hnext] at hc
  obtain ⟨hcurrent, hholds, hloads⟩ := hc
  simp only [execute, hnext]
  rw [hholds.eip] at hcalm
  have hmem : s.tasking.currentTask ∈ s.created := hcurrent ▸ h.successor_mem
  refine ⟨h.queue.same ⟨fun _ => rfl, fun _ => rfl, fun _ => rfl, rfl, rfl⟩ hmem, ?_, fun t ht _ => ?_, fun t ht _ => ?_,
    .calm rfl ?_⟩
  · exact (congrArg Context.directory hloads).symm
  · exact h.suspended hholds cs ht
  · exact h.parked_suspend hcalm ht
  · show ∀ d ∈ (s.suspend here c cs).parked s.tasking.currentTask,
      d.Calm here (s.tasking.tasks s.tasking.currentTask).context.eip
    rw [h.suspended hholds cs hmem]
    exact h.parked_suspend hcalm hmem

theorem Cpu.Safe.execute_saving (h : s.Safe here) (hc : c.Saving here s)
    (hcalm : ∀ d ∈ cs, d.Calm here (s.tasking.tasks s.running).eip) : (execute here c cs s).Safe here := by
  cases hnext : c.next
  case saveEbp => exact h.saveEbp hc hcalm hnext
  case advance => exact h.advance hc hcalm hnext
  case wrap => exact h.wrap hc hcalm hnext
  case jump => exact h.jump hc hcalm hnext
  case loadEip | loadEsp | loadEbp | takeDirectory =>
    exact h.load hc hcalm (by simp only [hnext, true_or, or_true])
  all_goals simp only [Call.Saving, hnext] at hc

/-- What a call that has moved `current_task` on knows is about the tasks alone. -/
theorem Call.Saving.wrap_congr (h : c.Saving here s) (hnext : c.next = .wrap) (htasking : s'.tasking = s.tasking)
    (hrunning : s'.running = s.running) : c.Saving here s' := by
  simp only [Call.Saving, hnext] at h ⊢
  obtain ⟨hcurrent, hholds⟩ := h
  refine ⟨?_, ?_, ?_, ?_⟩ <;> rw [htasking, hrunning]
  · exact hcurrent
  · exact hholds.esp
  · exact hholds.ebp
  · exact hholds.eip

theorem Cpu.Safe.execute (h : s.Safe here) (hcalls : s.calls = c :: cs) : (execute here c cs s).Safe here := by
  cases h.code with
  | calm hcurrent hcalm =>
    rw [hcalls] at hcalm
    exact h.execute_calm hcurrent (hcalm c List.mem_cons_self) fun d hd => hcalm d (List.mem_cons_of_mem _ hd)
  | saving hcalls' hsaving hcalm =>
    obtain ⟨rfl, rfl⟩ := List.cons.inj (hcalls.symm.trans hcalls')
    exact h.execute_saving hsaving hcalm
  | nested hcalls' hoff hnull hn hwrap hsaving hcalm =>
    obtain ⟨rfl, rfl⟩ := List.cons.inj (hcalls.symm.trans hcalls')
    rcases hn with hn | hn
    · simp only [PandaOS.execute, hn]
      rw [if_pos hnull]
      exact h.goto (.nested rfl hoff hnull (.inr rfl) hwrap (hsaving.wrap_congr hwrap rfl rfl) hcalm)
    · simp only [PandaOS.execute, hn]
      exact h.within (SameQueue.refl _) (fun _ _ => rfl) (.saving rfl (hsaving.wrap_congr hwrap rfl rfl) hcalm)

/-- The jumps of a safe state are right. -/
theorem Cpu.Safe.rightJump (h : s.Safe here) : s.RightJump here := by
  intro c cs hcalls hnext
  cases h.code with
  | calm _ hcalm =>
    have hc := hcalm c (hcalls ▸ List.mem_cons_self)
    simp only [Call.Calm, hnext] at hc
  | saving hcalls' hsaving _ =>
    obtain ⟨rfl, rfl⟩ := List.cons.inj (hcalls.symm.trans hcalls')
    simp only [Call.Saving, hnext] at hsaving
    obtain ⟨hcurrent, hholds, hloads⟩ := hsaving
    exact hloads.trans (h.suspended hholds cs (hcurrent ▸ h.successor_mem))
  | nested hcalls' _ _ hn _ _ _ =>
    obtain ⟨rfl, rfl⟩ := List.cons.inj (hcalls.symm.trans hcalls')
    rw [hnext] at hn
    rcases hn with hn | hn <;> cases hn

/-! ## Ticks, calls and forks -/

/-- A tick outside a switch starts a calm call, one at the end of the queue a call that returns. -/
theorem Cpu.Safe.tick (h : s.Safe here) (hon : s.interrupts = true) (hquiet : ¬ s.switching) (regs : Registers) :
    ({ s with interrupts := false, calls := Call.enter true regs :: s.calls } : Cpu).Safe here := by
  refine h.within (SameQueue.refl _) (fun _ _ => rfl) ?_
  cases h.code with
  | calm hcurrent hcalm =>
    refine .calm hcurrent fun d hd => ?_
    rcases List.mem_cons.mp hd with rfl | hd
    · exact trivial
    · exact hcalm d hd
  | @saving c cs hcalls hsaving hcalm =>
    simp only [Cpu.switching, hcalls] at hquiet
    cases hnext : c.next <;> simp only [hnext] at hquiet
    case wrap =>
      exact .nested (congrArg _ hcalls) rfl (not_not.mp hquiet) (.inl rfl) hnext
        (hsaving.wrap_congr hnext rfl rfl) hcalm
    case saveEbp | advance | loadEip | loadEsp | loadEbp | takeDirectory | jump => exact absurd trivial hquiet
    all_goals simp only [Call.Saving, hnext] at hsaving
  | nested _ hoff => exact absurd (hon.symm.trans hoff) (by decide)

theorem Cpu.Safe.current_of_idle (h : s.Safe here) (hcode : s.calls = []) : s.tasking.currentTask = s.running := by
  cases h.code with
  | calm hcurrent _ => exact hcurrent
  | saving hcalls _ _ => exact absurd (hcode.symm.trans hcalls) (List.cons_ne_nil _ _).symm
  | nested hcalls _ _ _ _ _ _ => exact absurd (hcode.symm.trans hcalls) (List.cons_ne_nil _ _).symm

theorem Cpu.Safe.call (h : s.Safe here) (hcode : s.calls = []) (regs : Registers) :
    ({ s with calls := [Call.enter false regs] } : Cpu).Safe here := by
  refine h.within (SameQueue.refl _) (fun _ _ => rfl) (.calm (h.current_of_idle hcode) fun d hd => ?_)
  rw [List.mem_singleton.mp hd]
  exact trivial

/-- The new task holds what `fork` recorded for it, and the others what they held. -/
theorem Cpu.Safe.fork (h : s.Safe here) (hcode : s.calls = []) (hp : FreshTask s.created p)
    (hrun : fork fuel directory p eip regs s.tasking = .ok (r, tasking)) :
    ({ s with
      tasking := tasking
      created := s.created ++ [p]
      parked := Function.update s.parked p []
      suspended := Function.update s.suspended p ⟨regs.esp, regs.ebp, eip, directory⟩ } : Cpu).Safe here := by
  have hcurrent := h.current_of_idle hcode
  have hqueue : QueueOf s.created s.tasking := by
    have hq := h.queue
    unfold Cpu.queue at hq
    rwa [← hcurrent] at hq
  obtain ⟨l, t, hts⟩ := hqueue.last
  have hqueue' := hqueue
  have hp' := hp
  rw [hts] at hqueue' hp'
  obtain ⟨tasking', hrun', hcurrent', -, -, -, hnew, hlast, hrest⟩ :=
    fork_tasks hqueue' hp' (hqueue'.fork_fuel hp' hrun) directory eip regs
  rw [hrun] at hrun'
  cases hrun'
  have hcontext : ∀ u, u ≠ p → (tasking.tasks u).context = (s.tasking.tasks u).context := by
    intro u hup
    by_cases hut : u = t
    · rw [hut, hlast]
      rfl
    · rw [hrest u hup hut]
  have hrunning : s.running ≠ p := by
    rintro rfl
    exact hp.not_mem h.queue.current
  have hmem : ∀ u ∈ s.created ++ [p], u ≠ p → u ∈ s.created := fun u hu hup =>
    (List.mem_append.mp hu).resolve_right fun hu => hup (List.mem_singleton.mp hu)
  refine ⟨?_, ?_, fun u hu hne => ?_, fun u hu hne => ?_, .calm (hcurrent'.trans hcurrent) ?_⟩
  · have hq := hqueue.fork hp hrun
    unfold Cpu.queue
    dsimp only
    rwa [← hcurrent, ← hcurrent']
  · exact (congrArg Context.directory (hcontext s.running hrunning)).trans h.directory
  · dsimp only
    by_cases hup : u = p
    · rw [hup, Function.update_self, hnew]
      rfl
    · rw [Function.update_of_ne hup, hcontext u hup]
      exact h.slots u (hmem u hu hup) hne
  · dsimp only
    by_cases hup : u = p
    · rw [hup, Function.update_self]
      exact fun d hd => absurd hd List.not_mem_nil
    · rw [Function.update_of_ne hup, Function.update_of_ne hup]
      exact h.parked u (hmem u hu hup) hne
  · show ∀ d ∈ s.calls, _
    rw [hcode]
    exact fun d hd => absurd hd List.not_mem_nil

/-! ## Runs -/

theorem CpuStart.safe (h : CpuStart s) : s.Safe here := by
  obtain ⟨p, t, hpid, hp, hcreated, hrunning, htasking, hdirectory⟩ := h.tasking
  have honly : ∀ u ∈ s.created, u = s.running := fun u hu => by
    rw [hcreated] at hu
    exact (List.mem_singleton.mp hu).trans hrunning.symm
  refine ⟨?_, ?_, fun u hu hne => absurd (honly u hu) hne, fun u hu hne => absurd (honly u hu) hne, .calm ?_ ?_⟩
  · unfold Cpu.queue
    rw [hcreated, hrunning, htasking]
    exact QueueOf.init hpid hp
  · rw [htasking, hrunning, hdirectory]
    exact congrArg Task.pageDirectory (newTask_self p t.currentDirectory _)
  · rw [htasking, hrunning]
    rfl
  · rw [h.calls]
    exact fun d hd => absurd hd List.not_mem_nil

theorem Cpu.Safe.step {event : Event} (h : s.Safe here) (hquiet : QuietTicks s event) (hs : CpuStep here s event s') :
    s'.Safe here := by
  cases hs with
  | tick regs hon => exact h.tick hon hquiet regs
  | call regs hcode => exact h.call hcode regs
  | fork hcode hp hrun => exact h.fork hcode hp hrun
  | run hcalls _ => exact h.execute hcalls

/-- Without ticks in the middle of a switch, every task is resumed where it was last suspended. -/
theorem context_kept (h : Reach CpuStart QuietTicks (CpuStep here) s) : s.RightJump here :=
  (h.invariant (fun _ hs => hs.safe) fun _ _ _ hsafe hquiet hstep => hsafe.step hquiet hstep).rightJump

/-! ## A tick in the middle of a switch -/

instance (ts : List ℕ) (p : ℕ) : Decidable (FreshTask ts p) :=
  decidable_of_iff (p ≠ 0 ∧ p + sizeofTask ≤ 4294967296 ∧
      ∀ t ∈ ts, t + sizeofTask ≤ p ∨ p + sizeofTask ≤ t)
    ⟨fun h => ⟨h.1, h.2.1, h.2.2⟩, fun h => ⟨h.nonnull, h.fits, h.apart⟩⟩

instance (here : ℕ) (s : Cpu) : Decidable (s.RightJump here) :=
  match hcalls : s.calls with
  | [] => isTrue fun c cs h => absurd (hcalls.symm.trans h) (List.cons_ne_nil c cs).symm
  | c :: cs =>
    decidable_of_iff (c.next = .jump → s.loads c = (s.suspend here c cs).suspended s.tasking.currentTask)
      ⟨fun h d ds hd => by obtain ⟨rfl, rfl⟩ := List.cons.inj (hcalls.symm.trans hd); exact h,
        fun h => h c cs hcalls⟩

/-- One step of a run, where it can be made. -/
def drive (here : ℕ) (s : Cpu) : Event → Except Unit Cpu
  | .tick regs =>
    if s.interrupts = true then .ok { s with interrupts := false, calls := Call.enter true regs :: s.calls }
    else .error ()
  | .call regs => if s.calls.isEmpty = true then .ok { s with calls := [Call.enter false regs] } else .error ()
  | .fork fuel directory p eip regs =>
    if s.calls.isEmpty = true ∧ FreshTask s.created p then
      match fork fuel directory p eip regs s.tasking with
      | .ok (_, tasking) => .ok { s with
          tasking := tasking
          created := s.created ++ [p]
          parked := Function.update s.parked p []
          suspended := Function.update s.suspended p ⟨regs.esp, regs.ebp, eip, directory⟩ }
      | .error _ => .error ()
    else .error ()
  | .run =>
    match s.calls with
    | [] => .error ()
    | c :: cs => if s.RightJump here then .ok (execute here c cs s) else .error ()

theorem drive_step {event : Event} (h : drive here s event = .ok s') : CpuStep here s event s' := by
  cases event with
  | tick regs =>
    simp only [drive] at h
    split at h
    · next hon =>
      cases h
      exact .tick regs hon
    · cases h
  | call regs =>
    simp only [drive] at h
    split at h
    · next hcode =>
      cases h
      exact .call regs (List.isEmpty_iff.mp hcode)
    · cases h
  | fork fuel directory p eip regs =>
    simp only [drive] at h
    split at h
    · next hcode =>
      split at h
      · next hrun =>
        cases h
        exact .fork (List.isEmpty_iff.mp hcode.1) hcode.2 hrun
      · cases h
    · cases h
  | run =>
    simp only [drive] at h
    split at h
    · cases h
    · next hcalls =>
      split at h
      · next hright =>
        cases h
        exact .run hcalls hright
      · cases h

def beforeTasking : Tasking := ⟨fun _ => ⟨0, 0, 0, 0, 0, 0⟩, 0, 0, 1, 0x1000⟩

def firstTask : Cpu where
  tasking := initialiseTasking 0x2000 beforeTasking
  created := [0x2000]
  interrupts := true
  running := 0x2000
  directory := 0x1000
  calls := []
  parked := fun _ => []
  suspended := fun _ => ⟨0, 0, 0, 0⟩

theorem cpuStart_firstTask : CpuStart firstTask where
  tasking := ⟨0x2000, beforeTasking, rfl, by decide, rfl, rfl, rfl, rfl⟩
  interrupts := rfl
  calls := rfl

/-- Fork and switch without a tick. -/
def forkAndSwitch : List Event :=
  [.fork 1 0x3000 0x2018 0x100500 ⟨0xDFFFFF00, 0xDFFFFF20⟩, .call ⟨0xDFFFFF10, 0xDFFFFF18⟩] ++ List.replicate 15 .run

theorem forkAndSwitch_final :
    (forkAndSwitch.foldlM (drive 0x101000) firstTask).map (fun s => s.calls.map Call.next) = .ok [.jump] := by
  decide +kernel

theorem context_kept_fork : ∃ (s : Cpu) (c : Call), s.calls = [c] ∧ c.next = .jump ∧ s.RightJump 0x101000 := by
  have hfinal := forkAndSwitch_final
  cases hrun : forkAndSwitch.foldlM (drive 0x101000) firstTask with
  | error e =>
    rw [hrun] at hfinal
    cases hfinal
  | ok s =>
    rw [hrun] at hfinal
    obtain ⟨c, hcalls, hnext⟩ := List.map_eq_singleton_iff.mp (Except.ok.inj hfinal)
    have hquiet : ∀ event ∈ forkAndSwitch, ∀ s, QuietTicks s event := by
      intro event hevent s
      simp only [forkAndSwitch, List.mem_append, List.mem_cons, List.not_mem_nil, or_false, List.mem_replicate] at hevent
      rcases hevent with (rfl | rfl) | ⟨-, rfl⟩ <;> exact trivial
    have hreach := (Reach.start cpuStart_firstTask).foldlM
      (f := drive 0x101000) (fun s _ _ hevent hs => ⟨hquiet _ hevent s, drive_step hs⟩) hrun
    exact ⟨s, c, hcalls, hnext, context_kept hreach⟩

/-- The first task forks and calls `switch_task`. A tick arrives behind its three stores and switches to the
child, the next one back. The first task goes on with its own call, and a tick in the child resumes it once
more. -/
def tickAfterStores : List Event :=
  [.fork 1 0x3000 0x2018 0x100500 ⟨0xDFFFFF00, 0xDFFFFF20⟩, .call ⟨0xDFFFFF10, 0xDFFFFF18⟩] ++
    List.replicate 9 .run ++ .tick ⟨0xDFFFFE80, 0xDFFFFE98⟩ :: List.replicate 16 .run ++
    .tick ⟨0xDFFFFD80, 0xDFFFFD98⟩ :: List.replicate 27 .run ++ .tick ⟨0xDFFFFD80, 0xDFFFFD98⟩ :: List.replicate 15 .run

theorem tickAfterStores_final :
    (tickAfterStores.foldlM (drive 0x101000) firstTask).map (fun s => decide (s.RightJump 0x101000)) = .ok false := by
  decide +kernel

/-- The child resumes the first task in the tick's call, from which it had returned. -/
theorem context_lost : ¬ ∀ here s, Reach CpuStart (fun _ _ => True) (CpuStep here) s → s.RightJump here := by
  intro h
  have hfinal := tickAfterStores_final
  cases hrun : tickAfterStores.foldlM (drive 0x101000) firstTask with
  | error e =>
    rw [hrun] at hfinal
    cases hfinal
  | ok s =>
    rw [hrun] at hfinal
    have hwrong : decide (s.RightJump 0x101000) = false := Except.ok.inj hfinal
    have hreach : Reach CpuStart (fun _ _ => True) (CpuStep 0x101000) s :=
      (Reach.start cpuStart_firstTask).foldlM (f := drive 0x101000)
        (fun _ _ _ _ hs => ⟨trivial, drive_step hs⟩) hrun
    exact of_decide_eq_false hwrong (h _ _ hreach)

end PandaOS

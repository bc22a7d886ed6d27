import PandaOS.Process.Tasks

/-! The ready queue over any run of `fork` and `switch_task`: the tasks stand in it in the order of
their creation with increasing ids, and switching goes round it. Tasks are blocks of the address
space, so there are never so many that an id wraps. -/
namespace PandaOS
open ByteMemory Word32 LinkedList
set_option autoImplicit false
set_option maxHeartbeats 250000

/-! ## Runs -/

/-- A block that `kmalloc` hands out for a task while the blocks of `ts` are in use. -/
structure FreshTask (ts : List ℕ) (p : ℕ) : Prop where
  nonnull : p ≠ 0
  fits : p + sizeofTask ≤ 4294967296
  apart : ∀ t ∈ ts, Apart (t, sizeofTask) (p, sizeofTask)

/-- A state after `initialise_tasking` and any steps, with the tasks created so far. -/
inductive TaskRun : List ℕ → Tasking → Prop
  | init {s : Tasking} {p : ℕ} (hpid : s.nextPid = 1) (hp : FreshTask [] p) : TaskRun [p] (initialiseTasking p s)
  | fork {ts : List ℕ} {s s' : Tasking} {fuel directory p eip : ℕ} {regs : Registers} {r : ℤ}
      (h : TaskRun ts s) (hp : FreshTask ts p) (hrun : fork fuel directory p eip regs s = .ok (r, s')) :
      TaskRun (ts ++ [p]) s'
  | switch {ts : List ℕ} {s : Tasking} (eip : ℕ) (regs : Registers) (h : TaskRun ts s) :
      TaskRun ts (switchTask eip regs s)

/-- The current task behind each call of `switch_task`, called with these registers. -/
def visits (eip : ℕ) : List Registers → Tasking → List ℕ
  | [], _ => []
  | r :: regs, s => (switchTask eip r s).currentTask :: visits eip regs (switchTask eip r s)

def switchAll (eip : ℕ) (regs : List Registers) (s : Tasking) : Tasking :=
  regs.foldl (fun s r => switchTask eip r s) s

/-- The queue from `ready_queue` is the list `ts` of tasks, ids increase along it, and the current task
is one of them. -/
structure ReadyQueue (ts : List ℕ) (s : Tasking) : Prop where
  linked : Linked s.next s.readyQueue ts
  nodup : ts.Nodup
  ids : (ts.map fun t => (s.tasks t).id).Pairwise (· < ·)
  current : s.currentTask ∈ ts

/-- `n` calls of `switch_task` make each of the `n` tasks current once and end where they began. -/
structure RoundRobin (ts : List ℕ) (s : Tasking) : Prop where
  once : ∀ eip regs, regs.length = ts.length → (visits eip regs s).Perm ts
  back : ∀ eip regs, regs.length = ts.length → (switchAll eip regs s).currentTask = s.currentTask

/-! ## The invariant -/

structure QueueOf (ts : List ℕ) (s : Tasking) : Prop where
  linked : Linked s.next s.readyQueue ts
  blocks : ts.Pairwise fun t u => Apart (t, sizeofTask) (u, sizeofTask)
  fits : ∀ t ∈ ts, t + sizeofTask ≤ 4294967296
  ids : ∀ (i t : ℕ), ts[i]? = some t → (s.tasks t).id = i + 1
  pid : s.nextPid = ts.length + 1
  current : s.currentTask ∈ ts

variable {ts l : List ℕ} {s s' : Tasking} {a p t eip fuel directory : ℕ} {regs : Registers} {r : ℤ}

theorem not_apart_self (t : ℕ) : ¬ Apart (t, sizeofTask) (t, sizeofTask) := by
  unfold Apart sizeofTask
  dsimp only
  omega

theorem FreshTask.not_mem (h : FreshTask ts p) : p ∉ ts := fun hp => not_apart_self p (h.apart p hp)

theorem QueueOf.nodup (h : QueueOf ts s) : ts.Nodup := by
  rw [List.Nodup]
  refine h.blocks.imp fun {t u} hab heq => ?_
  rw [heq] at hab
  exact not_apart_self u hab

theorem QueueOf.length_lt (h : QueueOf ts s) : ts.length < 2147483647 := by
  have hle := length_le_of_apart (by decide) h.blocks fun t ht =>
    (by have := h.fits t ht; unfold sizeofTask at this; omega : t < 4294967296)
  unfold sizeofTask at hle
  omega

/-- The queue depends on the `next` pointers and ids alone. -/
theorem QueueOf.same (h : QueueOf ts s) (hs : SameQueue s s') (hcurrent : s'.currentTask ∈ ts) : QueueOf ts s' := by
  refine ⟨?_, h.blocks, h.fits, fun i t ht => ?_, hs.nextPid.trans h.pid, hcurrent⟩
  · rw [hs.readyQueue]
    exact h.linked.congr fun t _ => hs.next t
  · rw [hs.id t]
    exact h.ids i t ht

/-! ## switch_task -/

theorem SameQueue.next_eq (h : SameQueue s s') : s'.next = s.next := funext h.next

/-- `switch_task` goes on to the next task round the queue. -/
theorem QueueOf.switch_current (h : QueueOf ts s) (eip : ℕ) (regs : Registers) :
    (switchTask eip regs s).currentTask = cyclicNext s.next s.readyQueue s.currentTask := by
  have hne : s.currentTask ≠ 0 := h.linked.ne_zero h.current
  unfold switchTask
  rw [if_neg hne]
  by_cases hone : onlyOne s = true
  · rw [if_pos hone]
    unfold onlyOne at hone
    rw [Bool.and_eq_true, beq_iff_eq, beq_iff_eq] at hone
    have hnull : s.next s.currentTask = 0 := hone.2
    rw [cyclicNext, if_pos hnull, hone.1]
  · obtain ⟨s1, hs1⟩ : ∃ x, x = saveEbp regs.ebp (saveEsp regs.esp (saveEip eip s)) := ⟨_, rfl⟩
    have hsave : SameQueue s s1 := by
      rw [hs1]
      exact ((sameQueue_saveEip eip s).trans (sameQueue_saveEsp regs.esp _)).trans (sameQueue_saveEbp regs.ebp _)
    have hcurrent1 : s1.currentTask = s.currentTask := by
      rw [hs1]
      rfl
    have hadvance : (advance s1).currentTask = s.next s.currentTask := by
      rw [← hcurrent1]
      exact hsave.next _
    have hready : (advance s1).readyQueue = s.readyQueue := hsave.readyQueue
    rw [if_neg hone, ← hs1]
    show (wrap (advance s1)).currentTask = _
    unfold wrap cyclicNext
    rw [hadvance]
    split
    · exact hready
    · exact hadvance

theorem QueueOf.cyclicNext_mem (h : QueueOf ts s) : cyclicNext s.next s.readyQueue s.currentTask ∈ ts := by
  obtain ⟨i, hi⟩ := List.getElem?_of_mem h.current
  exact List.mem_of_getElem? (h.linked.cyclicNext_eq hi)

theorem QueueOf.switch (h : QueueOf ts s) (eip : ℕ) (regs : Registers) : QueueOf ts (switchTask eip regs s) := by
  refine h.same (sameQueue_switchTask eip regs s) ?_
  rw [h.switch_current]
  exact h.cyclicNext_mem

/-- The tasks visited, as iterates of going on round the queue. -/
theorem QueueOf.visits_eq (h : QueueOf ts s) (eip : ℕ) (regs : List Registers) :
    visits eip regs s = (List.range regs.length).map
      fun j => (cyclicNext s.next s.readyQueue)^[j + 1] s.currentTask := by
  induction regs generalizing s with
  | nil => rfl
  | cons r regs ih =>
    have hsame := sameQueue_switchTask eip r s
    rw [visits, ih (h.switch eip r), List.length_cons, List.range_succ_eq_map, List.map_cons, List.map_map,
      hsame.next_eq, hsame.readyQueue, h.switch_current]
    rfl

theorem QueueOf.switchAll_current (h : QueueOf ts s) (eip : ℕ) (regs : List Registers) :
    (switchAll eip regs s).currentTask = (cyclicNext s.next s.readyQueue)^[regs.length] s.currentTask := by
  induction regs generalizing s with
  | nil => rfl
  | cons r regs ih =>
    have hsame := sameQueue_switchTask eip r s
    have hrest := ih (h.switch eip r)
    rw [hsame.next_eq, hsame.readyQueue, h.switch_current] at hrest
    exact hrest

theorem QueueOf.roundRobin (h : QueueOf ts s) : RoundRobin ts s := by
  obtain ⟨i, hi⟩ := List.getElem?_of_mem h.current
  refine ⟨fun eip regs hlength => ?_, fun eip regs hlength => ?_⟩
  · rw [h.visits_eq, hlength, h.linked.visits_eq hi]
    exact List.rotate_perm ts (i + 1)
  · rw [h.switchAll_current, hlength]
    exact h.linked.iterate_length hi

/-! ## fork -/

theorem lastTask_spec (h : Linked s.next a (l ++ [t])) (hfuel : l.length < fuel) : lastTask s fuel a = .ok t := by
  induction l generalizing a fuel with
  | nil =>
    obtain ⟨fuel, rfl⟩ : ∃ x, fuel = x + 1 := ⟨fuel - 1, by omega⟩
    obtain ⟨hat, -, hnext⟩ := h
    have hnull : (s.tasks a).next = 0 := hat ▸ hnext
    rw [lastTask, if_neg (not_not.mpr hnull), hat]
  | cons b l ih =>
    rw [List.length_cons] at hfuel
    obtain ⟨fuel, rfl⟩ : ∃ x, fuel = x + 1 := ⟨fuel - 1, by omega⟩
    obtain ⟨hab, -, hl⟩ := h
    have hne : s.next b ≠ 0 := by
      cases l with
      | nil =>
        rw [hl.1]
        exact hl.2.1
      | cons c l =>
        rw [hl.1]
        exact hl.2.1
    rw [hab, lastTask]
    exact (if_pos hne).trans (ih hl (by omega))

theorem newTask_of_ne (directory : ℕ) (s : Tasking) (h : t ≠ p) : (newTask p directory s).tasks t = s.tasks t := by
  simp only [newTask, Tasking.update, Function.update_of_ne h]

theorem newTask_self (p directory : ℕ) (s : Tasking) :
    (newTask p directory s).tasks p = ⟨toInt32 s.nextPid, 0, 0, 0, directory, 0⟩ := by
  simp only [newTask, Tasking.update, Function.update_self]

/-- What `fork` leaves in each task. -/
theorem fork_tasks (h : QueueOf (l ++ [t]) s) (hp : FreshTask (l ++ [t]) p) (hfuel : l.length < fuel)
    (directory eip : ℕ) (regs : Registers) :
    ∃ s', fork fuel directory p eip regs s = .ok (toInt32 s.nextPid, s') ∧
      s'.currentTask = s.currentTask ∧ s'.readyQueue = s.readyQueue ∧ s'.nextPid = add32 s.nextPid 1 ∧
      s'.currentDirectory = s.currentDirectory ∧
      s'.tasks p = ⟨toInt32 s.nextPid, regs.esp, regs.ebp, eip, directory, 0⟩ ∧
      s'.tasks t = { s.tasks t with next := p } ∧ ∀ u, u ≠ p → u ≠ t → s'.tasks u = s.tasks u := by
  have htp : t ≠ p := by
    rintro rfl
    exact hp.not_mem (List.mem_append_right _ List.mem_cons_self)
  obtain ⟨s1, hs1⟩ : ∃ x, x = newTask p directory s := ⟨_, rfl⟩
  have hlinked1 : Linked s1.next s1.readyQueue (l ++ [t]) := by
    have hready : s1.readyQueue = s.readyQueue := by
      rw [hs1]
      rfl
    rw [hready]
    refine h.linked.congr fun u hu => ?_
    have hup : u ≠ p := by
      rintro rfl
      exact hp.not_mem hu
    rw [hs1]
    exact congrArg Task.next (newTask_of_ne directory s hup)
  have hlast := lastTask_spec hlinked1 hfuel
  obtain ⟨s2, hs2⟩ : ∃ x, x = s1.update t fun u => { u with next := p } := ⟨_, rfl⟩
  obtain ⟨s3, hs3⟩ : ∃ x, x = s2.update p fun u => { u with esp := regs.esp, ebp := regs.ebp, eip := eip } :=
    ⟨_, rfl⟩
  have hp2 : s2.tasks p = ⟨toInt32 s.nextPid, 0, 0, 0, directory, 0⟩ := by
    rw [hs2, Tasking.update_of_ne htp.symm, hs1, newTask_self]
  have hp3 : s3.tasks p = ⟨toInt32 s.nextPid, regs.esp, regs.ebp, eip, directory, 0⟩ := by
    rw [hs3, Tasking.update_self, hp2]
  have hcurrent : s2.currentTask = s.currentTask := by
    rw [hs2, hs1]
    rfl
  refine ⟨s3, ?_, ?_, ?_, ?_, ?_, hp3, ?_, fun u hup hut => ?_⟩
  · rw [fork]
    dsimp only
    rw [← hs1, hlast, ok_bind, ← hs2, if_pos hcurrent, ← hs3, hp3]
    rfl
  · rw [hs3, hs2, hs1]
    rfl
  · rw [hs3, hs2, hs1]
    rfl
  · rw [hs3, hs2, hs1]
    rfl
  · rw [hs3, hs2, hs1]
    rfl
  · rw [hs3, Tasking.update_of_ne htp, hs2, Tasking.update_self, hs1, newTask_of_ne directory s htp]
  · rw [hs3, Tasking.update_of_ne hup, hs2, Tasking.update_of_ne hut, hs1, newTask_of_ne directory s hup]

theorem QueueOf.last (h : QueueOf ts s) : ∃ l t, ts = l ++ [t] := by
  have hne : ts ≠ [] := List.ne_nil_of_mem h.current
  exact ⟨_, _, (List.dropLast_append_getLast hne).symm⟩

/-- A walk that ended had a round for every task. -/
theorem lastTask_fuel {b : ℕ} (h : Linked s.next a (l ++ [t])) (hrun : lastTask s fuel a = .ok b) : l.length < fuel := by
  induction l generalizing a fuel with
  | nil =>
    cases fuel with
    | zero => cases hrun
    | succ fuel => exact Nat.succ_pos fuel
  | cons c l ih =>
    cases fuel with
    | zero => cases hrun
    | succ fuel =>
      obtain ⟨rfl, -, hl⟩ := h
      rw [lastTask] at hrun
      split at hrun
      · exact Nat.succ_lt_succ (ih hl hrun)
      · next hnull =>
        have hzero : s.next a = 0 := not_not.mp hnull
        cases l with
        | nil => exact absurd (hl.1.symm.trans hzero) hl.2.1
        | cons d l => exact absurd (hl.1.symm.trans hzero) hl.2.1

theorem QueueOf.fork_fuel (h : QueueOf (l ++ [t]) s) (hp : FreshTask (l ++ [t]) p)
    (hrun : fork fuel directory p eip regs s = .ok (r, s')) : l.length < fuel := by
  obtain ⟨b, hlast, -⟩ := bind_eq_ok.mp hrun
  refine lastTask_fuel (h.linked.congr fun u hu => ?_) hlast
  have hup : u ≠ p := by
    rintro rfl
    exact hp.not_mem hu
  exact congrArg Task.next (newTask_of_ne directory s hup)

theorem QueueOf.fork (h : QueueOf ts s) (hp : FreshTask ts p) (hrun : fork fuel directory p eip regs s = .ok (r, s')) :
    QueueOf (ts ++ [p]) s' := by
  obtain ⟨l, t, rfl⟩ := h.last
  have hlt := h.length_lt
  obtain ⟨s1, hrun1, hcurrent, hready, hpid, -, hnew, hlast, hrest⟩ := fork_tasks h hp (h.fork_fuel hp hrun)
    directory eip regs
  rw [hrun] at hrun1
  cases hrun1
  have hnodup := h.nodup
  have hlt_t : ∀ u ∈ l, u ≠ t := fun u hu heq => by
    have hdisjoint := (List.nodup_append.mp hnodup).2.2
    exact hdisjoint u hu t List.mem_cons_self heq
  have hne_p : ∀ u ∈ l ++ [t], u ≠ p := fun u hu heq => hp.not_mem (heq ▸ hu)
  have hid : ∀ u ∈ l ++ [t], (s'.tasks u).id = (s.tasks u).id := by
    intro u hu
    by_cases hut : u = t
    · rw [hut, hlast]
    · rw [hrest u (hne_p u hu) hut]
  refine ⟨?_, ?_, ?_, fun i u hu => ?_, ?_, ?_⟩
  · rw [hready]
    refine h.linked.append hp.nonnull ?_ ?_ fun u hu => ?_
    · exact congrArg Task.next hlast
    · exact congrArg Task.next hnew
    · exact congrArg Task.next (hrest u (hne_p u (List.mem_append_left _ hu)) (hlt_t u hu))
  · rw [List.pairwise_append]
    refine ⟨h.blocks, List.pairwise_singleton _ _, fun u hu v hv => ?_⟩
    rw [List.mem_singleton.mp hv]
    exact hp.apart u hu
  · intro u hu
    rcases List.mem_append.mp hu with hold | hnew'
    · exact h.fits u hold
    · rw [List.mem_singleton.mp hnew']
      exact hp.fits
  · rcases Nat.lt_or_ge i (l ++ [t]).length with hin | hout
    · rw [List.getElem?_append_left hin] at hu
      rw [hid u (List.mem_of_getElem? hu)]
      exact h.ids i u hu
    · rw [List.getElem?_append_right hout] at hu
      have hi : i - (l ++ [t]).length = 0 := by
        obtain ⟨hlt1, -⟩ := List.getElem?_eq_some_iff.mp hu
        rw [List.length_singleton] at hlt1
        omega
      rw [hi] at hu
      cases hu
      rw [hnew, h.pid]
      show toInt32 _ = _
      rw [toInt32_of_lt (by omega)]
      push_cast
      omega
  · rw [hpid, h.pid, add32_of_lt (by omega)]
    simp only [List.length_append, List.length_singleton]
  · rw [hcurrent]
    exact List.mem_append_left _ h.current

theorem QueueOf.init (hpid : s.nextPid = 1) (hp : FreshTask [] p) : QueueOf [p] (initialiseTasking p s) := by
  have htask : (initialiseTasking p s).tasks p = ⟨toInt32 s.nextPid, 0, 0, 0, s.currentDirectory, 0⟩ :=
    newTask_self p s.currentDirectory _
  refine ⟨⟨rfl, hp.nonnull, congrArg Task.next htask⟩, List.pairwise_singleton _ _, fun t ht => ?_,
    fun i t ht => ?_, ?_, List.mem_cons_self⟩
  · rw [List.mem_singleton.mp ht]
    exact hp.fits
  · cases i with
    | succ i => cases ht
    | zero =>
      cases ht
      rw [htask, hpid]
      rfl
  · show add32 s.nextPid 1 = _
    rw [hpid]
    rfl

/-! ## Every run -/

theorem TaskRun.queueOf (h : TaskRun ts s) : QueueOf ts s := by
  induction h with
  | init hpid hp => exact QueueOf.init hpid hp
  | fork _ hp hrun ih => exact ih.fork hp hrun
  | switch eip regs _ ih => exact ih.switch eip regs

theorem QueueOf.readyQueue (h : QueueOf ts s) : ReadyQueue ts s := by
  refine ⟨h.linked, h.nodup, ?_, h.current⟩
  rw [List.pairwise_iff_getElem]
  intro i j hi hj hij
  rw [List.length_map] at hi hj
  rw [List.getElem_map, List.getElem_map, h.ids i _ (List.getElem?_eq_getElem hi),
    h.ids j _ (List.getElem?_eq_getElem hj)]
  omega

/-- In every run the queue holds the tasks in order of creation, `fork` returns, and switching goes
round. -/
theorem ready_queue (h : TaskRun ts s) : ReadyQueue ts s ∧ RoundRobin ts s ∧
    ∀ fuel directory p eip regs, ts.length ≤ fuel → FreshTask ts p →
      ∃ r s', PandaOS.fork fuel directory p eip regs s = .ok (r, s') := by
  refine ⟨h.queueOf.readyQueue, h.queueOf.roundRobin, fun fuel directory p eip regs hfuel hp => ?_⟩
  have hq := h.queueOf
  obtain ⟨l, t, rfl⟩ := hq.last
  rw [List.length_append, List.length_singleton] at hfuel
  obtain ⟨s', hrun, -⟩ := fork_tasks hq hp (by omega : l.length < fuel) directory eip regs
  exact ⟨_, s', hrun⟩

theorem ready_queue_two : ∃ s, ReadyQueue [0x2000, 0x2018] s ∧ RoundRobin [0x2000, 0x2018] s ∧
    ∀ fuel directory p eip regs, 2 ≤ fuel → FreshTask [0x2000, 0x2018] p →
      ∃ r s', PandaOS.fork fuel directory p eip regs s = .ok (r, s') := by
  obtain ⟨s0, hpid⟩ : ∃ s : Tasking, s.nextPid = 1 := ⟨⟨fun _ => ⟨0, 0, 0, 0, 0, 0⟩, 0, 0, 1, 0⟩, rfl⟩
  have hfirst : FreshTask [] 0x2000 := ⟨by decide, by decide, fun t ht => absurd ht List.not_mem_nil⟩
  have hsecond : FreshTask [0x2000] 0x2018 := by
    refine ⟨by decide, by decide, fun t ht => ?_⟩
    rw [List.mem_singleton.mp ht]
    exact .inl (by decide)
  have hrun := TaskRun.init hpid hfirst
  obtain ⟨s, hfork, -⟩ := fork_tasks (l := []) hrun.queueOf hsecond Nat.one_pos 0x3000 0x100000
    ⟨0xE0000000, 0xE0000010⟩
  exact ⟨s, ready_queue (hrun.fork hsecond hfork)⟩

end PandaOS

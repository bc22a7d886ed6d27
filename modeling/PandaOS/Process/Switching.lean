import PandaOS.Library.GuardedRun
import PandaOS.Process.ReadyQueue

/-! `switch_task` one statement at a time, with timer interrupts. A task that is inside `switch_task`
has a stack of calls: one made by its own code at the bottom, and those of the timer callback above
it. Every call has its own locals. -/
namespace PandaOS
open GuardedRun LinkedList
set_option autoImplicit false
set_option maxHeartbeats 250000

/-- The next statement of a call. `leave` is the message with the `return` behind it, `jump` the
assembly from `cli` to the jump. -/
inductive Statement
  | nullCheck | oneCheck | readEsp | readEbp | readEip | dummyCheck
  | saveEip | saveEsp | saveEbp | advance | wrap
  | loadEip | loadEsp | loadEbp | takeDirectory | jump | leave
  deriving DecidableEq

/-- A call of `switch_task`, by `timer_callback` or by other code. `regs` holds the stack and base
pointer inside it. -/
structure Call where
  byTimer : Bool
  next : Statement
  regs : Registers
  esp : ℕ
  ebp : ℕ
  eip : ℕ

def Call.enter (byTimer : Bool) (regs : Registers) : Call := ⟨byTimer, .nullCheck, regs, 0, 0, 0⟩

/-- What a task is resumed with. -/
structure Context where
  esp : ℕ
  ebp : ℕ
  eip : ℕ
  directory : ℕ
  deriving DecidableEq

def Task.context (t : Task) : Context := ⟨t.esp, t.ebp, t.eip, t.pageDirectory⟩

/-- The machine: the task that really runs with its directory and its calls, the calls of the others,
and where each task was last suspended or set up by `fork`. -/
structure Cpu where
  tasking : Tasking
  created : List ℕ
  interrupts : Bool
  running : ℕ
  directory : ℕ
  calls : List Call
  parked : ℕ → List Call
  suspended : ℕ → Context

def Cpu.goto (s : Cpu) (c : Call) (cs : List Call) (next : Statement) : Cpu :=
  { s with calls := { c with next := next } :: cs }

def Cpu.tell (s : Cpu) (tasking : Tasking) : Cpu := { s with tasking := tasking }

/-- The running task stops in the call `c`. It goes on behind `read_eip` at `here`, with the dummy for
the result. -/
def Cpu.suspend (s : Cpu) (here : ℕ) (c : Call) (cs : List Call) : Cpu :=
  { s with
    suspended := Function.update s.suspended s.running ⟨c.regs.esp, c.regs.ebp, here, s.directory⟩
    parked := Function.update s.parked s.running ({ c with eip := 0x12345, next := .dummyCheck } :: cs) }

def Cpu.resume (s : Cpu) : Cpu :=
  { s with
    interrupts := true
    running := s.tasking.currentTask
    directory := s.tasking.currentDirectory
    calls := s.parked s.tasking.currentTask }

/-- The context that the assembly of the call loads. -/
def Cpu.loads (s : Cpu) (c : Call) : Context := ⟨c.esp, c.ebp, c.eip, s.tasking.currentDirectory⟩

/-- The next statement of the call `c`, with `cs` the calls below it. -/
def execute (here : ℕ) (c : Call) (cs : List Call) (s : Cpu) : Cpu :=
  match c.next with
  | .nullCheck => s.goto c cs (if s.tasking.currentTask = 0 then .leave else .oneCheck)
  | .oneCheck => s.goto c cs (if onlyOne s.tasking then .leave else .readEsp)
  | .readEsp => s.goto { c with esp := c.regs.esp } cs .readEbp
  | .readEbp => s.goto { c with ebp := c.regs.ebp } cs .readEip
  | .readEip => s.goto { c with eip := here } cs .dummyCheck
  | .dummyCheck => s.goto c cs (if c.eip = 0x12345 then .leave else .saveEip)
  | .saveEip => (s.tell (saveEip c.eip s.tasking)).goto c cs .saveEsp
  | .saveEsp => (s.tell (saveEsp c.esp s.tasking)).goto c cs .saveEbp
  | .saveEbp => (s.tell (saveEbp c.ebp s.tasking)).goto c cs .advance
  | .advance => (s.tell (advance s.tasking)).goto c cs .wrap
  | .wrap => (s.tell (wrap s.tasking)).goto c cs .loadEip
  | .loadEip => s.goto { c with eip := (s.tasking.tasks s.tasking.currentTask).eip } cs .loadEsp
  | .loadEsp => s.goto { c with esp := (s.tasking.tasks s.tasking.currentTask).esp } cs .loadEbp
  | .loadEbp => s.goto { c with ebp := (s.tasking.tasks s.tasking.currentTask).ebp } cs .takeDirectory
  | .takeDirectory => (s.tell (takeDirectory s.tasking)).goto c cs .jump
  | .jump => (s.suspend here c cs).resume
  -- a timer call ends in `iret`, behind which interrupts are on again
  | .leave => { s with calls := cs, interrupts := s.interrupts || c.byTimer }

/-- At a jump, the context of the new current task is the one it was last suspended with. -/
def Cpu.RightJump (here : ℕ) (s : Cpu) : Prop :=
  ∀ c cs, s.calls = c :: cs → c.next = .jump →
    s.loads c = (s.suspend here c cs).suspended s.tasking.currentTask

inductive Event
  | tick (regs : Registers)
  | call (regs : Registers)
  | fork (fuel directory p eip : ℕ) (regs : Registers)
  | run

/-- Ticks arrive with interrupts on. Ordinary code, outside `switch_task`, calls `switch_task` and
`fork`. A run ends with a wrong jump. -/
inductive CpuStep (here : ℕ) (s : Cpu) : Event → Cpu → Prop
  | tick (regs : Registers) (hon : s.interrupts = true) :
      CpuStep here s (.tick regs) { s with interrupts := false, calls := Call.enter true regs :: s.calls }
  | call (regs : Registers) (hcode : s.calls = []) :
      CpuStep here s (.call regs) { s with calls := [Call.enter false regs] }
  | fork {fuel directory p eip : ℕ} {regs : Registers} {r : ℤ} {tasking : Tasking} (hcode : s.calls = [])
      (hp : FreshTask s.created p) (hrun : fork fuel directory p eip regs s.tasking = .ok (r, tasking)) :
      CpuStep here s (.fork fuel directory p eip regs)
        { s with
          tasking := tasking
          created := s.created ++ [p]
          parked := Function.update s.parked p []
          suspended := Function.update s.suspended p ⟨regs.esp, regs.ebp, eip, directory⟩ }
  | run {c : Call} {cs : List Call} (hcalls : s.calls = c :: cs) (hright : s.RightJump here) :
      CpuStep here s .run (execute here c cs s)

/-- The state behind `initialise_tasking`: the first task runs ordinary code. -/
structure CpuStart (s : Cpu) : Prop where
  tasking : ∃ p t, t.nextPid = 1 ∧ FreshTask [] p ∧ s.created = [p] ∧ s.running = p ∧
    s.tasking = initialiseTasking p t ∧ s.directory = t.currentDirectory
  interrupts : s.interrupts = true
  calls : s.calls = []

/-- A call has stored `esp` in its task and has not jumped yet. A tick behind `current_task->next` of the
last task finds no current task and returns. -/
def Cpu.switching (s : Cpu) : Prop :=
  match s.calls with
  | [] => False
  | c :: _ =>
    match c.next with
    | .saveEbp | .advance | .loadEip | .loadEsp | .loadEbp | .takeDirectory | .jump => True
    | .wrap => s.tasking.currentTask ≠ 0
    | _ => False

/-- No tick arrives in the middle of a switch. -/
def QuietTicks (s : Cpu) : Event → Prop
  | .tick _ => ¬ s.switching
  | _ => True

/-! ## The invariant -/

/-- The locals of a call are those of its frame. -/
structure Call.Read (here : ℕ) (c : Call) : Prop where
  esp : c.esp = c.regs.esp
  ebp : c.ebp = c.regs.ebp
  eip : c.eip = here

/-- A call that has not stored `esp` yet or is on its way out. `eip` is the one in the running task. -/
def Call.Calm (here eip : ℕ) (c : Call) : Prop :=
  match c.next with
  | .nullCheck | .oneCheck | .readEsp | .leave => True
  | .readEbp => c.esp = c.regs.esp
  | .readEip => c.esp = c.regs.esp ∧ c.ebp = c.regs.ebp
  | .dummyCheck => c.eip = 0x12345 ∨ c.Read here
  | .saveEip => c.Read here
  | .saveEsp => c.Read here ∧ eip = here
  | _ => False

/-- The running task holds the context of the call `c`. -/
structure Cpu.Holds (here : ℕ) (s : Cpu) (c : Call) : Prop where
  esp : (s.tasking.tasks s.running).esp = c.regs.esp
  ebp : (s.tasking.tasks s.running).ebp = c.regs.ebp
  eip : (s.tasking.tasks s.running).eip = here

/-- The task behind the running one, round the queue. -/
def Cpu.successor (s : Cpu) : ℕ := cyclicNext s.tasking.next s.tasking.readyQueue s.running

/-- A call between the store of `esp` and the jump. -/
def Call.Saving (here : ℕ) (s : Cpu) (c : Call) : Prop :=
  let current := s.tasking.tasks s.tasking.currentTask
  match c.next with
  | .saveEbp => s.tasking.currentTask = s.running ∧ c.ebp = c.regs.ebp ∧
      (s.tasking.tasks s.running).esp = c.regs.esp ∧ (s.tasking.tasks s.running).eip = here
  | .advance => s.tasking.currentTask = s.running ∧ s.Holds here c
  | .wrap => s.tasking.currentTask = s.tasking.next s.running ∧ s.Holds here c
  | .loadEip => s.tasking.currentTask = s.successor ∧ s.Holds here c
  | .loadEsp => s.tasking.currentTask = s.successor ∧ s.Holds here c ∧ c.eip = current.eip
  | .loadEbp => s.tasking.currentTask = s.successor ∧ s.Holds here c ∧ c.eip = current.eip ∧ c.esp = current.esp
  | .takeDirectory => s.tasking.currentTask = s.successor ∧ s.Holds here c ∧ c.eip = current.eip ∧
      c.esp = current.esp ∧ c.ebp = current.ebp
  | .jump => s.tasking.currentTask = s.successor ∧ s.Holds here c ∧ s.loads c = current.context
  | _ => False

/-- The calls of the running task. `nested` is a tick that found no current task. -/
inductive Cpu.Code (here : ℕ) (s : Cpu) : Prop
  | calm (hcurrent : s.tasking.currentTask = s.running)
      (hcalm : ∀ c ∈ s.calls, c.Calm here (s.tasking.tasks s.running).eip)
  | saving {c : Call} {cs : List Call} (hcalls : s.calls = c :: cs) (hsaving : c.Saving here s)
      (hcalm : ∀ d ∈ cs, d.Calm here (s.tasking.tasks s.running).eip)
  | nested {n c : Call} {cs : List Call} (hcalls : s.calls = n :: c :: cs) (hoff : s.interrupts = false)
      (hnull : s.tasking.currentTask = 0) (hn : n.next = .nullCheck ∨ n.next = .leave) (hwrap : c.next = .wrap)
      (hsaving : c.Saving here s) (hcalm : ∀ d ∈ cs, d.Calm here (s.tasking.tasks s.running).eip)

/-- `Tasking` with the task that really runs for the current one. -/
def Cpu.queue (s : Cpu) : Tasking := { s.tasking with currentTask := s.running }

structure Cpu.Safe (here : ℕ) (s : Cpu) : Prop where
  queue : QueueOf s.created s.queue
  directory : (s.tasking.tasks s.running).pageDirectory = s.directory
  slots : ∀ t ∈ s.created, t ≠ s.running → (s.tasking.tasks t).context = s.suspended t
  parked : ∀ t ∈ s.created, t ≠ s.running → ∀ c ∈ s.parked t, c.Calm here (s.suspended t).eip
  code : s.Code here

variable {here p : ℕ} {s s' : Cpu} {c d : Call} {cs : List Call} {next : Statement}

theorem SameQueue.queue {t : Tasking} (h : SameQueue s.tasking t) : SameQueue s.queue { t with currentTask := s.running } :=
  ⟨h.next, h.id, h.pageDirectory, h.readyQueue, h.nextPid⟩

/-- A step within the running task: the other tasks keep their contexts. -/
theorem Cpu.Safe.within (h : s.Safe here) {tasking : Tasking} {calls : List Call} {interrupts : Bool}
    (hsame : SameQueue s.tasking tasking) (hother : ∀ t, t ≠ s.running → tasking.tasks t = s.tasking.tasks t)
    (hcode : ({ s with tasking := tasking, calls := calls, interrupts := interrupts } : Cpu).Code here) :
    ({ s with tasking := tasking, calls := calls, interrupts := interrupts } : Cpu).Safe here := by
  refine ⟨h.queue.same hsame.queue h.queue.current, ?_, fun t ht hne => ?_, h.parked, hcode⟩
  · exact (hsame.pageDirectory _).trans h.directory
  · show (tasking.tasks t).context = _
    rw [hother t hne]
    exact h.slots t ht hne

theorem Cpu.Safe.goto (h : s.Safe here) (hcode : (s.goto c cs next).Code here) : (s.goto c cs next).Safe here :=
  h.within (SameQueue.refl _) (fun _ _ => rfl) hcode

/-- A calm call that goes on calmly. -/
theorem Cpu.Safe.goto_calm (h : s.Safe here) (hcurrent : s.tasking.currentTask = s.running)
    (hc : ({ c with next := next } : Call).Calm here (s.tasking.tasks s.running).eip)
    (hcalm : ∀ d ∈ cs, d.Calm here (s.tasking.tasks s.running).eip) : (s.goto c cs next).Safe here := by
  refine h.goto (.calm hcurrent fun d hd => ?_)
  rcases List.mem_cons.mp hd with rfl | hd
  · exact hc
  · exact hcalm d hd

theorem Cpu.Safe.goto_saving (h : s.Safe here)
    (hc : ({ c with next := next } : Call).Saving here (s.goto c cs next))
    (hcalm : ∀ d ∈ cs, d.Calm here (s.tasking.tasks s.running).eip) : (s.goto c cs next).Safe here :=
  h.goto (.saving rfl hc hcalm)

end PandaOS

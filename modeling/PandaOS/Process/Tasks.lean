import PandaOS.Library.LinkedList
import PandaOS.Library.Regions
import PandaOS.Machine.State

/-! `task.c`: the tasks in their list, `switch_task` and `fork`. A `task_t` is looked up by its
address. The results of `kmalloc` and `clone_directory`, and the values of the registers where the
code reads them, are arguments. -/
namespace PandaOS
open ByteMemory Word32
set_option autoImplicit false
set_option maxHeartbeats 250000

/-- `task_t`. -/
structure Task where
  id : ℤ
  esp : ℕ
  ebp : ℕ
  eip : ℕ
  pageDirectory : ℕ
  next : ℕ

def sizeofTask : ℕ := 24

/-- The globals of `task.c`, with `current_directory`. -/
structure Tasking where
  tasks : ℕ → Task
  currentTask : ℕ
  readyQueue : ℕ
  nextPid : ℕ
  currentDirectory : ℕ

/-- Assignments to fields of the task at `t`. -/
def Tasking.update (s : Tasking) (t : ℕ) (f : Task → Task) : Tasking :=
  { s with tasks := Function.update s.tasks t (f (s.tasks t)) }

/-! ## The statements of switch_task -/

/-- `current_task->eip = eip; current_task->esp = esp; current_task->ebp = ebp;` -/
def saveEip (eip : ℕ) (s : Tasking) : Tasking := s.update s.currentTask fun t => { t with eip := eip }
def saveEsp (esp : ℕ) (s : Tasking) : Tasking := s.update s.currentTask fun t => { t with esp := esp }
def saveEbp (ebp : ℕ) (s : Tasking) : Tasking := s.update s.currentTask fun t => { t with ebp := ebp }

/-- `current_task = current_task->next;` -/
def advance (s : Tasking) : Tasking := { s with currentTask := (s.tasks s.currentTask).next }

/-- `if (!current_task) current_task = ready_queue;` -/
def wrap (s : Tasking) : Tasking := if s.currentTask = 0 then { s with currentTask := s.readyQueue } else s

/-- `current_directory = current_task->page_directory;` -/
def takeDirectory (s : Tasking) : Tasking :=
  { s with currentDirectory := (s.tasks s.currentTask).pageDirectory }

/-- `current_task == ready_queue && current_task->next == 0` -/
def onlyOne (s : Tasking) : Bool := s.currentTask == s.readyQueue && (s.tasks s.currentTask).next == 0

/-- The stack and base pointer where a call reads them. -/
structure Registers where
  esp : ℕ
  ebp : ℕ

/-- `switch_task` up to the jump, with `eip` what `read_eip` returns. -/
def switchTask (eip : ℕ) (regs : Registers) (s : Tasking) : Tasking :=
  if s.currentTask = 0 then s
  else if onlyOne s then s
  else takeDirectory (wrap (advance (saveEbp regs.ebp (saveEsp regs.esp (saveEip eip s)))))

/-! ## initialise_tasking and fork -/

/-- The assignments to a new task, with `next_pid++`. -/
def newTask (p directory : ℕ) (s : Tasking) : Tasking :=
  let s := s.update p fun t => { t with id := toInt32 s.nextPid }
  let s := { s with nextPid := add32 s.nextPid 1 }
  s.update p fun t => { t with esp := 0, ebp := 0, eip := 0, pageDirectory := directory, next := 0 }

/-- `initialise_tasking` behind `move_stack`, with `p` from `kmalloc`. -/
def initialiseTasking (p : ℕ) (s : Tasking) : Tasking :=
  let s := { s with currentTask := p, readyQueue := p }
  newTask p s.currentDirectory s

/-- `while (tmp_task->next) tmp_task = tmp_task->next;` with `fuel` rounds left. -/
def lastTask (s : Tasking) : ℕ → ℕ → Result ℕ
  | 0, _ => .error .outOfFuel
  | fuel + 1, t => if (s.tasks t).next ≠ 0 then lastTask s fuel (s.tasks t).next else .ok t

/-- `fork` in the parent, with `directory` from `clone_directory` and `p` from `kmalloc`: the id of
the new task. -/
def fork (fuel directory p eip : ℕ) (regs : Registers) (s : Tasking) : Result (ℤ × Tasking) := do
  let parent := s.currentTask
  let s := newTask p directory s
  let last ← lastTask s fuel s.readyQueue
  let s := s.update last fun t => { t with next := p }
  if s.currentTask = parent then
    let s := s.update p fun t => { t with esp := regs.esp, ebp := regs.ebp, eip := eip }
    return ((s.tasks p).id, s)
  else return (0, s)

variable {s : Tasking} {t u p eip esp ebp directory : ℕ} {f : Task → Task} {regs : Registers}

@[simp] theorem Tasking.update_currentTask (s : Tasking) (t : ℕ) (f : Task → Task) :
    (s.update t f).currentTask = s.currentTask := rfl
@[simp] theorem Tasking.update_readyQueue (s : Tasking) (t : ℕ) (f : Task → Task) :
    (s.update t f).readyQueue = s.readyQueue := rfl
@[simp] theorem Tasking.update_nextPid (s : Tasking) (t : ℕ) (f : Task → Task) :
    (s.update t f).nextPid = s.nextPid := rfl
@[simp] theorem Tasking.update_currentDirectory (s : Tasking) (t : ℕ) (f : Task → Task) :
    (s.update t f).currentDirectory = s.currentDirectory := rfl

theorem Tasking.update_self (s : Tasking) (t : ℕ) (f : Task → Task) : (s.update t f).tasks t = f (s.tasks t) :=
  Function.update_self ..

theorem Tasking.update_of_ne (h : u ≠ t) : (s.update t f).tasks u = s.tasks u := Function.update_of_ne h ..

/-- A field that the assignments do not touch. -/
theorem Tasking.update_field {α : Type} (g : Task → α) (hg : g (f (s.tasks t)) = g (s.tasks t)) (u : ℕ) :
    g ((s.update t f).tasks u) = g (s.tasks u) := by
  by_cases h : u = t
  · rw [h, Tasking.update_self, hg]
  · rw [Tasking.update_of_ne h]

/-- The `next` pointers. -/
def Tasking.next (s : Tasking) (t : ℕ) : ℕ := (s.tasks t).next

/-- The queue that a saved context leaves as it is. -/
structure SameQueue (s s' : Tasking) : Prop where
  next : ∀ t, (s'.tasks t).next = (s.tasks t).next
  id : ∀ t, (s'.tasks t).id = (s.tasks t).id
  pageDirectory : ∀ t, (s'.tasks t).pageDirectory = (s.tasks t).pageDirectory
  readyQueue : s'.readyQueue = s.readyQueue
  nextPid : s'.nextPid = s.nextPid

theorem SameQueue.refl (s : Tasking) : SameQueue s s := ⟨fun _ => rfl, fun _ => rfl, fun _ => rfl, rfl, rfl⟩

theorem SameQueue.trans {s' s'' : Tasking} (h : SameQueue s s') (h' : SameQueue s' s'') : SameQueue s s'' :=
  ⟨fun t => (h'.next t).trans (h.next t), fun t => (h'.id t).trans (h.id t),
    fun t => (h'.pageDirectory t).trans (h.pageDirectory t), h'.readyQueue.trans h.readyQueue,
    h'.nextPid.trans h.nextPid⟩

theorem sameQueue_update (hnext : (f (s.tasks t)).next = (s.tasks t).next) (hid : (f (s.tasks t)).id = (s.tasks t).id)
    (hdir : (f (s.tasks t)).pageDirectory = (s.tasks t).pageDirectory) : SameQueue s (s.update t f) :=
  ⟨Tasking.update_field Task.next hnext, Tasking.update_field Task.id hid,
    Tasking.update_field Task.pageDirectory hdir, rfl, rfl⟩

theorem sameQueue_saveEip (eip : ℕ) (s : Tasking) : SameQueue s (saveEip eip s) := sameQueue_update rfl rfl rfl

theorem sameQueue_saveEsp (esp : ℕ) (s : Tasking) : SameQueue s (saveEsp esp s) := sameQueue_update rfl rfl rfl

theorem sameQueue_saveEbp (ebp : ℕ) (s : Tasking) : SameQueue s (saveEbp ebp s) := sameQueue_update rfl rfl rfl

theorem sameQueue_wrap (s : Tasking) : SameQueue s (wrap s) := by
  unfold wrap
  split
  · exact ⟨fun _ => rfl, fun _ => rfl, fun _ => rfl, rfl, rfl⟩
  · exact SameQueue.refl s

theorem sameQueue_switchTask (eip : ℕ) (regs : Registers) (s : Tasking) : SameQueue s (switchTask eip regs s) := by
  unfold switchTask
  split
  · exact SameQueue.refl s
  · split
    · exact SameQueue.refl s
    · have hsave := ((sameQueue_saveEip eip s).trans (sameQueue_saveEsp regs.esp _)).trans (sameQueue_saveEbp regs.ebp _)
      have hadvance : ∀ s : Tasking, SameQueue s (advance s) := fun s =>
        ⟨fun _ => rfl, fun _ => rfl, fun _ => rfl, rfl, rfl⟩
      have hdirectory : ∀ s : Tasking, SameQueue s (takeDirectory s) := fun s =>
        ⟨fun _ => rfl, fun _ => rfl, fun _ => rfl, rfl, rfl⟩
      exact ((hsave.trans (hadvance _)).trans (sameQueue_wrap _)).trans (hdirectory _)

end PandaOS

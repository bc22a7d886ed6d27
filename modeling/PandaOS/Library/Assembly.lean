import PandaOS.Library.PageWalk

/-! A 32-bit processor, as far as short routines of a kernel use it: they may switch paging and interrupts. A word
lies where the processor's walk puts it, or at its own address while paging is off. The flags that arithmetic leaves are
a parameter; a routine looks at one of them. -/
namespace Assembly
open ByteMemory PageWalk Word32
set_option autoImplicit false
set_option maxHeartbeats 250000

inductive Reg
  | eax
  | ebx
  | ecx
  | edx
  | esp
  deriving DecidableEq, Repr

structure Cpu where
  reg : Reg → ℕ
  eflags : ℕ
  cr0 : ℕ
  cr3 : ℕ
  mem : Mem

inductive Instr
  | push (r : Reg)
  | pop (r : Reg)
  | pushf
  | popf
  | cli
  | load (d b : Reg) (offset : ℕ)
  | store (b s : Reg)
  | mov (d : Reg) (n : ℕ)
  | movFromCr0 (d : Reg)
  | movToCr0 (s : Reg)
  | and (d : Reg) (n : ℕ)
  | or (d : Reg) (n : ℕ)
  | add (d : Reg) (n : ℕ)
  | dec (d : Reg)
  | jnz (line : ℕ)
  | jmp (r : Reg)
  | ret
  deriving DecidableEq, Repr

/-- The flags after an arithmetic instruction. -/
abbrev Flags := Instr → Cpu → ℕ

/-- A processor's flags: the zero flag is right, and arithmetic does not touch the interrupt flag. -/
structure Lawful (f : Flags) : Prop where
  zero : ∀ r c, (f (.dec r) c).testBit 6 = decide (sub32 (c.reg r) 1 = 0)
  interrupt : ∀ i c, (f i c).testBit 9 = c.eflags.testBit 9

/-- A line of the routine, or an address outside. -/
inductive Place
  | line (n : ℕ)
  | address (a : ℕ)
  deriving DecidableEq, Repr

structure State where
  place : Place
  cpu : Cpu

def Cpu.set (c : Cpu) (r : Reg) (v : ℕ) : Cpu := { c with reg := Function.update c.reg r v }

def Cpu.paging (c : Cpu) : Bool := c.cr0.testBit 31

def Cpu.interrupts (c : Cpu) : Bool := c.eflags.testBit 9

/-- Where the word at `v` lies. Words that cross the end of a page are left out. -/
def Cpu.physical (c : Cpu) (v : ℕ) : Option ℕ :=
  if c.paging then if v % 4096 ≤ 4092 then (walk c.mem c.cr3 v).map Mapping.address else none else some v

def Cpu.read (c : Cpu) (v : ℕ) : Option ℕ := (c.physical v).map (load32 c.mem)

def Cpu.write (c : Cpu) (v x : ℕ) : Option Cpu := (c.physical v).map fun a => { c with mem := store32 c.mem a x }

def Cpu.pushWord (c : Cpu) (x : ℕ) : Option Cpu :=
  (c.set .esp (sub32 (c.reg .esp) 4)).write (sub32 (c.reg .esp) 4) x

/-- The word at the top of the stack, and the processor without it. -/
def Cpu.popWord (c : Cpu) : Option (ℕ × Cpu) := (c.read (c.reg .esp)).map fun x => (x, c.set .esp (add32 (c.reg .esp) 4))

/-- What an instruction does that is not a jump. -/
def exec (f : Flags) : Instr → Cpu → Option Cpu
  | .push r, c => c.pushWord (c.reg r)
  | .pop r, c => c.popWord.map fun w => w.2.set r w.1
  | .pushf, c => c.pushWord c.eflags
  | .popf, c => c.popWord.map fun w => { w.2 with eflags := w.1 }
  | .cli, c => some { c with eflags := c.eflags &&& 0xFFFFFDFF }
  | .load d b offset, c => (c.read (add32 (c.reg b) offset)).map (c.set d)
  | .store b s, c => c.write (c.reg b) (c.reg s)
  | .mov d n, c => some (c.set d n)
  | .movFromCr0 d, c => some (c.set d c.cr0)
  | .movToCr0 s, c => some { c with cr0 := c.reg s }
  | .and d n, c => some { c.set d (c.reg d &&& n) with eflags := f (.and d n) c }
  | .or d n, c => some { c.set d (c.reg d ||| n) with eflags := f (.or d n) c }
  | .add d n, c => some { c.set d (add32 (c.reg d) n) with eflags := f (.add d n) c }
  | .dec d, c => some { c.set d (sub32 (c.reg d) 1) with eflags := f (.dec d) c }
  | .jnz _, _ => none
  | .jmp _, _ => none
  | .ret, _ => none

def step (f : Flags) (code : List Instr) (s : State) : Option State :=
  match s.place with
  | .address _ => none
  | .line n =>
    match code[n]? with
    | none => none
    | some (.jnz target) => some ⟨.line (if s.cpu.eflags.testBit 6 then n + 1 else target), s.cpu⟩
    | some (.jmp r) => some ⟨.address (s.cpu.reg r), s.cpu⟩
    | some .ret => s.cpu.popWord.map fun w => ⟨.address w.1, w.2⟩
    | some i => (exec f i s.cpu).map fun c => ⟨.line (n + 1), c⟩

/-- From one state to another in some number of steps. -/
def Runs (f : Flags) (code : List Instr) : State → State → Prop :=
  Relation.ReflTransGen fun s s' => step f code s = some s'

variable {f : Flags} {code : List Instr} {s s' : State} {c c' : Cpu} {n : ℕ} {r q : Reg} {v a x : ℕ} {m : Mem}

/-! ## Registers -/

@[simp] theorem Cpu.set_self (c : Cpu) (r : Reg) (v : ℕ) : (c.set r v).reg r = v := Function.update_self ..

@[simp] theorem Cpu.set_of_ne (h : q ≠ r) : (c.set r v).reg q = c.reg q := Function.update_of_ne h ..

@[simp] theorem Cpu.set_eflags (c : Cpu) (r : Reg) (v : ℕ) : (c.set r v).eflags = c.eflags := rfl

/-! ## Memory -/

theorem Cpu.read_of (h : c.physical v = some a) : c.read v = some (load32 c.mem a) := by rw [Cpu.read, h]; rfl

theorem Cpu.write_of (h : c.physical v = some a) (x : ℕ) : c.write v x = some { c with mem := store32 c.mem a x } := by
  rw [Cpu.write, h]
  rfl

theorem Cpu.physical_off (h : c.paging = false) (v : ℕ) : c.physical v = some v := by
  rw [Cpu.physical, h]
  rfl

theorem Cpu.popWord_of (h : c.physical (c.reg .esp) = some a) :
    c.popWord = some (load32 c.mem a, c.set .esp (add32 (c.reg .esp) 4)) := by
  rw [Cpu.popWord, Cpu.read_of h]
  rfl

theorem Cpu.pushWord_of (h : c.physical (sub32 (c.reg .esp) 4) = some a) (x : ℕ) :
    c.pushWord x = some { c.set .esp (sub32 (c.reg .esp) 4) with mem := store32 c.mem a x } := by
  have hphysical : (c.set .esp (sub32 (c.reg .esp) 4)).physical (sub32 (c.reg .esp) 4) = some a := h
  exact Cpu.write_of hphysical x

/-! ## Instructions -/

section Instructions
variable {d b : Reg} {offset e : ℕ}

theorem step_push (hcode : code[n]? = some (.push r)) (he : c.reg .esp = e + 4) (hlt : e + 4 < 4294967296)
    (ha : c.physical e = some a) :
    step f code ⟨.line n, c⟩ = some ⟨.line (n + 1), { c.set .esp e with mem := store32 c.mem a (c.reg r) }⟩ := by
  have hesp : sub32 (c.reg .esp) 4 = e := by rw [he, sub32_of_le (by omega) hlt, Nat.add_sub_cancel]
  have hpush := Cpu.pushWord_of (c := c) (hesp.symm ▸ ha) (c.reg r)
  rw [hesp] at hpush
  simp only [step, hcode, exec, hpush, Option.map_some]

theorem step_pushf (hcode : code[n]? = some .pushf) (he : c.reg .esp = e + 4) (hlt : e + 4 < 4294967296)
    (ha : c.physical e = some a) :
    step f code ⟨.line n, c⟩ = some ⟨.line (n + 1), { c.set .esp e with mem := store32 c.mem a c.eflags }⟩ := by
  have hesp : sub32 (c.reg .esp) 4 = e := by rw [he, sub32_of_le (by omega) hlt, Nat.add_sub_cancel]
  have hpush := Cpu.pushWord_of (c := c) (hesp.symm ▸ ha) c.eflags
  rw [hesp] at hpush
  simp only [step, hcode, exec, hpush, Option.map_some]

theorem step_pop (hcode : code[n]? = some (.pop r)) (ha : c.physical (c.reg .esp) = some a) :
    step f code ⟨.line n, c⟩ =
      some ⟨.line (n + 1), (c.set .esp (add32 (c.reg .esp) 4)).set r (load32 c.mem a)⟩ := by
  simp only [step, hcode, exec, Cpu.popWord_of ha, Option.map_some]

theorem step_popf (hcode : code[n]? = some .popf) (ha : c.physical (c.reg .esp) = some a) :
    step f code ⟨.line n, c⟩ =
      some ⟨.line (n + 1), { c.set .esp (add32 (c.reg .esp) 4) with eflags := load32 c.mem a }⟩ := by
  simp only [step, hcode, exec, Cpu.popWord_of ha, Option.map_some]

theorem step_ret (hcode : code[n]? = some .ret) (ha : c.physical (c.reg .esp) = some a) :
    step f code ⟨.line n, c⟩ = some ⟨.address (load32 c.mem a), c.set .esp (add32 (c.reg .esp) 4)⟩ := by
  simp only [step, hcode, Cpu.popWord_of ha, Option.map_some]

theorem step_load (hcode : code[n]? = some (.load d b offset)) (hv : add32 (c.reg b) offset = v) (ha : c.physical v = some a) :
    step f code ⟨.line n, c⟩ = some ⟨.line (n + 1), c.set d (load32 c.mem a)⟩ := by
  simp only [step, hcode, exec, hv, Cpu.read_of ha, Option.map_some]

theorem step_store (hcode : code[n]? = some (.store b r)) (ha : c.physical (c.reg b) = some a) :
    step f code ⟨.line n, c⟩ = some ⟨.line (n + 1), { c with mem := store32 c.mem a (c.reg r) }⟩ := by
  simp only [step, hcode, exec, Cpu.write_of ha, Option.map_some]

/-- An instruction that does not look at the memory. -/
theorem step_exec {i : Instr} (hcode : code[n]? = some i) (hexec : exec f i c = some c') :
    step f code ⟨.line n, c⟩ = some ⟨.line (n + 1), c'⟩ := by
  cases i with
  | jnz | jmp | ret => cases hexec
  | _ => simp only [step, hcode, hexec, Option.map_some]

theorem step_jnz {target : ℕ} (hcode : code[n]? = some (.jnz target)) :
    step f code ⟨.line n, c⟩ = some ⟨.line (if c.eflags.testBit 6 then n + 1 else target), c⟩ := by
  simp only [step, hcode]

theorem step_jmp (hcode : code[n]? = some (.jmp r)) : step f code ⟨.line n, c⟩ = some ⟨.address (c.reg r), c⟩ := by
  simp only [step, hcode]

end Instructions

/-! ## What an instruction leaves alone -/

/-- It may switch paging. -/
def Instr.control : Instr → Bool
  | .movToCr0 _ => true
  | _ => false

/-- It may switch interrupts. -/
def Instr.interrupt : Instr → Bool
  | .popf | .cli => true
  | _ => false

theorem Cpu.write_some (h : c.write v x = some c') : c'.cr0 = c.cr0 ∧ c'.eflags = c.eflags := by
  obtain ⟨a, -, rfl⟩ := Option.map_eq_some_iff.mp h
  exact ⟨rfl, rfl⟩

theorem Cpu.pushWord_some (h : c.pushWord x = some c') : c'.cr0 = c.cr0 ∧ c'.eflags = c.eflags := by
  obtain ⟨a, -, rfl⟩ := Option.map_eq_some_iff.mp h
  exact ⟨rfl, rfl⟩

theorem Cpu.popWord_some {w : ℕ × Cpu} (h : c.popWord = some w) : w.2.cr0 = c.cr0 ∧ w.2.eflags = c.eflags := by
  obtain ⟨a, -, rfl⟩ := Option.map_eq_some_iff.mp h
  exact ⟨rfl, rfl⟩

theorem exec_paging {i : Instr} (h : exec f i c = some c') (hi : i.control = false) : c'.paging = c.paging := by
  have hcr0 : c'.cr0 = c.cr0 := by
    cases i with
    | push | pushf => exact (Cpu.pushWord_some h).1
    | pop | popf =>
      obtain ⟨w, hpop, rfl⟩ := Option.map_eq_some_iff.mp h
      exact (Cpu.popWord_some hpop).1
    | load =>
      obtain ⟨y, -, rfl⟩ := Option.map_eq_some_iff.mp h
      rfl
    | store => exact (Cpu.write_some h).1
    | movToCr0 => cases hi
    | jnz | jmp | ret => cases h
    | _ =>
      cases h
      rfl
  rw [Cpu.paging, hcr0, Cpu.paging]

theorem exec_interrupts {i : Instr} (hf : Lawful f) (h : exec f i c = some c') (hi : i.interrupt = false) :
    c'.interrupts = c.interrupts := by
  unfold Cpu.interrupts
  cases i with
  | push | pushf => rw [(Cpu.pushWord_some h).2]
  | pop =>
    obtain ⟨w, hpop, rfl⟩ := Option.map_eq_some_iff.mp h
    show w.2.eflags.testBit 9 = _
    rw [(Cpu.popWord_some hpop).2]
  | popf | cli => cases hi
  | load =>
    obtain ⟨y, -, rfl⟩ := Option.map_eq_some_iff.mp h
    rfl
  | store => rw [(Cpu.write_some h).2]
  | and | or | add | dec =>
    cases h
    exact hf.interrupt _ _
  | jnz | jmp | ret => cases h
  | _ =>
    cases h
    rfl

/-- Everything that a step can do. -/
theorem step_cases (h : step f code ⟨.line n, c⟩ = some s') : ∃ i, code[n]? = some i ∧
    ((∃ c', exec f i c = some c' ∧ s' = ⟨.line (n + 1), c'⟩) ∨
      (∃ target, i = .jnz target ∧ s' = ⟨.line (if c.eflags.testBit 6 then n + 1 else target), c⟩) ∨
      (∃ r, i = .jmp r ∧ s' = ⟨.address (c.reg r), c⟩) ∨
      (i = .ret ∧ ∃ w, c.popWord = some w ∧ s' = ⟨.address w.1, w.2⟩)) := by
  unfold step at h
  dsimp only at h
  cases hcode : code[n]? with
  | none =>
    rw [hcode] at h
    cases h
  | some i =>
    rw [hcode] at h
    refine ⟨i, rfl, ?_⟩
    cases i with
    | jnz target =>
      cases h
      exact Or.inr (Or.inl ⟨target, rfl, rfl⟩)
    | jmp r =>
      cases h
      exact Or.inr (Or.inr (Or.inl ⟨r, rfl, rfl⟩))
    | ret =>
      obtain ⟨w, hpop, rfl⟩ := Option.map_eq_some_iff.mp h
      exact Or.inr (Or.inr (Or.inr ⟨rfl, w, hpop, rfl⟩))
    | _ =>
      obtain ⟨c', hexec, rfl⟩ := Option.map_eq_some_iff.mp h
      exact Or.inl ⟨c', hexec, rfl⟩

/-! ## Runs -/

theorem Runs.refl (s : State) : Runs f code s s := Relation.ReflTransGen.refl

theorem Runs.trans {s'' : State} (h : Runs f code s s') (h' : Runs f code s' s'') : Runs f code s s'' :=
  Relation.ReflTransGen.trans h h'

theorem Runs.head {s'' : State} (h : step f code s = some s') (h' : Runs f code s' s'') : Runs f code s s'' :=
  Relation.ReflTransGen.head h h'

/-- What every step preserves holds in every state of a run. -/
theorem Runs.invariant {inv : State → Prop} (h : Runs f code s s') (hs : inv s)
    (hstep : ∀ t t', inv t → step f code t = some t' → inv t') : inv s' := by
  induction h with
  | refl => exact hs
  | tail _ hlast ih => exact hstep _ _ ih hlast

/-- A loop whose rounds count down. -/
theorem Runs.loop (inv : ℕ → State → Prop) (h : ∀ n s, inv (n + 1) s → ∃ s', Runs f code s s' ∧ inv n s') (hs : inv n s) :
    ∃ s', Runs f code s s' ∧ inv 0 s' := by
  induction n generalizing s with
  | zero => exact ⟨s, Runs.refl s, hs⟩
  | succ n ih =>
    obtain ⟨s1, hrun, hs1⟩ := h n s hs
    obtain ⟨s', hrest, hs'⟩ := ih hs1
    exact ⟨s', hrun.trans hrest, hs'⟩

end Assembly

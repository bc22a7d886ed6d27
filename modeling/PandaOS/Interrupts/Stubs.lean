import PandaOS.Library.WordStack

/-! `interrupt.s`: the stubs of the 48 vectors, as the instructions they consist of. The CPU pushes
eflags, cs and eip, and for some exceptions an error code, on the stack it is running on: the kernel
sets up no task segment, so an interrupt never changes the stack. -/
namespace PandaOS.Interrupts
open WordStack
set_option autoImplicit false
set_option maxHeartbeats 250000

structure Cpu where
  eax : BitVec 32
  ebx : BitVec 32
  ecx : BitVec 32
  edx : BitVec 32
  esi : BitVec 32
  edi : BitVec 32
  ebp : BitVec 32
  esp : BitVec 32
  eip : BitVec 32
  eflags : BitVec 32
  cs : BitVec 16
  ds : BitVec 16
  es : BitVec 16
  fs : BitVec 16
  gs : BitVec 16
  mem : Memory

def Cpu.push (c : Cpu) (v : BitVec 32) : Cpu :=
  { c with esp := c.esp - 4, mem := store c.mem (c.esp - 4) v }

/-- The words are pushed in the order of the list. -/
def Cpu.pushAll (c : Cpu) (ws : List (BitVec 32)) : Cpu := ws.foldl Cpu.push c

/-- The word at the top of the stack. -/
def Cpu.top (c : Cpu) : BitVec 32 := load c.mem c.esp

def Cpu.drop (c : Cpu) (n : BitVec 32) : Cpu := { c with esp := c.esp + n }

inductive Instr
  | pushByte (n : BitVec 8)
  | pusha
  | movAxDs
  | pushEax
  | movAx (n : BitVec 16)
  | movDsAx
  | movEsAx
  | movFsAx
  | movGsAx
  | pushEsp
  | call
  | addEsp (n : BitVec 32)
  | popEax
  | popa
  | iret
  deriving DecidableEq

/-- A C function that a stub calls. It returns with the stack pointer it was entered with, and does
not change the 64 bytes of the `registers_t` whose address is its argument. -/
structure Handler where
  returnAddress : BitVec 32
  run : Cpu → Cpu
  esp : ∀ c, (run c).esp = c.esp
  registers : ∀ c, ∀ i < 64, (run c).mem (load c.mem (c.esp + 4) + BitVec.ofNat 32 i) =
    c.mem (load c.mem (c.esp + 4) + BitVec.ofNat 32 i)

def exec (h : Handler) : Instr → Cpu → Cpu
  | .pushByte n, c => c.push (n.signExtend 32)
  | .pusha, c => c.pushAll [c.eax, c.ecx, c.edx, c.ebx, c.esp, c.ebp, c.esi, c.edi]
  | .movAxDs, c => { c with eax := c.eax.extractLsb' 16 16 ++ c.ds }
  | .pushEax, c => c.push c.eax
  | .movAx n, c => { c with eax := c.eax.extractLsb' 16 16 ++ n }
  | .movDsAx, c => { c with ds := c.eax.setWidth 16 }
  | .movEsAx, c => { c with es := c.eax.setWidth 16 }
  | .movFsAx, c => { c with fs := c.eax.setWidth 16 }
  | .movGsAx, c => { c with gs := c.eax.setWidth 16 }
  | .pushEsp, c => c.push c.esp
  | .call, c => (h.run (c.push h.returnAddress)).drop 4
  | .addEsp n, c => c.drop n
  | .popEax, c => { c.drop 4 with eax := c.top }
  | .popa, c =>
    { c.drop 32 with
      edi := load c.mem c.esp
      esi := load c.mem (c.esp + 4)
      ebp := load c.mem (c.esp + 8)
      ebx := load c.mem (c.esp + 16)
      edx := load c.mem (c.esp + 20)
      ecx := load c.mem (c.esp + 24)
      eax := load c.mem (c.esp + 28) }
  | .iret, c =>
    { c.drop 12 with
      eip := load c.mem c.esp
      cs := (load c.mem (c.esp + 4)).setWidth 16
      eflags := load c.mem (c.esp + 8) }

def execAll (h : Handler) (code : List Instr) (c : Cpu) : Cpu := code.foldl (fun c i => exec h i c) c

/-! ## The stubs -/

/-- The text of `isr_common_stub` and of `irq_common_stub`, which call different functions. -/
def commonStub : List Instr :=
  [.pusha, .movAxDs, .pushEax, .movAx 0x10, .movDsAx, .movEsAx, .movFsAx, .movGsAx, .pushEsp, .call,
   .addEsp 4, .popEax, .movDsAx, .movEsAx, .movFsAx, .movGsAx, .popa, .addEsp 8, .iret]

def isrCommonStub : List Instr := commonStub

def irqCommonStub : List Instr := commonStub

/-- `ISR_NOERRCODE` -/
def isrNoErrCode (n : ℕ) : List Instr :=
  [.pushByte 0, .pushByte (BitVec.ofNat 8 n)] ++ isrCommonStub

/-- `ISR_ERRCODE` -/
def isrErrCode (n : ℕ) : List Instr := [.pushByte (BitVec.ofNat 8 n)] ++ isrCommonStub

/-- `IRQ` -/
def irq (_ : ℕ) (vector : ℕ) : List Instr :=
  [.pushByte 0, .pushByte (BitVec.ofNat 8 vector)] ++ irqCommonStub

/-- The stubs in the order in which `init_idt` enters them. -/
def stubs : List (List Instr) :=
  [isrNoErrCode 0, isrNoErrCode 1, isrNoErrCode 2, isrNoErrCode 3, isrNoErrCode 4, isrNoErrCode 5,
   isrNoErrCode 6, isrNoErrCode 7, isrErrCode 8, isrNoErrCode 9, isrErrCode 10, isrErrCode 11,
   isrErrCode 12, isrErrCode 13, isrErrCode 14, isrNoErrCode 15, isrNoErrCode 16, isrNoErrCode 17,
   isrNoErrCode 18, isrNoErrCode 19, isrNoErrCode 20, isrNoErrCode 21, isrNoErrCode 22,
   isrNoErrCode 23, isrNoErrCode 24, isrNoErrCode 25, isrNoErrCode 26, isrNoErrCode 27,
   isrNoErrCode 28, isrNoErrCode 29, isrNoErrCode 30, isrNoErrCode 31,
   irq 0 32, irq 1 33, irq 2 34, irq 3 35, irq 4 36, irq 5 37, irq 6 38, irq 7 39, irq 8 40, irq 9 41,
   irq 10 42, irq 11 43, irq 12 44, irq 13 45, irq 14 46, irq 15 47]

def stub (vector : ℕ) : List Instr := stubs.getD vector []

/-! ## The CPU's part -/

/-- The exceptions for which the CPU pushes an error code. -/
def PushesErrorCode (vector : ℕ) : Prop :=
  vector = 8 ∨ (10 ≤ vector ∧ vector ≤ 14) ∨ vector = 17 ∨ vector = 21

instance (vector : ℕ) : Decidable (PushesErrorCode vector) := inferInstanceAs (Decidable (_ ∨ _))

/-- The state in which the stub starts. The gates are interrupt gates, which clear IF. -/
def interrupt (vector : ℕ) (errorCode : BitVec 32) (c : Cpu) : Cpu :=
  let c' := ((c.push c.eflags).push (c.cs.setWidth 32)).push c.eip
  let c' := { c' with eflags := c.eflags &&& ~~~0x200 }
  if PushesErrorCode vector then c'.push errorCode else c'

/-- The state in which the stub of the vector executes its first instruction `i`. -/
def stateAt (i : Instr) (vector : ℕ) (errorCode : BitVec 32) (h : Handler) (c : Cpu) : Cpu :=
  execAll h ((stub vector).takeWhile (· ≠ i)) (interrupt vector errorCode c)

/-- `registers_t`; `useresp` and `ss` lie in what the interrupted code had on its stack. -/
structure Registers where
  ds : BitVec 32
  edi : BitVec 32
  esi : BitVec 32
  ebp : BitVec 32
  esp : BitVec 32
  ebx : BitVec 32
  edx : BitVec 32
  ecx : BitVec 32
  eax : BitVec 32
  intNo : BitVec 32
  errCode : BitVec 32
  eip : BitVec 32
  cs : BitVec 32
  eflags : BitVec 32
  useresp : BitVec 32
  ss : BitVec 32

def readRegisters (m : Memory) (p : BitVec 32) : Registers where
  ds := load m p
  edi := load m (p + 4)
  esi := load m (p + 8)
  ebp := load m (p + 12)
  esp := load m (p + 16)
  ebx := load m (p + 20)
  edx := load m (p + 24)
  ecx := load m (p + 28)
  eax := load m (p + 32)
  intNo := load m (p + 36)
  errCode := load m (p + 40)
  eip := load m (p + 44)
  cs := load m (p + 48)
  eflags := load m (p + 52)
  useresp := load m (p + 56)
  ss := load m (p + 60)

/-- The `registers_t` behind the pointer that is on the stack when the handler is called. -/
def seenRegisters (c : Cpu) : Registers := readRegisters c.mem c.top

end PandaOS.Interrupts

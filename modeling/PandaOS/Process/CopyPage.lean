import PandaOS.Library.Assembly
import PandaOS.Memory.FrameCopies

/-! `process.s`, instruction by instruction: `read_eip`, and `copy_page_physical`, which does what the model of
`clone_table` takes it to do, and leaves everything but three registers as it was. -/
namespace PandaOS
open Assembly ByteMemory PageWalk Word32
set_option autoImplicit false
set_option maxHeartbeats 250000

def readEipCode : List Instr := [.pop .eax, .jmp .eax]

/-- `.loop` is line 9. -/
def copyPagePhysicalCode : List Instr :=
  [.push .ebx, .pushf, .cli, .load .ebx .esp 12, .load .ecx .esp 16, .movFromCr0 .edx, .and .edx 0x7fffffff, .movToCr0 .edx,
   .mov .edx 1024, .load .eax .ebx 0, .store .ecx .eax, .add .ebx 4, .add .ecx 4, .dec .edx, .jnz 9, .movFromCr0 .edx,
   .or .edx 0x80000000, .movToCr0 .edx, .popf, .pop .ebx, .ret]

/-- A call of `copy_page_physical`. The five words of its stack, from the lowest, lie at `p 0` to `p 4`: the flags and
`ebx` when they have been pushed, the return address and the two arguments. The page that is written and the pushed
words are apart from the tables that map the stack. -/
structure CopyCall (c : Assembly.Cpu) (src dest ret : ℕ) (p : ℕ → ℕ) : Prop where
  paging : c.paging = true
  words : c.eflags < 4294967296 ∧ c.cr0 < 4294967296 ∧ c.reg .ebx < 4294967296
  stack : 8 ≤ c.reg .esp ∧ c.reg .esp + 12 ≤ 4294967296 ∧ c.reg .esp % 4 = 0
  places : ∀ k < 5, (walk c.mem c.cr3 (c.reg .esp - 8 + 4*k)).map Mapping.address = some (p k)
  tables : ∀ k < 5, ∀ r ∈ [(dest, 4096), (p 0, 4), (p 1, 4)],
    Apart (directorySlot c.cr3 (c.reg .esp - 8 + 4*k), 4) r ∧
      Apart (tableSlot (load32 c.mem (directorySlot c.cr3 (c.reg .esp - 8 + 4*k))) (c.reg .esp - 8 + 4*k), 4) r
  apart : ∀ j < 5, ∀ k < 5, j ≠ k → Apart (p j, 4) (p k, 4)
  kept : ∀ k < 3, Apart (p k, 4) (dest, 4096)
  room : dest + 4096 ≤ 4294967296
  arguments : load32 c.mem (p 2) = ret ∧ load32 c.mem (p 3) = src ∧ load32 c.mem (p 4) = dest

/-- The physical memory when the flags and `ebx` have been pushed. -/
def pushedMem (c : Assembly.Cpu) (p : ℕ → ℕ) : Mem := store32 (store32 c.mem (p 1) (c.reg .ebx)) (p 0) c.eflags

variable {f : Flags} {c c' : Assembly.Cpu} {src dest ret a n : ℕ} {p : ℕ → ℕ} {m m' : Mem}

theorem read_eip_returns (f : Flags) (h : c.physical (c.reg .esp) = some a) :
    ∃ c', Runs f readEipCode ⟨.line 0, c⟩ ⟨.address (load32 c.mem a), c'⟩ ∧ c'.reg .eax = load32 c.mem a ∧
      c'.reg .esp = add32 (c.reg .esp) 4 ∧ c'.mem = c.mem := by
  obtain ⟨x, hx⟩ : ∃ x, x = (c.set .esp (add32 (c.reg .esp) 4)).set .eax (load32 c.mem a) := ⟨_, rfl⟩
  obtain ⟨heax, hesp, hmem⟩ : x.reg .eax = load32 c.mem a ∧ x.reg .esp = add32 (c.reg .esp) 4 ∧ x.mem = c.mem := by
    rw [hx]
    exact ⟨rfl, rfl, rfl⟩
  have hpop : step f readEipCode ⟨.line 0, c⟩ = some ⟨.line 1, x⟩ := by
    rw [hx]
    exact step_pop rfl h
  have hjmp : step f readEipCode ⟨.line 1, x⟩ = some ⟨.address (load32 c.mem a), x⟩ := by
    rw [← heax]
    exact step_jmp rfl
  exact ⟨x, Runs.head hpop <| Runs.head hjmp <| Runs.refl _, heax, hesp, hmem⟩

/-! ## The stack -/

/-- The pushed words and the page have been written, nothing else. -/
def CopyTouch (dest : ℕ) (p : ℕ → ℕ) (m m' : Mem) : Prop :=
  ∀ x, (∀ r ∈ [(dest, 4096), (p 0, 4), (p 1, 4)], x < r.1 ∨ r.1 + r.2 ≤ x) → m' x = m x

theorem CopyTouch.sameOn {q : ℕ × ℕ} (h : CopyTouch dest p m m') (hq : ∀ r ∈ [(dest, 4096), (p 0, 4), (p 1, 4)], Apart q r) :
    SameOn m m' q.1 (q.1 + q.2) := by
  intro x hl hh
  refine h x fun r hr => ?_
  have hapart := hq r hr
  unfold Apart at hapart
  omega

/-- As long as nothing else is written, the words of the stack stay where they are. -/
theorem CopyCall.physical {e : ℕ} (h : CopyCall c src dest ret p) (he : c.reg .esp = e + 8) (hcr3 : c'.cr3 = c.cr3)
    (hpaging : c'.paging = true) (hm : CopyTouch dest p c.mem c'.mem) {k : ℕ} (hk : k < 5) :
    c'.physical (e + 4*k) = some (p k) := by
  have hplace := h.places k hk
  have htables := h.tables k hk
  obtain ⟨-, -, haligned⟩ := h.stack
  rw [he, Nat.add_sub_cancel] at hplace htables
  obtain ⟨hdir, htable⟩ : SameOn c.mem c'.mem (directorySlot c.cr3 (e + 4*k)) (directorySlot c.cr3 (e + 4*k) + 4) ∧
      SameOn c.mem c'.mem (tableSlot (load32 c.mem (directorySlot c.cr3 (e + 4*k))) (e + 4*k))
        (tableSlot (load32 c.mem (directorySlot c.cr3 (e + 4*k))) (e + 4*k) + 4) :=
    ⟨hm.sameOn fun r hr => (htables r hr).1, hm.sameOn fun r hr => (htables r hr).2⟩
  rw [Cpu.physical, if_pos hpaging, if_pos (by omega), hcr3, walk_congr hdir htable]
  exact hplace

theorem copyTouch_pushed (c : Assembly.Cpu) (p : ℕ → ℕ) (dest : ℕ) : CopyTouch dest p c.mem (pushedMem c p) := by
  intro x hx
  have h0 := hx (p 0, 4) (by simp)
  have h1 := hx (p 1, 4) (by simp)
  rw [pushedMem, store32_of_off h0, store32_of_off h1]

theorem CopyTouch.of_off (h : CopyTouch dest p m m') {m'' : Mem} (hoff : SameOff m' m'' dest (dest + 4096)) :
    CopyTouch dest p m m'' := fun x hx => (hoff x (hx (dest, 4096) (by simp))).trans (h x hx)

theorem CopyCall.pushed (h : CopyCall c src dest ret p) : load32 (pushedMem c p) (p 0) = c.eflags ∧
    load32 (pushedMem c p) (p 1) = c.reg .ebx ∧ ∀ k, 2 ≤ k → k < 5 → load32 (pushedMem c p) (p k) = load32 c.mem (p k) := by
  obtain ⟨heflags, -, hebx⟩ := h.words
  have hoff : ∀ j < 5, ∀ k < 5, j ≠ k → p k + 4 ≤ p j ∨ p j + 4 ≤ p k := fun j hj k hk hjk => (h.apart j hj k hk hjk).symm
  refine ⟨load32_store32_of_lt heflags, ?_, fun k hlow hk => ?_⟩
  · rw [pushedMem, load32_store32_of_off (hoff 0 (by norm_num) 1 (by norm_num) (by norm_num)), load32_store32_of_lt hebx]
  · rw [pushedMem, load32_store32_of_off (hoff 0 (by norm_num) k hk (by omega)),
      load32_store32_of_off (hoff 1 (by norm_num) k hk (by omega))]

/-! ## The routine -/

/-- In the loop with `n` words left to copy, or behind it. -/
structure InCopy (c : Assembly.Cpu) (src dest : ℕ) (p : ℕ → ℕ) (n : ℕ) (s : State) : Prop where
  place : s.place = .line (if n = 0 then 15 else 9)
  count : s.cpu.reg .edx = n ∧ n ≤ 1024
  source : s.cpu.reg .ebx < 4294967296
  esp : s.cpu.reg .esp = c.reg .esp - 8
  control : s.cpu.cr0 = c.cr0 &&& 0x7fffffff ∧ s.cpu.cr3 = c.cr3
  copies : copyWords n (s.cpu.reg .ebx) (s.cpu.reg .ecx) s.cpu.mem = copyWords 1024 src dest (pushedMem c p)

/-- The pushes and `cli`. -/
theorem CopyCall.saves {e : ℕ} (h : CopyCall c src dest ret p) (he : c.reg .esp = e + 8) (f : Flags) :
    ∃ x, Runs f copyPagePhysicalCode ⟨.line 0, c⟩ ⟨.line 3, x⟩ ∧ x.reg .esp = e ∧ x.cr0 = c.cr0 ∧ x.cr3 = c.cr3 ∧
      x.mem = pushedMem c p := by
  obtain ⟨-, hhigh, -⟩ := h.stack
  obtain ⟨y, hy⟩ : ∃ y, y = { c.set .esp (e + 4) with mem := store32 c.mem (p 1) (c.reg .ebx) } := ⟨_, rfl⟩
  obtain ⟨hesp, hpaging, hcr3, hmem⟩ : y.reg .esp = e + 4 ∧ y.paging = true ∧ y.cr3 = c.cr3 ∧
      y.mem = store32 c.mem (p 1) (c.reg .ebx) := by
    rw [hy]
    exact ⟨Cpu.set_self c .esp (e + 4), h.paging, rfl, rfl⟩
  have hpush : step f copyPagePhysicalCode ⟨.line 0, c⟩ = some ⟨.line 1, y⟩ := by
    rw [hy]
    exact step_push rfl he (by omega) (h.physical he rfl h.paging (fun _ _ => rfl) (k := 1) (by norm_num))
  have htouch : CopyTouch dest p c.mem y.mem := by
    rw [hmem]
    exact fun x hx => store32_of_off (hx (p 1, 4) (by simp))
  have hpushf := step_pushf (f := f) (show copyPagePhysicalCode[1]? = some .pushf from rfl) hesp (by omega)
    (h.physical he hcr3 hpaging htouch (k := 0) (by norm_num))
  refine ⟨_, Runs.head hpush <| Runs.head hpushf <| Runs.head (step_exec rfl rfl) <| Runs.refl _, ?_, ?_, hcr3, ?_⟩
  · exact Cpu.set_self y .esp e
  · rw [hy]
    rfl
  · rw [hy]
    rfl

theorem CopyCall.fetches {e : ℕ} {x : Assembly.Cpu} (h : CopyCall c src dest ret p) (he : c.reg .esp = e + 8)
    (hesp : x.reg .esp = e) (hcr0 : x.cr0 = c.cr0) (hcr3 : x.cr3 = c.cr3) (hmem : x.mem = pushedMem c p) (f : Flags) :
    Runs f copyPagePhysicalCode ⟨.line 3, x⟩ ⟨.line 5, (x.set .ebx src).set .ecx dest⟩ := by
  obtain ⟨-, hhigh, -⟩ := h.stack
  obtain ⟨-, -, hargument⟩ := h.pushed
  obtain ⟨-, hsrc, hdest⟩ := h.arguments
  have hpaging : x.paging = true := by
    rw [Cpu.paging, hcr0]
    exact h.paging
  have htouch : CopyTouch dest p c.mem x.mem := hmem ▸ copyTouch_pushed c p dest
  have hload : load32 x.mem (p 3) = src ∧ load32 x.mem (p 4) = dest := by
    rw [hmem, hargument 3 (by norm_num) (by norm_num), hargument 4 (by norm_num) (by norm_num)]
    exact ⟨hsrc, hdest⟩
  have hebx : step f copyPagePhysicalCode ⟨.line 3, x⟩ = some ⟨.line 4, x.set .ebx src⟩ := by
    have hat : x.physical (add32 (x.reg .esp) 12) = some (p 3) := by
      rw [hesp, add32_of_lt (by omega)]
      exact h.physical he hcr3 hpaging htouch (k := 3) (by norm_num)
    rw [← hload.1]
    exact step_load rfl rfl hat
  have hecx : step f copyPagePhysicalCode ⟨.line 4, x.set .ebx src⟩ = some ⟨.line 5, (x.set .ebx src).set .ecx dest⟩ := by
    have hat : (x.set .ebx src).physical (add32 (x.reg .esp) 16) = some (p 4) := by
      rw [hesp, add32_of_lt (by omega)]
      exact h.physical he hcr3 hpaging htouch (k := 4) (by norm_num)
    rw [← hload.2]
    exact step_load rfl rfl hat
  exact Runs.head hebx <| Runs.head hecx <| Runs.refl _

/-- Paging goes off, and the count is set. -/
theorem switches_off (f : Flags) (x : Assembly.Cpu) : ∃ y, Runs f copyPagePhysicalCode ⟨.line 5, x⟩ ⟨.line 9, y⟩ ∧
    y.reg .edx = 1024 ∧ y.reg .esp = x.reg .esp ∧ y.reg .ebx = x.reg .ebx ∧ y.reg .ecx = x.reg .ecx ∧
      y.cr0 = x.cr0 &&& 0x7fffffff ∧ y.cr3 = x.cr3 ∧ y.mem = x.mem :=
  ⟨_, Runs.head (step_exec rfl rfl) <| Runs.head (step_exec rfl rfl) <| Runs.head (step_exec rfl rfl) <|
    Runs.head (step_exec rfl rfl) <| Runs.refl _, rfl, rfl, rfl, rfl, rfl, rfl, rfl⟩

theorem CopyCall.enters (h : CopyCall c src dest ret p) (f : Flags) :
    ∃ s, Runs f copyPagePhysicalCode ⟨.line 0, c⟩ s ∧ InCopy c src dest p 1024 s := by
  obtain ⟨hlow, -, -⟩ := h.stack
  obtain ⟨-, hsrc, -⟩ := h.arguments
  obtain ⟨e, he⟩ : ∃ e, c.reg .esp = e + 8 := ⟨c.reg .esp - 8, by omega⟩
  obtain ⟨x, hsaves, hesp, hcr0, hcr3, hmem⟩ := h.saves he f
  obtain ⟨z, hz⟩ : ∃ z, z = (x.set .ebx src).set .ecx dest := ⟨_, rfl⟩
  have hfetches := h.fetches he hesp hcr0 hcr3 hmem f
  rw [← hz] at hfetches
  obtain ⟨y, hoff, hyedx, hyesp, hyebx, hyecx, hycr0, hycr3, hymem⟩ := switches_off f z
  have hebx : y.reg .ebx = src := by
    rw [hyebx, hz]
    rfl
  have hecx : y.reg .ecx = dest := by
    rw [hyecx, hz]
    rfl
  refine ⟨⟨.line 9, y⟩, (hsaves.trans hfetches).trans hoff, rfl, ⟨hyedx, le_rfl⟩, ?_, ?_, ⟨?_, ?_⟩, ?_⟩
  · show y.reg .ebx < 4294967296
    rw [hebx, ← hsrc]
    exact load32_lt _ _
  · rw [he, Nat.add_sub_cancel, ← hesp, hyesp, hz]
    rfl
  · rw [← hcr0, hycr0, hz]
    rfl
  · rw [← hcr3, hycr3, hz]
    rfl
  · show copyWords 1024 (y.reg .ebx) (y.reg .ecx) y.mem = _
    rw [hebx, hecx, hymem, hz]
    show copyWords 1024 src dest x.mem = _
    rw [hmem]

/-- The control register loses the bit of paging and gets it back. -/
theorem paging_bit {v : ℕ} (hv : v < 4294967296) (hbit : v.testBit 31 = true) :
    (v &&& 0x7fffffff).testBit 31 = false ∧ v &&& 0x7fffffff ||| 0x80000000 = v := by
  have hlow : v &&& 0x7fffffff = v % 2^31 := Nat.and_two_pow_sub_one_eq_mod v 31
  have hlt : v % 2^31 < 2^31 := Nat.mod_lt v (by norm_num)
  refine ⟨?_, ?_⟩
  · rw [hlow]
    exact Nat.testBit_lt_two_pow hlt
  · have hhigh : 2147483648 ≤ v := by
      by_contra hcon
      rw [Nat.testBit_lt_two_pow (by omega)] at hbit
      cases hbit
    have hor := Nat.two_pow_add_eq_or_of_lt hlt 1
    rw [hlow, Nat.or_comm]
    show 2^31*1 ||| v % 2^31 = v
    rw [← hor]
    omega

/-- One word. -/
theorem InCopy.round {s : State} (hc : CopyCall c src dest ret p) (hf : Lawful f) (h : InCopy c src dest p (n + 1) s) :
    ∃ s', Runs f copyPagePhysicalCode s s' ∧ InCopy c src dest p n s' := by
  obtain ⟨place, x⟩ := s
  obtain ⟨hplace, ⟨hcount, hle⟩, hsource, hesp, ⟨hcr0, hcr3⟩, hcopies⟩ := h
  dsimp only at hplace hcount hsource hesp hcr0 hcr3 hcopies
  rw [if_neg (Nat.succ_ne_zero n)] at hplace
  rw [hplace]
  have hoff : x.paging = false := by
    rw [Cpu.paging, hcr0]
    exact (paging_bit hc.words.2.1 hc.paging).1
  have hdec : sub32 (n + 1) 1 = n := by rw [sub32_of_le (by omega) (by omega), Nat.add_sub_cancel]
  obtain ⟨y, hrun, heflags, hedx, hesp', hebx, hecx, hcr0', hcr3', hmem⟩ : ∃ y, Runs f copyPagePhysicalCode ⟨.line 9, x⟩ ⟨.line 14, y⟩ ∧
      y.eflags.testBit 6 = decide (n = 0) ∧ y.reg .edx = n ∧ y.reg .esp = x.reg .esp ∧ y.reg .ebx = add32 (x.reg .ebx) 4 ∧
        y.reg .ecx = add32 (x.reg .ecx) 4 ∧ y.cr0 = x.cr0 ∧ y.cr3 = x.cr3 ∧
          y.mem = store32 x.mem (x.reg .ecx) (load32 x.mem (x.reg .ebx)) := by
    have hload : add32 (x.reg .ebx) 0 = x.reg .ebx := by rw [add32_of_lt (by omega), Nat.add_zero]
    refine ⟨_, Runs.head (step_load rfl hload (Cpu.physical_off hoff _)) <| Runs.head (step_store rfl (Cpu.physical_off hoff _)) <|
      Runs.head (step_exec rfl rfl) <| Runs.head (step_exec rfl rfl) <| Runs.head (step_exec rfl rfl) <| Runs.refl _,
      ?_, ?_, rfl, rfl, rfl, rfl, rfl, rfl⟩
    · refine (hf.zero .edx _).trans ?_
      show decide (sub32 (x.reg .edx) 1 = 0) = _
      rw [hcount, hdec]
    · show sub32 (x.reg .edx) 1 = n
      rw [hcount, hdec]
  refine ⟨_, hrun.trans (Runs.head (step_jnz rfl) (Runs.refl _)), ?_, ⟨hedx, by omega⟩, ?_, ?_, ⟨?_, ?_⟩, ?_⟩
  · rw [heflags]
    simp
  · exact hebx ▸ add32_lt _ _
  · exact hesp'.trans hesp
  · exact hcr0'.trans hcr0
  · exact hcr3'.trans hcr3
  · rw [← hcopies]
    show copyWords n (y.reg .ebx) (y.reg .ecx) y.mem = _
    rw [hebx, hecx, hmem]
    rfl

theorem switches_on (f : Flags) (x : Assembly.Cpu) : ∃ y, Runs f copyPagePhysicalCode ⟨.line 15, x⟩ ⟨.line 18, y⟩ ∧
    y.reg .esp = x.reg .esp ∧ y.cr0 = x.cr0 ||| 0x80000000 ∧ y.cr3 = x.cr3 ∧ y.mem = x.mem :=
  ⟨_, Runs.head (step_exec rfl rfl) <| Runs.head (step_exec rfl rfl) <| Runs.head (step_exec rfl rfl) <| Runs.refl _,
    rfl, rfl, rfl, rfl⟩

/-- The pops and `ret`. -/
theorem CopyCall.restores {e : ℕ} {x : Assembly.Cpu} (h : CopyCall c src dest ret p) (he : c.reg .esp = e + 8)
    (hesp : x.reg .esp = e) (hcr0 : x.cr0 = c.cr0) (hcr3 : x.cr3 = c.cr3) (htouch : CopyTouch dest p c.mem x.mem)
    (hword : ∀ k < 3, load32 x.mem (p k) = load32 (pushedMem c p) (p k)) (f : Flags) :
    ∃ c', Runs f copyPagePhysicalCode ⟨.line 18, x⟩ ⟨.address ret, c'⟩ ∧ c'.reg .esp = add32 (c.reg .esp) 4 ∧
      c'.reg .ebx = c.reg .ebx ∧ c'.eflags = c.eflags ∧ c'.cr0 = c.cr0 ∧ c'.cr3 = c.cr3 ∧ c'.mem = x.mem := by
  obtain ⟨-, hhigh, -⟩ := h.stack
  obtain ⟨hflags, hebx, hargument⟩ := h.pushed
  have hplace : ∀ y : Assembly.Cpu, y.cr0 = x.cr0 → y.cr3 = x.cr3 → y.mem = x.mem → ∀ k < 5, y.physical (e + 4*k) = some (p k) := by
    intro y hy0 hy3 hym k hk
    have hpaging : y.paging = true := by
      rw [Cpu.paging, hy0, hcr0]
      exact h.paging
    exact h.physical he (hy3.trans hcr3) hpaging (hym ▸ htouch) hk
  obtain ⟨z, hz⟩ : ∃ z, z = { x.set .esp (e + 4) with eflags := c.eflags } := ⟨_, rfl⟩
  obtain ⟨hzesp, hz0, hz3, hzm⟩ : z.reg .esp = e + 4 ∧ z.cr0 = x.cr0 ∧ z.cr3 = x.cr3 ∧ z.mem = x.mem := by
    rw [hz]
    exact ⟨Cpu.set_self x .esp (e + 4), rfl, rfl, rfl⟩
  have hpopf : step f copyPagePhysicalCode ⟨.line 18, x⟩ = some ⟨.line 19, z⟩ := by
    have hat : x.physical (x.reg .esp) = some (p 0) := by
      rw [hesp]
      exact hplace x rfl rfl rfl 0 (by norm_num)
    have hstep := step_popf (f := f) (show copyPagePhysicalCode[18]? = some .popf from rfl) hat
    rw [hesp, add32_of_lt (by omega), hword 0 (by norm_num), hflags] at hstep
    rw [hstep, hz]
  obtain ⟨w, hw⟩ : ∃ w, w = (z.set .esp (e + 8)).set .ebx (c.reg .ebx) := ⟨_, rfl⟩
  obtain ⟨hwesp, hw0, hw3, hwm⟩ : w.reg .esp = e + 8 ∧ w.cr0 = x.cr0 ∧ w.cr3 = x.cr3 ∧ w.mem = x.mem := by
    rw [hw]
    exact ⟨rfl, hz0, hz3, hzm⟩
  have hpop : step f copyPagePhysicalCode ⟨.line 19, z⟩ = some ⟨.line 20, w⟩ := by
    have hat : z.physical (z.reg .esp) = some (p 1) := by
      rw [hzesp]
      exact hplace z hz0 hz3 hzm 1 (by norm_num)
    have hstep := step_pop (f := f) (show copyPagePhysicalCode[19]? = some (.pop .ebx) from rfl) hat
    rw [hzesp, add32_of_lt (by omega), hzm, hword 1 (by norm_num), hebx] at hstep
    rw [hstep, hw]
  have hret : step f copyPagePhysicalCode ⟨.line 20, w⟩ = some ⟨.address ret, w.set .esp (add32 (c.reg .esp) 4)⟩ := by
    have hat : w.physical (w.reg .esp) = some (p 2) := by
      rw [hwesp]
      exact hplace w hw0 hw3 hwm 2 (by norm_num)
    have hstep := step_ret (f := f) (show copyPagePhysicalCode[20]? = some .ret from rfl) hat
    rw [hwm, hword 2 (by norm_num), hargument 2 le_rfl (by norm_num), h.arguments.1, hwesp, ← he] at hstep
    exact hstep
  refine ⟨w.set .esp (add32 (c.reg .esp) 4), Runs.head hpopf <| Runs.head hpop <| Runs.head hret <| Runs.refl _,
    Cpu.set_self _ _ _, ?_, ?_, hw0.trans hcr0, hw3.trans hcr3, hwm⟩
  · rw [Cpu.set_of_ne (by decide), hw]
    exact Cpu.set_self _ _ _
  · rw [Cpu.set_eflags, hw, hz]
    rfl

theorem InCopy.leaves {s : State} (hc : CopyCall c src dest ret p) (h : InCopy c src dest p 0 s) :
    ∃ c', Runs f copyPagePhysicalCode s ⟨.address ret, c'⟩ ∧ c'.reg .esp = add32 (c.reg .esp) 4 ∧ c'.reg .ebx = c.reg .ebx ∧
      c'.eflags = c.eflags ∧ c'.cr0 = c.cr0 ∧ c'.cr3 = c.cr3 ∧ c'.mem = copyWords 1024 src dest (pushedMem c p) := by
  obtain ⟨place, x⟩ := s
  obtain ⟨hplace, -, -, hesp, ⟨hcr0, hcr3⟩, hcopies⟩ := h
  dsimp only at hplace hesp hcr0 hcr3
  rw [if_pos rfl] at hplace
  rw [hplace]
  obtain ⟨hlow, -, -⟩ := hc.stack
  obtain ⟨e, he⟩ : ∃ e, c.reg .esp = e + 8 := ⟨c.reg .esp - 8, by omega⟩
  rw [he, Nat.add_sub_cancel] at hesp
  have hmem : x.mem = copyWords 1024 src dest (pushedMem c p) := hcopies
  have hoff := copyWords_off 1024 (b := src) (pushedMem c p) hc.room
  rw [← hmem] at hoff
  obtain ⟨y, hrun, hyesp, hy0, hy3, hym⟩ := switches_on f x
  rw [hcr0, (paging_bit hc.words.2.1 hc.paging).2] at hy0
  have hword : ∀ k < 3, load32 y.mem (p k) = load32 (pushedMem c p) (p k) := by
    intro k hk
    rw [hym]
    exact ((hc.kept k hk).symm.sameOn hoff).load32_eq le_rfl le_rfl
  have htouch : CopyTouch dest p c.mem y.mem := hym ▸ (copyTouch_pushed c p dest).of_off hoff
  obtain ⟨c', hleave, hresp, hrebx, hreflags, hr0, hr3, hrm⟩ :=
    hc.restores he (hyesp.trans hesp) hy0 (hy3.trans hcr3) htouch hword f
  exact ⟨c', hrun.trans hleave, hresp, hrebx, hreflags, hr0, hr3, hrm.trans (hym.trans hmem)⟩

theorem CopyCall.returns (hf : Lawful f) (h : CopyCall c src dest ret p) :
    ∃ c', Runs f copyPagePhysicalCode ⟨.line 0, c⟩ ⟨.address ret, c'⟩ ∧
      c'.reg .esp = add32 (c.reg .esp) 4 ∧ c'.reg .ebx = c.reg .ebx ∧ c'.eflags = c.eflags ∧ c'.cr0 = c.cr0 ∧ c'.cr3 = c.cr3 ∧
        c'.mem = copyWords 1024 src dest (pushedMem c p) := by
  obtain ⟨s, henter, hcopy⟩ := h.enters f
  obtain ⟨s', hloop, hdone⟩ := Runs.loop (InCopy c src dest p) (fun n s hs => InCopy.round h hf hs) hcopy
  obtain ⟨c', hleave, hresult⟩ := hdone.leaves h
  exact ⟨c', (henter.trans hloop).trans hleave, hresult⟩

/-! ## Interrupts -/

/-- Paging is on outside of lines 8 to 17, and from `cli` to `popf` interrupts are off. -/
structure Masked (s : State) : Prop where
  interrupts : ∀ n, s.place = .line n → 3 ≤ n → n ≤ 18 → s.cpu.interrupts = false
  paging : (∀ n, s.place = .line n → n ≤ 7 ∨ 18 ≤ n) → s.cpu.paging = true
  control : s.place = .line 17 → (s.cpu.reg .edx).testBit 31 = true

theorem cli_interrupts (c : Assembly.Cpu) : Assembly.Cpu.interrupts { c with eflags := c.eflags &&& 0xFFFFFDFF } = false := by
  have hmask : (0xFFFFFDFF : ℕ).testBit 9 = false := by decide
  rw [Assembly.Cpu.interrupts, Nat.testBit_and, hmask, Bool.and_false]

theorem Masked.step {s s' : State} (hf : Lawful f) (h : Masked s) (hstep : Assembly.step f copyPagePhysicalCode s = some s') :
    Masked s' := by
  obtain ⟨place, x⟩ := s
  cases place with
  | address a => cases hstep
  | line n =>
    obtain ⟨i, hcode, hcases⟩ := step_cases hstep
    have hn : n < 21 := (List.getElem?_eq_some_iff.mp hcode).1
    have hinterrupt : ∀ n < 21, n ≠ 2 → n ≠ 18 → (copyPagePhysicalCode[n]?.any Instr.interrupt) = false := by decide
    have hcontrol : ∀ n < 21, n ≠ 7 → n ≠ 17 → (copyPagePhysicalCode[n]?.any Instr.control) = false := by decide
    rcases hcases with ⟨c', hexec, rfl⟩ | ⟨target, rfl, rfl⟩ | ⟨r, rfl, rfl⟩ | ⟨rfl, w, hpop, rfl⟩
    · refine ⟨fun k hk hlow hhigh => ?_, fun hlines => ?_, fun hline => ?_⟩
      · cases hk
        by_cases hcli : n = 2
        · subst hcli
          cases hcode
          cases hexec
          exact cli_interrupts x
        · have hi := hinterrupt n hn hcli (by omega)
          rw [hcode] at hi
          rw [exec_interrupts hf hexec hi]
          exact h.interrupts n rfl (by omega) (by omega)
      · have hrange := hlines (n + 1) rfl
        by_cases hback : n = 17
        · subst hback
          cases hcode
          cases hexec
          exact h.control rfl
        · have hi := hcontrol n hn (by omega) hback
          rw [hcode] at hi
          rw [exec_paging hexec hi]
          exact h.paging fun m hm => by cases hm; omega
      · cases hline
        cases hcode
        cases hexec
        show (x.reg .edx ||| 0x80000000).testBit 31 = true
        have hbit : (0x80000000 : ℕ).testBit 31 = true := by decide
        rw [Nat.testBit_or, hbit, Bool.or_true]
    · have hjump : n = 14 ∧ target = 9 := by
        interval_cases n <;> cases hcode
        exact ⟨rfl, rfl⟩
      obtain ⟨rfl, rfl⟩ := hjump
      have hoff : x.interrupts = false := h.interrupts 14 rfl (by norm_num) (by norm_num)
      -- both ways stay between `cli` and `popf`, where paging is off
      refine ⟨fun _ _ _ _ => hoff, fun hlines => ?_, fun hline => ?_⟩
      · have hrange := hlines _ rfl
        split at hrange <;> omega
      · split at hline <;> cases hline
    · interval_cases n <;> cases hcode
    · have hlast : n = 20 := by
        interval_cases n <;> cases hcode
        rfl
      subst hlast
      have hon : x.paging = true := h.paging fun m hm => by cases hm; omega
      refine ⟨fun k hk => (by cases hk), fun _ => ?_, fun hline => (by cases hline)⟩
      rw [Cpu.paging, (Cpu.popWord_some hpop).1]
      exact hon

theorem CopyCall.masked {s : State} (hf : Lawful f) (h : CopyCall c src dest ret p)
    (hrun : Runs f copyPagePhysicalCode ⟨.line 0, c⟩ s) (hoff : s.cpu.paging = false) : s.cpu.interrupts = false := by
  have hstart : Masked ⟨.line 0, c⟩ :=
    ⟨fun n hn hlow => by cases hn; omega, fun _ => h.paging, fun hline => (by cases hline)⟩
  obtain ⟨hinterrupts, hpaging, -⟩ := hrun.invariant hstart fun t t' ht hstep => ht.step hf hstep
  -- where paging is off, the line is one of those between `cli` and `popf`
  by_contra hon
  have hlines : ∀ n, s.place = .line n → n ≤ 7 ∨ 18 ≤ n := by
    intro n hn
    by_contra hmiddle
    exact hon (hinterrupts n hn (by omega) (by omega))
  rw [hpaging hlines] at hoff
  cases hoff

/-- Called with paging on, the routine returns behind its call. The page at `dest` holds what the one at `src` held, as
the model of `copy_page_physical` says; the stack pointer, `ebx`, the flags and the control registers are as before; and
in no state of the run is paging off while interrupts are on. -/
theorem copy_page_physical_returns (hf : Lawful f) (h : CopyCall c src dest ret p) (k : Kernel) :
    (∃ c', Runs f copyPagePhysicalCode ⟨.line 0, c⟩ ⟨.address ret, c'⟩ ∧
      c'.reg .esp = add32 (c.reg .esp) 4 ∧ c'.reg .ebx = c.reg .ebx ∧ c'.eflags = c.eflags ∧ c'.cr0 = c.cr0 ∧ c'.cr3 = c.cr3 ∧
        c'.mem = (copyPagePhysical src dest { k with phys := pushedMem c p }).phys) ∧
    ∀ s, Runs f copyPagePhysicalCode ⟨.line 0, c⟩ s → s.cpu.paging = false → s.cpu.interrupts = false := by
  obtain ⟨c', hrun, hesp, hebx, heflags, hcr0, hcr3, hmem⟩ := h.returns hf
  refine ⟨⟨c', hrun, hesp, hebx, heflags, hcr0, hcr3, ?_⟩, fun s hrun hoff => h.masked hf hrun hoff⟩
  simp only [copyPagePhysical]
  exact hmem

/-- A processor with one page for its stack: the directory is at `0x1000`, its table at `0x2000`, and the arguments are the
pages at `0x6000` and `0x7000`. -/
def callingCpu : Assembly.Cpu :=
  ⟨fun r => if r = .esp then 0x5010 else 0, 0x202, 0x80000011, 0x1000,
    store32 (store32 (store32 (store32 (store32 (fun _ => 0) 0x1000 0x2007) 0x2014 0x5007) 0x5010 0x100234) 0x5014 0x6000)
      0x5018 0x7000⟩

/-- The result that the zero flag is about. -/
def countsToZero : Instr → Assembly.Cpu → Bool
  | .dec r, c => decide (sub32 (c.reg r) 1 = 0)
  | _, _ => false

/-- Flags of which only the two that matter are kept. -/
def plainFlags : Flags := fun i c =>
  (if c.eflags.testBit 9 then 0x200 else 0) + (if countsToZero i c then 0x40 else 0)

theorem plainFlags_lawful : Lawful plainFlags := by
  have hbits : ∀ a b : Bool, ((if a then 0x200 else 0) + (if b then 0x40 else 0) : ℕ).testBit 6 = b ∧
      ((if a then 0x200 else 0) + (if b then 0x40 else 0) : ℕ).testBit 9 = a := by decide
  exact ⟨fun r c => (hbits (c.eflags.testBit 9) _).1, fun i c => (hbits _ (countsToZero i c)).2⟩

theorem callingCpu_call : CopyCall callingCpu 0x6000 0x7000 0x100234 (fun k => 0x5008 + 4*k) := by
  refine ⟨by decide, ⟨by decide, by decide, by decide⟩, ⟨by decide, by decide, by decide⟩, fun k hk => ?_, fun k hk r hr => ?_,
    fun j _ k _ hjk => ?_, fun k hk => ?_, by norm_num, ?_⟩
  · interval_cases k <;> decide
  · unfold Apart
    rcases List.mem_cons.mp hr with rfl | hr
    · interval_cases k <;> decide
    · rcases List.mem_cons.mp hr with rfl | hr
      · interval_cases k <;> decide
      · rw [List.mem_singleton.mp hr]
        interval_cases k <;> decide
  · unfold Apart
    dsimp only
    omega
  · unfold Apart
    dsimp only
    omega
  · exact ⟨by decide, by decide, by decide⟩

theorem copy_page_physical_returns_page :
    (∃ c', Runs plainFlags copyPagePhysicalCode ⟨.line 0, callingCpu⟩ ⟨.address 0x100234, c'⟩ ∧
      c'.mem = (copyPagePhysical 0x6000 0x7000
        { entryKernel 0x5005 with phys := pushedMem callingCpu fun k => 0x5008 + 4*k }).phys) ∧
    ∀ s, Runs plainFlags copyPagePhysicalCode ⟨.line 0, callingCpu⟩ s → s.cpu.paging = false → s.cpu.interrupts = false := by
  obtain ⟨⟨c', hrun, -, -, -, -, -, hmem⟩, hmasked⟩ :=
    copy_page_physical_returns plainFlags_lawful callingCpu_call (entryKernel 0x5005)
  exact ⟨⟨c', hrun, hmem⟩, hmasked⟩

end PandaOS

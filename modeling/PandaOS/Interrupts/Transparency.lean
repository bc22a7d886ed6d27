import PandaOS.Interrupts.Stubs

/-! Interrupts and the interrupted code. The common part of the stubs puts the registers back and
drops two words. That is the CPU's frame for every vector whose stub pushes an error code exactly
when the CPU does not; for exceptions 17 and 21 both push one. -/
namespace PandaOS.Interrupts
open WordStack
set_option autoImplicit false
set_option maxHeartbeats 250000

/-- What the handler of the vector sees, and what `iret` finds. The stack pointer is not among the
general registers here: `pusha` saves the one the frame has by then. -/
structure Transparent (vector : ℕ) (errorCode : BitVec 32) (h : Handler) (c : Cpu) (regs : Registers)
    (c' : Cpu) : Prop where
  seenFrame : regs.eip = c.eip ∧ regs.cs = c.cs.setWidth 32 ∧ regs.eflags = c.eflags
  seenRegisters : regs.eax = c.eax ∧ regs.ebx = c.ebx ∧ regs.ecx = c.ecx ∧ regs.edx = c.edx ∧
    regs.esi = c.esi ∧ regs.edi = c.edi ∧ regs.ebp = c.ebp
  intNo : regs.intNo = BitVec.ofNat 32 vector
  errCode : regs.errCode = if PushesErrorCode vector then errorCode else 0
  atFrame : c'.esp = c.esp - 12
  frame : Holds c'.mem c'.esp [c.eip, c.cs.setWidth 32, c.eflags]
  registers : c'.eax = c.eax ∧ c'.ebx = c.ebx ∧ c'.ecx = c.ecx ∧ c'.edx = c.edx ∧ c'.esi = c.esi ∧
    c'.edi = c.edi ∧ c'.ebp = c.ebp
  ds : c'.ds = c.ds

variable {c : Cpu} {vs : List (BitVec 32)} {v e : BitVec 32} {h : Handler} {n vector : ℕ}

theorem Cpu.push_holds (v : BitVec 32) (hc : Holds c.mem c.esp vs) (hlen : vs.length ≤ 20) :
    Holds (c.push v).mem (c.push v).esp (v :: vs) := hc.push (by omega)

/-- The words that the common stub has on the stack when it calls, above those of the stub. -/
def saved (d : BitVec 32) (c : Cpu) : List (BitVec 32) :=
  [d, c.edi, c.esi, c.ebp, c.esp, c.ebx, c.edx, c.ecx, c.eax]

def untilCall : List Instr := commonStub.takeWhile (· ≠ .call)

/-- The instructions between the call and `iret`. -/
def afterCall : List Instr :=
  [.addEsp 4, .popEax, .movDsAx, .movEsAx, .movFsAx, .movGsAx, .popa, .addEsp 8]

theorem setWidth_low (a b : BitVec 16) : (a ++ b).setWidth 16 = b := by
  ext i hi
  rw [BitVec.getElem_setWidth, BitVec.getLsbD_append, if_pos hi, BitVec.getLsbD_eq_getElem hi]

theorem pushAll_spec (ws : List (BitVec 32)) (hc : Holds c.mem c.esp vs)
    (hlen : vs.length + ws.length ≤ 40) :
    Holds (c.pushAll ws).mem (c.pushAll ws).esp (ws.reverse ++ vs) ∧
      (c.pushAll ws).esp = c.esp - BitVec.ofNat 32 (4*ws.length) ∧ (c.pushAll ws).ds = c.ds := by
  induction ws generalizing c vs with
  | nil =>
    refine ⟨hc, ?_, rfl⟩
    rw [List.length_nil, Nat.mul_zero, BitVec.sub_zero]
    rfl
  | cons w ws ih =>
    rw [List.length_cons] at hlen
    obtain ⟨hholds, hesp, hds⟩ := ih (c := c.push w) (hc.push (by omega)) (by rw [List.length_cons]; omega)
    refine ⟨?_, ?_, hds⟩
    · rw [List.reverse_cons, List.append_assoc]
      exact hholds
    · have hstep : (c.push w).esp = c.esp - 4 := rfl
      rw [hstep] at hesp
      rw [List.length_cons]
      refine hesp.trans ?_
      bv_omega

theorem pusha_spec (h : Handler) (hc : Holds c.mem c.esp vs) (hlen : vs.length ≤ 7) :
    Holds (exec h .pusha c).mem (exec h .pusha c).esp
        ([c.edi, c.esi, c.ebp, c.esp, c.ebx, c.edx, c.ecx, c.eax] ++ vs) ∧
      (exec h .pusha c).esp = c.esp - 32 ∧ (exec h .pusha c).ds = c.ds :=
  pushAll_spec [c.eax, c.ecx, c.edx, c.ebx, c.esp, c.ebp, c.esi, c.edi] hc
    (by simp only [List.length_cons, List.length_nil]; omega)

/-- The instructions between `pusha` and the call. -/
def afterPusha : List Instr :=
  [.movAxDs, .pushEax, .movAx 0x10, .movDsAx, .movEsAx, .movFsAx, .movGsAx, .pushEsp]

theorem execAll_cons (h : Handler) (i : Instr) (is : List Instr) (c : Cpu) :
    execAll h (i :: is) c = execAll h is (exec h i c) := List.foldl_cons ..

theorem untilCall_eq (h : Handler) (c : Cpu) :
    execAll h untilCall c = execAll h afterPusha (exec h .pusha c) := by
  have hcode : untilCall = .pusha :: afterPusha := by decide
  rw [hcode, execAll_cons]

theorem afterPusha_eq (h : Handler) (c : Cpu) :
    (execAll h afterPusha c).esp = c.esp - 4 - 4 ∧
      (execAll h afterPusha c).mem = store (store c.mem (c.esp - 4) (c.eax.extractLsb' 16 16 ++ c.ds))
        (c.esp - 4 - 4) (c.esp - 4) := ⟨rfl, rfl⟩

/-- At the call the registers are saved, and the argument points to them. -/
theorem untilCall_spec (h : Handler) (hc : Holds c.mem c.esp vs) (hlen : vs.length ≤ 7) :
    ∃ d : BitVec 32, d.setWidth 16 = c.ds ∧ (execAll h untilCall c).esp = c.esp - 40 ∧
      Holds (execAll h untilCall c).mem (execAll h untilCall c).esp
        ((c.esp - 36) :: (saved d c ++ vs)) := by
  obtain ⟨hsaved, hesp, hds⟩ := pusha_spec h hc hlen
  rw [untilCall_eq]
  obtain ⟨c1, hc1⟩ : ∃ c1, c1 = exec h .pusha c := ⟨_, rfl⟩
  rw [← hc1] at hsaved hesp hds ⊢
  obtain ⟨hesp1, hmem1⟩ := afterPusha_eq h c1
  have hptr : c.esp - 36 = c1.esp - 4 := by
    rw [hesp]
    bv_omega
  refine ⟨c1.eax.extractLsb' 16 16 ++ c1.ds, by rw [setWidth_low, hds], ?_, ?_⟩
  · rw [hesp1, hesp]
    bv_omega
  · rw [hesp1, hmem1, hptr]
    have hlen1 : (saved (c1.eax.extractLsb' 16 16 ++ c1.ds) c ++ vs).length = 9 + vs.length := by
      simp only [saved, List.length_append, List.length_cons, List.length_nil]
    have hd : Holds (store c1.mem (c1.esp - 4) (c1.eax.extractLsb' 16 16 ++ c1.ds)) (c1.esp - 4)
        (saved (c1.eax.extractLsb' 16 16 ++ c1.ds) c ++ vs) :=
      hsaved.push (by simp only [List.length_append, List.length_cons, List.length_nil]; omega)
    exact hd.push (by omega)

theorem afterCall_eq (h : Handler) (c : Cpu) :
    (execAll h afterCall c).esp = c.esp + 4 + 4 + 32 + 8 ∧ (execAll h afterCall c).mem = c.mem ∧
      (execAll h afterCall c).ds = (load c.mem (c.esp + 4)).setWidth 16 ∧
      (execAll h afterCall c).eax = load c.mem (c.esp + 4 + 4 + 28) ∧
      (execAll h afterCall c).ebx = load c.mem (c.esp + 4 + 4 + 16) ∧
      (execAll h afterCall c).ecx = load c.mem (c.esp + 4 + 4 + 24) ∧
      (execAll h afterCall c).edx = load c.mem (c.esp + 4 + 4 + 20) ∧
      (execAll h afterCall c).esi = load c.mem (c.esp + 4 + 4 + 4) ∧
      (execAll h afterCall c).edi = load c.mem (c.esp + 4 + 4) ∧
      (execAll h afterCall c).ebp = load c.mem (c.esp + 4 + 4 + 8) :=
  ⟨rfl, rfl, rfl, rfl, rfl, rfl, rfl, rfl, rfl, rfl⟩

/-- The handler leaves the words behind its argument, and the rest puts the registers back. -/
theorem afterCall_spec {d p : BitVec 32} {c1 : Cpu} (h : Handler)
    (hc : Holds c1.mem c1.esp (p :: (saved d c ++ vs))) (hp : p = c1.esp + 4) (hlen : vs.length ≤ 7)
    (hd : d.setWidth 16 = c.ds) :
    ∃ c', execAll h afterCall (exec h .call c1) = c' ∧ c'.esp = c1.esp + 48 ∧
      Holds c'.mem (c1.esp + 48) (vs.drop 2) ∧ c'.ds = c.ds ∧ c'.eax = c.eax ∧ c'.ebx = c.ebx ∧
      c'.ecx = c.ecx ∧ c'.edx = c.edx ∧ c'.esi = c.esi ∧ c'.edi = c.edi ∧ c'.ebp = c.ebp := by
  have hlen' : (saved d c ++ vs).length = 9 + vs.length := by
    simp only [saved, List.length_append, List.length_cons, List.length_nil]
  obtain ⟨c2, hc2⟩ : ∃ c2, c2 = c1.push h.returnAddress := ⟨_, rfl⟩
  have hentry := Cpu.push_holds h.returnAddress hc (by rw [List.length_cons, hlen']; omega)
  rw [← hc2] at hentry
  have hesp2 : c2.esp = c1.esp - 4 := by
    rw [hc2]
    rfl
  have harg : load c2.mem (c2.esp + 4) = p := hentry.2.1
  have hkeep := h.registers c2
  rw [harg] at hkeep
  have hbelow : c2.esp + 4 + 4 = p := by
    rw [hesp2, hp]
    bv_omega
  have hwords : Holds c2.mem p (saved d c ++ vs) := by
    rw [← hbelow]
    exact hentry.2.2
  have hback : Holds (h.run c2).mem p (saved d c ++ vs) :=
    hwords.congr fun i hi => hkeep i (by rw [hlen'] at hi; omega)
  obtain ⟨c3, hc3⟩ : ∃ c3, c3 = exec h .call c1 := ⟨_, rfl⟩
  have hesp3 : c3.esp + 4 = p := by
    rw [hc3, hp]
    simp only [exec, Cpu.drop, ← hc2, h.esp, hesp2]
    bv_omega
  have hmem3 : c3.mem = (h.run c2).mem := by
    rw [hc3, hc2]
    rfl
  rw [← hmem3] at hback
  rw [← hc3]
  obtain ⟨hesp, hmem, hds, heax, hebx, hecx, hedx, hesi, hedi, hebp⟩ := afterCall_eq h c3
  obtain ⟨c4, hc4⟩ : ∃ c4, c4 = execAll h afterCall c3 := ⟨_, rfl⟩
  rw [← hc4] at hmem ⊢
  rw [← hc4, hesp3] at hesp hds heax hebx hecx hedx hesi hedi hebp
  -- word `i` of what was saved
  have hword : ∀ i (hi : i < (saved d c).length) a, a = p + BitVec.ofNat 32 (4*i) →
      load c3.mem a = (saved d c)[i] := by
    intro i hi a ha
    rw [ha, hback.get i (by rw [List.length_append]; omega), List.getElem_append_left hi]
  have hat : ∀ n : BitVec 32, p + 4 + n = p + (4 + n) := fun n => BitVec.add_assoc _ _ _
  refine ⟨c4, rfl, ?_, ?_, ?_, ?_, ?_, ?_, ?_, ?_, ?_, ?_⟩
  · rw [hesp, hp]
    bv_omega
  · have hrest := hback.drop 11
    have hdrop : (saved d c ++ vs).drop 11 = vs.drop 2 := rfl
    have hend : p + BitVec.ofNat 32 (4*11) = c1.esp + 48 := by
      rw [hp]
      bv_omega
    rw [hdrop, hend] at hrest
    rw [hmem]
    exact hrest
  · rw [hds, hword 0 (by simp [saved]) p (BitVec.add_zero p).symm]
    exact hd
  · rw [heax, hword 8 (by simp [saved]) _ (hat 28)]
    rfl
  · rw [hebx, hword 5 (by simp [saved]) _ (hat 16)]
    rfl
  · rw [hecx, hword 7 (by simp [saved]) _ (hat 24)]
    rfl
  · rw [hedx, hword 6 (by simp [saved]) _ (hat 20)]
    rfl
  · rw [hesi, hword 2 (by simp [saved]) _ (hat 4)]
    rfl
  · rw [hedi, hword 1 (by simp [saved]) (p + 4) rfl]
    rfl
  · rw [hebp, hword 3 (by simp [saved]) _ (hat 8)]
    rfl

/-! ## The pushes before the common part -/

/-- The general registers and `ds`. -/
structure SameRegisters (c c' : Cpu) : Prop where
  general : c'.eax = c.eax ∧ c'.ebx = c.ebx ∧ c'.ecx = c.ecx ∧ c'.edx = c.edx ∧ c'.esi = c.esi ∧
    c'.edi = c.edi ∧ c'.ebp = c.ebp
  ds : c'.ds = c.ds

/-- The state at the common stub: its two words, and what the CPU pushed. -/
structure Entered (c c0 : Cpu) (words : List (BitVec 32)) : Prop where
  holds : Holds c0.mem c0.esp words
  esp : c0.esp = c.esp - BitVec.ofNat 32 (4*words.length)
  same : SameRegisters c c0

theorem Entered.push {c0 : Cpu} {words : List (BitVec 32)} (hin : Entered c c0 words)
    (hlen : words.length ≤ 20) (v : BitVec 32) : Entered c (c0.push v) (v :: words) := by
  refine ⟨hin.holds.push (by omega), ?_, ⟨hin.same.general, hin.same.ds⟩⟩
  have hesp : (c0.push v).esp = c0.esp - 4 := rfl
  rw [hesp, hin.esp, List.length_cons]
  bv_omega

theorem entered_interrupt (n : ℕ) (e : BitVec 32) (c : Cpu) : Entered c (interrupt n e c)
    ((if PushesErrorCode n then [e] else []) ++ [c.eip, c.cs.setWidth 32, c.eflags]) := by
  have h0 : Entered c c [] := by
    refine ⟨trivial, ?_, ⟨⟨rfl, rfl, rfl, rfl, rfl, rfl, rfl⟩, rfl⟩⟩
    rw [List.length_nil, Nat.mul_zero, BitVec.sub_zero]
  have h1 := ((h0.push (by simp) c.eflags).push (by simp) (c.cs.setWidth 32)).push (by simp) c.eip
  obtain ⟨c1, hc1⟩ : ∃ c1, c1 = ((c.push c.eflags).push (c.cs.setWidth 32)).push c.eip := ⟨_, rfl⟩
  rw [← hc1] at h1
  have h2 : Entered c { c1 with eflags := c.eflags &&& ~~~0x200 }
      [c.eip, c.cs.setWidth 32, c.eflags] := ⟨h1.holds, h1.esp, ⟨h1.same.general, h1.same.ds⟩⟩
  unfold interrupt
  rw [← hc1]
  by_cases herr : PushesErrorCode n
  · rw [if_pos herr, if_pos herr]
    exact h2.push (by simp) e
  · rw [if_neg herr, if_neg herr]
    exact h2

/-- The vectors with the macro `ISR_ERRCODE`. -/
def HasErrCodeStub (n : ℕ) : Prop := n = 8 ∨ (10 ≤ n ∧ n ≤ 14)

instance (n : ℕ) : Decidable (HasErrCodeStub n) := inferInstanceAs (Decidable (_ ∨ _))

/-- What a stub pushes before it jumps to the common part. -/
def front (n : ℕ) : List Instr :=
  if HasErrCodeStub n then [.pushByte (BitVec.ofNat 8 n)]
  else [.pushByte 0, .pushByte (BitVec.ofNat 8 n)]

theorem stub_split : ∀ n < 48, (stub n).takeWhile (· ≠ .call) = front n ++ untilCall ∧
    (stub n).takeWhile (· ≠ .iret) = front n ++ (untilCall ++ .call :: afterCall) := by decide

theorem signExtend_vector : ∀ n < 48, (BitVec.ofNat 8 n).signExtend 32 = BitVec.ofNat 32 n := by decide

theorem execAll_append (h : Handler) (is is' : List Instr) (c : Cpu) :
    execAll h (is ++ is') c = execAll h is' (execAll h is c) := List.foldl_append

theorem entered_front (h : Handler) (hn : n < 48) (e : BitVec 32) (c : Cpu) :
    Entered c (execAll h (front n) (interrupt n e c))
      (BitVec.ofNat 32 n :: ((if HasErrCodeStub n then [] else [0]) ++
        ((if PushesErrorCode n then [e] else []) ++ [c.eip, c.cs.setWidth 32, c.eflags]))) := by
  have hin := entered_interrupt n e c
  obtain ⟨words, hwords⟩ : ∃ words, words =
      (if PushesErrorCode n then [e] else []) ++ [c.eip, c.cs.setWidth 32, c.eflags] := ⟨_, rfl⟩
  have hlen : words.length ≤ 4 := by
    rw [hwords]
    split_ifs <;> simp
  rw [← hwords] at hin ⊢
  rw [← signExtend_vector n hn]
  unfold front
  by_cases herr : HasErrCodeStub n
  · rw [if_pos herr, if_pos herr]
    exact hin.push (by omega) _
  · rw [if_neg herr, if_neg herr]
    exact (hin.push (by omega) 0).push (by rw [List.length_cons]; omega) _

/-! ## The law -/

/-- What the common part saves and restores, from where it is entered. -/
theorem entered_iret {c0 : Cpu} {words : List (BitVec 32)} (h : Handler)
    (hin : Entered c c0 words) (hlen : words.length ≤ 7) :
    ∃ d c', Holds (execAll h untilCall c0).mem (execAll h untilCall c0).top (saved d c0 ++ words) ∧
      execAll h (untilCall ++ .call :: afterCall) c0 = c' ∧ c'.esp = c0.esp + 8 ∧
      Holds c'.mem c'.esp (words.drop 2) ∧ SameRegisters c c' := by
  obtain ⟨d, hd, hesp, hholds⟩ := untilCall_spec h hin.holds hlen
  have hptr : c0.esp - 36 = (execAll h untilCall c0).esp + 4 := by
    rw [hesp]
    bv_omega
  obtain ⟨c', hc', hesp', hframe, hds, hrest⟩ := afterCall_spec h hholds hptr hlen hd
  have hback : (execAll h untilCall c0).esp + 48 = c0.esp + 8 := by
    rw [hesp]
    bv_omega
  have htop : (execAll h untilCall c0).top = (execAll h untilCall c0).esp + 4 := hholds.1.trans hptr
  rw [hback] at hesp' hframe
  refine ⟨d, c', ?_, ?_, hesp', ?_, ?_⟩
  · rw [htop]
    exact hholds.2
  · rw [execAll_append, execAll_cons, hc']
  · rw [hesp']
    exact hframe
  · obtain ⟨heax, hebx, hecx, hedx, hesi, hedi, hebp⟩ := hrest
    obtain ⟨⟨geax, gebx, gecx, gedx, gesi, gedi, gebp⟩, gds⟩ := hin.same
    exact ⟨⟨heax.trans geax, hebx.trans gebx, hecx.trans gecx, hedx.trans gedx, hesi.trans gesi,
      hedi.trans gedi, hebp.trans gebp⟩, hds.trans gds⟩

theorem stateAt_call (h : Handler) (hn : n < 48) (e : BitVec 32) (c : Cpu) :
    stateAt .call n e h c = execAll h untilCall (execAll h (front n) (interrupt n e c)) := by
  rw [stateAt, (stub_split n hn).1, execAll_append]

theorem stateAt_iret (h : Handler) (hn : n < 48) (e : BitVec 32) (c : Cpu) :
    stateAt .iret n e h c =
      execAll h (untilCall ++ .call :: afterCall) (execAll h (front n) (interrupt n e c)) := by
  rw [stateAt, (stub_split n hn).2, execAll_append]

theorem transparent_of_stub (h : Handler) (hn : n < 48) (e : BitVec 32) (c : Cpu)
    (hstub : HasErrCodeStub n ↔ PushesErrorCode n) :
    Transparent n e h c (seenRegisters (stateAt .call n e h c)) (stateAt .iret n e h c) := by
  have hin := entered_front h hn e c
  obtain ⟨err, herr⟩ : ∃ err, err = if PushesErrorCode n then e else 0 := ⟨_, rfl⟩
  have hwords : (if HasErrCodeStub n then [] else [0]) ++
      ((if PushesErrorCode n then [e] else []) ++ [c.eip, c.cs.setWidth 32, c.eflags]) =
      [err, c.eip, c.cs.setWidth 32, c.eflags] := by
    rw [herr]
    by_cases hpush : PushesErrorCode n
    · rw [if_pos (hstub.mpr hpush), if_pos hpush, if_pos hpush]
      rfl
    · rw [if_neg (fun hs => hpush (hstub.mp hs)), if_neg hpush, if_neg hpush]
      rfl
  rw [hwords] at hin
  obtain ⟨d, c', hseen, hc', hesp, hframe, hsame⟩ := entered_iret h hin (by simp)
  rw [stateAt_call h hn, stateAt_iret h hn, hc']
  obtain ⟨c0, hc0⟩ : ∃ c0, c0 = execAll h (front n) (interrupt n e c) := ⟨_, rfl⟩
  rw [← hc0] at hin hseen hesp ⊢
  -- field `i` of the registers the handler sees
  have hword := fun i hi => hseen.get i hi
  obtain ⟨⟨geax, gebx, gecx, gedx, gesi, gedi, gebp⟩, _⟩ := hin.same
  refine ⟨⟨?_, ?_, ?_⟩, ⟨?_, ?_, ?_, ?_, ?_, ?_, ?_⟩, ?_, ?_, ?_, hframe, hsame.general, hsame.ds⟩
  · exact hword 11 (by simp [saved])
  · exact hword 12 (by simp [saved])
  · exact hword 13 (by simp [saved])
  · exact (hword 8 (by simp [saved])).trans geax
  · exact (hword 5 (by simp [saved])).trans gebx
  · exact (hword 7 (by simp [saved])).trans gecx
  · exact (hword 6 (by simp [saved])).trans gedx
  · exact (hword 2 (by simp [saved])).trans gesi
  · exact (hword 1 (by simp [saved])).trans gedi
  · exact (hword 3 (by simp [saved])).trans gebp
  · exact hword 9 (by simp [saved])
  · exact (hword 10 (by simp [saved])).trans herr
  · rw [hesp, hin.esp]
    simp only [List.length_cons, List.length_nil]
    bv_omega

/-- Exceptions 17 and 21 get a second error code, and the frame lies four bytes higher. -/
theorem not_transparent (h : Handler) (hn : n = 17 ∨ n = 21) (e : BitVec 32) (c : Cpu) :
    ¬ Transparent n e h c (seenRegisters (stateAt .call n e h c)) (stateAt .iret n e h c) := by
  have hlt : n < 48 := by omega
  intro htrans
  have hin := entered_front h hlt e c
  have hcode : ¬ HasErrCodeStub n := by
    unfold HasErrCodeStub
    omega
  have hpush : PushesErrorCode n := by
    unfold PushesErrorCode
    omega
  rw [if_neg hcode, if_pos hpush] at hin
  obtain ⟨d, c', _, hc', hesp, _, _⟩ := entered_iret h hin (by simp)
  have hat := htrans.atFrame
  rw [stateAt_iret h hlt, hc', hesp, hin.esp] at hat
  simp only [List.length_append, List.length_cons, List.length_nil] at hat
  bv_omega

/-- An interrupt is transparent exactly where the stub's error code completes the CPU's frame. -/
theorem transparent_iff (hn : n < 48) (e : BitVec 32) (h : Handler) (c : Cpu) :
    Transparent n e h c (seenRegisters (stateAt .call n e h c)) (stateAt .iret n e h c) ↔
      n ≠ 17 ∧ n ≠ 21 := by
  constructor
  · intro htrans
    by_contra hne
    exact not_transparent h (by omega) e c htrans
  · rintro ⟨h17, h21⟩
    apply transparent_of_stub h hn e c
    unfold HasErrCodeStub PushesErrorCode
    omega

/-- A machine with nothing but zeros. -/
def blankCpu : Cpu := ⟨0, 0, 0, 0, 0, 0, 0, 0x8000, 0, 0, 0, 0, 0, 0, 0, fun _ => 0⟩

/-- A handler that does nothing. -/
def idleHandler : Handler := ⟨0, id, fun _ => rfl, fun _ _ _ => rfl⟩

theorem transparent_iff_breakpoint :
    Transparent 3 0 idleHandler blankCpu (seenRegisters (stateAt .call 3 0 idleHandler blankCpu))
      (stateAt .iret 3 0 idleHandler blankCpu) ↔ 3 ≠ 17 ∧ 3 ≠ 21 :=
  transparent_iff (by decide) 0 idleHandler blankCpu

/-- The alignment check, whose error code is always 0. -/
theorem alignment_check_breaks : ¬ Transparent 17 0 idleHandler blankCpu
    (seenRegisters (stateAt .call 17 0 idleHandler blankCpu))
    (stateAt .iret 17 0 idleHandler blankCpu) :=
  not_transparent idleHandler (Or.inl rfl) 0 blankCpu

end PandaOS.Interrupts

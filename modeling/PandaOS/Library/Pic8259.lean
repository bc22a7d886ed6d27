import Mathlib.Tactic

/-! The pair of 8259 interrupt controllers of a PC, as far as a kernel without rotation, polling and special modes
programs them: initialisation by four words, the mask, and the end of interrupt. Requests are edges that a
controller latches, and line 0 has the highest priority. The slave is on the line of the master that both were told. -/
namespace Pic8259
set_option autoImplicit false
set_option maxHeartbeats 250000

/-- The initialisation word that the data port expects. -/
inductive Phase
  | ready
  | icw2
  | icw3
  | icw4
  deriving DecidableEq, Repr

structure Chip where
  phase : Phase
  base : ℕ
  mask : BitVec 8
  cascade : BitVec 8
  request : Fin 8 → Bool
  service : Fin 8 → Bool

/-- The line of highest priority among these. -/
def first (p : Fin 8 → Bool) : Option (Fin 8) := (List.finRange 8).find? p

/-- A request counts when its line is not masked and nothing of the same or a higher priority is in service. -/
def Chip.next (c : Chip) (request : Fin 8 → Bool) : Option (Fin 8) :=
  first fun i => request i && !c.mask.getLsbD i && decide (∀ j ≤ i, c.service j = false)

def Chip.serve (c : Chip) (i : Fin 8) : Chip :=
  { c with request := Function.update c.request i false, service := Function.update c.service i true }

/-- The end of interrupt that names no line. -/
def Chip.endOfInterrupt (c : Chip) : Chip :=
  match first c.service with
  | none => c
  | some i => { c with service := Function.update c.service i false }

/-- A byte at the command port: the first initialisation word of a pair that is triggered by edges, or an end of
interrupt. -/
def Chip.command (c : Chip) (v : BitVec 8) : Option Chip :=
  if v &&& 0x1B = 0x11 then some { c with phase := .icw2, mask := 0, request := fun _ => false }
  else if v &&& 0xF8 = 0x20 then some c.endOfInterrupt
  else if v &&& 0xF8 = 0x60 then
    some { c with service := Function.update c.service (Fin.ofNat 8 v.toNat) false }
  else none

/-- A byte at the data port. The last initialisation word has to ask for 8086 mode and nothing else. -/
def Chip.data (c : Chip) (v : BitVec 8) : Option Chip :=
  match c.phase with
  | .icw2 => some { c with phase := .icw3, base := (v &&& 0xF8).toNat }
  | .icw3 => some { c with phase := .icw4, cascade := v }
  | .icw4 => if v &&& 0x1F = 0x01 then some { c with phase := .ready } else none
  | .ready => some { c with mask := v }

structure Pair where
  master : Chip
  slave : Chip

def Pair.out (p : Pair) (port : ℕ) (v : BitVec 8) : Option Pair :=
  match port with
  | 0x20 => (p.master.command v).map fun c => { p with master := c }
  | 0x21 => (p.master.data v).map fun c => { p with master := c }
  | 0xA0 => (p.slave.command v).map fun c => { p with slave := c }
  | 0xA1 => (p.slave.data v).map fun c => { p with slave := c }
  | _ => some p

/-- The slave is on this line of the master. -/
def Pair.cascaded (p : Pair) (i : Fin 8) : Bool := p.master.cascade.getLsbD i && p.slave.cascade.toNat % 8 == i.val

/-- What the master sees on its lines: the latched edges, and the slave's output. -/
def Pair.lines (p : Pair) (i : Fin 8) : Bool :=
  p.master.request i || (p.cascaded i && (p.slave.next p.slave.request).isSome)

/-- The pair asks the processor for an interrupt when there is such a line. -/
def Pair.line (p : Pair) : Option (Fin 8) := p.master.next p.lines

/-- The processor's acknowledgement, with the vector that it reads. A request that is gone by then is answered with
the last vector of its controller, and nothing is put in service there. -/
def Pair.acknowledge (p : Pair) : ℕ × Pair :=
  match p.line with
  | none => (p.master.base + 7, p)
  | some i =>
    if p.cascaded i then
      match p.slave.next p.slave.request with
      | none => (p.slave.base + 7, { p with master := p.master.serve i })
      | some j => (p.slave.base + j, ⟨p.master.serve i, p.slave.serve j⟩)
    else (p.master.base + i, { p with master := p.master.serve i })

variable {c : Chip} {p q : Fin 8 → Bool} {i j : Fin 8}

/-! ## Priorities -/

theorem first_none : first p = none ↔ ∀ i, p i = false := by
  simp [first, List.find?_eq_none]

theorem first_some (h : first p = some i) : p i = true := List.find?_some h

theorem exists_first (h : p i = true) : ∃ j, first p = some j ∧ p j = true := by
  cases hf : first p with
  | none =>
    rw [first_none.mp hf i] at h
    cases h
  | some j => exact ⟨j, rfl, first_some hf⟩

/-- No line before the first one. -/
theorem first_least (h : first p = some i) (hj : p j = true) : i ≤ j := by
  revert h hj
  unfold first
  simp only [List.find?_eq_some_iff_append]
  rintro ⟨-, as, bs, hsplit, hbefore⟩ hj
  by_contra hlt
  have hmem : j ∈ as ++ i :: bs := hsplit ▸ List.mem_finRange j
  have hsorted : (as ++ i :: bs).Pairwise (· < ·) := hsplit ▸ List.pairwise_lt_finRange 8
  rcases List.mem_append.mp hmem with has | hrest
  · have hno := hbefore j has
    rw [hj] at hno
    cases hno
  · rcases List.mem_cons.mp hrest with rfl | hbs
    · exact hlt le_rfl
    · have hcons := (List.pairwise_append.mp hsorted).2.1
      exact hlt ((List.pairwise_cons.mp hcons).1 j hbs).le

/-! ## Service -/

/-- Nothing is in service. -/
def Chip.Idle (c : Chip) : Prop := ∀ i, c.service i = false

/-- At most one line is in service. -/
def Chip.Single (c : Chip) : Prop := ∀ i j, c.service i = true → c.service j = true → i = j

theorem Chip.Idle.single (h : c.Idle) : c.Single := fun i _ hi => absurd hi (by rw [h i]; exact Bool.false_ne_true)

theorem Chip.Idle.serve (h : c.Idle) (i : Fin 8) : (c.serve i).Single := by
  have hone : ∀ j, (c.serve i).service j = true → j = i := by
    intro j hj
    by_contra hne
    have hold : (c.serve i).service j = c.service j := Function.update_of_ne hne _ _
    rw [hold, h j] at hj
    cases hj
  intro j j' hj hj'
  rw [hone j hj, hone j' hj']

/-- The end of interrupt takes the one line out of service. -/
theorem Chip.Single.endOfInterrupt (h : c.Single) : c.endOfInterrupt.Idle := by
  intro j
  unfold Chip.endOfInterrupt
  cases hf : first c.service with
  | none => exact first_none.mp hf j
  | some i =>
    dsimp only
    by_cases hji : j = i
    · rw [hji, Function.update_self]
    · rw [Function.update_of_ne hji, Bool.eq_false_iff]
      exact fun hj => hji (h j i hj (first_some hf))

theorem Chip.endOfInterrupt_same (c : Chip) : c.endOfInterrupt.phase = c.phase ∧ c.endOfInterrupt.base = c.base ∧
    c.endOfInterrupt.mask = c.mask ∧ c.endOfInterrupt.cascade = c.cascade ∧ c.endOfInterrupt.request = c.request := by
  unfold Chip.endOfInterrupt
  cases first c.service <;> exact ⟨rfl, rfl, rfl, rfl, rfl⟩

/-- With nothing masked and nothing in service every request counts. -/
theorem Chip.Idle.next (h : c.Idle) (hmask : c.mask = 0) : c.next p = first p := by
  unfold Chip.next
  congr 1
  funext i
  have hall : ∀ j ≤ i, c.service j = false := fun j _ => h j
  have hzero : c.mask.getLsbD i = false := by
    rw [hmask]
    exact BitVec.getLsbD_zero
  rw [hzero, decide_eq_true hall, Bool.not_false, Bool.and_true, Bool.and_true]

/-! ## The pair -/

/-- A line of one of the two controllers. -/
inductive Line
  | master (i : Fin 8)
  | slave (i : Fin 8)
  deriving DecidableEq, Repr, Fintype

def Pair.pending (p : Pair) : Line → Bool
  | .master i => p.master.request i
  | .slave i => p.slave.request i

def Pair.vector (p : Pair) : Line → ℕ
  | .master i => p.master.base + i
  | .slave i => p.slave.base + i

def Chip.setRequest (c : Chip) (i : Fin 8) (b : Bool) : Chip := { c with request := Function.update c.request i b }

/-- An edge on a line, or the end of the request. -/
def Pair.setRequest (p : Pair) (i : Line) (b : Bool) : Pair :=
  match i with
  | .master i => { p with master := p.master.setRequest i b }
  | .slave i => { p with slave := p.slave.setRequest i b }

/-- The slave is on line `c`, and on no other. -/
def Pair.Wired (p : Pair) (c : Fin 8) : Prop := ∀ i, p.cascaded i = decide (i = c)

/-- Nothing is masked. -/
def Pair.Unmasked (p : Pair) : Prop := p.master.mask = 0 ∧ p.slave.mask = 0

def Pair.Idle (p : Pair) : Prop := p.master.Idle ∧ p.slave.Idle

/-- The priority among all lines, where the slave's lines stand in the place of line `c`. -/
def Line.rank (c : Fin 8) : Line → ℕ
  | .master i => if i.val ≤ c.val then i.val else i.val + 8
  | .slave i => c.val + i.val

/-- What one acknowledgement does with the requests. -/
inductive Answer (c : Fin 8) (p : Pair) : ℕ × Pair → Prop
  | served {j : Line} {p' : Pair} : j ≠ .master c → p.pending j = true →
      (∀ i, i ≠ .master c → p.pending i = true → j.rank c ≤ i.rank c) →
      (∀ i, i ≠ .master c → p'.pending i = (p.pending i && decide (i ≠ j))) →
      Answer c p (p.vector j, p')
  | gone {p' : Pair} : p.pending (.master c) = true → (∀ i, p.pending (.slave i) = false) →
      (∀ i, p'.pending i = (p.pending i && decide (i ≠ .master c))) → Answer c p (p.vector (.slave 7), p')
  | nothing : (∀ i, p.pending i = false) → Answer c p (p.vector (.master 7), p)

/-- Everything but requests and service is the same. -/
structure SameSetup (c c' : Chip) : Prop where
  phase : c'.phase = c.phase
  base : c'.base = c.base
  mask : c'.mask = c.mask
  cascade : c'.cascade = c.cascade

theorem SameSetup.refl (c : Chip) : SameSetup c c := ⟨rfl, rfl, rfl, rfl⟩

theorem Chip.serve_same (c : Chip) (i : Fin 8) : SameSetup c (c.serve i) := ⟨rfl, rfl, rfl, rfl⟩

variable {pair : Pair} {cline : Fin 8} {v : ℕ}

theorem pending_setRequest (p : Pair) (i j : Line) (b : Bool) :
    (p.setRequest i b).pending j = if j = i then b else p.pending j := by
  cases i with
  | master i =>
    cases j with
    | master j =>
      by_cases h : j = i <;> simp [Pair.setRequest, Pair.pending, Chip.setRequest, h]
    | slave j => simp [Pair.setRequest, Pair.pending]
  | slave i =>
    cases j with
    | master j => simp [Pair.setRequest, Pair.pending]
    | slave j =>
      by_cases h : j = i <;> simp [Pair.setRequest, Pair.pending, Chip.setRequest, h]

theorem Pair.Idle.line (h : pair.Idle) (hmask : pair.Unmasked) : pair.line = first pair.lines := h.1.next hmask.1

theorem Pair.lines_eq (hidle : pair.Idle) (hmask : pair.Unmasked) (hwired : pair.Wired cline) (i : Fin 8) :
    pair.lines i = (pair.master.request i || (decide (i = cline) && (first pair.slave.request).isSome)) := by
  unfold Pair.lines
  rw [hwired i, hidle.2.next hmask.2]

theorem pending_serve_master (i : Fin 8) (j : Line) :
    (Pair.mk (pair.master.serve i) pair.slave).pending j = (pair.pending j && decide (j ≠ .master i)) := by
  cases j with
  | slave j => simp [Pair.pending]
  | master j =>
    by_cases hji : j = i
    · simp [Pair.pending, Chip.serve, hji]
    · simp [Pair.pending, Chip.serve, hji]

theorem pending_serve_slave (i k : Fin 8) (j : Line) (hj : j ≠ .master i) :
    (Pair.mk (pair.master.serve i) (pair.slave.serve k)).pending j = (pair.pending j && decide (j ≠ .slave k)) := by
  cases j with
  | slave j =>
    by_cases hjk : j = k
    · simp [Pair.pending, Chip.serve, hjk]
    · simp [Pair.pending, Chip.serve, hjk]
  | master j =>
    have hji : j ≠ i := fun heq => hj (by rw [heq])
    simp [Pair.pending, Chip.serve, hji]

/-- Of a pair with nothing in service the processor gets the pending line of highest priority. -/
theorem Pair.acknowledge_answer (hidle : pair.Idle) (hmask : pair.Unmasked) (hwired : pair.Wired cline) :
    Answer cline pair pair.acknowledge := by
  have hline := hidle.line hmask
  have hlines := pair.lines_eq hidle hmask hwired
  unfold Pair.acknowledge
  rw [hline]
  cases hf : first pair.lines with
  | none =>
    have hnone := first_none.mp hf
    refine .nothing fun i => ?_
    cases i with
    | master i =>
      have hi := hnone i
      rw [hlines i, Bool.or_eq_false_iff] at hi
      exact hi.1
    | slave i =>
      have hc := hnone cline
      rw [hlines cline, Bool.or_eq_false_iff, decide_eq_true rfl, Bool.true_and, Option.isSome_eq_false_iff,
        Option.isNone_iff_eq_none] at hc
      exact first_none.mp hc.2 i
  | some i =>
    have hi := first_some hf
    rw [hlines i] at hi
    have hleast : ∀ j, pair.lines j = true → i ≤ j := fun j hj => first_least hf hj
    dsimp only
    by_cases hic : i = cline
    · rw [hic] at hi hleast ⊢
      rw [hwired cline, if_pos (decide_eq_true rfl), hidle.2.next hmask.2]
      cases hs : first pair.slave.request with
      | none =>
        rw [hs] at hi
        refine .gone ?_ (fun k => first_none.mp hs k) fun j => pending_serve_master cline j
        simpa [Pair.pending] using hi
      | some k =>
        refine .served (j := .slave k) (by simp) (first_some hs) (fun j hj hpending => ?_) fun j hj => ?_
        · cases j with
          | slave j =>
            have hkj := first_least hs hpending
            show cline.val + k.val ≤ cline.val + j.val
            omega
          | master j =>
            have hle := hleast j (by rw [hlines j]; simp [show pair.master.request j = true from hpending])
            have hne : j ≠ cline := fun heq => hj (by rw [heq])
            have hk := k.isLt
            have hlt : cline.val < j.val := lt_of_le_of_ne hle fun heq => hne (Fin.ext heq.symm)
            show cline.val + k.val ≤ if j.val ≤ cline.val then j.val else j.val + 8
            rw [if_neg (by omega)]
            omega
        · exact pending_serve_slave cline k j hj
    · rw [hwired i, decide_eq_false hic, if_neg (by decide)]
      rw [decide_eq_false hic, Bool.false_and, Bool.or_false] at hi
      refine .served (j := .master i) (by simpa using hic) hi (fun j hj hpending => ?_) fun j hj => ?_
      · cases j with
        | master j =>
          have hle : i.val ≤ j.val := hleast j (by rw [hlines j]; simp [show pair.master.request j = true from hpending])
          show (if i.val ≤ cline.val then i.val else i.val + 8) ≤ if j.val ≤ cline.val then j.val else j.val + 8
          split_ifs <;> omega
        | slave j =>
          obtain ⟨k, hk, -⟩ := exists_first (p := pair.slave.request) hpending
          have hle := hleast cline (by rw [hlines cline, hk]; simp)
          have hlt : i.val < cline.val := lt_of_le_of_ne hle fun heq => hic (Fin.ext heq)
          show (if i.val ≤ cline.val then i.val else i.val + 8) ≤ cline.val + j.val
          rw [if_pos (by omega)]
          omega
      · exact pending_serve_master i j

/-- At most one line of each controller is then in service. -/
theorem Pair.acknowledge_single (hidle : pair.Idle) :
    (pair.acknowledge.2).master.Single ∧ (pair.acknowledge.2).slave.Single ∧
      SameSetup pair.master (pair.acknowledge.2).master ∧ SameSetup pair.slave (pair.acknowledge.2).slave := by
  unfold Pair.acknowledge
  cases pair.line with
  | none => exact ⟨hidle.1.single, hidle.2.single, SameSetup.refl _, SameSetup.refl _⟩
  | some i =>
    dsimp only
    split
    · cases pair.slave.next pair.slave.request with
      | none => exact ⟨hidle.1.serve i, hidle.2.single, pair.master.serve_same i, SameSetup.refl _⟩
      | some k => exact ⟨hidle.1.serve i, hidle.2.serve k, pair.master.serve_same i, pair.slave.serve_same k⟩
    · exact ⟨hidle.1.serve i, hidle.2.single, pair.master.serve_same i, SameSetup.refl _⟩

/-- Where the vector is one of the master's, the slave has nothing in service. -/
theorem Pair.acknowledge_master (hv : (pair.acknowledge).1 < pair.slave.base) :
    (pair.acknowledge.2).slave = pair.slave := by
  revert hv
  unfold Pair.acknowledge
  cases pair.line with
  | none => exact fun _ => rfl
  | some i =>
    dsimp only
    split
    · cases pair.slave.next pair.slave.request with
      | none => exact fun _ => rfl
      | some k =>
        intro hv
        dsimp only at hv
        omega
    · exact fun _ => rfl

/-- An acknowledgement makes no requests. -/
theorem Pair.acknowledge_pending (p : Pair) (i : Line) (h : p.acknowledge.2.pending i = true) : p.pending i = true := by
  revert h
  unfold Pair.acknowledge
  cases p.line with
  | none => exact id
  | some j =>
    dsimp only
    split
    · cases p.slave.next p.slave.request with
      | none =>
        intro h
        rw [pending_serve_master, Bool.and_eq_true] at h
        exact h.1
      | some k =>
        intro h
        by_cases hij : i = .master j
        · rw [hij] at h
          simp [Pair.pending, Chip.serve] at h
        · rw [pending_serve_slave j k i hij, Bool.and_eq_true] at h
          exact h.1
    · intro h
      rw [pending_serve_master, Bool.and_eq_true] at h
      exact h.1

/-- If there is a request, one is taken away. -/
theorem Answer.fewer {i : Line} {a : ℕ × Pair} (h : Answer cline pair a) (hi : pair.pending i = true) :
    ∃ j, pair.pending j = true ∧ a.2.pending j = false := by
  cases h with
  | served hj hpending _ hrest =>
    refine ⟨_, hpending, ?_⟩
    rw [hrest _ hj, decide_eq_false (not_not.mpr rfl), Bool.and_false]
  | gone hpending _ hrest =>
    refine ⟨_, hpending, ?_⟩
    rw [hrest, decide_eq_false (not_not.mpr rfl), Bool.and_false]
  | nothing hnone =>
    rw [hnone i] at hi
    cases hi

/-- With nothing in service every request is offered to the processor. -/
theorem Pair.line_of_pending {i : Line} (hidle : pair.Idle) (hmask : pair.Unmasked) (hwired : pair.Wired cline)
    (hi : pair.pending i = true) : pair.line ≠ none := by
  rw [hidle.line hmask]
  intro hnone
  have hlines := first_none.mp hnone
  cases i with
  | master i =>
    have hline := hlines i
    rw [pair.lines_eq hidle hmask hwired i, Bool.or_eq_false_iff] at hline
    exact Bool.false_ne_true (hline.1.symm.trans hi)
  | slave i =>
    obtain ⟨j, hj, -⟩ := exists_first (p := pair.slave.request) hi
    have hline := hlines cline
    rw [pair.lines_eq hidle hmask hwired cline, hj] at hline
    simp at hline

end Pic8259

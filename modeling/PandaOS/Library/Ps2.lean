import Mathlib.Tactic

/-! The data port of a keyboard controller. It holds one code at a time; the codes behind it wait in their order until
the port has been read. -/
namespace Ps2
set_option autoImplicit false
set_option maxHeartbeats 250000

variable {α : Type}

/-- The port is full while its code has not been read. -/
structure Port (α : Type) where
  code : α
  full : Bool
  waiting : List α

/-- The keyboard has a new code. -/
def Port.arrive (p : Port α) (c : α) : Port α := { p with waiting := p.waiting ++ [c] }

/-- The next code enters the empty port. -/
def Port.load (p : Port α) : Option (Port α) :=
  match p.full, p.waiting with
  | false, c :: cs => some ⟨c, true, cs⟩
  | _, _ => none

/-- A read of a port that is empty finds the last code again. -/
def Port.read (p : Port α) : α × Port α := (p.code, { p with full := false })

/-- The codes that have not been read, in their order. -/
def Port.unread (p : Port α) : List α := if p.full then p.code :: p.waiting else p.waiting

variable {p p' : Port α}

theorem unread_arrive (p : Port α) (c : α) : (p.arrive c).unread = p.unread ++ [c] := by
  unfold Port.unread Port.arrive
  cases p.full <;> rfl

theorem load_some (h : p.load = some p') : p.full = false ∧ ∃ c cs, p.waiting = c :: cs ∧ p' = ⟨c, true, cs⟩ := by
  unfold Port.load at h
  split at h
  · rename_i c cs hfull hwaiting
    cases h
    exact ⟨hfull, c, cs, hwaiting, rfl⟩
  · cases h

theorem load_of_waiting (hfull : p.full = false) (hwaiting : p.waiting ≠ []) : ∃ p', p.load = some p' := by
  unfold Port.load
  rw [hfull]
  cases hcs : p.waiting with
  | nil => exact absurd hcs hwaiting
  | cons c cs => exact ⟨_, rfl⟩

theorem unread_load (h : p.load = some p') : p'.unread = p.unread := by
  obtain ⟨hfull, c, cs, hwaiting, rfl⟩ := load_some h
  unfold Port.unread
  rw [hfull, hwaiting]
  rfl

/-- What is read is the first of the codes, and it is read once. -/
theorem unread_read (h : p.full = true) : p.unread = p.read.1 :: p.read.2.unread := by
  unfold Port.unread Port.read
  rw [h]
  rfl

end Ps2

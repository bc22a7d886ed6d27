import Mathlib.Tactic

/-! Runs of a labelled step relation in which every step satisfies a guard on its source state.
An invariant that the guarded steps preserve holds in every state such a run reaches. -/
namespace GuardedRun
set_option autoImplicit false
set_option maxHeartbeats 250000

variable {σ ι : Type}

/-- The states reached from an initial state by steps that meet the guard. -/
inductive Reach (init : σ → Prop) (guard : σ → ι → Prop) (step : σ → ι → σ → Prop) : σ → Prop
  | start {s : σ} : init s → Reach init guard step s
  | next {s s' : σ} {i : ι} :
      Reach init guard step s → guard s i → step s i s' → Reach init guard step s'

variable {init : σ → Prop} {guard guard' : σ → ι → Prop} {step : σ → ι → σ → Prop}
  {inv : σ → Prop} {s : σ}

/-- The rule for invariants: initially true and preserved by the guarded steps. -/
theorem Reach.invariant (h : Reach init guard step s) (hinit : ∀ s, init s → inv s)
    (hstep : ∀ s i s', inv s → guard s i → step s i s' → inv s') : inv s := by
  induction h with
  | start h => exact hinit _ h
  | next _ hg hs ih => exact hstep _ _ _ ih hg hs

theorem Reach.mono (h : Reach init guard step s) (hg : ∀ s i, guard s i → guard' s i) :
    Reach init guard' step s := by
  induction h with
  | start h => exact .start h
  | next _ hgs hs ih => exact .next ih (hg _ _ hgs) hs

/-- A list of labels run through an executable step is a run. -/
theorem Reach.foldlM {ε : Type} {f : σ → ι → Except ε σ} {s s' : σ} {is : List ι}
    (hs : Reach init guard step s) (hf : ∀ s i s', i ∈ is → f s i = .ok s' → guard s i ∧ step s i s')
    (hrun : is.foldlM f s = .ok s') : Reach init guard step s' := by
  induction is generalizing s with
  | nil =>
    cases hrun
    exact hs
  | cons i is ih =>
    rw [List.foldlM_cons] at hrun
    cases hstep : f s i with
    | error e =>
      rw [hstep] at hrun
      cases hrun
    | ok t =>
      rw [hstep] at hrun
      obtain ⟨hguard, ht⟩ := hf s i t (List.mem_cons_self ..) hstep
      exact ih (.next hs hguard ht)
        (fun s j s' hj => hf s j s' (List.mem_cons_of_mem i hj)) hrun

end GuardedRun

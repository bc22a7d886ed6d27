import Mathlib.Data.List.Rotate
import Mathlib.Logic.Function.Basic

/-! Linked lists of nonzero addresses, ended by a null pointer. `next` gives the pointer in each node,
and the nodes are listed in order. Going to the next node, and from the last one back to the first,
visits the nodes in the order of a rotation of that list. -/
namespace LinkedList
set_option autoImplicit false
set_option maxHeartbeats 250000

/-- Following `next` from `a` gives the nodes `l` and then null. -/
def Linked (next : ℕ → ℕ) : ℕ → List ℕ → Prop
  | a, [] => a = 0
  | a, b :: l => a = b ∧ b ≠ 0 ∧ Linked next (next b) l

/-- The node behind `a`, or the first one. -/
def cyclicNext (next : ℕ → ℕ) (first a : ℕ) : ℕ := if next a = 0 then first else next a

variable {next next' : ℕ → ℕ} {a b i first : ℕ} {l l' : List ℕ}

theorem Linked.congr (h : Linked next a l) (hnext : ∀ b ∈ l, next' b = next b) : Linked next' a l := by
  induction l generalizing a with
  | nil => exact h
  | cons b l ih =>
    obtain ⟨hab, hb, hl⟩ := h
    refine ⟨hab, hb, ?_⟩
    rw [hnext b List.mem_cons_self]
    exact ih hl fun c hc => hnext c (List.mem_cons_of_mem _ hc)

theorem Linked.ne_zero (h : Linked next a l) (hb : b ∈ l) : b ≠ 0 := by
  induction l generalizing a with
  | nil => exact absurd hb List.not_mem_nil
  | cons c l ih =>
    obtain ⟨-, hc, hl⟩ := h
    rcases List.mem_cons.mp hb with rfl | hmem
    · exact hc
    · exact ih hl hmem

/-- A pointer leads to one list only. -/
theorem Linked.unique (h : Linked next a l) (h' : Linked next a l') : l = l' := by
  induction l generalizing a l' with
  | nil =>
    cases l' with
    | nil => rfl
    | cons b l' => exact absurd (h'.1.symm.trans h) h'.2.1
  | cons b l ih =>
    cases l' with
    | nil => exact absurd (h.1.symm.trans h') h.2.1
    | cons c l' =>
      have hbc : b = c := h.1.symm.trans h'.1
      rw [hbc, ih (hbc ▸ h.2.2) h'.2.2]

theorem Linked.head (h : Linked next a l) (hl : l ≠ []) : l[0]? = some a := by
  cases l with
  | nil => exact absurd rfl hl
  | cons b l => rw [List.getElem?_cons_zero, h.1]

/-- The pointer in node `i`. -/
theorem Linked.next_eq (h : Linked next a l) (hb : l[i]? = some b) : next b = l[i + 1]?.getD 0 := by
  induction l generalizing a i with
  | nil => cases hb
  | cons c l ih =>
    obtain ⟨-, -, hl⟩ := h
    cases i with
    | zero =>
      cases hb
      rw [List.getElem?_cons_succ]
      cases l with
      | nil => exact hl
      | cons d l => exact hl.1
    | succ i =>
      rw [List.getElem?_cons_succ] at hb ⊢
      exact ih hl hb

/-- A node put behind the last one. -/
theorem Linked.append (h : Linked next a (l ++ [b])) {c : ℕ} (hc : c ≠ 0) (hb' : next' b = c)
    (hc' : next' c = 0) (hnext : ∀ d ∈ l, next' d = next d) : Linked next' a (l ++ [b] ++ [c]) := by
  induction l generalizing a with
  | nil =>
    obtain ⟨hab, hb, -⟩ := h
    refine ⟨hab, hb, ?_⟩
    rw [hb']
    exact ⟨rfl, hc, hc'⟩
  | cons d l ih =>
    obtain ⟨had, hd, hl⟩ := h
    refine ⟨had, hd, ?_⟩
    rw [hnext d List.mem_cons_self]
    exact ih hl fun e he => hnext e (List.mem_cons_of_mem _ he)

/-! ## Round and round -/

/-- From node `i` to node `i + 1`, counted round the list. -/
theorem Linked.cyclicNext_eq (h : Linked next first l) (hb : l[i]? = some b) :
    l[(i + 1) % l.length]? = some (cyclicNext next first b) := by
  obtain ⟨hlt, -⟩ := List.getElem?_eq_some_iff.mp hb
  have hnext := h.next_eq hb
  rcases Nat.lt_or_ge (i + 1) l.length with hin | hout
  · rw [List.getElem?_eq_getElem hin] at hnext
    have hne : next b ≠ 0 := by
      rw [hnext]
      exact h.ne_zero (List.getElem_mem hin)
    rw [Nat.mod_eq_of_lt hin, List.getElem?_eq_getElem hin, cyclicNext, if_neg hne, hnext]
    rfl
  · have hlast : i + 1 = l.length := by omega
    have hne : l ≠ [] := by
      intro hnil
      rw [hnil] at hlt
      exact absurd hlt (Nat.not_lt_zero i)
    rw [List.getElem?_eq_none hout] at hnext
    have hnull : next b = 0 := hnext
    rw [hlast, Nat.mod_self, h.head hne, cyclicNext, if_pos hnull]

theorem Linked.iterate_eq (h : Linked next first l) (hb : l[i]? = some b) (j : ℕ) :
    l[(i + j) % l.length]? = some ((cyclicNext next first)^[j] b) := by
  induction j with
  | zero =>
    obtain ⟨hlt, -⟩ := List.getElem?_eq_some_iff.mp hb
    rw [Nat.add_zero, Nat.mod_eq_of_lt hlt]
    exact hb
  | succ j ih =>
    have hstep := h.cyclicNext_eq ih
    rw [Nat.mod_add_mod] at hstep
    rw [Function.iterate_succ_apply']
    exact hstep

/-- Once round: the nodes visited are a rotation of the list. -/
theorem Linked.visits_eq (h : Linked next first l) (hb : l[i]? = some b) :
    (List.range l.length).map (fun j => (cyclicNext next first)^[j + 1] b) = l.rotate (i + 1) := by
  apply List.ext_getElem
  · rw [List.length_map, List.length_range, List.length_rotate]
  · intro j hj hj'
    have hjl : j < l.length := by rwa [List.length_map, List.length_range] at hj
    have hiter := h.iterate_eq hb (j + 1)
    have hindex : i + (j + 1) = j + (i + 1) := by omega
    rw [hindex] at hiter
    obtain ⟨hlt, hget⟩ := List.getElem?_eq_some_iff.mp hiter
    rw [List.getElem_map, List.getElem_range, List.getElem_rotate, hget]

/-- After as many steps as there are nodes one is back. -/
theorem Linked.iterate_length (h : Linked next first l) (hb : l[i]? = some b) :
    (cyclicNext next first)^[l.length] b = b := by
  obtain ⟨hlt, -⟩ := List.getElem?_eq_some_iff.mp hb
  have hiter := h.iterate_eq hb l.length
  rw [Nat.add_mod_right, Nat.mod_eq_of_lt hlt, hb] at hiter
  exact (Option.some.inj hiter).symm

end LinkedList

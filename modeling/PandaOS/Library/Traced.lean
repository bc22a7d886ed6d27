import Mathlib.Tactic

/-! Computations that record what they touch. A traced computation carries the list of its accesses beside
its result, also where it fails; forgetting the list is a map of monads, so a traced program can be compared
with the plain one line by line. -/
namespace Tracing
set_option autoImplicit false
set_option maxHeartbeats 250000

structure Traced (ε κ α : Type) where
  touched : List κ
  result : Except ε α

variable {ε κ α β : Type}

namespace Traced

/-- The second part runs only where the first one gave a value. -/
def bind (x : Traced ε κ α) (f : α → Traced ε κ β) : Traced ε κ β :=
  match x.result with
  | .error e => ⟨x.touched, .error e⟩
  | .ok a => ⟨x.touched ++ (f a).touched, (f a).result⟩

instance : Monad (Traced ε κ) where
  pure a := ⟨[], .ok a⟩
  bind := bind

/-- One access. -/
def touch (k : κ) : Traced ε κ Unit := ⟨[k], .ok ()⟩

/-- Several accesses, in order. -/
def touchAll (ks : List κ) : Traced ε κ Unit := ⟨ks, .ok ()⟩

/-- A computation without accesses. -/
def lift (x : Except ε α) : Traced ε κ α := ⟨[], x⟩

/-- Every access satisfies `p`. -/
def Within (p : κ → Prop) (x : Traced ε κ α) : Prop := ∀ k ∈ x.touched, p k

variable {x : Traced ε κ α} {f : α → Traced ε κ β} {p q : κ → Prop} {a : α} {e : ε}

/-! ## Forgetting the accesses -/

@[simp] theorem result_pure (a : α) : (pure a : Traced ε κ α).result = .ok a := rfl

@[simp] theorem result_touch (k : κ) : (touch k : Traced ε κ Unit).result = .ok () := rfl

@[simp] theorem result_touchAll (ks : List κ) : (touchAll ks : Traced ε κ Unit).result = .ok () := rfl

@[simp] theorem result_lift (y : Except ε α) : (lift y : Traced ε κ α).result = y := rfl

@[simp] theorem result_bind (x : Traced ε κ α) (f : α → Traced ε κ β) :
    (x >>= f).result = x.result >>= fun a => (f a).result := by
  obtain ⟨touched, result⟩ := x
  cases result <;> rfl

@[simp] theorem lift_ok_bind (a : α) (f : α → Traced ε κ β) : (lift (.ok a) >>= f) = f a := rfl

/-! ## The accesses of a sequence -/

@[simp] theorem touched_pure (a : α) : (pure a : Traced ε κ α).touched = [] := rfl

theorem touched_bind_ok (h : x.result = .ok a) : (x >>= f).touched = x.touched ++ (f a).touched := by
  obtain ⟨touched, result⟩ := x
  cases h
  rfl

theorem touched_bind_error (h : x.result = .error e) : (x >>= f).touched = x.touched := by
  obtain ⟨touched, result⟩ := x
  cases h
  rfl

@[simp] theorem touched_touch_bind (k : κ) (f : Unit → Traced ε κ β) :
    (touch k >>= f).touched = k :: (f ()).touched := rfl

@[simp] theorem touched_touchAll_bind (ks : List κ) (f : Unit → Traced ε κ β) :
    (touchAll ks >>= f).touched = ks ++ (f ()).touched := rfl

/-! ## Staying within a predicate -/

theorem Within.mono (h : Within p x) (hpq : ∀ k, p k → q k) : Within q x := fun k hk => hpq k (h k hk)

theorem within_pure (a : α) : Within p (pure a : Traced ε κ α) := nofun

theorem within_lift (y : Except ε α) : Within p (lift y : Traced ε κ α) := nofun

theorem within_touch {k : κ} (h : p k) : Within p (touch k : Traced ε κ Unit) := by
  intro j hj
  rw [List.mem_singleton.mp hj]
  exact h

/-- The rule for sequences: the second part matters only for the values the first one can give. -/
theorem within_bind_iff : Within p (x >>= f) ↔ Within p x ∧ ∀ a, x.result = .ok a → Within p (f a) := by
  unfold Within
  cases hresult : x.result with
  | error e =>
    rw [touched_bind_error hresult]
    exact ⟨fun h => ⟨h, nofun⟩, And.left⟩
  | ok a =>
    rw [touched_bind_ok hresult]
    constructor
    · intro h
      refine ⟨fun k hk => h k (List.mem_append_left _ hk), fun b hb k hk => ?_⟩
      obtain rfl := Except.ok.inj hb
      exact h k (List.mem_append_right _ hk)
    · rintro ⟨hx, hf⟩ k hk
      rcases List.mem_append.mp hk with hk | hk
      · exact hx k hk
      · exact hf a rfl k hk

theorem within_bind (hx : Within p x) (hf : ∀ a, x.result = .ok a → Within p (f a)) : Within p (x >>= f) :=
  within_bind_iff.mpr ⟨hx, hf⟩

/-- The same where the value of the first part is known. -/
theorem within_bind_ok (ha : x.result = .ok a) : Within p (x >>= f) ↔ Within p x ∧ Within p (f a) := by
  rw [within_bind_iff, ha]
  exact and_congr_right fun _ => ⟨fun h => h a rfl, fun h b hb => Except.ok.inj hb ▸ h⟩

theorem within_touch_bind {k : κ} {g : Unit → Traced ε κ β} : Within p (touch k >>= g) ↔ p k ∧ Within p (g ()) := by
  unfold Within
  rw [touched_touch_bind, List.forall_mem_cons]

theorem within_touchAll_bind {ks : List κ} {g : Unit → Traced ε κ β} :
    Within p (touchAll ks >>= g) ↔ (∀ k ∈ ks, p k) ∧ Within p (g ()) := by
  unfold Within
  rw [touched_touchAll_bind, List.forall_mem_append]

end Traced

end Tracing

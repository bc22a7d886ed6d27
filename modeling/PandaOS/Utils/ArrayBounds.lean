import PandaOS.Utils.SortedArray
import PandaOS.Library.Traced

/-! The slots that the ordered array's functions read and write. Each function is written once more with its
accesses to `array[i]` recorded as the index `i`; without the record it is the function itself. Both loops
reach the slot at index `size`, so a call stays inside the storage while there is a slot to spare. -/
namespace PandaOS
open ByteMemory Word32 GuardedRun Tracing Traced
set_option autoImplicit false
set_option maxHeartbeats 250000

/-! ## The functions with their accesses -/

def insertScanSlots (lt : ℕ → ℕ → Bool) (m : Mem) (array : OrderedArray) (item : ℕ) : ℕ → ℕ → Traced Stop ℕ ℕ
  | 0, iterator => pure iterator
  | n + 1, iterator => do
    touch iterator
    if lt (load32 m (slot array iterator)) item then insertScanSlots lt m array item n (iterator + 1)
    else pure iterator

def shiftUpSlots (array : OrderedArray) : ℕ → ℕ → ℕ → Mem → Traced Stop ℕ Mem
  | 0, _, _, m => pure m
  | n + 1, iterator, tmp, m => do
    touch (iterator + 1)
    let tmp2 := load32 m (slot array (iterator + 1))
    touch (iterator + 1)
    shiftUpSlots array n (iterator + 1) tmp2 (store32 m (slot array (iterator + 1)) tmp)

def insertOrderedArraySlots (item : ℕ) (array : OrderedArray) (m : Mem) : Traced Stop ℕ (OrderedArray × Mem) :=
  match array.lessThan with
  | none => lift (.error (.assertionFailed "array->less_than"))
  | some lt => do
    let iterator ← insertScanSlots (lt m) m array item array.size 0
    let grown := { array with size := add32 array.size 1 }
    if iterator = array.size then
      touch array.size
      pure (grown, store32 m (slot array array.size) item)
    else
      touch iterator
      let tmp := load32 m (slot array iterator)
      touch iterator
      let m ← shiftUpSlots array (array.size - iterator) iterator tmp (store32 m (slot array iterator) item)
      pure (grown, m)

def shiftDownSlots (array : OrderedArray) : ℕ → ℕ → Mem → Traced Stop ℕ Mem
  | 0, _, m => pure m
  | n + 1, i, m => do
    touch (i + 1)
    touch i
    shiftDownSlots array n (i + 1) (store32 m (slot array i) (load32 m (slot array (i + 1))))

def removeOrderedArraySlots (i : ℕ) (array : OrderedArray) (m : Mem) : Traced Stop ℕ (OrderedArray × Mem) := do
  let m ← shiftDownSlots array (array.size - i) i m
  pure ({ array with size := sub32 array.size 1 }, m)

def ArrayCall.slots : ArrayCall → OrderedArray × Mem → Traced Stop ℕ (OrderedArray × Mem)
  | .insert item, (array, m) => insertOrderedArraySlots item array m
  | .remove i, (array, m) => removeOrderedArraySlots i array m

/-! ## What is asked of a call -/

/-- A call that has nothing to work on: an insertion into a full array, a removal past the elements. -/
def ArrayCall.OutOfRange (array : OrderedArray) : ArrayCall → Prop
  | .insert _ => array.maxSize ≤ array.size
  | .remove i => array.size ≤ i

/-- The call keeps to the storage of the array, and changes nothing when it is out of range. -/
structure ArrayCall.Contained (call : ArrayCall) (s : OrderedArray × Mem) : Prop where
  slots : ∀ i ∈ (call.slots s).touched, i < s.1.maxSize
  size : ∀ s', call.run s = .ok s' → s'.1.size ≤ s'.1.maxSize
  storage : ∀ s', call.run s = .ok s' → SameOff s.2 s'.2 (slot s.1 0) (slot s.1 s.1.maxSize)
  unchanged : call.OutOfRange s.1 → ∀ s', call.run s = .ok s' → s' = s

/-- There is a slot beyond the elements, and a removal names one of them. -/
def ArrayCall.Guard (s : OrderedArray × Mem) : ArrayCall → Prop
  | .insert _ => s.1.lessThan = none ∨ s.1.size < s.1.maxSize
  | .remove i => i < s.1.size ∧ s.1.size < s.1.maxSize

/-- The array has the capacity it was made with, and no more elements. -/
def HasCapacity (maxSize : ℕ) (s : OrderedArray × Mem) : Prop := s.1.maxSize = maxSize ∧ s.1.size ≤ s.1.maxSize

def ArrayCall.Step (s : OrderedArray × Mem) (call : ArrayCall) (s' : OrderedArray × Mem) : Prop :=
  call.run s = .ok s'

variable {lt : ℕ → ℕ → Bool} {m : Mem} {array : OrderedArray} {item i addr maxSize : ℕ}
  {call : ArrayCall} {s s' : OrderedArray × Mem} {lessThan : Option (Mem → ℕ → ℕ → Bool)}

/-! ## Without the record -/

theorem insertScanSlots_result (lt : ℕ → ℕ → Bool) (m : Mem) (array : OrderedArray) (item n i : ℕ) :
    (insertScanSlots lt m array item n i).result = .ok (insertScan lt m array item n i) := by
  induction n generalizing i with
  | zero => rfl
  | succ n ih =>
    rw [insertScanSlots, insertScan, result_bind, result_touch, ok_bind]
    split
    · exact ih (i+1)
    · rfl

theorem shiftUpSlots_result (array : OrderedArray) (n i tmp : ℕ) (m : Mem) :
    (shiftUpSlots array n i tmp m).result = .ok (shiftUp array n i tmp m) := by
  induction n generalizing i tmp m with
  | zero => rfl
  | succ n ih => exact ih (i+1) _ _

theorem shiftDownSlots_result (array : OrderedArray) (n i : ℕ) (m : Mem) :
    (shiftDownSlots array n i m).result = .ok (shiftDown array n i m) := by
  induction n generalizing i m with
  | zero => rfl
  | succ n ih => exact ih (i+1) _

/-- The recorded call is the call. -/
theorem ArrayCall.slots_result (call : ArrayCall) (s : OrderedArray × Mem) : (call.slots s).result = call.run s := by
  obtain ⟨array, m⟩ := s
  cases call with
  | insert item =>
    rw [ArrayCall.slots, ArrayCall.run, insertOrderedArraySlots, insertOrderedArray]
    cases array.lessThan with
    | none => rfl
    | some lt =>
      simp only [result_bind, insertScanSlots_result, ok_bind]
      split
      · rfl
      · simp only [result_bind, result_touch, ok_bind, shiftUpSlots_result, result_pure]
  | remove i =>
    rw [ArrayCall.slots, ArrayCall.run, removeOrderedArraySlots, removeOrderedArray, result_bind,
      shiftDownSlots_result, ok_bind, result_pure]

/-! ## The slots of each loop -/

theorem insertScanSlots_within (lt : ℕ → ℕ → Bool) (m : Mem) (array : OrderedArray) (item n i : ℕ) :
    Within (fun k => k < i + n) (insertScanSlots lt m array item n i) := by
  induction n generalizing i with
  | zero => exact within_pure i
  | succ n ih =>
    rw [insertScanSlots]
    refine within_bind (within_touch (by omega)) fun _ _ => ?_
    split
    · exact (ih (i+1)).mono fun k hk => by omega
    · exact within_pure i

theorem shiftUpSlots_within (array : OrderedArray) (n i tmp : ℕ) (m : Mem) :
    Within (fun k => k ≤ i + n) (shiftUpSlots array n i tmp m) := by
  induction n generalizing i tmp m with
  | zero => exact within_pure m
  | succ n ih =>
    rw [shiftUpSlots]
    refine within_bind (within_touch (by omega)) fun _ _ => within_bind (within_touch (by omega)) fun _ _ => ?_
    exact (ih (i+1) _ _).mono fun k hk => by omega

/-- The last round reads and writes the slot behind the elements. -/
theorem shiftUpSlots_last (array : OrderedArray) (n i tmp : ℕ) (m : Mem) :
    i + (n + 1) ∈ (shiftUpSlots array (n + 1) i tmp m).touched := by
  induction n generalizing i tmp m with
  | zero => exact List.mem_cons_self
  | succ n ih =>
    have hin := ih (i+1) (load32 m (slot array (i+1))) (store32 m (slot array (i+1)) tmp)
    have hsum : i + 1 + (n + 1) = i + (n + 1 + 1) := by omega
    rw [hsum] at hin
    rw [shiftUpSlots]
    exact List.mem_cons_of_mem _ (List.mem_cons_of_mem _ hin)

theorem shiftDownSlots_within (array : OrderedArray) (n i : ℕ) (m : Mem) :
    Within (fun k => k ≤ i + n) (shiftDownSlots array n i m) := by
  induction n generalizing i m with
  | zero => exact within_pure m
  | succ n ih =>
    rw [shiftDownSlots]
    refine within_bind (within_touch (by omega)) fun _ _ => within_bind (within_touch (by omega)) fun _ _ => ?_
    exact (ih (i+1) _).mono fun k hk => by omega

theorem shiftDownSlots_last (array : OrderedArray) (n i : ℕ) (m : Mem) :
    i + (n + 1) ∈ (shiftDownSlots array (n + 1) i m).touched := by
  induction n generalizing i m with
  | zero => exact List.mem_cons_self
  | succ n ih =>
    have hin := ih (i+1) (store32 m (slot array i) (load32 m (slot array (i+1))))
    have hsum : i + 1 + (n + 1) = i + (n + 1 + 1) := by omega
    rw [hsum] at hin
    rw [shiftDownSlots]
    exact List.mem_cons_of_mem _ (List.mem_cons_of_mem _ hin)

/-! ## The slots of a call -/

theorem insertSlots_within (item : ℕ) (array : OrderedArray) (m : Mem) :
    Within (fun k => k ≤ array.size) (insertOrderedArraySlots item array m) := by
  rw [insertOrderedArraySlots]
  cases array.lessThan with
  | none => exact within_lift _
  | some lt =>
    refine within_bind ((insertScanSlots_within _ _ _ _ _ _).mono fun k hk => by omega) fun pos hpos => ?_
    rw [insertScanSlots_result] at hpos
    have hle := (insertScan_le (lt m) m array item array.size 0).2
    rw [Except.ok.inj hpos] at hle
    split
    · exact within_bind (within_touch le_rfl) fun _ _ => within_pure _
    · refine within_bind (within_touch (by omega)) fun _ _ => within_bind (within_touch (by omega)) fun _ _ => ?_
      refine within_bind ((shiftUpSlots_within _ _ _ _ _).mono fun k hk => by omega) fun _ _ => within_pure _

/-- Every insertion ends with the slot behind the elements. -/
theorem insertSlots_last {less : Mem → ℕ → ℕ → Bool} (hless : array.lessThan = some less) (item : ℕ) (m : Mem) :
    array.size ∈ (insertOrderedArraySlots item array m).touched := by
  obtain ⟨pos, hpos⟩ : ∃ pos, pos = insertScan (less m) m array item array.size 0 := ⟨_, rfl⟩
  have hle := (insertScan_le (less m) m array item array.size 0).2
  rw [← hpos] at hle
  have hscan := insertScanSlots_result (less m) m array item array.size 0
  rw [← hpos] at hscan
  rw [insertOrderedArraySlots, hless]
  rw [touched_bind_ok hscan]
  refine List.mem_append_right _ ?_
  split
  · exact List.mem_cons_self
  · obtain ⟨n, hn⟩ : ∃ n, array.size - pos = n + 1 := ⟨array.size - pos - 1, by omega⟩
    have hlast := shiftUpSlots_last array n pos (load32 m (slot array pos)) (store32 m (slot array pos) item)
    have hsize : pos + (n + 1) = array.size := by omega
    rw [hsize] at hlast
    rw [hn, touched_touch_bind, touched_touch_bind, touched_bind_ok (shiftUpSlots_result _ _ _ _ _)]
    exact List.mem_cons_of_mem _ (List.mem_cons_of_mem _ (List.mem_append_left _ hlast))

theorem removeSlots_touched (i : ℕ) (array : OrderedArray) (m : Mem) :
    (removeOrderedArraySlots i array m).touched = (shiftDownSlots array (array.size - i) i m).touched := by
  rw [removeOrderedArraySlots, touched_bind_ok (shiftDownSlots_result _ _ _ _), touched_pure, List.append_nil]

/-! ## What a call leaves behind -/

theorem insertOrderedArray_ok (h : insertOrderedArray item array m = .ok s) :
    s.1 = { array with size := add32 array.size 1 } ∧
      SameOff m s.2 (slot array 0) (slot array (array.size + 1)) := by
  cases hless : array.lessThan with
  | none =>
    rw [insertOrderedArray, hless] at h
    cases h
  | some less =>
    obtain ⟨pos, hpos⟩ : ∃ pos, pos = insertScan (less m) m array item array.size 0 := ⟨_, rfl⟩
    have hle := (insertScan_le (less m) m array item array.size 0).2
    simp only [insertOrderedArray, hless, ← hpos] at h hle
    split at h
    · cases h
      exact ⟨rfl, sameOff_store32 (by unfold slot; omega) (by unfold slot; omega)⟩
    · cases h
      refine ⟨rfl, (sameOff_store32 ?_ ?_).trans ((sameOff_shiftUp array _ _ _ _).mono ?_ ?_)⟩
      · unfold slot
        omega
      · unfold slot
        omega
      · unfold slot
        omega
      · unfold slot
        omega

theorem sameOff_removeOrderedArray (i : ℕ) (array : OrderedArray) (m : Mem) :
    SameOff m (removeOrderedArray i array m).2 (slot array 0) (slot array array.size) := by
  rcases Nat.lt_or_ge i array.size with hi | hi
  · exact (sameOff_shiftDown array _ i m).mono (by unfold slot; omega) (by unfold slot; omega)
  · rw [removeOrderedArray, Nat.sub_eq_zero_of_le hi]
    exact SameOff.refl _ _ _

/-- An insertion keeps to the storage where a slot is free, and only there. -/
theorem contained_insert_iff (hmax : s.1.maxSize < 4294967296) :
    (ArrayCall.insert item).Contained s ↔ (ArrayCall.insert item).Guard s := by
  constructor
  · intro h
    cases hless : s.1.lessThan with
    | none => exact Or.inl hless
    | some less => exact Or.inr (h.slots s.1.size (insertSlots_last hless item s.2))
  · rintro (hless | hroom)
    · have hrun : ∀ s', (ArrayCall.insert item).run s ≠ .ok s' := by
        intro s' hs'
        rw [ArrayCall.run, insertOrderedArray, hless] at hs'
        cases hs'
      refine ⟨?_, fun s' hs' => absurd hs' (hrun s'), fun s' hs' => absurd hs' (hrun s'),
        fun _ s' hs' => absurd hs' (hrun s')⟩
      intro k hk
      rw [ArrayCall.slots, insertOrderedArraySlots, hless] at hk
      cases hk
    · refine ⟨?_, ?_, ?_, fun hfull => absurd hroom (Nat.not_lt.mpr hfull)⟩
      · intro k hk
        exact (insertSlots_within item s.1 s.2 k hk).trans_lt hroom
      · intro s' hs'
        rw [(insertOrderedArray_ok hs').1]
        have hadd : add32 s.1.size 1 = s.1.size + 1 := add32_of_lt (by omega)
        rw [hadd]
        exact hroom
      · intro s' hs'
        exact (insertOrderedArray_ok hs').2.mono le_rfl (by unfold slot; omega)

/-- A removal keeps to the storage when it names an element and a slot is free behind the elements. -/
theorem contained_remove_iff (hmax : s.1.maxSize < 4294967296) :
    (ArrayCall.remove i).Contained s ↔ (ArrayCall.remove i).Guard s := by
  constructor
  · intro h
    have hi : i < s.1.size := by
      by_contra hge
      -- the size goes down, or wraps around, although nothing was named
      have hsame := h.unchanged (Nat.not_lt.mp hge) _ rfl
      have hdown : sub32 s.1.size 1 = s.1.size := congrArg (fun t => t.1.size) hsame
      rw [sub32] at hdown
      split at hdown <;> omega
    obtain ⟨n, hn⟩ : ∃ n, s.1.size - i = n + 1 := ⟨s.1.size - i - 1, by omega⟩
    have hlast := shiftDownSlots_last s.1 n i s.2
    have hsum : i + (n + 1) = s.1.size := by omega
    rw [hsum, ← hn, ← removeSlots_touched] at hlast
    exact ⟨hi, h.slots s.1.size hlast⟩
  · rintro ⟨hi, hroom⟩
    refine ⟨?_, ?_, ?_, fun hpast => absurd hi (Nat.not_lt.mpr hpast)⟩
    · intro k hk
      rw [ArrayCall.slots, removeSlots_touched] at hk
      have hle := shiftDownSlots_within s.1 (s.1.size - i) i s.2 k hk
      omega
    · intro s' hs'
      cases hs'
      have hdown : sub32 s.1.size 1 = s.1.size - 1 := sub32_of_le (by omega) (by omega)
      have hless : sub32 s.1.size 1 ≤ s.1.maxSize := by omega
      exact hless
    · intro s' hs'
      cases hs'
      exact (sameOff_removeOrderedArray i s.1 s.2).mono le_rfl (by unfold slot; omega)

theorem contained_iff (hmax : s.1.maxSize < 4294967296) : call.Contained s ↔ call.Guard s := by
  cases call with
  | insert item => exact contained_insert_iff hmax
  | remove i => exact contained_remove_iff hmax

/-! ## Runs -/

theorem run_maxSize (h : call.run s = .ok s') : s'.1.maxSize = s.1.maxSize := by
  cases call with
  | insert item => rw [(insertOrderedArray_ok h).1]
  | remove i =>
    cases h
    rfl

/-- In a run whose calls all leave a slot to spare the size never exceeds the capacity, and the next call keeps
to the storage exactly when it does so too. -/
theorem ordered_array_contained (hmax : maxSize < 4294967296)
    (hreach : Reach (· = placeOrderedArray addr maxSize lessThan m) ArrayCall.Guard ArrayCall.Step s) :
    s.1.size ≤ maxSize ∧ ∀ call : ArrayCall, call.Contained s ↔ call.Guard s := by
  have hinv : HasCapacity maxSize s := by
    refine hreach.invariant ?_ ?_
    · rintro _ rfl
      exact ⟨rfl, Nat.zero_le _⟩
    · rintro s call s' ⟨hcap, -⟩ hguard hstep
      rw [← hcap] at hmax
      exact ⟨(run_maxSize hstep).trans hcap, ((contained_iff hmax).mpr hguard).size s' hstep⟩
  obtain ⟨hcap, hsize⟩ := hinv
  rw [← hcap] at hmax ⊢
  exact ⟨hsize, fun call => contained_iff hmax⟩

/-- The index of the kernel's heap with its first hole in it. -/
theorem ordered_array_contained_index : ∃ s,
    Reach (· = placeOrderedArray 0xC0000000 0x20000 (some fun m a b => decide (load32 m (a + 8) < load32 m (b + 8)))
      fun _ => 0) ArrayCall.Guard ArrayCall.Step s ∧ s.1.size = 1 ∧ s.1.size ≤ 0x20000 ∧
    ∀ call : ArrayCall, call.Contained s ↔ call.Guard s := by
  have h0 : Reach (· = placeOrderedArray 0xC0000000 0x20000
      (some fun m a b => decide (load32 m (a + 8) < load32 m (b + 8))) fun _ => 0) ArrayCall.Guard ArrayCall.Step
      (placeOrderedArray 0xC0000000 0x20000 (some fun m a b => decide (load32 m (a + 8) < load32 m (b + 8)))
        fun _ => 0) := .start rfl
  have h1 : ArrayCall.Guard (placeOrderedArray 0xC0000000 0x20000
      (some fun m a b => decide (load32 m (a + 8) < load32 m (b + 8))) fun _ => 0) (.insert 0xC0080000) :=
    Or.inr (by simp only [placeOrderedArray]; omega)
  have h2 : ArrayCall.Step (placeOrderedArray 0xC0000000 0x20000
      (some fun m a b => decide (load32 m (a + 8) < load32 m (b + 8))) fun _ => 0) (.insert 0xC0080000)
      (_, _) := rfl
  have hnext := h0.next h1 h2
  exact ⟨_, hnext, rfl, ordered_array_contained (by decide) hnext⟩

/-- A capacity of one: a second insertion writes the slot behind the array, and a removal past the elements
still lowers the size. -/
theorem ordered_array_leaves_storage :
    Reach (· = placeOrderedArray 0x1000 1 (some fun _ a b => decide (a < b)) fun _ => 0) (fun _ _ => True)
      ArrayCall.Step (⟨0x1000, 1, 1, some fun _ a b => decide (a < b)⟩, store32 (memset (fun _ => 0) 0x1000 0 4) 0x1000 7) ∧
    ¬ (ArrayCall.insert 8).Contained (⟨0x1000, 1, 1, some fun _ a b => decide (a < b)⟩,
      store32 (memset (fun _ => 0) 0x1000 0 4) 0x1000 7) ∧
    ¬ (ArrayCall.remove 1).Contained (⟨0x1000, 1, 1, some fun _ a b => decide (a < b)⟩,
      store32 (memset (fun _ => 0) 0x1000 0 4) 0x1000 7) := by
  refine ⟨?_, fun h => ?_, fun h => ?_⟩
  · exact Reach.next (i := .insert 7) (.start rfl) trivial rfl
  · exact absurd (h.slots 1 (insertSlots_last rfl 8 _)) (lt_irrefl 1)
  · have hsame := h.unchanged (le_refl 1) _ rfl
    exact absurd (congrArg (fun s => s.1.size) hsame) (by decide)

end PandaOS

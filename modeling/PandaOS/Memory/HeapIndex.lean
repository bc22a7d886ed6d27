import PandaOS.Memory.HeapEnd

/-! The index of the heap: the three searches through it, and insertion and removal as the heap
uses them. `CleanSlots` says that no slot of the index, in use or not, reads as `HEAP_MAGIC`: the
slots lie just below the first block, where `free` looks for a footer. -/
namespace PandaOS
open ByteMemory Word32 Tiling
set_option autoImplicit false
set_option maxHeartbeats 250000

variable {m m' : Mem} {heap : Heap} {index : OrderedArray} {l : List ℕ}
  {b i j n item size pageAlign target value : ℕ} {idx : Option ℕ}

/-! ## Searches -/

theorem holeScan_eq (hn : i + n = index.size) :
    holeScan size pageAlign index m n i =
      (((entries m index).drop i).findIdx? (fits m size pageAlign)).map (· + i) := by
  induction n generalizing i with
  | zero =>
    have : (entries m index).drop i = [] := List.drop_eq_nil_of_le (by simp; omega)
    simp [holeScan, this]
  | succ n ih =>
    have hi : i < (entries m index).length := by simp; omega
    rw [holeScan, List.drop_eq_getElem_cons hi, entries_getElem hi, List.findIdx?_cons]
    cases hfit : fits m size pageAlign (load32 m (slot index i)) with
    | true => simp
    | false =>
      rw [ih (by omega)]
      simp only [Bool.false_eq_true, if_false, Option.map_map]
      congr 1
      funext x
      simp only [Function.comp_apply]
      omega

theorem findSmallestHole_eq (hl : entries m heap.index = l) :
    findSmallestHole size pageAlign heap m = l.findIdx? (fits m size pageAlign) := by
  rw [findSmallestHole, holeScan_eq (Nat.zero_add _), hl]
  simp

theorem entryScan_eq (hn : i + n = index.size) :
    entryScan target index m n i = i + ((entries m index).drop i).idxOf target := by
  induction n generalizing i with
  | zero =>
    have : (entries m index).drop i = [] := List.drop_eq_nil_of_le (by simp; omega)
    simp [entryScan, this]
  | succ n ih =>
    have hi : i < (entries m index).length := by simp; omega
    rw [entryScan, List.drop_eq_getElem_cons hi, entries_getElem hi, List.idxOf_cons]
    by_cases ht : load32 m (slot index i) = target
    · simp [ht]
    · rw [if_pos ht, ih (by omega)]
      simp only [cond_false, beq_eq_false_iff_ne.mpr ht]
      omega

theorem entryScan_all (target : ℕ) (hl : entries m index = l) :
    entryScan target index m index.size 0 = l.idxOf target := by
  rw [entryScan_eq (Nat.zero_add _), hl]
  simp

/-- The scan keeps a largest entry seen so far, once one exceeds the first `value`. -/
theorem highestScan_spec (idx : Option ℕ) (value : ℕ) (hn : i + n = index.size)
    (hsome : ∀ j, idx = some j → j < i ∧ load32 m (slot index j) = value)
    (hmax : ∀ j < i, load32 m (slot index j) ≤ value) :
    match highestScan index m n i idx value with
    | some r => r < index.size ∧ ∀ j < index.size, load32 m (slot index j) ≤ load32 m (slot index r)
    | none => idx = none ∧ ∀ j < index.size, load32 m (slot index j) ≤ value := by
  induction n generalizing i idx value with
  | zero =>
    rw [highestScan]
    cases idx with
    | none => exact ⟨rfl, fun j hj => hmax j (by omega)⟩
    | some r =>
      obtain ⟨hr, hv⟩ := hsome r rfl
      refine ⟨by omega, fun j hj => ?_⟩
      rw [hv]
      exact hmax j (by omega)
  | succ n ih =>
    -- one more entry is seen, and `v` is the maximum after it
    have hstep : ∀ v, load32 m (slot index i) ≤ v → value ≤ v →
        ∀ j < i + 1, load32 m (slot index j) ≤ v := by
      intro v hv hle j hj
      by_cases hji : j = i
      · rwa [hji]
      · exact (hmax j (by omega)).trans hle
    rw [highestScan]
    by_cases hgt : load32 m (slot index i) > value
    · rw [if_pos hgt]
      have hrec := ih (i := i+1) (some i) (load32 m (slot index i)) (by omega)
        (fun j hj => by
          cases hj
          exact ⟨by omega, rfl⟩)
        (hstep _ le_rfl hgt.le)
      revert hrec
      cases highestScan index m n (i+1) (some i) (load32 m (slot index i)) with
      | some r => exact id
      | none =>
        rintro ⟨h, _⟩
        cases h
    · rw [if_neg hgt]
      exact ih idx value (by omega) (fun j hj => ⟨by have := (hsome j hj).1; omega, (hsome j hj).2⟩)
        (hstep _ (by omega) le_rfl)

/-- The largest entry, where every entry is positive. -/
theorem highestScan_all (hl : entries m index = l) (hpos : ∀ b ∈ l, 0 < b) :
    (highestScan index m index.size 0 none 0 = none ∧ l = []) ∨
    ∃ r, ∃ hr : r < l.length, highestScan index m index.size 0 none 0 = some r ∧
      ∀ b ∈ l, b ≤ l[r] := by
  have hspec := highestScan_spec (m := m) (i := 0) (n := index.size) none 0 (Nat.zero_add _)
    (fun j hj => by cases hj) (fun j hj => by omega)
  have hlen : l.length = index.size := by rw [← hl, entries_length]
  cases hscan : highestScan index m index.size 0 none 0 with
  | none =>
    rw [hscan] at hspec
    left
    refine ⟨rfl, List.eq_nil_iff_forall_not_mem.mpr fun b hb => ?_⟩
    have hp := hpos b hb
    rw [← hl] at hb
    obtain ⟨j, hj, rfl⟩ := mem_entries.mp hb
    have := hspec.2 j hj
    omega
  | some r =>
    rw [hscan] at hspec
    right
    refine ⟨r, by omega, rfl, fun b hb => ?_⟩
    rw [← hl] at hb
    obtain ⟨j, hj, rfl⟩ := mem_entries.mp hb
    have hr : r < l.length := by omega
    have hget : l[r] = load32 m (slot index r) := by
      subst hl
      exact entries_getElem _
    rw [hget]
    exact hspec.2 j hj

/-! ## Insertion and removal -/

def CleanSlots (m : Mem) (index : OrderedArray) : Prop :=
  ∀ i < index.maxSize, load32 m (slot index i) ≠ HEAP_MAGIC

/-- The index is not full and none of its slots can be taken for a footer. -/
structure CleanIndex (m : Mem) (heap : Heap) : Prop where
  room : heap.index.size < heap.index.maxSize
  above : HEAP_MAGIC < heap.startAddress
  slots : CleanSlots m heap.index

/-- The index with `n` entries. -/
def OrderedArray.withSize (index : OrderedArray) (n : ℕ) : OrderedArray := { index with size := n }

@[simp] theorem OrderedArray.withSize_array (index : OrderedArray) (n : ℕ) :
    (index.withSize n).array = index.array := rfl
@[simp] theorem OrderedArray.withSize_size (index : OrderedArray) (n : ℕ) :
    (index.withSize n).size = n := rfl
@[simp] theorem OrderedArray.withSize_maxSize (index : OrderedArray) (n : ℕ) :
    (index.withSize n).maxSize = index.maxSize := rfl

theorem removeOrderedArray_index (hl : entries m index = l) (hi : i < l.length)
    (hcap : index.size ≤ index.maxSize) (hbound : index.maxSize < 4294967296) :
    ∃ m', removeOrderedArray i index m = (index.withSize (l.length - 1), m') ∧
      entries m' (index.withSize (l.length - 1)) = l.eraseIdx i ∧
      SameOff m m' index.array (index.array + 4*index.maxSize) ∧
      (index.size < index.maxSize → CleanSlots m index → CleanSlots m' index) := by
  have hlen : l.length = index.size := by rw [← hl, entries_length]
  obtain ⟨hindex, hoff, hentries, hlast⟩ :=
    removeOrderedArray_spec index (m := m) (i := i) (by omega) (by omega)
  rw [hl] at hentries
  refine ⟨(removeOrderedArray i index m).2, ?_, ?_, ?_, ?_⟩
  · rw [hlen, OrderedArray.withSize, ← hindex]
  · rw [hlen]
    exact hentries
  · exact hoff.mono (by unfold slot; omega) (by unfold slot; omega)
  · intro hlt hclean j hj
    by_cases hlo : j < index.size - 1
    · -- a slot in use holds an old entry
      have hmem : load32 (removeOrderedArray i index m).2 (slot index j) ∈ l.eraseIdx i := by
        rw [← hentries]
        exact mem_entries.mpr ⟨j, hlo, rfl⟩
      have hold := List.mem_of_mem_eraseIdx hmem
      rw [← hl] at hold
      obtain ⟨j', hj', heq⟩ := mem_entries.mp hold
      rw [← heq]
      exact hclean j' (by omega)
    · by_cases hhi : j = index.size - 1
      · rw [hhi, hlast]
        exact hclean _ hlt
      · rw [hoff.load32_eq (Or.inr (by unfold slot; omega))]
        exact hclean j hj

theorem insertOrderedArray_index (item : ℕ) (hless : index.lessThan = some headerTLessThan)
    (hl : entries m index = l) (hitem : item < 4294967296) (hcap : l.length < index.maxSize)
    (hbound : index.maxSize < 4294967296) :
    ∃ m', insertOrderedArray item index m = .ok (index.withSize (l.length + 1), m') ∧
      entries m' (index.withSize (l.length + 1)) = insertEntry (headerTLessThan m) item l ∧
      SameOff m m' index.array (index.array + 4*index.maxSize) ∧
      (item ≠ HEAP_MAGIC → CleanSlots m index → CleanSlots m' index) := by
  have hlen : l.length = index.size := by rw [← hl, entries_length]
  obtain ⟨m', hrun, hoff, hentries⟩ :=
    insertOrderedArray_spec (m := m) hless hitem (by omega : index.size + 1 < 4294967296)
  rw [hl] at hentries
  refine ⟨m', ?_, ?_, ?_, ?_⟩
  · rw [hlen]
    exact hrun
  · rw [hlen]
    exact hentries
  · exact hoff.mono (by unfold slot; omega) (by unfold slot; omega)
  · intro hne hclean j hj
    by_cases hlo : j < index.size + 1
    · have hmem : load32 m' (slot index j) ∈ insertEntry (headerTLessThan m) item l := by
        rw [← hentries]
        exact mem_entries.mpr ⟨j, hlo, rfl⟩
      rcases List.mem_cons.mp ((insertEntry_perm _ _ _).mem_iff.mp hmem) with heq | hold
      · rwa [heq]
      · rw [← hl] at hold
        obtain ⟨j', hj', heq⟩ := mem_entries.mp hold
        rw [← heq]
        exact hclean j' (by omega)
    · rw [hoff.load32_eq (Or.inr (by unfold slot; omega))]
      exact hclean j hj

/-- The place of an item depends on the sizes of the holes only. -/
theorem insertEntry_congr {lt lt' : ℕ → ℕ → Bool} (h : ∀ x ∈ l, lt x item = lt' x item) :
    insertEntry lt item l = insertEntry lt' item l := by
  induction l with
  | nil => rfl
  | cons x l ih =>
    have hx := h x (List.mem_cons_self ..)
    have hrest := ih (fun y hy => h y (List.mem_cons_of_mem x hy))
    simp only [insertEntry, List.orderedInsert_cons] at *
    rw [hx, hrest]

end PandaOS

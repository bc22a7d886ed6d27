import PandaOS.Utils.Mem
import Mathlib.Data.List.Sort

/-! `ordered_array.c`. The array is kept in memory: a removal or an insertion moves the slots
behind it one place. The two moving loops are stated by what each slot holds afterwards; on the
list of entries they are `eraseIdx` and `orderedInsert`. Neither function looks at `max_size`. -/
namespace PandaOS
open ByteMemory Word32
set_option autoImplicit false
set_option maxHeartbeats 250000

/-! ## The functions -/

/-- The address of `array->array[i]`. -/
def slot (array : OrderedArray) (i : ℕ) : ℕ := array.array + 4*i

def placeOrderedArray (addr maxSize : ℕ) (lessThan : Option (Mem → ℕ → ℕ → Bool)) (m : Mem) :
    OrderedArray × Mem :=
  ({ array := addr, size := 0, maxSize := maxSize, lessThan := lessThan },
    memset m addr 0 (maxSize*4))

/-- `while (iterator < size && less_than(array[iterator], item)) iterator++;` with `n` slots left
before `size`. -/
def insertScan (lt : ℕ → ℕ → Bool) (m : Mem) (array : OrderedArray) (item : ℕ) : ℕ → ℕ → ℕ
  | 0, iterator => iterator
  | n + 1, iterator =>
    if lt (load32 m (slot array iterator)) item then insertScan lt m array item n (iterator + 1)
    else iterator

/-- `while (iterator < size) { iterator++; tmp2 = array[iterator]; array[iterator] = tmp;
tmp = tmp2; }` with `n` rounds left. -/
def shiftUp (array : OrderedArray) : ℕ → ℕ → ℕ → Mem → Mem
  | 0, _, _, m => m
  | n + 1, iterator, tmp, m =>
    shiftUp array n (iterator + 1) (load32 m (slot array (iterator + 1)))
      (store32 m (slot array (iterator + 1)) tmp)

def insertOrderedArray (item : ℕ) (array : OrderedArray) (m : Mem) :
    Result (OrderedArray × Mem) :=
  match array.lessThan with
  | none => .error (.assertionFailed "array->less_than")
  | some lt =>
    let iterator := insertScan (lt m) m array item array.size 0
    let grown := { array with size := add32 array.size 1 }
    if iterator = array.size then .ok (grown, store32 m (slot array array.size) item)
    else
      let tmp := load32 m (slot array iterator)
      let m := store32 m (slot array iterator) item
      .ok (grown, shiftUp array (array.size - iterator) iterator tmp m)

def lookupOrderedArray (i : ℕ) (array : OrderedArray) (m : Mem) : Result ℕ := do
  assert (decide (i < array.size)) "i < array->size"
  return load32 m (slot array i)

/-- `while (i < size) { array[i] = array[i+1]; i++; }` with `n` rounds left. -/
def shiftDown (array : OrderedArray) : ℕ → ℕ → Mem → Mem
  | 0, _, m => m
  | n + 1, i, m => shiftDown array n (i + 1) (store32 m (slot array i) (load32 m (slot array (i + 1))))

def removeOrderedArray (i : ℕ) (array : OrderedArray) (m : Mem) : OrderedArray × Mem :=
  ({ array with size := sub32 array.size 1 }, shiftDown array (array.size - i) i m)

/-- The elements `array[0..size)`. -/
def entries (m : Mem) (array : OrderedArray) : List ℕ :=
  (List.range array.size).map fun i => load32 m (slot array i)

variable {m m' : Mem} {array : OrderedArray} {item i j n tmp : ℕ} {lt : ℕ → ℕ → Bool}

/-! ## Entries -/

@[simp] theorem entries_length (m : Mem) (array : OrderedArray) :
    (entries m array).length = array.size := by simp [entries]

theorem entries_getElem (h : i < (entries m array).length) :
    (entries m array)[i] = load32 m (slot array i) := by simp [entries]

theorem mem_entries : item ∈ entries m array ↔ ∃ i < array.size, load32 m (slot array i) = item := by
  simp [entries]

theorem entries_congr (h : SameOn m m' array.array (array.array + 4*array.size)) :
    entries m' array = entries m array := by
  apply List.map_congr_left
  intro i hi
  have hlt := List.mem_range.mp hi
  exact h.load32_eq (by unfold slot; omega) (by unfold slot; omega)

/-! ## The loops, slot by slot -/

theorem insertScan_le (lt : ℕ → ℕ → Bool) (m : Mem) (array : OrderedArray) (item n i : ℕ) :
    i ≤ insertScan lt m array item n i ∧ insertScan lt m array item n i ≤ i + n := by
  induction n generalizing i with
  | zero => exact ⟨le_rfl, le_rfl⟩
  | succ n ih =>
    rw [insertScan]
    split
    · have := ih (i+1)
      omega
    · omega

theorem insertScan_eq (lt : ℕ → ℕ → Bool) (item : ℕ) (hn : i + n = array.size) :
    insertScan lt m array item n i =
      i + (((entries m array).drop i).takeWhile (fun x => lt x item)).length := by
  induction n generalizing i with
  | zero =>
    have : (entries m array).drop i = [] := List.drop_eq_nil_of_le (by simp; omega)
    simp [insertScan, this]
  | succ n ih =>
    have hi : i < (entries m array).length := by simp; omega
    rw [insertScan, List.drop_eq_getElem_cons hi, entries_getElem hi, List.takeWhile_cons]
    cases hlt : lt (load32 m (slot array i)) item with
    | true =>
      rw [if_pos rfl, ih (by omega)]
      simp only [if_true, List.length_cons]
      omega
    | false => simp

theorem sameOff_shiftUp (array : OrderedArray) (n i tmp : ℕ) (m : Mem) :
    SameOff m (shiftUp array n i tmp m) (slot array (i+1)) (slot array (i+1+n)) := by
  induction n generalizing i tmp m with
  | zero => exact SameOff.refl _ _ _
  | succ n ih =>
    rw [shiftUp]
    have h1 : SameOff m (store32 m (slot array (i+1)) tmp) (slot array (i+1)) (slot array (i+1+(n+1))) :=
      sameOff_store32 le_rfl (by unfold slot; omega)
    refine h1.trans ((ih (i+1) _ _).mono ?_ ?_)
    · unfold slot
      omega
    · unfold slot
      omega

theorem load32_shiftUp (htmp : tmp < 4294967296) (hl : i < j) (hh : j ≤ i + n) :
    load32 (shiftUp array n i tmp m) (slot array j) =
      if j = i + 1 then tmp else load32 m (slot array (j-1)) := by
  induction n generalizing i tmp m with
  | zero => omega
  | succ n ih =>
    rw [shiftUp]
    by_cases hj : j = i + 1
    · subst hj
      rw [if_pos rfl, (sameOff_shiftUp array n (i+1) _ _).load32_eq (by unfold slot; omega),
        load32_store32_of_lt htmp]
    · rw [if_neg hj, ih (load32_lt _ _) (by omega) (by omega)]
      by_cases hj2 : j = i + 1 + 1
      · subst hj2
        rw [if_pos rfl]
        rfl
      · rw [if_neg hj2, load32_store32_of_off (by unfold slot; omega)]

theorem sameOff_shiftDown (array : OrderedArray) (n i : ℕ) (m : Mem) :
    SameOff m (shiftDown array n i m) (slot array i) (slot array (i+n)) := by
  induction n generalizing i m with
  | zero => exact SameOff.refl _ _ _
  | succ n ih =>
    rw [shiftDown]
    have h1 : SameOff m (store32 m (slot array i) (load32 m (slot array (i+1)))) (slot array i)
        (slot array (i+(n+1))) := sameOff_store32 le_rfl (by unfold slot; omega)
    refine h1.trans ((ih (i+1) _).mono ?_ ?_)
    · unfold slot
      omega
    · unfold slot
      omega

theorem load32_shiftDown (array : OrderedArray) (hl : i ≤ j) (hh : j < i + n) :
    load32 (shiftDown array n i m) (slot array j) = load32 m (slot array (j+1)) := by
  induction n generalizing i m with
  | zero => omega
  | succ n ih =>
    rw [shiftDown]
    by_cases hj : j = i
    · subst hj
      rw [(sameOff_shiftDown array n (j+1) _).load32_eq (by unfold slot; omega),
        load32_store32_of_lt (load32_lt _ _)]
    · rw [ih (by omega) (by omega), load32_store32_of_off (by unfold slot; omega)]

/-! ## Insertion and removal on the entries -/

/-- Where `insert_ordered_array` puts the item: before the first entry that is not less. -/
def insertEntry (lt : ℕ → ℕ → Bool) (item : ℕ) (l : List ℕ) : List ℕ :=
  l.orderedInsert (fun a b => lt b a = false) item

theorem insertEntry_eq (lt : ℕ → ℕ → Bool) (item : ℕ) (l : List ℕ) :
    insertEntry lt item l =
      l.takeWhile (fun x => lt x item) ++ item :: l.dropWhile (fun x => lt x item) := by
  rw [insertEntry, List.orderedInsert_eq_take_drop]
  simp

theorem insertEntry_perm (lt : ℕ → ℕ → Bool) (item : ℕ) (l : List ℕ) :
    (insertEntry lt item l).Perm (item :: l) := List.perm_orderedInsert _ _ _

/-- The last element after an insertion. -/
theorem insertEntry_last (lt : ℕ → ℕ → Bool) (item : ℕ) (l : List ℕ) :
    (insertEntry lt item l)[l.length]? = some (if ∀ x ∈ l, lt x item = true then item else l.getLastD item) := by
  rw [insertEntry_eq]
  have hsplit := List.takeWhile_append_dropWhile (p := fun x => lt x item) (l := l)
  obtain ⟨before, hbefore⟩ : ∃ x, x = l.takeWhile fun x => lt x item := ⟨_, rfl⟩
  have hall : ∀ x ∈ before, lt x item = true := by
    rw [hbefore]
    exact List.all_eq_true.mp List.all_takeWhile
  cases hafter : l.dropWhile fun x => lt x item with
  | nil =>
    rw [← hbefore, hafter, List.append_nil] at hsplit
    rw [← hbefore, ← hsplit, if_pos hall, List.getElem?_append_right le_rfl, Nat.sub_self]
    rfl
  | cons y ys =>
    have hnot : ¬ ∀ x ∈ l, lt x item = true := by
      intro hl
      have hy := List.head_dropWhile_not (fun x => lt x item) (l := l) (by rw [hafter]; exact List.cons_ne_nil y ys)
      have hmem : y ∈ l := (List.dropWhile_sublist _).subset (hafter ▸ List.mem_cons_self)
      simp only [hafter, List.head_cons] at hy
      rw [hl y hmem] at hy
      cases hy
    rw [← hbefore, hafter] at hsplit
    rw [if_neg hnot, ← hbefore, ← hsplit, List.length_append, List.getElem?_append_right (Nat.le_add_right _ _),
      Nat.add_sub_cancel_left, List.length_cons, List.getElem?_cons_succ]
    simp [List.getLastD_eq_getLast?, List.getLast?_eq_getElem?]

/-- The slots of an array that holds `l` with `item` moved in at place `k`. -/
theorem getElem_middle {l pre post : List ℕ} (hl : l = pre ++ post)
    (hj : j < (pre ++ item :: post).length) :
    (pre ++ item :: post)[j] =
      if j < pre.length then l.getD j 0 else if j = pre.length then item else l.getD (j-1) 0 := by
  subst hl
  simp only [List.length_append, List.length_cons] at hj
  by_cases h : j < pre.length
  · rw [if_pos h, List.getElem_append_left h, List.getD_append _ _ _ _ h, List.getD_eq_getElem _ _ h]
  · rw [if_neg h, List.getElem_append_right (by omega)]
    by_cases he : j = pre.length
    · simp [he]
    · rw [if_neg he, List.getD_append_right _ _ _ _ (by omega), List.getD_eq_getElem _ _ (by omega)]
      have hsucc : j - pre.length = (j - 1 - pre.length) + 1 := by omega
      simp only [hsucc, List.getElem_cons_succ]

theorem insertOrderedArray_spec {less : Mem → ℕ → ℕ → Bool} (hless : array.lessThan = some less)
    (hitem : item < 4294967296) (hsize : array.size + 1 < 4294967296) :
    ∃ m', insertOrderedArray item array m = .ok ({ array with size := array.size + 1 }, m') ∧
      SameOff m m' (slot array 0) (slot array (array.size + 1)) ∧
      entries m' { array with size := array.size + 1 } =
        insertEntry (less m) item (entries m array) := by
  obtain ⟨pos, hpos⟩ : ∃ k, k = insertScan (less m) m array item array.size 0 := ⟨_, rfl⟩
  have hle := (insertScan_le (less m) m array item array.size 0).2
  have hscan := insertScan_eq (m := m) (less m) item (Nat.zero_add array.size)
  rw [← hpos] at hle hscan
  rw [List.drop_zero, Nat.zero_add] at hscan
  rw [Nat.zero_add] at hle
  have hsplit : entries m array = (entries m array).takeWhile (fun x => less m x item) ++
      (entries m array).dropWhile (fun x => less m x item) := List.takeWhile_append_dropWhile.symm
  -- both branches of the C code leave this memory
  have hmem : ∃ m', insertOrderedArray item array m =
        .ok ({ array with size := array.size + 1 }, m') ∧
      SameOff m m' (slot array pos) (slot array (array.size + 1)) ∧
      load32 m' (slot array pos) = item ∧
      ∀ j, pos < j → j ≤ array.size → load32 m' (slot array j) = load32 m (slot array (j-1)) := by
    have hadd : add32 array.size 1 = array.size + 1 := add32_of_lt hsize
    by_cases hend : pos = array.size
    · refine ⟨store32 m (slot array array.size) item, ?_, ?_, ?_, ?_⟩
      · simp only [insertOrderedArray, hless, ← hpos, if_pos hend, hadd]
      · exact sameOff_store32 (by rw [hend]) (by unfold slot; omega)
      · rw [hend, load32_store32_of_lt hitem]
      · intro j h1 h2
        omega
    · refine ⟨shiftUp array (array.size - pos) pos (load32 m (slot array pos))
        (store32 m (slot array pos) item), ?_, ?_, ?_, ?_⟩
      · simp only [insertOrderedArray, hless, ← hpos, if_neg hend, hadd]
      · refine (sameOff_store32 le_rfl (by unfold slot; omega)).trans
          ((sameOff_shiftUp array _ _ _ _).mono ?_ ?_)
        · unfold slot
          omega
        · unfold slot
          omega
      · rw [(sameOff_shiftUp array _ _ _ _).load32_eq (by unfold slot; omega),
          load32_store32_of_lt hitem]
      · intro j h1 h2
        rw [load32_shiftUp (load32_lt _ _) h1 (by omega)]
        split_ifs with h
        · rw [h]
          rfl
        · rw [load32_store32_of_off (by unfold slot; omega)]
  obtain ⟨m', hrun, hoff, hat, hafter⟩ := hmem
  refine ⟨m', hrun, hoff.mono (by unfold slot; omega) le_rfl, ?_⟩
  rw [insertEntry_eq]
  apply List.ext_getElem
  · have := congrArg List.length hsplit
    simp only [entries_length, List.length_append, List.length_cons] at this ⊢
    omega
  · intro j h1 h2
    simp only [entries_length] at h1
    rw [entries_getElem, getElem_middle hsplit h2]
    by_cases hlt : j < pos
    · rw [if_pos (by omega), List.getD_eq_getElem _ _ (by rw [entries_length]; omega), entries_getElem]
      exact hoff.load32_eq (Or.inl (by simp only [slot]; omega))
    · rw [if_neg (by omega)]
      by_cases heq : j = pos
      · rw [if_pos (by omega), heq]
        exact hat
      · rw [if_neg (by omega), List.getD_eq_getElem _ _ (by rw [entries_length]; omega), entries_getElem]
        exact hafter j (by omega) (by omega)

theorem removeOrderedArray_spec (array : OrderedArray) (hi : i < array.size) (hsize : array.size < 4294967296) :
    (removeOrderedArray i array m).1 = { array with size := array.size - 1 } ∧
    SameOff m (removeOrderedArray i array m).2 (slot array 0) (slot array array.size) ∧
    entries (removeOrderedArray i array m).2 { array with size := array.size - 1 } =
      (entries m array).eraseIdx i ∧
    load32 (removeOrderedArray i array m).2 (slot array (array.size - 1)) =
      load32 m (slot array array.size) := by
  have hoff := sameOff_shiftDown array (array.size - i) i m
  refine ⟨?_, ?_, ?_, ?_⟩
  · simp only [removeOrderedArray]
    rw [sub32_of_le (by omega) hsize]
  · exact hoff.mono (by unfold slot; omega) (by unfold slot; omega)
  · apply List.ext_getElem
    · rw [List.length_eraseIdx_of_lt (by simpa using hi)]
      simp
    · intro j h1 h2
      simp only [entries_length] at h1
      rw [entries_getElem, List.getElem_eraseIdx]
      split_ifs with hlt
      · rw [entries_getElem]
        exact hoff.load32_eq (Or.inl (by simp only [slot]; omega))
      · rw [entries_getElem]
        exact load32_shiftDown _ (by omega) (by omega)
  · rw [removeOrderedArray]
    have := load32_shiftDown array (m := m) (i := i) (j := array.size - 1)
      (n := array.size - i) (by omega) (by omega)
    rw [this]
    congr 2
    omega

end PandaOS

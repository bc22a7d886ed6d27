import PandaOS.Utils.OrderedArray
import PandaOS.Library.GuardedRun

/-! The ordered array as a sorted multiset. A run of insertions and removals starts from
`place_ordered_array` and is observed together with the items that went in and came out. The comparison may
read memory, as `header_t_less_than` does, but not the array's own slots. -/
namespace PandaOS
open ByteMemory Word32 GuardedRun
set_option autoImplicit false
set_option maxHeartbeats 250000

/-! ## Calls -/

/-- A call of one of the two functions that change an ordered array. -/
inductive ArrayCall
  | insert (item : ℕ)
  | remove (i : ℕ)
  deriving DecidableEq, Repr

def ArrayCall.run : ArrayCall → OrderedArray × Mem → Result (OrderedArray × Mem)
  | .insert item, (array, m) => insertOrderedArray item array m
  | .remove i, (array, m) => .ok (removeOrderedArray i array m)

/-- The array, and the items inserted and removed so far. -/
structure ArrayRun where
  array : OrderedArray
  mem : Mem
  inserted : Multiset ℕ
  removed : Multiset ℕ

def ArrayRun.entries (s : ArrayRun) : List ℕ := PandaOS.entries s.mem s.array

/-- There is room for an insertion, and a removal names an element. -/
def ArrayRun.InRange (s : ArrayRun) : ArrayCall → Prop
  | .insert item => item < 4294967296 ∧ s.array.size < s.array.maxSize
  | .remove i => i < s.array.size

def ArrayRun.Placed (addr maxSize : ℕ) (less : Mem → ℕ → ℕ → Bool) (m : Mem) (s : ArrayRun) : Prop :=
  (s.array, s.mem) = placeOrderedArray addr maxSize (some less) m ∧ s.inserted = 0 ∧ s.removed = 0

def ArrayRun.Step (s : ArrayRun) (c : ArrayCall) (s' : ArrayRun) : Prop :=
  c.run (s.array, s.mem) = .ok (s'.array, s'.mem) ∧
  match c with
  | .insert item => s'.inserted = item ::ₘ s.inserted ∧ s'.removed = s.removed
  | .remove i => s'.inserted = s.inserted ∧ s'.removed = s.entries.getD i 0 ::ₘ s.removed

/-! ## What the calls do to the elements -/

/-- `less_than` is a strict weak order of the 32-bit values. -/
def StrictWeak (lt : ℕ → ℕ → Bool) : Prop :=
  IsStrictWeakOrder {a : ℕ // a < 4294967296} fun a b => lt a b = true

/-- No element is less than an earlier one. -/
def SortedBy (lt : ℕ → ℕ → Bool) (l : List ℕ) : Prop := l.Pairwise fun a b => lt b a = false

/-- The item stands directly before the first element that is not less than it; or one element is gone. -/
def ArrayCall.Effect (lt : ℕ → ℕ → Bool) (l l' : List ℕ) : ArrayCall → Prop
  | .insert item => ∃ before after, l = before ++ after ∧ l' = before ++ item :: after ∧
      (∀ x ∈ before, lt x item = true) ∧ ∀ y ∈ after.head?, lt y item = false
  | .remove i => ∃ before x after, before.length = i ∧ l = before ++ x :: after ∧ l' = before ++ after

/-- The array is sorted and holds what was inserted less what was removed. -/
structure SortedMultiset (addr maxSize : ℕ) (less : Mem → ℕ → ℕ → Bool) (m : Mem) (s : ArrayRun) : Prop where
  array : s.array = ⟨addr, s.array.size, maxSize, some less⟩
  room : s.array.size ≤ maxSize
  frame : SameOff m s.mem addr (addr + 4*maxSize)
  sorted : SortedBy (less m) s.entries
  items : (s.entries : Multiset ℕ) + s.removed = s.inserted

variable {lt : ℕ → ℕ → Bool} {l : List ℕ} {a b c item i addr maxSize : ℕ} {m : Mem} {less : Mem → ℕ → ℕ → Bool}
  {s s' : ArrayRun} {call : ArrayCall}

theorem StrictWeak.asymm (h : StrictWeak lt) (ha : a < 4294967296) (hb : b < 4294967296) (hab : lt a b = true) :
    lt b a = false := by
  have horder : IsStrictWeakOrder {a : ℕ // a < 4294967296} fun a b => lt a b = true := h
  have hnot : ¬ lt b a = true := fun hba => horder.irrefl ⟨a, ha⟩ (horder.trans ⟨a, ha⟩ ⟨b, hb⟩ ⟨a, ha⟩ hab hba)
  exact Bool.eq_false_iff.mpr hnot

/-- Not being less is transitive. -/
theorem StrictWeak.not_lt_trans (h : StrictWeak lt) (ha : a < 4294967296) (hb : b < 4294967296)
    (hc : c < 4294967296) (hab : lt a b = false) (hbc : lt b c = false) : lt a c = false := by
  have horder : IsStrictWeakOrder {a : ℕ // a < 4294967296} fun a b => lt a b = true := h
  refine Bool.eq_false_iff.mpr fun hac => ?_
  cases hba : lt b a with
  | true =>
    have hlt : lt b c = true := horder.trans ⟨b, hb⟩ ⟨a, ha⟩ ⟨c, hc⟩ hba hac
    rw [hbc] at hlt
    cases hlt
  | false =>
    cases hcb : lt c b with
    | true =>
      have hlt : lt a b = true := horder.trans ⟨a, ha⟩ ⟨c, hc⟩ ⟨b, hb⟩ hac hcb
      rw [hab] at hlt
      cases hlt
    | false =>
      have hincomp := horder.incomp_trans ⟨a, ha⟩ ⟨b, hb⟩ ⟨c, hc⟩
        ⟨Bool.eq_false_iff.mp hab, Bool.eq_false_iff.mp hba⟩ ⟨Bool.eq_false_iff.mp hbc, Bool.eq_false_iff.mp hcb⟩
      exact hincomp.1 hac

theorem SortedBy.insertEntry (h : SortedBy lt l) (hlt : StrictWeak lt) (hl : ∀ x ∈ l, x < 4294967296)
    (hitem : item < 4294967296) : SortedBy lt (insertEntry lt item l) := by
  induction l with
  | nil => exact List.pairwise_singleton ..
  | cons x l ih =>
    obtain ⟨hx, htail⟩ := List.pairwise_cons.mp h
    have hx32 := hl x List.mem_cons_self
    have hl32 : ∀ y ∈ l, y < 4294967296 := fun y hy => hl y (List.mem_cons_of_mem x hy)
    cases hxi : lt x item with
    | true =>
      have hcons : PandaOS.insertEntry lt item (x :: l) = x :: PandaOS.insertEntry lt item l := by
        rw [PandaOS.insertEntry, List.orderedInsert_cons, if_neg (by rw [hxi]; exact Bool.noConfusion)]
        rfl
      rw [hcons]
      refine List.pairwise_cons.mpr ⟨fun y hy => ?_, ih htail hl32⟩
      rcases List.mem_cons.mp ((insertEntry_perm lt item l).mem_iff.mp hy) with rfl | hyl
      · exact hlt.asymm hx32 hitem hxi
      · exact hx y hyl
    | false =>
      have hcons : PandaOS.insertEntry lt item (x :: l) = item :: x :: l := by
        rw [PandaOS.insertEntry, List.orderedInsert_cons, if_pos hxi]
      rw [hcons]
      refine List.pairwise_cons.mpr ⟨fun y hy => ?_, h⟩
      rcases List.mem_cons.mp hy with rfl | hyl
      · exact hxi
      · exact hlt.not_lt_trans (hl32 y hyl) hx32 hitem (hx y hyl) hxi

theorem effect_insertEntry (lt : ℕ → ℕ → Bool) (item : ℕ) (l : List ℕ) :
    (ArrayCall.insert item).Effect lt l (insertEntry lt item l) := by
  refine ⟨l.takeWhile fun x => lt x item, l.dropWhile fun x => lt x item, List.takeWhile_append_dropWhile.symm,
    insertEntry_eq lt item l, List.all_eq_true.mp List.all_takeWhile, fun y hy => ?_⟩
  have hhead := List.head?_dropWhile_not (fun x => lt x item) l
  rw [Option.mem_def.mp hy] at hhead
  exact hhead

theorem effect_eraseIdx (lt : ℕ → ℕ → Bool) (hi : i < l.length) :
    (ArrayCall.remove i).Effect lt l (l.eraseIdx i) := by
  refine ⟨l.take i, l[i], l.drop (i+1), List.length_take_of_le hi.le, ?_, List.eraseIdx_eq_take_drop_succ l i⟩
  rw [List.getElem_cons_drop, List.take_append_drop]

/-! ## One call -/

theorem ArrayRun.entries_lt {x : ℕ} (hx : x ∈ s.entries) : x < 4294967296 := by
  obtain ⟨j, -, rfl⟩ := mem_entries.mp hx
  exact load32_lt _ _

theorem sorted_multiset_placed (hs : s.Placed addr maxSize less m) : SortedMultiset addr maxSize less m s := by
  obtain ⟨hplace, hinserted, hremoved⟩ := hs
  have harray : s.array = ⟨addr, 0, maxSize, some less⟩ := congrArg Prod.fst hplace
  have hmem : s.mem = memset m addr 0 (maxSize*4) := congrArg Prod.snd hplace
  have hnil : s.entries = [] := by
    rw [ArrayRun.entries, PandaOS.entries, harray]
    rfl
  refine ⟨?_, ?_, ?_, ?_, ?_⟩
  · rw [harray]
  · rw [harray]
    exact Nat.zero_le _
  · rw [hmem, Nat.mul_comm 4]
    exact sameOff_memset m addr 0 (maxSize*4)
  · rw [hnil]
    exact List.Pairwise.nil
  · rw [hnil, hinserted, hremoved]
    rfl

/-- An insertion with room left. -/
theorem SortedMultiset.insert (h : SortedMultiset addr maxSize less m s) (hmax : maxSize < 4294967296)
    (hless : ∀ m', SameOff m m' addr (addr + 4*maxSize) → less m' = less m) (hin : s.InRange (.insert item)) :
    ∃ m', insertOrderedArray item s.array s.mem = .ok ({ s.array with size := s.array.size + 1 }, m') ∧
      SameOff m m' addr (addr + 4*maxSize) ∧
      entries m' { s.array with size := s.array.size + 1 } = insertEntry (less m) item s.entries := by
  obtain ⟨hitem, hroom⟩ := hin
  have harray : s.array.array = addr ∧ s.array.maxSize = maxSize ∧ s.array.lessThan = some less := by
    rw [h.array]
    exact ⟨rfl, rfl, rfl⟩
  obtain ⟨haddr, hcap, hfun⟩ := harray
  rw [hcap] at hroom
  obtain ⟨m', hrun, hoff, hentries⟩ := insertOrderedArray_spec (m := s.mem) hfun hitem (by omega)
  have hframe : SameOff s.mem m' addr (addr + 4*maxSize) :=
    hoff.mono (by unfold slot; omega) (by unfold slot; omega)
  refine ⟨m', hrun, h.frame.trans hframe, ?_⟩
  rw [hentries, hless s.mem h.frame]
  rfl

/-- A removal of an element, also from a full array. -/
theorem SortedMultiset.remove (h : SortedMultiset addr maxSize less m s) (hmax : maxSize < 4294967296)
    (hin : s.InRange (.remove i)) :
    ∃ m', removeOrderedArray i s.array s.mem = ({ s.array with size := s.array.size - 1 }, m') ∧
      SameOff m m' addr (addr + 4*maxSize) ∧
      entries m' { s.array with size := s.array.size - 1 } = s.entries.eraseIdx i := by
  have haddr : s.array.array = addr := by rw [h.array]
  have hroom := h.room
  obtain ⟨harray, hoff, hentries, -⟩ := removeOrderedArray_spec (m := s.mem) s.array hin (by omega)
  have hframe : SameOff s.mem (removeOrderedArray i s.array s.mem).2 addr (addr + 4*maxSize) :=
    hoff.mono (by unfold slot; omega) (by unfold slot; omega)
  exact ⟨_, Prod.ext harray rfl, h.frame.trans hframe, hentries⟩

theorem SortedMultiset.returns (h : SortedMultiset addr maxSize less m s) (hmax : maxSize < 4294967296)
    (hless : ∀ m', SameOff m m' addr (addr + 4*maxSize) → less m' = less m) (hin : s.InRange call) :
    ∃ s', s.Step call s' := by
  cases call with
  | insert item =>
    obtain ⟨m', hrun, -⟩ := h.insert hmax hless hin
    exact ⟨⟨_, m', item ::ₘ s.inserted, s.removed⟩, hrun, rfl, rfl⟩
  | remove i => exact ⟨⟨_, _, s.inserted, s.entries.getD i 0 ::ₘ s.removed⟩, rfl, rfl, rfl⟩

theorem SortedMultiset.step (h : SortedMultiset addr maxSize less m s) (hweak : StrictWeak (less m))
    (hmax : maxSize < 4294967296) (hless : ∀ m', SameOff m m' addr (addr + 4*maxSize) → less m' = less m)
    (hin : s.InRange call) (hstep : s.Step call s') :
    call.Effect (less m) s.entries s'.entries ∧ SortedMultiset addr maxSize less m s' := by
  have harray := h.array
  have hroom := h.room
  have hsize : s.entries.length = s.array.size := entries_length _ _
  cases call with
  | insert item =>
    obtain ⟨hrun, hinserted, hremoved⟩ := hstep
    obtain ⟨m', hrun', hframe, hentries⟩ := h.insert hmax hless hin
    have hs : (s'.array, s'.mem) = ({ s.array with size := s.array.size + 1 }, m') :=
      Except.ok.inj (hrun.symm.trans hrun')
    obtain ⟨hs1, hs2⟩ := Prod.mk.inj hs
    obtain ⟨hitem, hlt⟩ := hin
    have hnew : s'.entries = insertEntry (less m) item s.entries := by
      rw [ArrayRun.entries, hs1, hs2, hentries]
    rw [harray] at hlt
    rw [hnew]
    refine ⟨effect_insertEntry _ _ _, ?_, ?_, ?_, ?_, ?_⟩
    · rw [hs1, harray]
    · rw [hs1]
      exact hlt
    · rw [hs2]
      exact hframe
    · rw [hnew]
      exact h.sorted.insertEntry hweak (fun x hx => s.entries_lt hx) hitem
    · have hperm : (insertEntry (less m) item s.entries : Multiset ℕ) = item ::ₘ (s.entries : Multiset ℕ) :=
        Multiset.coe_eq_coe.mpr (insertEntry_perm _ _ _)
      rw [hnew, hperm, hinserted, hremoved, Multiset.cons_add, h.items]
  | remove i =>
    obtain ⟨hrun, hinserted, hremoved⟩ := hstep
    obtain ⟨m', hremove, hframe, hentries⟩ := h.remove hmax hin
    have hs : (s'.array, s'.mem) = ({ s.array with size := s.array.size - 1 }, m') :=
      (Except.ok.inj hrun).symm.trans hremove
    obtain ⟨hs1, hs2⟩ := Prod.mk.inj hs
    have hi : i < s.entries.length := by
      rw [hsize]
      exact hin
    have hnew : s'.entries = s.entries.eraseIdx i := by
      rw [ArrayRun.entries, hs1, hs2, hentries]
    rw [hnew]
    refine ⟨effect_eraseIdx _ hi, ?_, ?_, ?_, ?_, ?_⟩
    · rw [hs1, harray]
    · rw [hs1]
      exact (Nat.sub_le _ _).trans hroom
    · rw [hs2]
      exact hframe
    · rw [hnew]
      exact h.sorted.sublist (List.eraseIdx_sublist _ _)
    · have hperm : (s.entries : Multiset ℕ) = s.entries.getD i 0 ::ₘ (s.entries.eraseIdx i : Multiset ℕ) := by
        rw [List.getD_eq_getElem _ _ hi, Multiset.cons_coe]
        exact Multiset.coe_eq_coe.mpr (List.getElem_cons_eraseIdx_perm hi).symm
      rw [hnew, hinserted, hremoved, Multiset.add_cons, ← Multiset.cons_add, ← hperm, h.items]

/-! ## Runs -/

/-- In every run that never exceeds `max_size` the array is a sorted multiset, and every further call in
range returns and changes the list in one place. -/
theorem ordered_array_multiset (hweak : StrictWeak (less m)) (hmax : maxSize < 4294967296)
    (hless : ∀ m', SameOff m m' addr (addr + 4*maxSize) → less m' = less m)
    (hreach : Reach (ArrayRun.Placed addr maxSize less m) ArrayRun.InRange ArrayRun.Step s) :
    SortedMultiset addr maxSize less m s ∧ ∀ call, s.InRange call → (∃ s', s.Step call s') ∧
      ∀ s', s.Step call s' →
        call.Effect (less m) s.entries s'.entries ∧ SortedMultiset addr maxSize less m s' := by
  have hsorted : SortedMultiset addr maxSize less m s :=
    hreach.invariant (fun _ hs => sorted_multiset_placed hs)
      fun _ _ _ h hin hstep => (h.step hweak hmax hless hin hstep).2
  exact ⟨hsorted, fun call hin => ⟨hsorted.returns hmax hless hin,
    fun s' hstep => hsorted.step hweak hmax hless hin hstep⟩⟩

theorem strictWeak_standard : StrictWeak fun a b => decide (a < b) where
  irrefl a h := absurd (of_decide_eq_true h) (lt_irrefl a.1)
  trans a b c hab hbc := decide_eq_true ((of_decide_eq_true hab).trans (of_decide_eq_true hbc))
  incomp_trans a b c hab hbc := by
    simp only [decide_eq_true_eq] at hab hbc ⊢
    omega

/-- Two insertions into an empty array of numbers, the second before the first. -/
theorem ordered_array_multiset_standard : ∃ s,
    Reach (ArrayRun.Placed 0x1000 4 (fun _ a b => decide (a < b)) fun _ => 0) ArrayRun.InRange ArrayRun.Step s ∧
    s.entries = [3, 5] ∧ SortedMultiset 0x1000 4 (fun _ a b => decide (a < b)) (fun _ => 0) s := by
  obtain ⟨s0, hs0⟩ : ∃ s0 : ArrayRun, s0 = ⟨⟨0x1000, 0, 4, some fun _ a b => decide (a < b)⟩,
    memset (fun _ => 0) 0x1000 0 16, 0, 0⟩ := ⟨_, rfl⟩
  have hplaced : ArrayRun.Placed 0x1000 4 (fun _ a b => decide (a < b)) (fun _ => 0) s0 := by
    rw [hs0]
    exact ⟨rfl, rfl, rfl⟩
  have hempty : s0.entries = [] := by
    rw [hs0]
    rfl
  have hin0 : s0.InRange (.insert 5) := by
    rw [hs0]
    exact ⟨by decide, by decide⟩
  have h0 : Reach (ArrayRun.Placed 0x1000 4 (fun _ a b => decide (a < b)) fun _ => 0) ArrayRun.InRange
    ArrayRun.Step s0 := .start hplaced
  obtain ⟨⟨s1, hstep1⟩, hall1⟩ := (ordered_array_multiset strictWeak_standard (by decide) (fun _ _ => rfl) h0).2 _ hin0
  obtain ⟨⟨before, after, hbefore, hentries1, -⟩, hsorted1⟩ := hall1 s1 hstep1
  rw [hempty] at hbefore
  obtain ⟨rfl, rfl⟩ := List.append_eq_nil_iff.mp hbefore.symm
  have hsize1 : s1.array.size = 1 := by
    rw [← entries_length s1.mem s1.array]
    exact congrArg List.length hentries1
  have hin1 : s1.InRange (.insert 3) := by
    refine ⟨by decide, ?_⟩
    rw [hsorted1.array, hsize1]
    decide
  have h1 := Reach.next h0 hin0 hstep1
  obtain ⟨⟨s2, hstep2⟩, hall2⟩ := (ordered_array_multiset strictWeak_standard (by decide) (fun _ _ => rfl) h1).2 _ hin1
  obtain ⟨⟨before, after, hbefore, hentries2, hless, -⟩, hsorted2⟩ := hall2 s2 hstep2
  refine ⟨s2, Reach.next h1 hin1 hstep2, ?_, hsorted2⟩
  rw [hentries1] at hbefore
  cases before with
  | nil =>
    rw [hentries2, ← List.nil_append after, ← hbefore]
    rfl
  | cons x before =>
    obtain ⟨rfl, -⟩ := List.cons.inj hbefore
    exact absurd (hless 5 List.mem_cons_self) (by decide)

end PandaOS

import PandaOS.Memory.ClonedEntries

/-! Where the stores of `clone_directory` go. The record shows that they stay in the bytes that were asked
for, up to the clearing of a new table, for which the size of a directory is used. -/
namespace PandaOS
open ByteMemory Word32
set_option autoImplicit false
set_option maxHeartbeats 250000

variable {ap : KmallocAp} {c c' c1 : Cloning} {k k' k1 : Kernel} {m : Mem} {src table dir i j n : ℕ}

/-! ## Where the stores go -/

theorem cloneEntry_accesses (hi : i < 1024) (hrun : cloneEntry src table i c = .ok c') :
    ∃ extra, c'.accesses = c.accesses ++ extra ∧ ∀ s ∈ extra, s.Inside := by
  by_cases hsrc : (loadPage c.kernel.mem (pagesSlot src i)).frame = 0
  · rw [cloneEntry_blank hsrc] at hrun
    obtain rfl := Except.ok.inj hrun
    exact ⟨[], (List.append_nil _).symm, by simp⟩
  · rw [cloneEntry, if_pos hsrc] at hrun
    obtain ⟨k, -, hrest⟩ := bind_eq_ok.mp hrun
    obtain rfl := Except.ok.inj hrest
    refine ⟨[⟨table, sizeofPageTable, pagesSlot table i, 4⟩], rfl, fun s hs => ?_⟩
    rw [List.mem_singleton.mp hs]
    simp only [Access.Inside, pagesSlot, sizeofPageTable]
    omega

theorem cloneTableLoop_accesses (hn : i + n ≤ 1024) (hrun : cloneTableLoop src table n i c = .ok c') :
    ∃ extra, c'.accesses = c.accesses ++ extra ∧ ∀ s ∈ extra, s.Inside := by
  induction n generalizing i c with
  | zero =>
    obtain rfl := Except.ok.inj hrun
    exact ⟨[], (List.append_nil _).symm, by simp⟩
  | succ n ih =>
    obtain ⟨c1, hentry, hrest⟩ := bind_eq_ok.mp hrun
    obtain ⟨first, hfirst, hinside⟩ := cloneEntry_accesses (by omega) hentry
    obtain ⟨extra, hextra, hall⟩ := ih (by omega) hrest
    refine ⟨first ++ extra, by rw [hextra, hfirst, List.append_assoc], fun s hs => ?_⟩
    rcases List.mem_append.mp hs with hs | hs
    · exact hinside s hs
    · exact hall s hs

/-- `clone_table` clears more than it asked for. -/
theorem cloneTable_accesses {physical : ℕ} (hrun : cloneTable ap src c = .ok ((table, physical), c')) :
    ∃ extra, c'.accesses = c.accesses ++ extra ∧ ⟨table, sizeofPageTable, table, sizeofPageDirectory⟩ ∈ extra := by
  obtain ⟨⟨⟨table', physical'⟩, k⟩, -, hrest⟩ := bind_eq_ok.mp hrun
  obtain ⟨c1, hloop, hres⟩ := bind_eq_ok.mp hrest
  obtain ⟨hpair, rfl⟩ := Prod.mk.inj (Except.ok.inj hres)
  obtain rfl := (Prod.mk.inj hpair).1
  obtain ⟨extra, hextra, -⟩ := cloneTableLoop_accesses (by norm_num) hloop
  exact ⟨_ :: extra, by rw [hextra, Cloning.stored, List.append_assoc]; rfl, List.mem_cons_self⟩

/-- The new directory shares this table with the source, or there is none. -/
def Linked (k : Kernel) (src i : ℕ) : Prop :=
  load32 k.mem (tablesSlot src i) = 0 ∨
    load32 k.mem (tablesSlot k.kernelDirectory i) = load32 k.mem (tablesSlot src i)

theorem Linked.congr (hsrc : SameOn k.mem k'.mem src (src + 4096))
    (hkernel : SameOn k.mem k'.mem k.kernelDirectory (k.kernelDirectory + 4096))
    (hdir : k'.kernelDirectory = k.kernelDirectory) (hi : i < 1024) : Linked k' src i ↔ Linked k src i := by
  have hs : load32 k'.mem (tablesSlot src i) = load32 k.mem (tablesSlot src i) :=
    hsrc.load32_eq (by unfold tablesSlot; omega) (by unfold tablesSlot; omega)
  have hk : load32 k'.mem (tablesSlot k.kernelDirectory i) = load32 k.mem (tablesSlot k.kernelDirectory i) :=
    hkernel.load32_eq (by unfold tablesSlot; omega) (by unfold tablesSlot; omega)
  rw [Linked, Linked, hdir, hs, hk]

/-- A slot that is linked only changes the new directory. -/
theorem cloneSlot_linked (ap : KmallocAp) (dir : ℕ) (hlinked : Linked c.kernel src i) (hi : i < 1024) :
    ∃ c', cloneSlot ap src dir i c = .ok c' ∧ c'.kernel = c.kernel.withMem c'.kernel.mem ∧
      SameOff c.kernel.mem c'.kernel.mem dir (dir + 8192) ∧
      ∃ extra, c'.accesses = c.accesses ++ extra ∧ ∀ s ∈ extra, s.Inside := by
  have hsize : sizeofPageDirectory = 8196 := rfl
  unfold cloneSlot
  by_cases hzero : load32 c.kernel.mem (tablesSlot src i) = 0
  · rw [if_pos hzero]
    exact ⟨c, rfl, rfl, SameOff.refl _ _ _, [], (List.append_nil _).symm, by simp⟩
  · rw [if_neg hzero, if_pos (hlinked.resolve_left hzero)]
    refine ⟨_, rfl, rfl, ?_, [⟨dir, sizeofPageDirectory, tablesSlot dir i, 4⟩,
      ⟨dir, sizeofPageDirectory, tablesPhysicalSlot dir i, 4⟩], ?_, fun s hs => ?_⟩
    · exact (sameOff_store32 (by unfold tablesSlot; omega) (by unfold tablesSlot; omega)).trans
        (sameOff_store32 (by unfold tablesPhysicalSlot; omega) (by unfold tablesPhysicalSlot; omega))
    · simp [setSlot, Cloning.stored]
    · simp only [List.mem_cons, List.not_mem_nil, or_false] at hs
      rcases hs with rfl | rfl <;>
        · simp only [Access.Inside, tablesSlot, tablesPhysicalSlot]
          omega

/-- A slot that is not linked leaves a store outside its block behind. -/
theorem cloneSlot_accesses (hi : i < 1024) (hrun : cloneSlot ap src dir i c = .ok c') :
    ∃ extra, c'.accesses = c.accesses ++ extra ∧ (¬ Linked c.kernel src i → ∃ s ∈ extra, ¬ s.Inside) := by
  by_cases hlinked : Linked c.kernel src i
  · obtain ⟨c1, hslot, -, -, extra, hextra, -⟩ := cloneSlot_linked ap dir hlinked hi
    obtain rfl := Except.ok.inj (hslot.symm.trans hrun)
    exact ⟨extra, hextra, fun hnot => absurd hlinked hnot⟩
  · rw [cloneSlot, if_neg fun hzero => hlinked (Or.inl hzero), if_neg fun hsame => hlinked (Or.inr hsame)] at hrun
    obtain ⟨⟨⟨table, physical⟩, c1⟩, htable, hrest⟩ := bind_eq_ok.mp hrun
    obtain rfl := Except.ok.inj hrest
    obtain ⟨extra, hextra, hmem⟩ := cloneTable_accesses htable
    refine ⟨extra ++ [⟨dir, sizeofPageDirectory, tablesSlot dir i, 4⟩,
      ⟨dir, sizeofPageDirectory, tablesPhysicalSlot dir i, 4⟩], ?_, fun _ => ⟨_, List.mem_append_left _ hmem, ?_⟩⟩
    · simp [setSlot, Cloning.stored, hextra]
    · simp only [Access.Inside, sizeofPageTable, sizeofPageDirectory]
      omega

theorem cloneDirectoryLoop_accesses (hn : i + n ≤ 1024) (hrun : cloneDirectoryLoop ap src dir n i c = .ok c') :
    ∃ extra, c'.accesses = c.accesses ++ extra := by
  induction n generalizing i c with
  | zero =>
    obtain rfl := Except.ok.inj hrun
    exact ⟨[], (List.append_nil _).symm⟩
  | succ n ih =>
    obtain ⟨c1, hslot, hrest⟩ := bind_eq_ok.mp hrun
    obtain ⟨first, hfirst, -⟩ := cloneSlot_accesses (by omega) hslot
    obtain ⟨extra, hextra⟩ := ih (by omega) hrest
    exact ⟨first ++ extra, by rw [hextra, hfirst, List.append_assoc]⟩

/-- Slots without a table. -/
theorem cloneDirectoryLoop_empty (h : ∀ j, i ≤ j → j < i + n → load32 c.kernel.mem (tablesSlot src j) = 0) :
    cloneDirectoryLoop ap src dir n i c = .ok c := by
  induction n generalizing i with
  | zero => rfl
  | succ n ih =>
    rw [cloneDirectoryLoop, cloneSlot, if_pos (h i le_rfl (by omega)), ok_bind]
    exact ih fun j hl hh => h j (by omega) (by omega)

/-- A source table without frames, or one in what `clone_table` clears. -/
theorem cloneTable_cleared {physical : ℕ} (hnew : ap sizeofPageTable c.kernel = .ok ((table, physical), k))
    (hm : m = memset k.mem table 0 sizeofPageDirectory) (hblank : ∀ j < 1024, load32 m (pagesSlot src j) = 0) :
    cloneTable ap src c = .ok ((table, physical), ⟨k.withMem m,
      c.accesses ++ [⟨table, sizeofPageTable, table, sizeofPageDirectory⟩]⟩) := by
  obtain ⟨n, hn⟩ : ∃ n, n = sizeofPageDirectory := ⟨_, rfl⟩
  rw [← hn] at hm ⊢
  have hloop : cloneTableLoop src table 1024 0 ⟨k.withMem m, c.accesses ++ [⟨table, sizeofPageTable, table, n⟩]⟩ =
      .ok ⟨k.withMem m, c.accesses ++ [⟨table, sizeofPageTable, table, n⟩]⟩ := by
    refine cloneTableLoop_blank fun j _ hj => ?_
    rw [loadPage, Kernel.withMem_mem, hblank j (by omega)]
    rfl
  rw [cloneTable, hnew, ok_bind]
  dsimp only [Cloning.stored]
  rw [← hn, ← hm, hloop]
  rfl

theorem cloneTable_blank {physical : ℕ} (hnew : ap sizeofPageTable c.kernel = .ok ((table, physical), k))
    (hblank : ∀ j < 1024, load32 k.mem (pagesSlot src j) = 0)
    (happart : Apart (table, sizeofPageDirectory) (src, sizeofPageTable)) :
    ∃ m, cloneTable ap src c = .ok ((table, physical), ⟨k.withMem m,
        c.accesses ++ [⟨table, sizeofPageTable, table, sizeofPageDirectory⟩]⟩) ∧
      SameOff k.mem m table (table + 8196) := by
  obtain ⟨n, hn⟩ : ∃ n, n = sizeofPageDirectory := ⟨_, rfl⟩
  have hlong : n = 8196 := hn
  have hsize : sizeofPageTable = 4096 := rfl
  obtain ⟨m, hm⟩ : ∃ m, m = memset k.mem table 0 n := ⟨_, rfl⟩
  have hoff : SameOff k.mem m table (table + n) := by
    rw [hm]
    exact sameOff_memset _ _ _ _
  unfold Apart at happart
  dsimp only at happart
  rw [← hn] at happart
  refine ⟨m, cloneTable_cleared hnew (by rw [hm, hn]) fun j hj => ?_, hoff.mono le_rfl (by omega)⟩
  rw [hoff.load32_eq (by unfold pagesSlot; omega)]
  exact hblank j hj

/-- The new directory's block is apart from the source and the kernel directory. -/
structure DirectoryApart (src dir : ℕ) (k : Kernel) : Prop where
  source : Apart (dir, sizeofPageDirectory) (src, sizeofPageDirectory)
  kernel : Apart (dir, sizeofPageDirectory) (k.kernelDirectory, sizeofPageDirectory)

theorem DirectoryApart.linked (h : DirectoryApart src dir k) (hk : k' = k.withMem k'.mem)
    (hoff : SameOff k.mem k'.mem dir (dir + 8196)) (hi : i < 1024) : Linked k' src i ↔ Linked k src i := by
  have hsize : sizeofPageDirectory = 8196 := rfl
  obtain ⟨hsource, hkernel⟩ := h
  unfold Apart at hsource hkernel
  dsimp only at hsource hkernel
  have hdir : k'.kernelDirectory = k.kernelDirectory := by rw [hk]; rfl
  exact Linked.congr (hoff.sameOn (by omega)) (hoff.sameOn (by omega)) hdir hi

/-- The stores of the loop stay inside exactly when every slot is linked. -/
theorem cloneDirectoryLoop_inside (h : DirectoryApart src dir c.kernel) (hn : i + n ≤ 1024)
    (hrun : cloneDirectoryLoop ap src dir n i c = .ok c') (hbefore : ∀ s ∈ c.accesses, s.Inside) :
    (∀ s ∈ c'.accesses, s.Inside) ↔ ∀ j, i ≤ j → j < i + n → Linked c.kernel src j := by
  induction n generalizing i c with
  | zero =>
    obtain rfl := Except.ok.inj hrun
    exact ⟨fun _ j hl hh => by omega, fun _ => hbefore⟩
  | succ n ih =>
    obtain ⟨c1, hslot, hrest⟩ := bind_eq_ok.mp hrun
    by_cases hlinked : Linked c.kernel src i
    · obtain ⟨c2, hok, hfields, hoff, first, hfirst, hinside⟩ := cloneSlot_linked ap dir hlinked (by omega)
      obtain rfl := Except.ok.inj (hok.symm.trans hslot)
      have hsame : ∀ j < 1024, (Linked c2.kernel src j ↔ Linked c.kernel src j) :=
        fun j hj => h.linked hfields (hoff.mono le_rfl (by omega)) hj
      have hdir : DirectoryApart src dir c2.kernel := by
        rw [hfields]
        exact ⟨h.source, h.kernel⟩
      have hall : ∀ s ∈ c2.accesses, s.Inside := by
        intro s hs
        rw [hfirst] at hs
        rcases List.mem_append.mp hs with hs | hs
        · exact hbefore s hs
        · exact hinside s hs
      rw [ih hdir (by omega) hrest hall]
      constructor
      · intro hrest j hl hh
        rcases Nat.eq_or_lt_of_le hl with rfl | hlt
        · exact hlinked
        · exact (hsame j (by omega)).mp (hrest j hlt (by omega))
      · exact fun hlater j hl hh => (hsame j (by omega)).mpr (hlater j (by omega) (by omega))
    · obtain ⟨first, hfirst, hbad⟩ := cloneSlot_accesses (by omega) hslot
      obtain ⟨s, hs, hout⟩ := hbad hlinked
      obtain ⟨extra, hextra⟩ := cloneDirectoryLoop_accesses (by omega) hrest
      have hmem : s ∈ c'.accesses := by
        rw [hextra, hfirst]
        exact List.mem_append_left _ (List.mem_append_right _ hs)
      exact iff_of_false (fun hinside => hout (hinside s hmem)) fun hlater => hlinked (hlater i le_rfl (by omega))

/-- `kmalloc_ap` returned the block of the new directory and left the directories as they were. -/
structure FreshDirectory (src dir : ℕ) (k k1 : Kernel) : Prop extends DirectoryApart src dir k where
  fields : k1.kernelDirectory = k.kernelDirectory
  sameSource : SameOn k.mem k1.mem src (src + sizeofPageDirectory)
  sameKernel : SameOn k.mem k1.mem k.kernelDirectory (k.kernelDirectory + sizeofPageDirectory)

/-- Every store through a pointer of `kmalloc_ap` stays in the bytes that were asked for exactly when every
table of the source is one of the kernel directory. -/
theorem clone_inside_iff {physical : ℕ} (hnew : ap sizeofPageDirectory k = .ok ((dir, physical), k1))
    (hfresh : FreshDirectory src dir k k1) (hrun : cloneDirectory ap src k = .ok (dir, c)) :
    (∀ s ∈ c.accesses, s.Inside) ↔ ∀ i < 1024, Linked k src i := by
  have hsize : sizeofPageDirectory = 8196 := rfl
  obtain ⟨m, hstart, hoff, -⟩ := newDirectory_spec hnew
  rw [cloneDirectory, hstart, ok_bind] at hrun
  obtain ⟨c1, hloop, hres⟩ := bind_eq_ok.mp hrun
  obtain rfl : c1 = c := (Prod.mk.inj (Except.ok.inj hres)).2
  have h1 : DirectoryApart src dir k1 := ⟨hfresh.source, by rw [hfresh.fields]; exact hfresh.kernel⟩
  rw [cloneDirectoryLoop_inside (c := ⟨k1.withMem m, _⟩) ⟨h1.source, h1.kernel⟩ (by norm_num) hloop ?_]
  · have hlinked : ∀ i < 1024, (Linked (k1.withMem m) src i ↔ Linked k src i) := by
      intro i hi
      rw [h1.linked rfl hoff hi]
      exact Linked.congr (hfresh.sameSource.mono le_rfl (by omega)) (hfresh.sameKernel.mono le_rfl (by omega))
        hfresh.fields hi
    exact ⟨fun hall i hi => (hlinked i hi).mp (hall i (Nat.zero_le i) (by omega)),
      fun hall j _ hj => (hlinked j (by omega)).mpr (hall j (by omega))⟩
  · intro s hs
    simp only [List.mem_cons, List.not_mem_nil, or_false] at hs
    rcases hs with rfl | rfl <;>
      · simp only [Access.Inside, physicalAddressSlot]
        omega

theorem entryKernel_fresh : FreshDirectory 0x110000 0x200000 (entryKernel 0)
    ((entryKernel 0).withPlacement (0x200000 + sizeofPageDirectory)) :=
  ⟨⟨Or.inr (by decide), Or.inr (by decide)⟩, rfl, SameOn.refl _ _ _, SameOn.refl _ _ _⟩

/-- A directory with one table, which is its own. -/
theorem cloneDirectory_one {s physical : ℕ} (hstart : newDirectory ap k = .ok (dir, c))
    (hslot : load32 c.kernel.mem (tablesSlot src 0) = s) (hs : s ≠ 0)
    (hown : load32 c.kernel.mem (tablesSlot c.kernel.kernelDirectory 0) ≠ s)
    (htable : cloneTable ap s c = .ok ((table, physical), c1))
    (hlater : ∀ j, 1 ≤ j → j < 1024 → load32 c1.kernel.mem (tablesSlot src j) = 0)
    (happart : Apart (dir, sizeofPageDirectory) (src, sizeofPageDirectory)) :
    cloneDirectory ap src k = .ok (dir, setSlot dir (tablesPhysicalSlot dir 0) (physical ||| 0x07)
      (setSlot dir (tablesSlot dir 0) table c1)) := by
  have hsize : sizeofPageDirectory = 8196 := rfl
  unfold Apart at happart
  dsimp only at happart
  rw [hsize] at happart
  obtain ⟨c2, hc2⟩ : ∃ c2, c2 = setSlot dir (tablesPhysicalSlot dir 0) (physical ||| 0x07)
    (setSlot dir (tablesSlot dir 0) table c1) := ⟨_, rfl⟩
  rw [← hc2]
  have hfirst : cloneSlot ap src dir 0 c = .ok c2 := by
    rw [cloneSlot, hslot, if_neg hs, if_neg hown, htable, hc2]
    rfl
  have hrest : ∀ j, 1 ≤ j → j < 1 + 1023 → load32 c2.kernel.mem (tablesSlot src j) = 0 := by
    intro j hl hh
    rw [hc2]
    show load32 (store32 (store32 c1.kernel.mem _ _) _ _) _ = 0
    rw [load32_store32_of_off (by unfold tablesSlot tablesPhysicalSlot; omega),
      load32_store32_of_off (by unfold tablesSlot; omega)]
    exact hlater j hl (by omega)
  have hloop : cloneDirectoryLoop ap src dir 1024 0 c = .ok c2 := by
    rw [cloneDirectoryLoop, hfirst, ok_bind]
    exact cloneDirectoryLoop_empty hrest
  rw [cloneDirectory, hstart, ok_bind]
  dsimp only
  rw [hloop]
  rfl

/-- Cloning the directory of that kernel, whose one table is its own. -/
theorem entryKernel_directory : ∃ c, cloneDirectory (kmallocAp 0) 0x110000 (entryKernel 0) = .ok (0x200000, c) ∧
    ⟨0x203000, sizeofPageTable, 0x203000, sizeofPageDirectory⟩ ∈ c.accesses := by
  obtain ⟨m, hstart, hoff, -⟩ := newDirectory_spec (entryKernel_new 0 sizeofPageDirectory (by decide))
  obtain ⟨k1, hk1⟩ : ∃ k1, k1 = ((entryKernel 0).withPlacement (0x200000 + sizeofPageDirectory)).withMem m := ⟨_, rfl⟩
  have hmem1 : k1.mem = m := by rw [hk1]; rfl
  have hoff' : SameOff (entryMem 0) m 0x200000 (0x200000 + 8196) := hoff
  have hdir : k1.kernelDirectory = 0x100000 := by rw [hk1]; rfl
  have htable : load32 k1.mem (tablesSlot 0x110000 0) = 0x120000 := by
    rw [hmem1, hoff'.load32_eq (Or.inl (by decide)), entryMem, load32_store32_of_off (Or.inl (by decide)),
      load32_store32_of_off (Or.inl (by decide))]
    exact load32_store32_of_lt (by decide)
  have hkernel : load32 k1.mem (tablesSlot k1.kernelDirectory 0) = 0 := by
    rw [hmem1, hdir, hoff'.load32_eq (Or.inl (by decide))]
    exact entryMem_zero 0 (Or.inl (by decide)) (Or.inl (by decide)) (Or.inl (by decide))
  have hnew : kmallocAp 0 sizeofPageTable k1 =
      .ok ((0x203000, 0x203000), k1.withPlacement (0x203000 + sizeofPageTable)) := by
    refine kmallocInt_aligned ?_ ?_ (by decide)
    · rw [hk1]
      rfl
    · rw [hk1]
      exact (by decide : pageUp (0x200000 + 8196) = 0x203000)
  have hblank : ∀ j < 1024, load32 (k1.withPlacement (0x203000 + sizeofPageTable)).mem (pagesSlot 0x120000 j) = 0 := by
    intro j hj
    show load32 k1.mem _ = 0
    unfold pagesSlot
    rw [hmem1, hoff'.load32_eq (Or.inl (by omega))]
    rcases Nat.eq_zero_or_pos j with rfl | hpos
    · rw [entryMem, load32_store32_of_off (Or.inl (by decide))]
      exact load32_store32_of_lt (by decide)
    · exact entryMem_zero 0 (by omega) (by omega) (by omega)
  rw [← hk1] at hstart
  obtain ⟨accesses, haccesses⟩ : ∃ l : List Access, l = [⟨0x200000, sizeofPageDirectory, 0x200000, sizeofPageDirectory⟩,
    ⟨0x200000, sizeofPageDirectory, physicalAddressSlot 0x200000, 4⟩] := ⟨_, rfl⟩
  rw [← haccesses] at hstart
  obtain ⟨m2, hclone, hoff2⟩ := @cloneTable_blank (kmallocAp 0) ⟨k1, accesses⟩ _ 0x120000 0x203000 0x203000 hnew hblank
    (Or.inr (by decide))
  have hoff2' : SameOff m m2 0x203000 (0x203000 + 8196) := by
    rw [← hmem1]
    exact hoff2
  have hlater : ∀ j, 1 ≤ j → j < 1024 → load32 m2 (tablesSlot 0x110000 j) = 0 := by
    intro j hl hh
    unfold tablesSlot
    rw [hoff2'.load32_eq (Or.inl (by omega)), hoff'.load32_eq (Or.inl (by omega))]
    exact entryMem_zero 0 (by omega) (by omega) (by omega)
  refine ⟨_, cloneDirectory_one hstart htable (by decide) ?_ hclone hlater (Or.inr (by decide)), ?_⟩
  · dsimp only
    rw [hkernel]
    decide
  · simp [setSlot, Cloning.stored]

theorem clone_inside_iff_one_table : ∃ c, cloneDirectory (kmallocAp 0) 0x110000 (entryKernel 0) = .ok (0x200000, c) ∧
    ((∀ s ∈ c.accesses, s.Inside) ↔ ∀ i < 1024, Linked (entryKernel 0) 0x110000 i) := by
  obtain ⟨c, hrun, -⟩ := entryKernel_directory
  exact ⟨c, hrun, clone_inside_iff (entryKernel_new 0 _ (by decide)) entryKernel_fresh hrun⟩

/-- The block of a new table has 4096 bytes, and 8196 are cleared. -/
theorem clone_overruns : ∃ c, cloneDirectory (kmallocAp 0) 0x110000 (entryKernel 0) = .ok (0x200000, c) ∧
    ¬ ∀ s ∈ c.accesses, s.Inside := by
  obtain ⟨c, hrun, hmem⟩ := entryKernel_directory
  refine ⟨c, hrun, fun hinside => ?_⟩
  have hout := (hinside _ hmem).2
  exact absurd hout (by decide)

end PandaOS

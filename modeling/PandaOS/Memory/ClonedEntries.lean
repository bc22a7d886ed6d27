import PandaOS.Memory.Cloning

/-! The entries of a cloned table. `alloc_frame` makes every new entry present and open to user mode, and
what is copied from the source afterwards can only set flags. -/
namespace PandaOS
open ByteMemory Word32
set_option autoImplicit false
set_option maxHeartbeats 250000

/-! ## Flags -/

def SameFlags (p q : Page) : Prop :=
  p.present = q.present ∧ p.rw = q.rw ∧ p.user = q.user ∧ p.accessed = q.accessed ∧ p.dirty = q.dirty

/-- The flags of `s` are set in `p`. -/
def Page.withFlags (p s : Page) : Page :=
  { p with
    present := if s.present ≠ 0 then 1 else p.present
    rw := if s.rw ≠ 0 then 1 else p.rw
    user := if s.user ≠ 0 then 1 else p.user
    accessed := if s.accessed ≠ 0 then 1 else p.accessed
    dirty := if s.dirty ≠ 0 then 1 else p.dirty }

variable {ap : KmallocAp} {c c' c1 : Cloning} {k k' k1 : Kernel} {m m' : Mem} {p s : Page}
  {src table dir page i j n f x : ℕ}

theorem copyFlag_spec (flag : Page → ℕ) (set : Page → Page) (happart : src + 4 ≤ page ∨ page + 4 ≤ src)
    (hfits : (set (loadPage m page)).Fits) :
    SameOff m (copyFlag flag set src page m) page (page + 4) ∧
      loadPage (copyFlag flag set src page m) src = loadPage m src ∧
      loadPage (copyFlag flag set src page m) page =
        if flag (loadPage m src) ≠ 0 then set (loadPage m page) else loadPage m page := by
  unfold copyFlag
  by_cases hflag : flag (loadPage m src) ≠ 0
  · have hoff : SameOff m (storePage m page (set (loadPage m page))) page (page + 4) := sameOff_store32 le_rfl le_rfl
    rw [if_pos hflag, if_pos hflag]
    refine ⟨hoff, ?_, loadPage_storePage_self _ _ hfits⟩
    rw [loadPage, hoff.load32_eq happart, loadPage]
  · rw [if_neg hflag, if_neg hflag]
    exact ⟨SameOff.refl _ _ _, rfl, rfl⟩

theorem copyFlags_spec (m : Mem) (happart : src + 4 ≤ page ∨ page + 4 ≤ src) :
    SameOff m (copyFlags src page m) page (page + 4) ∧
      loadPage (copyFlags src page m) page = (loadPage m page).withFlags (loadPage m src) := by
  have hfits := loadPage_fits
  obtain ⟨m1, hm1⟩ : ∃ m1, m1 = copyFlag Page.present (fun p => { p with present := 1 }) src page m := ⟨_, rfl⟩
  obtain ⟨h1, hs1, hp1⟩ := copyFlag_spec Page.present (fun p => { p with present := 1 }) happart
    { hfits m page with present := Nat.one_lt_two }
  rw [← hm1] at h1 hs1 hp1
  obtain ⟨m2, hm2⟩ : ∃ m2, m2 = copyFlag Page.rw (fun p => { p with rw := 1 }) src page m1 := ⟨_, rfl⟩
  obtain ⟨h2, hs2, hp2⟩ := copyFlag_spec Page.rw (fun p => { p with rw := 1 }) happart
    { hfits m1 page with rw := Nat.one_lt_two }
  rw [← hm2] at h2 hs2 hp2
  obtain ⟨m3, hm3⟩ : ∃ m3, m3 = copyFlag Page.user (fun p => { p with user := 1 }) src page m2 := ⟨_, rfl⟩
  obtain ⟨h3, hs3, hp3⟩ := copyFlag_spec Page.user (fun p => { p with user := 1 }) happart
    { hfits m2 page with user := Nat.one_lt_two }
  rw [← hm3] at h3 hs3 hp3
  obtain ⟨m4, hm4⟩ : ∃ m4, m4 = copyFlag Page.accessed (fun p => { p with accessed := 1 }) src page m3 := ⟨_, rfl⟩
  obtain ⟨h4, hs4, hp4⟩ := copyFlag_spec Page.accessed (fun p => { p with accessed := 1 }) happart
    { hfits m3 page with accessed := Nat.one_lt_two }
  rw [← hm4] at h4 hs4 hp4
  obtain ⟨m5, hm5⟩ : ∃ m5, m5 = copyFlag Page.dirty (fun p => { p with dirty := 1 }) src page m4 := ⟨_, rfl⟩
  obtain ⟨h5, -, hp5⟩ := copyFlag_spec Page.dirty (fun p => { p with dirty := 1 }) happart
    { hfits m4 page with dirty := Nat.one_lt_two }
  rw [← hm5] at h5 hp5
  have hq1 : loadPage m1 page = { loadPage m page with
      present := if (loadPage m src).present ≠ 0 then 1 else (loadPage m page).present } := by
    rw [hp1]
    split <;> rfl
  have hq2 : loadPage m2 page = { loadPage m1 page with
      rw := if (loadPage m1 src).rw ≠ 0 then 1 else (loadPage m1 page).rw } := by
    rw [hp2]
    split <;> rfl
  have hq3 : loadPage m3 page = { loadPage m2 page with
      user := if (loadPage m2 src).user ≠ 0 then 1 else (loadPage m2 page).user } := by
    rw [hp3]
    split <;> rfl
  have hq4 : loadPage m4 page = { loadPage m3 page with
      accessed := if (loadPage m3 src).accessed ≠ 0 then 1 else (loadPage m3 page).accessed } := by
    rw [hp4]
    split <;> rfl
  have hq5 : loadPage m5 page = { loadPage m4 page with
      dirty := if (loadPage m4 src).dirty ≠ 0 then 1 else (loadPage m4 page).dirty } := by
    rw [hp5]
    split <;> rfl
  have hall : copyFlags src page m = m5 := by
    rw [hm5, hm4, hm3, hm2, hm1]
    rfl
  rw [hall]
  refine ⟨(((h1.trans h2).trans h3).trans h4).trans h5, ?_⟩
  rw [hq5, hq4, hq3, hq2, hq1, hs4, hs3, hs2, hs1]
  rfl

/-- A fresh entry ends up with the source's flags exactly when the source is present and open to user mode. -/
theorem sameFlags_iff (f : ℕ) (h : s.Fits) :
    SameFlags s (((Page.ofWord 0).allocated 0 0 f).withFlags s) ↔ s.present = 1 ∧ s.user = 1 := by
  obtain ⟨h1, h2, h3, h4, h5, -, -⟩ := h
  simp only [SameFlags, Page.withFlags, Page.allocated, Page.ofWord]
  constructor
  · rintro ⟨hpresent, -, huser, -, -⟩
    split_ifs at hpresent huser <;> omega
  · rintro ⟨hpresent, huser⟩
    refine ⟨?_, ?_, ?_, ?_, ?_⟩ <;> split_ifs <;> omega

/-! ## One entry -/

/-- What a round of `clone_table` did to an entry: it got the frame `f` and the source's flags, and the source's
frame was copied. -/
structure EntryCloned (src table i f : ℕ) (k k' : Kernel) : Prop where
  fields : k' = { k with mem := k'.mem, phys := k'.phys }
  free : firstFrame k = some f
  small : f < 4096
  entry : loadPage k'.mem (pagesSlot table i) =
    ((loadPage k.mem (pagesSlot table i)).allocated 0 0 f).withFlags (loadPage k.mem (pagesSlot src i))
  used : ∀ g < 4096, frameUsed k' g = (decide (g = f) || frameUsed k g)
  rest : ∀ x, (x < pagesSlot table i ∨ pagesSlot table i + 4 ≤ x) → (x < k.frames ∨ k.frames + 512 ≤ x) →
    k'.mem x = k.mem x
  phys : k'.phys = copyWords 1024 ((loadPage k.mem (pagesSlot src i)).frame * 0x1000) (f * 0x1000) k.phys

/-- The source, the new table and the bitmap are different memory. -/
structure TableApart (src table : ℕ) (k : Kernel) : Prop where
  count : k.frameCount ≤ 4096
  source : Apart (table, sizeofPageTable) (src, sizeofPageTable)
  bitmapSource : Apart (k.frames, 512) (src, sizeofPageTable)
  bitmapTable : Apart (k.frames, 512) (table, sizeofPageTable)

theorem TableApart.congr (h : TableApart src table k) (hk : k' = { k with mem := k'.mem, phys := k'.phys }) :
    TableApart src table k' := by
  rw [hk]
  exact ⟨h.count, h.source, h.bitmapSource, h.bitmapTable⟩

theorem cloneEntry_blank (hsrc : (loadPage c.kernel.mem (pagesSlot src i)).frame = 0) :
    cloneEntry src table i c = .ok c := by
  rw [cloneEntry, if_neg (not_not.mpr hsrc)]

theorem cloneEntry_cloned (h : TableApart src table c.kernel) (hi : i < 1024)
    (hsrc : (loadPage c.kernel.mem (pagesSlot src i)).frame ≠ 0)
    (hzero : (loadPage c.kernel.mem (pagesSlot table i)).frame = 0) (hrun : cloneEntry src table i c = .ok c') :
    (∃ f, EntryCloned src table i f c.kernel c'.kernel) ∧
      c'.accesses = c.accesses ++ [⟨table, sizeofPageTable, pagesSlot table i, 4⟩] := by
  have hsize : sizeofPageTable = 4096 := rfl
  obtain ⟨hcount, hsource, hbits, hbitt⟩ := h
  unfold Apart at hsource hbits hbitt
  dsimp only at hsource hbits hbitt
  rw [hsize] at hsource hbits hbitt
  have hs : src ≤ pagesSlot src i ∧ pagesSlot src i + 4 ≤ src + 4096 := by unfold pagesSlot; omega
  have ht : table ≤ pagesSlot table i ∧ pagesSlot table i + 4 ≤ table + 4096 := by unfold pagesSlot; omega
  rw [cloneEntry, if_pos hsrc] at hrun
  obtain ⟨k1, halloc, hrest⟩ := bind_eq_ok.mp hrun
  rcases allocFrame_cases halloc with ⟨hne, -⟩ | ⟨-, f, hfree, hk1⟩
  · exact absurd hzero hne
  obtain ⟨hsmall, -, hentry, hused, hmem⟩ := allocated_spec hcount hfree (by unfold BitmapApart; omega) hk1
  have hfields : k1 = { c.kernel with mem := k1.mem } := by rw [hk1]; rfl
  have hwords : pagesSlot src i + 4 ≤ pagesSlot table i ∨ pagesSlot table i + 4 ≤ pagesSlot src i := by omega
  obtain ⟨hoff, hflags⟩ := copyFlags_spec k1.mem hwords
  obtain ⟨m2, hm2⟩ : ∃ m2, m2 = copyFlags (pagesSlot src i) (pagesSlot table i) k1.mem := ⟨_, rfl⟩
  rw [← hm2] at hoff hflags
  have hsame1 : loadPage k1.mem (pagesSlot src i) = loadPage c.kernel.mem (pagesSlot src i) := by
    have hon : SameOn c.kernel.mem k1.mem (pagesSlot src i) (pagesSlot src i + 4) :=
      fun x hl hh => hmem x (by omega) (by omega)
    rw [loadPage, hon.load32_eq le_rfl le_rfl, loadPage]
  have hsame2 : loadPage m2 (pagesSlot src i) = loadPage c.kernel.mem (pagesSlot src i) := by
    rw [← hsame1, loadPage, hoff.load32_eq (by omega), loadPage]
  rw [hentry, hsame1] at hflags
  have hframe : (loadPage m2 (pagesSlot table i)).frame = f := by rw [hflags]; rfl
  have hc' : c' = ⟨copyPagePhysical ((loadPage m2 (pagesSlot src i)).frame * 0x1000)
      ((loadPage m2 (pagesSlot table i)).frame * 0x1000) (k1.withMem m2),
      c.accesses ++ [⟨table, sizeofPageTable, pagesSlot table i, 4⟩]⟩ := by
    rw [hm2]
    exact (Except.ok.inj hrest).symm
  rw [hsame2, hframe, copyPagePhysical, Kernel.withMem_phys] at hc'
  have hphys : k1.phys = c.kernel.phys := by rw [hfields]
  have hframes : k1.frames = c.kernel.frames := by rw [hfields]
  rw [hphys] at hc'
  obtain ⟨phys, hcopied⟩ : ∃ phys, phys = copyWords 1024 ((loadPage c.kernel.mem (pagesSlot src i)).frame * 0x1000)
    (f * 0x1000) c.kernel.phys := ⟨_, rfl⟩
  rw [← hcopied] at hc'
  subst hc'
  refine ⟨⟨f, ?_, hfree, hsmall, hflags, ?_, ?_, hcopied⟩, rfl⟩
  · rw [hfields]
    rfl
  · intro g hg
    rw [← hused g hg, ← frameUsed_congr (hoff.sameOn (by omega)) hg]
    rfl
  · intro x hpage hbit
    exact (hoff x hpage).trans (hmem x hpage hbit)

theorem cloneEntry_runs (hsrc : (loadPage c.kernel.mem (pagesSlot src i)).frame ≠ 0)
    (hzero : (loadPage c.kernel.mem (pagesSlot table i)).frame = 0) (hfree : firstFrame c.kernel = some f)
    (hf : f < 0xFFFFFFFF) : ∃ c', cloneEntry src table i c = .ok c' := by
  rw [cloneEntry, if_pos hsrc, allocFrame_some hzero hfree hf.ne]
  exact ⟨_, rfl⟩

/-- A source without frames. -/
theorem cloneTableLoop_blank (h : ∀ j, i ≤ j → j < i + n → (loadPage c.kernel.mem (pagesSlot src j)).frame = 0) :
    cloneTableLoop src table n i c = .ok c := by
  induction n generalizing i with
  | zero => rfl
  | succ n ih =>
    rw [cloneTableLoop, cloneEntry_blank (h i le_rfl (by omega)), ok_bind]
    exact ih fun j hl hh => h j (by omega) (by omega)

/-! ## The loop -/

/-- Entry `j` of the new table is blank where the source has no frame, and has a frame and the source's flags where
it has one. -/
def EntryOf (m : Mem) (src table j : ℕ) : Prop :=
  ((loadPage m (pagesSlot src j)).frame = 0 → loadPage m (pagesSlot table j) = Page.ofWord 0) ∧
    ((loadPage m (pagesSlot src j)).frame ≠ 0 → ∃ f < 4096, loadPage m (pagesSlot table j) =
      ((Page.ofWord 0).allocated 0 0 f).withFlags (loadPage m (pagesSlot src j)))

theorem EntryOf.congr (h : EntryOf m src table j) (hsrc : loadPage m' (pagesSlot src j) = loadPage m (pagesSlot src j))
    (htable : loadPage m' (pagesSlot table j) = loadPage m (pagesSlot table j)) : EntryOf m' src table j := by
  unfold EntryOf
  rw [hsrc, htable]
  exact h

theorem loadPage_congr (h : SameOn m m' page (page + 4)) : loadPage m' page = loadPage m page := by
  rw [loadPage, h.load32_eq le_rfl le_rfl, loadPage]

/-- A round leaves everything alone but its entry and the bitmap. -/
theorem cloneEntry_rest (h : TableApart src table c.kernel) (hi : i < 1024)
    (hzero : loadPage c.kernel.mem (pagesSlot table i) = Page.ofWord 0) (hrun : cloneEntry src table i c = .ok c') :
    c'.kernel = { c.kernel with mem := c'.kernel.mem, phys := c'.kernel.phys } ∧
      (∀ x, (x < pagesSlot table i ∨ pagesSlot table i + 4 ≤ x) →
        (x < c.kernel.frames ∨ c.kernel.frames + 512 ≤ x) → c'.kernel.mem x = c.kernel.mem x) ∧
      EntryOf c'.kernel.mem src table i := by
  have hsize : sizeofPageTable = 4096 := rfl
  by_cases hsrc : (loadPage c.kernel.mem (pagesSlot src i)).frame = 0
  · rw [cloneEntry_blank hsrc] at hrun
    obtain rfl := Except.ok.inj hrun
    exact ⟨rfl, fun _ _ _ => rfl, fun _ => hzero, fun hne => absurd hsrc hne⟩
  · obtain ⟨⟨f, hcloned⟩, -⟩ := cloneEntry_cloned h hi hsrc (by rw [hzero]; rfl) hrun
    have hsame : loadPage c'.kernel.mem (pagesSlot src i) = loadPage c.kernel.mem (pagesSlot src i) := by
      have hsource := h.source
      have hbits := h.bitmapSource
      unfold Apart at hsource hbits
      dsimp only at hsource hbits
      refine loadPage_congr fun x hl hh => hcloned.rest x ?_ ?_ <;>
        · unfold pagesSlot at *
          omega
    refine ⟨hcloned.fields, hcloned.rest, fun hz => ?_, fun _ => ⟨f, hcloned.small, ?_⟩⟩
    · rw [hsame] at hz
      exact absurd hz hsrc
    · rw [hsame, hcloned.entry, hzero]

theorem cloneTableLoop_entries (h : TableApart src table c.kernel) (hn : i + n ≤ 1024)
    (hzero : ∀ j, i ≤ j → j < i + n → loadPage c.kernel.mem (pagesSlot table j) = Page.ofWord 0)
    (hrun : cloneTableLoop src table n i c = .ok c') :
    (∀ x, (x < pagesSlot table i ∨ pagesSlot table (i + n) ≤ x) →
      (x < c.kernel.frames ∨ c.kernel.frames + 512 ≤ x) → c'.kernel.mem x = c.kernel.mem x) ∧
      ∀ j, i ≤ j → j < i + n → EntryOf c'.kernel.mem src table j := by
  induction n generalizing i c with
  | zero =>
    obtain rfl := Except.ok.inj hrun
    exact ⟨fun _ _ _ => rfl, fun j hl hh => by omega⟩
  | succ n ih =>
    obtain ⟨c1, hentry, hrest⟩ := bind_eq_ok.mp hrun
    obtain ⟨hfields, hsame, hfirst⟩ := cloneEntry_rest h (by omega) (hzero i le_rfl (by omega)) hentry
    have hframes : c1.kernel.frames = c.kernel.frames := by rw [hfields]
    have hsize : sizeofPageTable = 4096 := rfl
    have h1 := h.congr hfields
    obtain ⟨-, hsource, hbits, hbitt⟩ := h
    unfold Apart at hsource hbits hbitt
    dsimp only at hsource hbits hbitt
    have hblank : ∀ j, i + 1 ≤ j → j < i + 1 + n → loadPage c1.kernel.mem (pagesSlot table j) = Page.ofWord 0 := by
      intro j hl hh
      rw [← hzero j (by omega) (by omega)]
      refine loadPage_congr fun x hl' hh' => ?_
      exact hsame x (by unfold pagesSlot at *; omega) (by unfold pagesSlot at *; omega)
    obtain ⟨hsame', hentries⟩ := ih h1 (by omega) hblank hrest
    rw [hframes] at hsame'
    refine ⟨fun x hout hbit => ?_, fun j hl hh => ?_⟩
    · rw [hsame' x (by unfold pagesSlot at *; omega) hbit, hsame x (by unfold pagesSlot at *; omega) hbit]
    · rcases Nat.eq_or_lt_of_le hl with rfl | hlt
      · -- the rest of the loop is behind this entry
        refine hfirst.congr (loadPage_congr fun x hl hh => ?_) (loadPage_congr fun x hl hh => ?_) <;>
          exact hsame' x (by unfold pagesSlot at *; omega) (by unfold pagesSlot at *; omega)
      · exact hentries j hlt (by omega)

/-! ## The table -/

theorem cloneTable_entries {physical : ℕ} (hnew : ap sizeofPageTable c.kernel = .ok ((table, physical), k))
    (happart : TableApart src table k) (hrun : cloneTable ap src c = .ok ((table, physical), c')) (hi : i < 1024) :
    EntryOf c'.kernel.mem src table i := by
  obtain ⟨n, hn⟩ : ∃ n, n = sizeofPageDirectory := ⟨_, rfl⟩
  have hlong : 4096 ≤ n := by rw [hn]; decide
  rw [cloneTable, hnew, ok_bind] at hrun
  dsimp only at hrun
  rw [← hn] at hrun
  obtain ⟨c1, hloop, hrest⟩ := bind_eq_ok.mp hrun
  obtain rfl : c1 = c' := (Prod.mk.inj (Except.ok.inj hrest)).2
  have hbefore : TableApart src table ((Cloning.mk k c.accesses).stored ⟨table, sizeofPageTable, table, n⟩
      (memset k.mem table 0 n)).kernel := happart.congr rfl
  have hblank : ∀ j, 0 ≤ j → j < 0 + 1024 → loadPage (memset k.mem table 0 n) (pagesSlot table j) = Page.ofWord 0 :=
    fun j _ hj => congrArg Page.ofWord (load32_memset_zero (by unfold pagesSlot; omega) (by unfold pagesSlot; omega))
  exact (cloneTableLoop_entries hbefore (by norm_num) hblank hloop).2 i (Nat.zero_le i) (by omega)

/-- A cloned entry has the flags of its source exactly when the source is present and open to user mode. -/
theorem clone_flags_iff {physical : ℕ} (hnew : ap sizeofPageTable c.kernel = .ok ((table, physical), k))
    (happart : TableApart src table k) (hrun : cloneTable ap src c = .ok ((table, physical), c')) (hi : i < 1024)
    (hframe : (loadPage c'.kernel.mem (pagesSlot src i)).frame ≠ 0) :
    SameFlags (loadPage c'.kernel.mem (pagesSlot src i)) (loadPage c'.kernel.mem (pagesSlot table i)) ↔
      (loadPage c'.kernel.mem (pagesSlot src i)).present = 1 ∧ (loadPage c'.kernel.mem (pagesSlot src i)).user = 1 := by
  obtain ⟨f, -, hentry⟩ := (cloneTable_entries hnew happart hrun hi).2 hframe
  rw [hentry]
  exact sameFlags_iff f (loadPage_fits _ _)

/-! ## A page of the kernel -/

/-- A directory at 0x110000 with one table at 0x120000, whose first entry is `entry`; frames 0 and 5 are in use. -/
def entryMem (entry : ℕ) : Mem :=
  store32 (store32 (store32 (fun _ => 0) 0x110000 0x120000) 0x120000 entry) 0x300000 0x21

/-- A kernel over that memory, with no heap yet. -/
def entryKernel (entry : ℕ) : Kernel where
  mem := entryMem entry
  phys := fun _ => 0
  placementAddress := 0x200000
  kheap := none
  kernelDirectory := 0x100000
  currentDirectory := 0x110000
  frames := 0x300000
  frameCount := 4096
  cr3 := 0x101000
  pagingEnabled := true

theorem entryMem_zero {a : ℕ} (entry : ℕ) (h : a + 4 ≤ 0x110000 ∨ 0x110000 + 4 ≤ a) (h1 : a + 4 ≤ 0x120000 ∨ 0x120000 + 4 ≤ a)
    (h2 : a + 4 ≤ 0x300000 ∨ 0x300000 + 4 ≤ a) : load32 (entryMem entry) a = 0 := by
  rw [entryMem, load32_store32_of_off h2, load32_store32_of_off h1, load32_store32_of_off h]
  rfl

theorem entryKernel_new (entry n : ℕ) (hn : n < 0x100000) :
    kmallocAp 0 n (entryKernel entry) = .ok ((0x200000, 0x200000), (entryKernel entry).withPlacement (0x200000 + n)) :=
  kmallocInt_aligned rfl (by decide : pageUp 0x200000 = 0x200000) (by omega)

theorem entryKernel_apart (entry a : ℕ) : TableApart 0x120000 0x200000 ((entryKernel entry).withPlacement a) := by
  have hframes : ((entryKernel entry).withPlacement a).frames = 0x300000 := rfl
  refine ⟨le_rfl, ?_, ?_, ?_⟩
  · exact Or.inr (by decide)
  all_goals rw [hframes]
  all_goals exact Or.inr (by decide)

/-- `clone_table` on the kernel's table returns. -/
theorem entryKernel_clone (entry : ℕ) (hentry : entry < 4294967296) (hframe : (Page.ofWord entry).frame ≠ 0) :
    ∃ c', cloneTable (kmallocAp 0) 0x120000 ⟨entryKernel entry, []⟩ = .ok ((0x200000, 0x200000), c') ∧
      loadPage c'.kernel.mem (pagesSlot 0x120000 0) = Page.ofWord entry := by
  obtain ⟨n, hn⟩ : ∃ n, n = sizeofPageDirectory := ⟨_, rfl⟩
  have hlong : n = 8196 := hn
  obtain ⟨k1, hk1⟩ : ∃ k1, k1 = (entryKernel entry).withPlacement (0x200000 + sizeofPageTable) := ⟨_, rfl⟩
  have hmem1 : k1.mem = entryMem entry := by rw [hk1]; rfl
  have hframes : k1.frames = 0x300000 := by rw [hk1]; rfl
  have hcount : k1.frameCount = 4096 := by rw [hk1]; rfl
  obtain ⟨m, hm⟩ : ∃ m, m = memset (entryMem entry) 0x200000 0 n := ⟨_, rfl⟩
  have hoff : SameOff (entryMem entry) m 0x200000 (0x200000 + n) := by
    rw [hm]
    exact sameOff_memset _ _ _ _
  have happart : TableApart 0x120000 0x200000 (k1.withMem m) := by
    rw [hk1]
    exact (entryKernel_apart entry _).congr rfl
  have hsource : load32 m 0x120000 = entry := by
    rw [hoff.load32_eq (Or.inl (by decide)), entryMem, load32_store32_of_off (Or.inl (by decide)),
      load32_store32_of_lt hentry]
  have hlater : ∀ j, 1 ≤ j → j < 1024 → load32 m (pagesSlot 0x120000 j) = 0 := by
    intro j hl hh
    unfold pagesSlot
    rw [hoff.load32_eq (Or.inl (by omega))]
    exact entryMem_zero entry (by omega) (by omega) (by omega)
  have hblank : load32 m (pagesSlot 0x200000 0) = 0 := by
    rw [hm]
    exact load32_memset_zero (by unfold pagesSlot; omega) (by unfold pagesSlot; omega)
  have hbits : load32 m 0x300000 = 0x21 := by
    rw [hoff.load32_eq (Or.inr (by omega)), entryMem, load32_store32_of_lt (by decide)]
  have hfree : firstFrame (k1.withMem m) = some 1 := by
    have hword : load32 (k1.withMem m).mem (frameWord (k1.withMem m) 0) = 0x21 := by
      rw [frameWord, Kernel.withMem_frames, hframes]
      exact hbits
    have hwords : indexFromBit (k1.withMem m).frameCount = 127 + 1 := by
      rw [Kernel.withMem_frameCount, hcount]
      rfl
    rw [firstFrame, hwords, firstFrameFrom, hword]
    rfl
  obtain ⟨c0, hc0⟩ : ∃ c0 : Cloning, c0 = ⟨k1.withMem m, [⟨0x200000, sizeofPageTable, 0x200000, n⟩]⟩ := ⟨_, rfl⟩
  have hkernel : c0.kernel = k1.withMem m := by rw [hc0]
  have hentry0 : loadPage c0.kernel.mem (pagesSlot 0x120000 0) = Page.ofWord entry := by
    rw [hkernel]
    exact congrArg Page.ofWord hsource
  have hblank0 : loadPage c0.kernel.mem (pagesSlot 0x200000 0) = Page.ofWord 0 := by
    rw [hkernel]
    exact congrArg Page.ofWord hblank
  rw [← hkernel] at hfree happart
  obtain ⟨c1, hfirst⟩ : ∃ c1, cloneEntry 0x120000 0x200000 0 c0 = .ok c1 :=
    cloneEntry_runs (by rwa [hentry0]) (by rw [hblank0]; rfl) hfree (by decide)
  obtain ⟨-, hsame, -⟩ := cloneEntry_rest happart (by norm_num) hblank0 hfirst
  have hbitmap : c0.kernel.frames = 0x300000 := by rw [hkernel]; exact hframes
  rw [hbitmap] at hsame
  have hkept : ∀ j < 1024, loadPage c1.kernel.mem (pagesSlot 0x120000 j) = loadPage c0.kernel.mem (pagesSlot 0x120000 j) := by
    intro j hj
    refine loadPage_congr fun x hl hh => hsame x ?_ ?_ <;>
      · unfold pagesSlot at *
        omega
  have hrest : cloneTableLoop 0x120000 0x200000 1023 1 c1 = .ok c1 := by
    refine cloneTableLoop_blank fun j hl hh => ?_
    rw [hkept j (by omega), loadPage, hkernel, Kernel.withMem_mem, hlater j hl (by omega)]
    rfl
  refine ⟨c1, ?_, by rw [hkept 0 (by norm_num), hentry0]⟩
  have hloop : cloneTableLoop 0x120000 0x200000 1024 0 c0 = .ok c1 := by
    rw [cloneTableLoop, hfirst, ok_bind]
    exact hrest
  rw [cloneTable, entryKernel_new entry _ (by decide), ok_bind, ← hk1]
  dsimp only [Cloning.stored]
  rw [← hn, hmem1, ← hm, List.nil_append, ← hc0, hloop]
  rfl

theorem clone_flags_iff_user : ∃ c', cloneTable (kmallocAp 0) 0x120000 ⟨entryKernel 0x5005, []⟩ =
      .ok ((0x200000, 0x200000), c') ∧
    (SameFlags (loadPage c'.kernel.mem (pagesSlot 0x120000 0)) (loadPage c'.kernel.mem (pagesSlot 0x200000 0)) ↔
      (loadPage c'.kernel.mem (pagesSlot 0x120000 0)).present = 1 ∧
        (loadPage c'.kernel.mem (pagesSlot 0x120000 0)).user = 1) := by
  obtain ⟨c', hrun, hsource⟩ := entryKernel_clone 0x5005 (by decide) (by decide)
  refine ⟨c', hrun, clone_flags_iff (entryKernel_new _ _ (by decide)) (entryKernel_apart _ _) hrun (by norm_num) ?_⟩
  rw [hsource]
  decide

/-- A page that only the kernel may use: its clone is open to user mode. -/
theorem clone_opens_page : ∃ c', cloneTable (kmallocAp 0) 0x120000 ⟨entryKernel 0x5001, []⟩ =
      .ok ((0x200000, 0x200000), c') ∧
    (loadPage c'.kernel.mem (pagesSlot 0x120000 0)).frame ≠ 0 ∧
    ¬ SameFlags (loadPage c'.kernel.mem (pagesSlot 0x120000 0)) (loadPage c'.kernel.mem (pagesSlot 0x200000 0)) := by
  obtain ⟨c', hrun, hsource⟩ := entryKernel_clone 0x5001 (by decide) (by decide)
  have hframe : (loadPage c'.kernel.mem (pagesSlot 0x120000 0)).frame ≠ 0 := by
    rw [hsource]
    decide
  have hentries := cloneTable_entries (entryKernel_new _ _ (by decide)) (entryKernel_apart _ _) hrun (by norm_num : 0 < 1024)
  obtain ⟨f, -, hentry⟩ := hentries.2 hframe
  refine ⟨c', hrun, hframe, fun hsame => ?_⟩
  rw [hentry, sameFlags_iff f (loadPage_fits _ _), hsource] at hsame
  exact absurd hsame.2 (by decide)

end PandaOS

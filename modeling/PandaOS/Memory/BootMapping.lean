import PandaOS.Memory.FreshHeap

/-! `initialise_paging`. The page table of the kernel heap is made first, then the pages below the
placement address are mapped one by one while a table made on the way moves that address, and last
the pages of the heap get their frames. Frames are handed out in order, so page `j` of the first
table gets frame `j`. -/
namespace PandaOS
open ByteMemory Word32 Tiling
set_option autoImplicit false
set_option maxHeartbeats 250000

/-! ## The function -/

def kmallocA (fuel sz : ℕ) (k : Kernel) : Result (ℕ × Kernel) := do
  let ((addr, _), k) ← kmallocInt (alloc fuel) sz 1 false k
  return (addr, k)

/-- `for (i = KHEAP_START; i < KHEAP_START+KHEAP_INITIAL_SIZE; i += 0x1000)` with `n` pages left. -/
def heapPagesLoop (body : ℕ → Kernel → Result Kernel) : ℕ → ℕ → Kernel → Result Kernel
  | 0, _, k => .ok k
  | n + 1, i, k =>
    if i < KHEAP_START + KHEAP_INITIAL_SIZE then do
      let k ← body i k
      heapPagesLoop body n (add32 i 0x1000) k
    else .ok k

/-- `while (i < placement_address+0x1000)`; the bound is read again in every round. -/
def identityLoop (kmallocAp : KmallocAp) : ℕ → ℕ → Kernel → Result Kernel
  | 0, _, _ => .error .outOfFuel
  | fuel + 1, i, k =>
    if i < add32 k.placementAddress 0x1000 then do
      let (page, k) ← getPage kmallocAp i 1 k.kernelDirectory k
      let k ← allocFrame page 0 0 k
      identityLoop kmallocAp fuel (add32 i 0x1000) k
    else .ok k

/-- `initialise_paging` up to the `memset` of the bitmap. -/
def placeFrames (fuel : ℕ) (k : Kernel) : Result Kernel := do
  let memEndPage := 0x1000000
  let k := { k with frameCount := memEndPage / 0x1000 }
  let (frames, k) ← kmalloc fuel (indexFromBit k.frameCount) k
  let k := { k with frames := frames }
  return k.withMem (memset k.mem k.frames 0 (indexFromBit k.frameCount))

/-- `initialise_paging`: the empty directory. -/
def placeDirectory (fuel : ℕ) (k : Kernel) : Result Kernel := do
  let (dir, k) ← kmallocA fuel sizeofPageDirectory k
  let k := { k with kernelDirectory := dir }
  let k := k.withMem (memset k.mem k.kernelDirectory 0 sizeofPageDirectory)
  return k.withMem (store32 k.mem (physicalAddressSlot k.kernelDirectory)
    (tablesPhysicalSlot k.kernelDirectory 0))

/-- `initialise_paging` up to `switch_page_directory`. -/
def enablePaging (fuel : ℕ) (k : Kernel) : Result Kernel := do
  let k ← placeFrames fuel k
  let k ← placeDirectory fuel k
  let k ← heapPagesLoop (fun i k => do
    let (_, k) ← getPage (kmallocAp fuel) i 1 k.kernelDirectory k
    return k) (KHEAP_INITIAL_SIZE / 0x1000) KHEAP_START k
  let k ← identityLoop (kmallocAp fuel) fuel 0 k
  let k ← heapPagesLoop (fun i k => do
    let (page, k) ← getPage (kmallocAp fuel) i 1 k.kernelDirectory k
    allocFrame page 0 0 k) (KHEAP_INITIAL_SIZE / 0x1000) KHEAP_START k
  return switchPageDirectory k.kernelDirectory k

def initialisePaging (fuel : ℕ) (k : Kernel) : Result Kernel := do
  let k ← enablePaging fuel k
  createKernelHeap fuel 0 0 k

/-! ## What is mapped -/

/-- Page number `n` of the kernel directory is present and has the frame `f`. -/
def PageMaps (k : Kernel) (n f : ℕ) : Prop :=
  ∃ page, findPage (n * 0x1000) k.kernelDirectory k = .ok (page, k) ∧ page ≠ 0 ∧
    (loadPage k.mem page).present = 1 ∧ (loadPage k.mem page).frame = f

/-- `placement_address` rounded up to a page. -/
def pageUp (a : ℕ) : ℕ := (a + 4095) / 4096 * 4096

/-- Where the identity loop ends: behind the bitmap come the directory, which takes three pages, the
heap's table, and the table for the first 4 MB. -/
def identityEnd (placement : ℕ) : ℕ := pageUp (placement + 128) + 0x6000

/-- Paging is on, the pages below `end'` are mapped to themselves, and the heap's pages to the frames
that follow. -/
structure BootMapped (k : Kernel) (end' : ℕ) : Prop where
  enabled : k.pagingEnabled = true
  loaded : k.currentDirectory = k.kernelDirectory ∧ k.cr3 = tablesPhysicalSlot k.kernelDirectory 0
  placement : k.placementAddress + 0x1000 = end'
  identity : ∀ n, n * 0x1000 < end' → PageMaps k n n
  covered : ∀ a < k.placementAddress + sizeofHeap, PageMaps k (a / 0x1000) (a / 0x1000)
  heap : ∀ q < KHEAP_INITIAL_SIZE / 0x1000, PageMaps k (KHEAP_START / 0x1000 + q) (end' / 0x1000 + q)
  apart : ∀ n f, n * 0x1000 < end' → PageMaps k n f →
    ∀ q < KHEAP_INITIAL_SIZE / 0x1000, ¬ PageMaps k (KHEAP_START / 0x1000 + q) f

variable {k k' : Kernel} {m m' : Mem} {f d i j n q a table base used fuel : ℕ}

/-! ## The tables while they are filled -/

/-- The first `n` entries of the table hold the frames from `base` on, the others none. -/
structure Filled (m : Mem) (table n base : ℕ) : Prop where
  mapped : ∀ q < n, (loadPage m (pagesSlot table q)).present = 1 ∧
    (loadPage m (pagesSlot table q)).frame = base + q
  empty : ∀ q, n ≤ q → q < 1024 → (loadPage m (pagesSlot table q)).frame = 0

/-- Of the frames whose bits the function cleared, those below `n` are in use. -/
def UsedBelow (k : Kernel) (n : ℕ) : Prop := ∀ g < 1024, frameUsed k g = decide (g < n)

theorem Filled.congr (h : Filled m table n base) (hm : SameOn m m' table (table + 4096)) (hn : n ≤ 1024) :
    Filled m' table n base := by
  have hload : ∀ q < 1024, loadPage m' (pagesSlot table q) = loadPage m (pagesSlot table q) := by
    intro q hq
    rw [loadPage, hm.load32_eq (by unfold pagesSlot; omega) (by unfold pagesSlot; omega), loadPage]
  refine ⟨fun q hq => ?_, fun q hl hh => ?_⟩
  · rw [hload q (by omega)]
    exact h.mapped q hq
  · rw [hload q hh]
    exact h.empty q hl hh

theorem filled_zero (base : ℕ) (h : ∀ q < 1024, load32 m (pagesSlot table q) = 0) : Filled m table 0 base := by
  refine ⟨fun q hq => absurd hq (Nat.not_lt_zero q), fun q _ hq => ?_⟩
  rw [loadPage, h q hq]
  rfl

theorem UsedBelow.congr (h : UsedBelow k n) (hm : SameOn k.mem m k.frames (k.frames + 128)) :
    UsedBelow (k.withMem m) n := by
  intro g hg
  have hword : load32 m (frameWord k (indexFromBit g)) = load32 k.mem (frameWord k (indexFromBit g)) :=
    hm.load32_eq (by unfold frameWord; omega) (by unfold frameWord indexFromBit; omega)
  rw [← h g hg]
  simp only [frameUsed, frameWord_withMem, Kernel.withMem_mem, hword]

/-- The lowest frame that is not in use is the next one. -/
theorem firstFrame_next (hcount : k.frameCount = 4096) (hused : UsedBelow k used) (hlt : used < 1024) :
    firstFrame k = some used := by
  have hfree := hused used hlt
  rw [decide_eq_false (lt_irrefl used)] at hfree
  cases hfirst : firstFrame k with
  | none =>
    have := firstFrame_none hfirst (g := used) (by rw [hcount]; omega)
    rw [hfree] at this
    cases this
  | some f =>
    obtain ⟨_, hf, hbelow⟩ := firstFrame_spec hfirst
    congr 1
    by_contra hne
    rcases lt_or_gt_of_ne hne with hlow | hhigh
    · rw [hused f (by omega), decide_eq_true hlow] at hf
      cases hf
    · rw [hbelow used hhigh] at hfree
      cases hfree

/-- `alloc_frame` on the next entry of a table that is being filled. -/
theorem allocFrame_next (hcount : k.frameCount = 4096) (hused : UsedBelow k (base + n))
    (hlt : base + n < 1024) (htable : k.frames + 128 ≤ table) (hfilled : Filled k.mem table n base) :
    ∃ m', allocFrame (pagesSlot table n) 0 0 k = .ok (k.withMem m') ∧
      UsedBelow (k.withMem m') (base + (n + 1)) ∧ Filled m' table (n + 1) base ∧
      ∀ x, (x < k.frames ∨ k.frames + 128 ≤ x) → (x < table ∨ table + 4096 ≤ x) → m' x = k.mem x := by
  obtain ⟨page, hpage⟩ : ∃ page, page = pagesSlot table n := ⟨_, rfl⟩
  have hin : table ≤ page ∧ page + 4 ≤ table + 4096 := by
    rw [hpage, pagesSlot]
    omega
  have hzero : (loadPage k.mem page).frame = 0 := by
    rw [hpage]
    exact hfilled.empty n le_rfl (by omega)
  have hdiv : (base + n) * 0x1000 % 4294967296 / 0x1000 = base + n := by omega
  have hset := sameOff_setFrame ((base + n) * 0x1000 % 4294967296) k
  rw [hdiv] at hset
  have hset' : SameOff k.mem (setFrame ((base + n) * 0x1000 % 4294967296) k).mem k.frames
      (k.frames + 128) :=
    hset.mono (by unfold frameWord; omega) (by unfold frameWord indexFromBit; omega)
  have hbits : UsedBelow (setFrame ((base + n) * 0x1000 % 4294967296) k) (base + (n + 1)) := by
    intro g hg
    rw [frameUsed_setFrame, hdiv, hused g hg]
    by_cases hlow : g < base + n
    · simp [hlow, show g < base + (n + 1) by omega]
    · by_cases heq : g = base + n
      · simp [heq]
      · simp [hlow, heq, show ¬ g < base + (n + 1) by omega]
  have hsame : loadPage (setFrame ((base + n) * 0x1000 % 4294967296) k).mem page = loadPage k.mem page := by
    rw [loadPage, hset'.load32_eq (Or.inr (by omega)), loadPage]
  obtain ⟨k1, hk1⟩ : ∃ k1, k1 = setFrame ((base + n) * 0x1000 % 4294967296) k := ⟨_, rfl⟩
  rw [← hk1] at hset' hbits hsame
  have hfields : k1 = k.withMem k1.mem := by rw [hk1]; rfl
  have hframes : k1.frames = k.frames := by rw [hfields]; rfl
  obtain ⟨m', hm'⟩ : ∃ m', m' = storePage k1.mem page ((loadPage k.mem page).allocated 0 0 (base + n)) :=
    ⟨_, rfl⟩
  have hstore : SameOff k1.mem m' page (page + 4) := by
    rw [hm']
    exact sameOff_store32 le_rfl le_rfl
  have hoff : ∀ x, (x < k.frames ∨ k.frames + 128 ≤ x) → (x < page ∨ page + 4 ≤ x) → m' x = k.mem x :=
    fun x h1 h2 => (hstore x h2).trans (hset' x h1)
  have hentry : loadPage m' page = (loadPage k.mem page).allocated 0 0 (base + n) := by
    rw [hm']
    exact loadPage_storePage_self _ _ (Page.allocated_fits (loadPage_fits _ _) (by omega))
  have hothers : ∀ q < 1024, q ≠ n → loadPage m' (pagesSlot table q) = loadPage k.mem (pagesSlot table q) := by
    intro q hq hne
    have hsame : SameOn k.mem m' (pagesSlot table q) (pagesSlot table q + 4) := by
      intro x hl hh
      refine hoff x ?_ ?_
      · unfold pagesSlot at hl
        omega
      · rw [hpage]
        unfold pagesSlot at *
        omega
    rw [loadPage, hsame.load32_eq le_rfl le_rfl, loadPage]
  refine ⟨m', ?_, ?_, ?_, ?_⟩
  · rw [← hpage, allocFrame_some hzero (firstFrame_next hcount hused hlt) (by omega), ← hk1, hsame, ← hm']
  · have := hbits.congr (m := m') (hstore.sameOn (Or.inl (by omega)))
    rwa [hfields] at this
  · refine ⟨fun q hq => ?_, fun q hl hh => ?_⟩
    · by_cases hqn : q = n
      · rw [hqn, ← hpage, hentry]
        exact ⟨rfl, rfl⟩
      · rw [hothers q (by omega) hqn]
        exact hfilled.mapped q (by omega)
    · rw [hothers q hh (by omega)]
      exact hfilled.empty q (by omega) hh
  · exact fun x h1 h2 => hoff x h1 (by omega)

/-! ## A new table -/

/-- The kernel after the placement allocator has handed out memory up to `a`. -/
def Kernel.withPlacement (k : Kernel) (a : ℕ) : Kernel := { k with placementAddress := a }

theorem pageUp_of_dvd (h : a % 4096 = 0) : pageUp a = a := by
  unfold pageUp
  omega

theorem pageUp_of_not_dvd (h : a % 4096 ≠ 0) : pageUp a = a / 4096 * 4096 + 4096 := by
  unfold pageUp
  omega

/-- The placement allocator. -/
theorem kmallocInt_of_none {al : ℕ → ℕ → Kernel → Result (ℕ × Kernel)} {sz align : ℕ} {phys : Bool}
    (hk : k.kheap = none)
    (hp : (if align = 1 ∧ k.placementAddress &&& 0x00000FFF ≠ 0 then
      add32 (k.placementAddress &&& 0xFFFFF000) PAGE_SIZE else k.placementAddress) = a) :
    kmallocInt al sz align phys k = .ok ((a, if phys then a else 0), k.withPlacement (add32 a sz)) := by
  unfold kmallocInt
  split
  · next hheap =>
    rw [hk] at hheap
    cases hheap
  · rw [hp]
    rfl

theorem kmalloc_of_none {sz : ℕ} (fuel : ℕ) (hk : k.kheap = none) :
    kmalloc fuel sz k = .ok (k.placementAddress, k.withPlacement (add32 k.placementAddress sz)) := by
  rw [kmalloc, kmallocInt_of_none hk (if_neg (by omega))]
  rfl

/-- Where an aligned request is placed. -/
theorem aligned_placement (hp : pageUp k.placementAddress = a) (ha : a < 4294967296) :
    (if 1 = 1 ∧ k.placementAddress &&& 0x00000FFF ≠ 0 then
      add32 (k.placementAddress &&& 0xFFFFF000) PAGE_SIZE else k.placementAddress) = a := by
  have hle : k.placementAddress < 4294967296 := by
    unfold pageUp at hp
    omega
  rw [and_low_page, and_high_page hle]
  split
  · next hlow =>
    rw [pageUp_of_not_dvd hlow.2] at hp
    exact (add32_of_lt (hp ▸ ha)).trans hp
  · next hlow =>
    rw [pageUp_of_dvd (by omega)] at hp
    exact hp

/-- Before the heap exists an aligned request gets the next page boundary. -/
theorem kmallocInt_aligned {al : ℕ → ℕ → Kernel → Result (ℕ × Kernel)} {sz : ℕ} {phys : Bool}
    (hk : k.kheap = none) (hp : pageUp k.placementAddress = a) (ha : a + sz < 4294967296) :
    kmallocInt al sz 1 phys k = .ok ((a, if phys then a else 0), k.withPlacement (a + sz)) := by
  have hnext : add32 a sz = a + sz := add32_of_lt ha
  rw [← hnext]
  exact kmallocInt_of_none hk (aligned_placement hp (by omega))

/-- A table that `get_page` makes before the heap exists. -/
theorem getPage_fresh (fuel : ℕ) (hk : k.kheap = none) (hp : pageUp k.placementAddress = a)
    (ha : a + 4096 < 4294967296) (hslot : load32 k.mem (tablesSlot d (tableIndex i)) = 0)
    (hd : d + 8196 ≤ a) (hi : i < 4294967296) :
    ∃ m', getPage (kmallocAp fuel) i 1 d k =
        .ok (pagesSlot a (pageIndex i), (k.withPlacement (a + 4096)).withMem m') ∧
      load32 m' (tablesSlot d (tableIndex i)) = a ∧
      (∀ q < 1024, load32 m' (pagesSlot a q) = 0) ∧
      ∀ x, (x < tablesSlot d (tableIndex i) ∨ tablesSlot d (tableIndex i) + 4 ≤ x) →
        (x < tablesPhysicalSlot d (tableIndex i) ∨ tablesPhysicalSlot d (tableIndex i) + 4 ≤ x) →
        (x < a ∨ a + 4096 ≤ x) → m' x = k.mem x := by
  have ht := tableIndex_lt hi
  obtain ⟨t, htdef⟩ : ∃ t, t = tableIndex i := ⟨_, rfl⟩
  rw [← htdef] at hslot ht ⊢
  have hkmalloc : kmallocAp fuel sizeofPageTable k = .ok ((a, a), k.withPlacement (a + 4096)) :=
    kmallocInt_aligned hk hp ha
  obtain ⟨m1, hm1⟩ : ∃ m, m = store32 k.mem (tablesSlot d t) a := ⟨_, rfl⟩
  obtain ⟨m2, hm2⟩ : ∃ m, m = memset m1 a 0 0x1000 := ⟨_, rfl⟩
  obtain ⟨m3, hm3⟩ : ∃ m, m = store32 m2 (tablesPhysicalSlot d t) (a ||| 0x7) := ⟨_, rfl⟩
  have hoff1 : SameOff k.mem m1 (tablesSlot d t) (tablesSlot d t + 4) := by
    rw [hm1]
    exact sameOff_store32 le_rfl le_rfl
  have hoff2 : SameOff m1 m2 a (a + 4096) := by
    rw [hm2]
    exact sameOff_memset m1 a 0 0x1000
  have hoff3 : SameOff m2 m3 (tablesPhysicalSlot d t) (tablesPhysicalSlot d t + 4) := by
    rw [hm3]
    exact sameOff_store32 le_rfl le_rfl
  have hread1 : load32 m1 (tablesSlot d t) = a := by
    rw [hm1]
    exact load32_store32_of_lt (by omega)
  have hread2 : load32 m2 (tablesSlot d t) = a := by
    rw [hoff2.load32_eq (Or.inl (by unfold tablesSlot; omega)), hread1]
  have hread3 : load32 m3 (tablesSlot d t) = a := by
    rw [hoff3.load32_eq (by unfold tablesSlot tablesPhysicalSlot; omega), hread2]
  refine ⟨m3, ?_, hread3, fun q hq => ?_, fun x h1 h2 h3 => ?_⟩
  · unfold getPage
    rw [← htdef, if_neg (not_not.mpr hslot), if_pos (by decide), hkmalloc, ok_bind]
    have hmem : (k.withPlacement (a + 4096)).mem = k.mem := rfl
    simp only [Kernel.withMem_mem, Kernel.withMem_withMem, hmem, ← hm1, hread1, ← hm2, ← hm3, hread3]
    rfl
  · rw [hoff3.load32_eq (Or.inr (by unfold pagesSlot tablesPhysicalSlot; omega)), hm2]
    exact load32_memset_zero (by unfold pagesSlot; omega) (by unfold pagesSlot; omega)
  · exact ((hoff3 x h2).trans (hoff2 x h3)).trans (hoff1 x h1)

/-! ## The loops -/

theorem add32_page (h : a + q * 4096 + 4096 < 4294967296) : add32 (a + q * 4096) 0x1000 = a + (q + 1) * 4096 := by
  have hsum : a + (q + 1) * 4096 = a + q * 4096 + 4096 := by omega
  rw [hsum]
  exact add32_of_lt h

/-- Rounds that change nothing. -/
theorem heapPagesLoop_still {body : ℕ → Kernel → Result Kernel}
    (h : ∀ i, KHEAP_START ≤ i → i < KHEAP_START + KHEAP_INITIAL_SIZE → body i k = .ok k)
    (hi : KHEAP_START ≤ i) (hn : i + n * 0x1000 ≤ KHEAP_START + KHEAP_INITIAL_SIZE) :
    heapPagesLoop body n i k = .ok k := by
  induction n generalizing i with
  | zero => rfl
  | succ n ih =>
    have hstart : KHEAP_START = 0xC0000000 := rfl
    have hsize : KHEAP_INITIAL_SIZE = 0x100000 := rfl
    have hnext : add32 i 0x1000 = i + 0x1000 := add32_of_lt (by omega)
    rw [heapPagesLoop, if_pos (by omega), h i hi (by omega), ok_bind, hnext]
    exact ih (by omega) (by omega)

/-- The state while the pages get their frames: `j` identity pages and `q` pages of the heap have
theirs. -/
structure Boot (k : Kernel) (f d j q : ℕ) : Prop where
  kheap : k.kheap = none
  frames : k.frames = f
  frameCount : k.frameCount = 4096
  directory : k.kernelDirectory = d
  physical : load32 k.mem (physicalAddressSlot d) = tablesPhysicalSlot d 0
  placement : k.placementAddress = d + 0x5000
  lowTable : load32 k.mem (tablesSlot d 0) = d + 0x4000
  heapTable : load32 k.mem (tablesSlot d 768) = d + 0x3000
  identity : Filled k.mem (d + 0x4000) j 0
  heap : Filled k.mem (d + 0x3000) q j
  used : UsedBelow k (j + q)

/-- The directory and the allocator stay as they are while entries are filled. -/
theorem Boot.fill (h : Boot k f d j q) {j' q' : ℕ} (hm : SameOn k.mem m d (d + 0x3000))
    (hidentity : Filled m (d + 0x4000) j' 0) (hheap : Filled m (d + 0x3000) q' j')
    (hused : UsedBelow (k.withMem m) (j' + q')) : Boot (k.withMem m) f d j' q' := by
  refine ⟨h.kheap, h.frames, h.frameCount, h.directory, ?_, h.placement, ?_, ?_, hidentity, hheap, hused⟩
  · rw [Kernel.withMem_mem, hm.load32_eq (by unfold physicalAddressSlot; omega)
      (by unfold physicalAddressSlot; omega), h.physical]
  · rw [Kernel.withMem_mem, hm.load32_eq (by unfold tablesSlot; omega) (by unfold tablesSlot; omega),
      h.lowTable]
  · rw [Kernel.withMem_mem, hm.load32_eq (by unfold tablesSlot; omega) (by unfold tablesSlot; omega),
      h.heapTable]

/-- `get_page` on an address of the two tables that exist. -/
theorem Boot.get_page (h : Boot k f d j q) {ap : KmallocAp} {make : ℕ} (ht : tableIndex i = 0 ∨ tableIndex i = 768) :
    getPage ap i make k.kernelDirectory k =
      .ok (pagesSlot (if tableIndex i = 0 then d + 0x4000 else d + 0x3000) (pageIndex i), k) := by
  have hslot : load32 k.mem (tablesSlot k.kernelDirectory (tableIndex i)) =
      if tableIndex i = 0 then d + 0x4000 else d + 0x3000 := by
    rw [h.directory]
    rcases ht with h0 | h768
    · rw [if_pos h0, h0, h.lowTable]
    · rw [if_neg (by omega), h768, h.heapTable]
  rw [getPage_of_table, hslot]
  rw [hslot]
  split <;> omega

/-- One round of the identity loop gives page `j` the frame `j`. -/
theorem Boot.identity_step (h : Boot k f d j 0) (hf : f + 128 ≤ d) (hj : j < 1024) :
    ∃ k', allocFrame (pagesSlot (d + 0x4000) j) 0 0 k = .ok k' ∧ Boot k' f d (j + 1) 0 := by
  have hused : UsedBelow k (0 + j) := by
    rw [Nat.zero_add]
    exact h.used
  have hframes := h.frames
  obtain ⟨m', hrun, hbits, hfilled, hoff⟩ := allocFrame_next h.frameCount hused (by omega) (by omega) h.identity
  refine ⟨_, hrun, h.fill (fun x hl hh => hoff x (by omega) (by omega)) hfilled ?_ ?_⟩
  · have hempty : Filled m' (d + 0x3000) 0 j :=
      h.heap.congr (fun x hl hh => hoff x (by omega) (by omega)) (by omega)
    exact ⟨fun q hq => absurd hq (Nat.not_lt_zero q), hempty.empty⟩
  · rwa [Nat.zero_add] at hbits

/-- One round of the last loop gives page `q` of the heap the next frame. -/
theorem Boot.heap_step (h : Boot k f d j q) (hf : f + 128 ≤ d) (hjq : j + q < 1024) :
    ∃ k', allocFrame (pagesSlot (d + 0x3000) q) 0 0 k = .ok k' ∧ Boot k' f d j (q + 1) := by
  have hframes := h.frames
  obtain ⟨m', hrun, hbits, hfilled, hoff⟩ := allocFrame_next h.frameCount h.used hjq (by omega) h.heap
  refine ⟨_, hrun, h.fill (fun x hl hh => hoff x (by omega) (by omega)) ?_ hfilled hbits⟩
  exact h.identity.congr (fun x hl hh => hoff x (by omega) (by omega)) (by omega)

/-- The identity loop from round `j` on. -/
theorem Boot.identity_run (ap : KmallocAp) (fuel : ℕ) (h : Boot k f d j 0) (hf : f + 128 ≤ d) (hn : n * 4096 = d + 0x6000)
    (hle : n ≤ 1024) (hj : j ≤ n) (hfuel : n < fuel + j) :
    ∃ k', identityLoop ap fuel (j * 4096) k = .ok k' ∧ Boot k' f d n 0 := by
  induction fuel generalizing k j with
  | zero => omega
  | succ fuel ih =>
    have hbound : add32 k.placementAddress 0x1000 = d + 0x6000 := by
      rw [h.placement]
      exact add32_of_lt (by omega)
    rw [identityLoop, hbound]
    by_cases hlt : j < n
    · have hnext : add32 (j * 4096) 0x1000 = (j + 1) * 4096 := by
        have hlast : 0 + j * 4096 + 4096 < 4294967296 := by omega
        have hpage := add32_page hlast
        rwa [Nat.zero_add, Nat.zero_add] at hpage
      have hindex : tableIndex (j * 4096) = 0 ∧ pageIndex (j * 4096) = j := by
        unfold tableIndex pageIndex
        omega
      obtain ⟨k1, hrun, h1⟩ := h.identity_step hf (by omega)
      rw [if_pos (by omega), h.get_page (Or.inl hindex.1), ok_bind]
      dsimp only
      rw [if_pos hindex.1, hindex.2, hrun, ok_bind, hnext]
      exact ih h1 (by omega) (by omega)
    · have heq : j = n := by omega
      rw [if_neg (by omega)]
      exact ⟨k, rfl, heq ▸ h⟩

/-- The last loop with `n` pages left. -/
theorem Boot.heap_run (fuel n : ℕ) (h : Boot k f d j q) (hf : f + 128 ≤ d) (hj : j ≤ 768) (hn : q + n = 256) :
    ∃ k', heapPagesLoop (fun i k => do
        let (page, k) ← getPage (kmallocAp fuel) i 1 k.kernelDirectory k
        allocFrame page 0 0 k) n (KHEAP_START + q * 4096) k = .ok k' ∧ Boot k' f d j 256 := by
  induction n generalizing k q with
  | zero =>
    have heq : q = 256 := by omega
    exact ⟨k, rfl, heq ▸ h⟩
  | succ n ih =>
    have hstart : KHEAP_START = 0xC0000000 := rfl
    have hsize : KHEAP_INITIAL_SIZE = 0x100000 := rfl
    have hindex : tableIndex (KHEAP_START + q * 4096) = 768 ∧ pageIndex (KHEAP_START + q * 4096) = q := by
      unfold tableIndex pageIndex
      omega
    have hnext : add32 (KHEAP_START + q * 4096) 0x1000 = KHEAP_START + (q + 1) * 4096 :=
      add32_page (by omega)
    obtain ⟨k1, hrun, h1⟩ := h.heap_step hf (by omega)
    rw [heapPagesLoop, if_pos (by omega), h.get_page (Or.inr hindex.1), ok_bind]
    dsimp only
    rw [if_neg (by omega), hindex.2, hrun, ok_bind, hnext]
    exact ih h1 (by omega)

/-! ## Up to the loops -/

/-- The bitmap and the directory are cleared, and nothing is mapped yet. -/
structure Placed (k : Kernel) (f d : ℕ) : Prop where
  kheap : k.kheap = none
  frames : k.frames = f
  frameCount : k.frameCount = 4096
  directory : k.kernelDirectory = d
  physical : load32 k.mem (physicalAddressSlot d) = tablesPhysicalSlot d 0
  placement : k.placementAddress = d + sizeofPageDirectory
  tables : ∀ t < 1024, load32 k.mem (tablesSlot d t) = 0
  used : UsedBelow k 0

/-- The bitmap at the placement address, cleared. -/
theorem placeFrames_spec (fuel : ℕ) (hk : k.kheap = none) (hp : k.placementAddress = f) :
    ∃ k', placeFrames fuel k = .ok k' ∧ k'.kheap = none ∧ k'.frames = f ∧ k'.frameCount = 4096 ∧
      k'.placementAddress = add32 f 128 ∧ UsedBelow k' 0 := by
  have hbytes : indexFromBit (0x1000000 / 0x1000) = 128 := by decide
  obtain ⟨k1, hk1⟩ : ∃ x : Kernel, x = { k with frameCount := 0x1000000 / 0x1000 } := ⟨_, rfl⟩
  have hfields : k1.kheap = none ∧ k1.placementAddress = f ∧ k1.frameCount = 4096 ∧ k1.mem = k.mem := by
    rw [hk1]
    exact ⟨hk, hp, by norm_num, rfl⟩
  obtain ⟨hheap1, hplacement1, hcount1, hmem1⟩ := hfields
  have hbytes1 : indexFromBit k1.frameCount = 128 := by
    rw [hcount1]
    decide
  have hkmalloc : kmalloc fuel (indexFromBit k1.frameCount) k1 = .ok (f, k1.withPlacement (add32 f 128)) := by
    rw [hbytes1, kmalloc_of_none fuel hheap1, hplacement1]
  have hrun : placeFrames fuel k = .ok ({ k1.withPlacement (add32 f 128) with frames := f }.withMem
      (memset k1.mem f 0 (indexFromBit k1.frameCount))) := by
    rw [hk1] at hkmalloc ⊢
    unfold placeFrames
    dsimp only at hkmalloc ⊢
    rw [hkmalloc, ok_bind]
    rfl
  refine ⟨_, hrun, hheap1, rfl, hcount1, rfl, fun g hg => ?_⟩
  have hword : load32 (memset k1.mem f 0 (indexFromBit k1.frameCount)) (f + 4 * indexFromBit g) = 0 := by
    rw [hbytes1]
    exact load32_memset_zero (by omega) (by unfold indexFromBit; omega)
  show (load32 (memset k1.mem f 0 (indexFromBit k1.frameCount)) (f + 4 * indexFromBit g)).testBit
    (offsetFromBit g) = _
  rw [hword, Nat.zero_testBit]
  rfl

/-- The directory at the next page boundary, empty. -/
theorem placeDirectory_spec (fuel : ℕ) (hk : k.kheap = none)
    (hd : (if 1 = 1 ∧ k.placementAddress &&& 0x00000FFF ≠ 0 then
      add32 (k.placementAddress &&& 0xFFFFF000) PAGE_SIZE else k.placementAddress) = d) :
    ∃ k', placeDirectory fuel k = .ok k' ∧ k'.kheap = none ∧ k'.frames = k.frames ∧
      k'.frameCount = k.frameCount ∧ k'.kernelDirectory = d ∧ k'.placementAddress = add32 d sizeofPageDirectory ∧
      SameOff k.mem k'.mem d (d + 8196) ∧
      load32 k'.mem (physicalAddressSlot d) = tablesPhysicalSlot d 0 % 4294967296 ∧
      ∀ t < 1024, load32 k'.mem (tablesSlot d t) = 0 := by
  obtain ⟨p, hp⟩ : ∃ p, p = add32 d sizeofPageDirectory := ⟨_, rfl⟩
  have hkmallocA : kmallocA fuel sizeofPageDirectory k = .ok (d, k.withPlacement p) := by
    rw [kmallocA, kmallocInt_of_none hk hd, ← hp]
    rfl
  rw [← hp]
  obtain ⟨m1, hm1⟩ : ∃ m, m = memset k.mem d 0 sizeofPageDirectory := ⟨_, rfl⟩
  obtain ⟨m2, hm2⟩ : ∃ m, m = store32 m1 (physicalAddressSlot d) (tablesPhysicalSlot d 0) := ⟨_, rfl⟩
  have hoff1 : SameOff k.mem m1 d (d + 8196) := by
    rw [hm1]
    exact sameOff_memset _ _ _ _
  have hoff2 : SameOff m1 m2 (d + 8192) (d + 8196) := by
    rw [hm2]
    exact sameOff_store32 le_rfl le_rfl
  have hrun : placeDirectory fuel k =
      .ok ({ k.withPlacement p with kernelDirectory := d }.withMem m2) := by
    have hmem : (k.withPlacement p).mem = k.mem := rfl
    unfold placeDirectory
    rw [hkmallocA, ok_bind]
    dsimp only [Kernel.withMem_mem, Kernel.withMem_kernelDirectory]
    rw [hmem, ← hm1, ← hm2]
    rfl
  refine ⟨_, hrun, hk, rfl, rfl, rfl, rfl, ?_, ?_, fun t ht => ?_⟩
  · exact hoff1.trans (hoff2.mono (by omega) le_rfl)
  · rw [Kernel.withMem_mem, hm2]
    exact load32_store32_self _ _ _
  · rw [Kernel.withMem_mem, hoff2.load32_eq (Or.inl (by unfold tablesSlot; omega)), hm1]
    exact load32_memset_zero (by unfold tablesSlot; omega)
      (by unfold tablesSlot sizeofPageDirectory; omega)

theorem placeDirectory_placed (fuel : ℕ) (hk : k.kheap = none) (hframes : k.frames = f) (hcount : k.frameCount = 4096)
    (hused : UsedBelow k 0) (hplacement : pageUp k.placementAddress = d) (hf : f + 128 ≤ d)
    (hlt : d + 0x6000 < 4294967296) : ∃ k', placeDirectory fuel k = .ok k' ∧ Placed k' f d := by
  obtain ⟨k', hrun, hheap, hframes', hcount', hdir, hplace, hoff, hphysical, htables⟩ :=
    placeDirectory_spec fuel hk (aligned_placement hplacement (by omega))
  have hsize : sizeofPageDirectory = 8196 := rfl
  refine ⟨k', hrun, hheap, hframes'.trans hframes, hcount'.trans hcount, hdir, ?_, ?_, htables, fun g hg => ?_⟩
  · rw [hphysical, Nat.mod_eq_of_lt (by unfold tablesPhysicalSlot; omega)]
  · rw [hplace, add32_of_lt (by omega)]
  · have hsame : SameOn k.mem k'.mem k.frames (k.frames + 128) := hoff.sameOn (Or.inl (by omega))
    rw [← hused.congr hsame g hg]
    unfold frameUsed frameWord
    rw [hframes']
    rfl

/-- The heap's table exists and is empty; the low table does not. -/
structure Tabled (k : Kernel) (f d : ℕ) : Prop where
  kheap : k.kheap = none
  frames : k.frames = f
  frameCount : k.frameCount = 4096
  directory : k.kernelDirectory = d
  physical : load32 k.mem (physicalAddressSlot d) = tablesPhysicalSlot d 0
  placement : k.placementAddress = d + 0x4000
  lowTable : load32 k.mem (tablesSlot d 0) = 0
  heapTable : load32 k.mem (tablesSlot d 768) = d + 0x3000
  heap : ∀ q < 1024, load32 k.mem (pagesSlot (d + 0x3000) q) = 0
  used : UsedBelow k 0

/-- The first loop makes the heap's table for its first page, and the other pages find it. -/
theorem Placed.heapTable (fuel : ℕ) (h : Placed k f d) (hf : f + 128 ≤ d) (hd : d % 4096 = 0)
    (hlt : d + 0x6000 < 4294967296) :
    ∃ k', heapPagesLoop (fun i k => do
        let (_, k) ← getPage (kmallocAp fuel) i 1 k.kernelDirectory k
        return k) (KHEAP_INITIAL_SIZE / 0x1000) KHEAP_START k = .ok k' ∧ Tabled k' f d := by
  have hstart : KHEAP_START = 0xC0000000 := rfl
  have hsize : KHEAP_INITIAL_SIZE = 0x100000 := rfl
  have hindex : tableIndex KHEAP_START = 768 := rfl
  have hplacement : pageUp k.placementAddress = d + 0x3000 := by
    rw [h.placement, sizeofPageDirectory, pageUp]
    omega
  have hfree : load32 k.mem (tablesSlot d (tableIndex KHEAP_START)) = 0 := h.tables _ (by decide)
  obtain ⟨m, hget, hslot, hzero, hoff⟩ := getPage_fresh fuel h.kheap hplacement (by omega) hfree (by omega)
    (by decide)
  rw [hindex] at hslot hoff
  have hframes := h.frames
  obtain ⟨k1, hk1⟩ : ∃ x, x = (k.withPlacement (d + 0x3000 + 4096)).withMem m := ⟨_, rfl⟩
  rw [← hk1] at hget
  have hmem1 : k1.mem = m := by rw [hk1]; rfl
  have htabled : Tabled k1 f d := by
    rw [hk1]
    refine ⟨h.kheap, hframes, h.frameCount, h.directory, ?_, rfl, ?_, hslot, hzero, ?_⟩
    · have hsame : SameOn k.mem m (physicalAddressSlot d) (physicalAddressSlot d + 4) := by
        intro x hl hh
        unfold physicalAddressSlot at hl hh
        exact hoff x (by unfold tablesSlot; omega) (by unfold tablesPhysicalSlot; omega) (by omega)
      exact (hsame.load32_eq le_rfl le_rfl).trans h.physical
    · have hsame : SameOn k.mem m (tablesSlot d 0) (tablesSlot d 0 + 4) := by
        intro x hl hh
        unfold tablesSlot at hl hh
        exact hoff x (by unfold tablesSlot; omega) (by unfold tablesPhysicalSlot; omega) (by omega)
      exact (hsame.load32_eq le_rfl le_rfl).trans (h.tables 0 (by norm_num))
    · have hsame : SameOn k.mem m k.frames (k.frames + 128) := by
        intro x hl hh
        exact hoff x (by unfold tablesSlot; omega) (by unfold tablesPhysicalSlot; omega) (by omega)
      exact h.used.congr hsame
  have hstill : ∀ i, KHEAP_START ≤ i → i < KHEAP_START + KHEAP_INITIAL_SIZE →
      (do let (_, k) ← getPage (kmallocAp fuel) i 1 k1.kernelDirectory k1
          return k) = (.ok k1 : Result Kernel) := by
    intro i hl hh
    have ht : tableIndex i = 768 := by
      unfold tableIndex
      omega
    have hne : load32 k1.mem (tablesSlot k1.kernelDirectory (tableIndex i)) ≠ 0 := by
      rw [htabled.directory, ht, htabled.heapTable]
      omega
    rw [getPage_of_table hne]
    rfl
  refine ⟨k1, ?_, htabled⟩
  obtain ⟨n, hn⟩ : ∃ n, n = 255 := ⟨_, rfl⟩
  have hpages : KHEAP_INITIAL_SIZE / 0x1000 = n + 1 := by rw [hn]; rfl
  have hnext : add32 KHEAP_START 0x1000 = KHEAP_START + 0x1000 := by decide
  rw [hpages, heapPagesLoop, if_pos (by omega), h.directory, hget, ok_bind, hnext]
  exact heapPagesLoop_still hstill (by omega) (by omega)

/-- The first round of the identity loop makes the low table. -/
theorem Tabled.boot (fuel : ℕ) (h : Tabled k f d) (hf : f + 128 ≤ d) (hd : d % 4096 = 0) (hlt : d + 0x6000 < 4294967296) :
    ∃ k', getPage (kmallocAp fuel) 0 1 k.kernelDirectory k = .ok (pagesSlot (d + 0x4000) 0, k') ∧
      Boot k' f d 0 0 := by
  have hplacement : pageUp k.placementAddress = d + 0x4000 := by
    rw [h.placement, pageUp]
    omega
  have hindex : tableIndex 0 = 0 ∧ pageIndex 0 = 0 := ⟨rfl, rfl⟩
  have hfree : load32 k.mem (tablesSlot d (tableIndex 0)) = 0 := h.lowTable
  obtain ⟨m, hget, hslot, hzero, hoff⟩ := getPage_fresh fuel h.kheap hplacement (by omega) hfree (by omega)
    (by norm_num)
  rw [hindex.1] at hslot hoff
  rw [hindex.2] at hget
  have hframes := h.frames
  -- what the new table and its two directory entries leave alone
  have hkeep : ∀ lo hi : ℕ, (hi ≤ d ∨ d + 4 ≤ lo) → (hi ≤ d + 4096 ∨ d + 4100 ≤ lo) → hi ≤ d + 0x4000 →
      SameOn k.mem m lo hi := by
    intro lo hi h1 h2 h3 x hl hh
    exact hoff x (by unfold tablesSlot; omega) (by unfold tablesPhysicalSlot; omega) (by omega)
  rw [h.directory]
  refine ⟨_, hget, h.kheap, hframes, h.frameCount, h.directory, ?_, rfl, hslot, ?_, filled_zero 0 hzero, ?_, ?_⟩
  · have hsame := hkeep (d + 8192) (d + 8196) (by omega) (by omega) (by omega)
    exact (hsame.load32_eq le_rfl le_rfl).trans h.physical
  · have hsame := hkeep (d + 3072) (d + 3076) (by omega) (by omega) (by omega)
    exact (hsame.load32_eq le_rfl le_rfl).trans h.heapTable
  · have hsame := hkeep (d + 0x3000) (d + 0x4000) (by omega) (by omega) (by omega)
    exact (filled_zero 0 h.heap).congr hsame (by omega)
  · have hsame := hkeep k.frames (k.frames + 128) (by omega) (by omega) (by omega)
    exact h.used.congr hsame

/-! ## The whole function -/

theorem identityEnd_dvd (p : ℕ) : identityEnd p / 4096 * 4096 = identityEnd p := by
  unfold identityEnd pageUp
  omega

/-- What `enablePaging` leaves, in terms of the loops' state. -/
theorem enablePaging_boot (hk : k.kheap = none) (hend : identityEnd k.placementAddress ≤ 0x300000)
    (hfuel : 0x300 < fuel) :
    ∃ k', enablePaging fuel k = .ok (switchPageDirectory k'.kernelDirectory k') ∧
      Boot k' k.placementAddress (pageUp (k.placementAddress + 128))
        (identityEnd k.placementAddress / 4096) 256 := by
  obtain ⟨f, hf⟩ : ∃ f, f = k.placementAddress := ⟨_, rfl⟩
  obtain ⟨d, hd⟩ : ∃ d, d = pageUp (f + 128) := ⟨_, rfl⟩
  obtain ⟨n, hn⟩ : ∃ n, n = identityEnd f / 4096 := ⟨_, rfl⟩
  have hdvd := identityEnd_dvd f
  have hendd : identityEnd f = d + 0x6000 := by rw [hd]; rfl
  have hspan : f + 128 ≤ d ∧ d % 4096 = 0 := by
    rw [hd]
    unfold pageUp
    omega
  rw [← hf] at hend ⊢
  rw [← hd, ← hn]
  rw [← hn, hendd] at hdvd
  rw [hendd] at hend
  obtain ⟨k1, hrun1, hheap1, hframes1, hcount1, hplace1, hused1⟩ :=
    placeFrames_spec fuel hk hf.symm
  obtain ⟨k2, hrun2, hplaced⟩ := placeDirectory_placed fuel hheap1 hframes1 hcount1 hused1
    (by rw [hplace1, add32_of_lt (by omega), hd]) hspan.1 (by omega)
  obtain ⟨k3, hrun3, htabled⟩ := hplaced.heapTable fuel hspan.1 hspan.2 (by omega)
  obtain ⟨k4, hrun4, hboot4⟩ := htabled.boot fuel hspan.1 hspan.2 (by omega)
  obtain ⟨k5, hrun5, hboot5⟩ := hboot4.identity_step hspan.1 (by norm_num)
  obtain ⟨k6, hrun6, hboot6⟩ := hboot5.identity_run (kmallocAp fuel) (fuel - 1) hspan.1 hdvd
    (by omega) (by omega) (by omega)
  obtain ⟨k7, hrun7, hboot7⟩ := hboot6.heap_run fuel 256 hspan.1 (by omega) (by omega)
  have hidentity : identityLoop (kmallocAp fuel) fuel 0 k3 = .ok k6 := by
    obtain ⟨fuel', hfuel'⟩ : ∃ x, fuel = x + 1 := ⟨fuel - 1, by omega⟩
    have hpred : fuel - 1 = fuel' := by omega
    have hbound : 0 < add32 k3.placementAddress 0x1000 := by
      have hsum : add32 k3.placementAddress 0x1000 = k3.placementAddress + 0x1000 :=
        add32_of_lt (by rw [htabled.placement]; omega)
      rw [hsum]
      omega
    have hnext : add32 0 0x1000 = (0 + 1) * 4096 := rfl
    rw [hpred] at hrun6
    generalize kmallocAp fuel = ap at hrun4 hrun6 ⊢
    rw [hfuel', identityLoop, if_pos hbound, hrun4, ok_bind]
    dsimp only
    rw [hrun5, ok_bind, hnext]
    exact hrun6
  refine ⟨k7, ?_, hboot7⟩
  have hpages : KHEAP_INITIAL_SIZE / 0x1000 = 256 := rfl
  rw [Nat.zero_mul, Nat.add_zero, ← hpages] at hrun7
  unfold enablePaging
  rw [hrun1, ok_bind, hrun2, ok_bind, hrun3, ok_bind, hidentity, ok_bind, hrun7, ok_bind]
  rfl

/-! ## The mapping -/

theorem PageMaps.unique {g : ℕ} (h : PageMaps k n f) (h' : PageMaps k n g) : f = g := by
  obtain ⟨page, hfind, -, -, rfl⟩ := h
  obtain ⟨page', hfind', -, -, rfl⟩ := h'
  rw [hfind] at hfind'
  cases hfind'
  rfl

theorem Boot.switchPageDirectory (h : Boot k f d j q) (dir : ℕ) : Boot (switchPageDirectory dir k) f d j q :=
  ⟨h.kheap, h.frames, h.frameCount, h.directory, h.physical, h.placement, h.lowTable, h.heapTable,
    h.identity, h.heap, h.used⟩

theorem Boot.pageMaps_low (h : Boot k f d j q) (hn : n < j) (hj : j ≤ 1024) : PageMaps k n n := by
  have hindex : tableIndex (n * 0x1000) = 0 ∧ pageIndex (n * 0x1000) = n := by
    unfold tableIndex pageIndex
    omega
  obtain ⟨hpresent, hframe⟩ := h.identity.mapped n hn
  refine ⟨_, h.get_page (Or.inl hindex.1), ?_, ?_⟩
  · rw [if_pos hindex.1]
    unfold pagesSlot
    omega
  · rw [if_pos hindex.1, hindex.2]
    exact ⟨hpresent, hframe.trans (Nat.zero_add n)⟩

theorem Boot.pageMaps_heap (h : Boot k f d j q) {e : ℕ} (he : e < q) (hq : q ≤ 256) :
    PageMaps k (KHEAP_START / 0x1000 + e) (j + e) := by
  have hstart : KHEAP_START / 0x1000 = 0xC0000 := rfl
  have hindex : tableIndex ((KHEAP_START / 0x1000 + e) * 0x1000) = 768 ∧
      pageIndex ((KHEAP_START / 0x1000 + e) * 0x1000) = e := by
    rw [hstart]
    unfold tableIndex pageIndex
    omega
  refine ⟨_, h.get_page (Or.inr hindex.1), ?_, ?_⟩
  · rw [if_neg (by omega)]
    unfold pagesSlot
    omega
  · rw [if_neg (by omega), hindex.2]
    exact h.heap.mapped e he

/-- When paging is switched on, the pages up to the end of the identity loop are mapped to themselves and
the pages of the heap to the frames behind them. -/
theorem boot_mapping (hk : k.kheap = none) (hend : identityEnd k.placementAddress ≤ 0x300000)
    (hfuel : 0x300 < fuel) :
    ∃ k', enablePaging fuel k = .ok k' ∧ BootMapped k' (identityEnd k.placementAddress) := by
  obtain ⟨k1, hrun, hboot⟩ := enablePaging_boot hk hend hfuel
  obtain ⟨last, hlast⟩ : ∃ e, e = identityEnd k.placementAddress := ⟨_, rfl⟩
  have hdvd := identityEnd_dvd k.placementAddress
  have hd : pageUp (k.placementAddress + 128) + 0x6000 = last := hlast.symm
  rw [← hlast] at hdvd hboot hend ⊢
  have hplacement := hboot.placement
  have hboot' := hboot.switchPageDirectory k1.kernelDirectory
  obtain ⟨k2, hk2⟩ : ∃ x, x = switchPageDirectory k1.kernelDirectory k1 := ⟨_, rfl⟩
  have hpages : KHEAP_INITIAL_SIZE / 0x1000 = 256 := rfl
  have hidentity : ∀ n, n * 0x1000 < last → PageMaps k2 n n := by
    intro n hn
    rw [hk2]
    exact hboot'.pageMaps_low (by omega) (by omega)
  have hheap : ∀ q < KHEAP_INITIAL_SIZE / 0x1000, PageMaps k2 (KHEAP_START / 0x1000 + q) (last / 0x1000 + q) := by
    intro q hq
    rw [hk2]
    exact hboot'.pageMaps_heap (hpages ▸ hq) le_rfl
  have hplacement2 : k2.placementAddress + 0x1000 = last := by
    rw [hk2]
    show k1.placementAddress + 0x1000 = last
    omega
  rw [← hk2] at hrun
  refine ⟨k2, hrun, ?_, ?_, hplacement2, hidentity, fun a ha => ?_, hheap, fun n f hn hf q hq hheapPage => ?_⟩
  · rw [hk2]
    rfl
  · rw [hk2]
    refine ⟨rfl, ?_⟩
    show load32 k1.mem (physicalAddressSlot k1.kernelDirectory) = tablesPhysicalSlot k1.kernelDirectory 0
    rw [hboot.directory]
    exact hboot.physical
  · have hsize : sizeofHeap = 32 := rfl
    exact hidentity _ (by omega)
  · have hlow := hf.unique (hidentity n hn)
    have hhigh := hheapPage.unique (hheap q hq)
    omega

/-- A kernel loaded at 1 MB with no other memory set. -/
def loadedKernel : Kernel :=
  ⟨fun _ => 0, fun _ => 0, 0x10C100, none, 0, 0, 0, 0, 0, false⟩

theorem boot_mapping_loaded : ∃ k', enablePaging 0x301 loadedKernel = .ok k' ∧ BootMapped k' 0x113000 :=
  boot_mapping rfl (by decide) (by norm_num)

end PandaOS

import PandaOS.Memory.Translation

/-! What the processor maps once `initialise_paging` has switched paging on. The two tables are followed word by
word through the loops, so every address has its answer: the pages below the end of the identity loop and the pages
of the heap are mapped, for user code to read, and no other address is. -/
namespace PandaOS
open ByteMemory Word32 PageWalk
set_option autoImplicit false
set_option maxHeartbeats 250000

/-! ## The tables word by word -/

/-- Entry `i` of a table whose first `n` entries have the frames from `base` on. -/
def bootEntry (n base i : ℕ) : Page :=
  if i < n then (Page.ofWord 0).allocated 0 0 (base + i) else Page.ofWord 0

def BootEntries (m : Mem) (table n base : ℕ) : Prop :=
  ∀ i < 1024, loadPage m (pagesSlot table i) = bootEntry n base i

/-- The tables while the pages get their frames, `j` below and `q` in the heap, and the memory that has changed since `k0`. -/
structure BootTables (k0 : Kernel) (f d j q : ℕ) (k : Kernel) : Prop where
  early : EarlyPaging d k
  off : SameOff k0.mem k.mem f (d + 0x5000)
  missing : ∀ t < 1024, t ≠ 0 → t ≠ 768 → load32 k.mem (tablesSlot d t) = 0
  low : BootEntries k.mem (d + 0x4000) j 0
  heap : BootEntries k.mem (d + 0x3000) q j

/-- The memory that the processor reads: the directory and its two tables. -/
structure BootDirectory (m : Mem) (d j q : ℕ) : Prop where
  coherent : Coherent m d
  missing : ∀ t < 1024, t ≠ 0 → t ≠ 768 → load32 m (tablesSlot d t) = 0
  lowTable : load32 m (tablesSlot d 0) = d + 0x4000
  heapTable : load32 m (tablesSlot d 768) = d + 0x3000
  low : BootEntries m (d + 0x4000) j 0
  heap : BootEntries m (d + 0x3000) q j

/-- What the processor makes of the address `v` after the boot: user code may read the pages below `last` and those
of the heap. -/
def bootMapping (last v : ℕ) : Option Mapping :=
  if v < last then some ⟨v, false, true⟩
  else if KHEAP_START ≤ v ∧ v < KHEAP_START + KHEAP_INITIAL_SIZE then some ⟨last + (v - KHEAP_START), false, true⟩
  else none

/-- `initialise_paging` up to the call of `register_interrupt_handler`. -/
def mapPages (fuel : ℕ) (k : Kernel) : Result Kernel := do
  let k ← placeFrames fuel k
  let k ← placeDirectory fuel k
  let k ← heapPagesLoop (fun i k => do
    let (_, k) ← getPage (kmallocAp fuel) i 1 k.kernelDirectory k
    return k) (KHEAP_INITIAL_SIZE / 0x1000) KHEAP_START k
  let k ← identityLoop (kmallocAp fuel) fuel 0 k
  heapPagesLoop (fun i k => do
    let (page, k) ← getPage (kmallocAp fuel) i 1 k.kernelDirectory k
    allocFrame page 0 0 k) (KHEAP_INITIAL_SIZE / 0x1000) KHEAP_START k

variable {k0 k k' : Kernel} {m m' : Mem} {table base f d i j n q page fuel : ℕ}

theorem BootEntries.congr (h : BootEntries m table n base) (hm : SameOn m m' table (table + 4096)) :
    BootEntries m' table n base := by
  intro i hi
  rw [← h i hi]
  exact congrArg Page.ofWord (hm.load32_eq (by unfold pagesSlot; omega) (by unfold pagesSlot; omega))

theorem bootEntries_zero (base : ℕ) (h : ∀ i < 1024, load32 m (pagesSlot table i) = 0) : BootEntries m table 0 base :=
  fun i hi => congrArg Page.ofWord (h i hi)

/-- The next entry of the table was written. -/
theorem BootEntries.next (h : BootEntries k.mem table n base) (hn : n < 1024)
    (hw : EntryWritten (pagesSlot table n) ((loadPage k.mem (pagesSlot table n)).allocated 0 0 (base + n)) k k')
    (htable : k.frames + 128 ≤ table) : BootEntries k'.mem table (n + 1) base := by
  intro i hi
  by_cases hin : i = n
  · have hold : loadPage k.mem (pagesSlot table n) = Page.ofWord 0 := (h n hn).trans (if_neg (lt_irrefl n))
    rw [hin, hw.entry, hold, bootEntry, if_pos (Nat.lt_succ_self n)]
  · have hsame : SameOn k.mem k'.mem (pagesSlot table i) (pagesSlot table i + 4) := by
      intro x hl hh
      refine hw.rest x ?_ ?_
      · unfold pagesSlot at *
        omega
      · unfold pagesSlot at hl
        omega
    have hload : loadPage k'.mem (pagesSlot table i) = loadPage k.mem (pagesSlot table i) :=
      congrArg Page.ofWord (hsame.load32_eq le_rfl le_rfl)
    rw [hload, h i hi, bootEntry, bootEntry]
    by_cases hlt : i < n
    · rw [if_pos hlt, if_pos (by omega)]
    · rw [if_neg hlt, if_neg (by omega)]

/-! ## The rounds -/

/-- One entry of one of the two tables was written. -/
theorem BootTables.written {p : Page} {j' q' : ℕ} (h : BootTables k0 f d j q k) (hframes : k.frames = f) (hf : f + 128 ≤ d)
    (hpage : IsEntry d k page) (hw : EntryWritten page p k k') (hin : d + 0x3000 ≤ page ∧ page + 4 ≤ d + 0x5000)
    (hlow : BootEntries k'.mem (d + 0x4000) j' 0) (hheap : BootEntries k'.mem (d + 0x3000) q' j') :
    BootTables k0 f d j' q' k' := by
  have hoff : SameOff k.mem k'.mem f (d + 0x5000) := fun x hx => hw.rest x (by omega) (by omega)
  refine ⟨(h.early.written hpage hw).1, h.off.trans hoff, fun t ht h0 h768 => ?_, hlow, hheap⟩
  have hsame : SameOn k.mem k'.mem (tablesSlot d t) (tablesSlot d t + 4) := by
    intro x hl hh
    unfold tablesSlot at hl hh
    exact hw.rest x (by omega) (by omega)
  rw [hsame.load32_eq le_rfl le_rfl]
  exact h.missing t ht h0 h768

theorem BootTables.identity_step (h : BootTables k0 f d j 0 k) (hb : Boot k f d j 0) (hf : f + 128 ≤ d) (hj : j < 1024)
    (hrun : allocFrame (pagesSlot (d + 0x4000) j) 0 0 k = .ok k') : BootTables k0 f d (j + 1) 0 k' := by
  have hframes := hb.frames
  have hfirst : firstFrame k = some j := firstFrame_next hb.frameCount hb.used hj
  have hpage : IsEntry d k (pagesSlot (d + 0x4000) j) :=
    ⟨0, by norm_num, j, hj, by rw [hb.lowTable]; omega, by rw [hb.lowTable]⟩
  have hentry : loadPage k.mem (pagesSlot (d + 0x4000) j) = Page.ofWord 0 := (h.low j hj).trans (if_neg (lt_irrefl j))
  obtain ⟨g, hg, hw⟩ := allocFrame_written (by unfold pagesSlot; omega) (fun g hg => by rw [hfirst] at hg; cases hg; exact hj)
    hrun (by rw [hentry]; rfl)
  rw [hfirst] at hg
  cases hg
  have hw' : EntryWritten (pagesSlot (d + 0x4000) j) ((loadPage k.mem (pagesSlot (d + 0x4000) j)).allocated 0 0 (0 + j)) k k' := by
    rwa [Nat.zero_add]
  refine h.written hframes hf hpage hw (by unfold pagesSlot; omega) (h.low.next hj hw' (by omega)) ?_
  have hheap := h.heap.congr (show SameOn k.mem k'.mem _ _ from fun x hl hh => hw.rest x (by unfold pagesSlot; omega) (by omega))
  exact fun i hi => hheap i hi

theorem BootTables.heap_step (h : BootTables k0 f d j q k) (hb : Boot k f d j q) (hf : f + 128 ≤ d) (hjq : j + q < 1024)
    (hrun : allocFrame (pagesSlot (d + 0x3000) q) 0 0 k = .ok k') : BootTables k0 f d j (q + 1) k' := by
  have hframes := hb.frames
  have hfirst : firstFrame k = some (j + q) := firstFrame_next hb.frameCount hb.used hjq
  have hpage : IsEntry d k (pagesSlot (d + 0x3000) q) :=
    ⟨768, by norm_num, q, by omega, by rw [hb.heapTable]; omega, by rw [hb.heapTable]⟩
  have hentry : loadPage k.mem (pagesSlot (d + 0x3000) q) = Page.ofWord 0 := (h.heap q (by omega)).trans (if_neg (lt_irrefl q))
  obtain ⟨g, hg, hw⟩ := allocFrame_written (by unfold pagesSlot; omega) (fun g hg => by rw [hfirst] at hg; cases hg; exact hjq)
    hrun (by rw [hentry]; rfl)
  rw [hfirst] at hg
  cases hg
  refine h.written hframes hf hpage hw (by unfold pagesSlot; omega) ?_ (h.heap.next (by omega) hw (by omega))
  exact h.low.congr fun x hl hh => hw.rest x (by unfold pagesSlot; omega) (by omega)

/-- The identity loop from round `j` on. -/
theorem BootTables.identity_run {ap : KmallocAp} (h : BootTables k0 f d j 0 k) (hb : Boot k f d j 0) (hf : f + 128 ≤ d)
    (hn : n * 4096 = d + 0x6000) (hle : n ≤ 1024) (hj : j ≤ n) (hrun : identityLoop ap fuel (j * 4096) k = .ok k') :
    Boot k' f d n 0 ∧ BootTables k0 f d n 0 k' := by
  induction fuel generalizing k j with
  | zero => cases hrun
  | succ fuel ih =>
    have hbound : add32 k.placementAddress 0x1000 = d + 0x6000 := by
      rw [hb.placement]
      exact add32_of_lt (by omega)
    rw [identityLoop, hbound] at hrun
    by_cases hlt : j < n
    · have hnext : add32 (j * 4096) 0x1000 = (j + 1) * 4096 := by
        have hpage := add32_page (a := 0) (q := j) (by omega)
        rwa [Nat.zero_add, Nat.zero_add] at hpage
      have hindex : tableIndex (j * 4096) = 0 ∧ pageIndex (j * 4096) = j := by
        unfold tableIndex pageIndex
        omega
      obtain ⟨k1, hrun1, hb1⟩ := hb.identity_step hf (by omega)
      rw [if_pos (by omega), hb.get_page (Or.inl hindex.1), ok_bind] at hrun
      dsimp only at hrun
      rw [if_pos hindex.1, hindex.2, hrun1, ok_bind, hnext] at hrun
      exact ih (h.identity_step hb hf (by omega) hrun1) hb1 (by omega) hrun
    · have heq : j = n := by omega
      rw [if_neg (by omega)] at hrun
      cases hrun
      exact heq ▸ ⟨hb, h⟩

/-- The last loop with `n` pages left. -/
theorem BootTables.heap_run (h : BootTables k0 f d j q k) (hb : Boot k f d j q) (hf : f + 128 ≤ d) (hj : j ≤ 768)
    (hn : q + n = 256)
    (hrun : heapPagesLoop (fun i k => do
        let (page, k) ← getPage (kmallocAp fuel) i 1 k.kernelDirectory k
        allocFrame page 0 0 k) n (KHEAP_START + q * 4096) k = .ok k') :
    Boot k' f d j 256 ∧ BootTables k0 f d j 256 k' := by
  induction n generalizing k q with
  | zero =>
    have heq : q = 256 := by omega
    cases hrun
    exact heq ▸ ⟨hb, h⟩
  | succ n ih =>
    have hstart : KHEAP_START = 0xC0000000 := rfl
    have hsize : KHEAP_INITIAL_SIZE = 0x100000 := rfl
    have hindex : tableIndex (KHEAP_START + q * 4096) = 768 ∧ pageIndex (KHEAP_START + q * 4096) = q := by
      unfold tableIndex pageIndex
      omega
    have hnext : add32 (KHEAP_START + q * 4096) 0x1000 = KHEAP_START + (q + 1) * 4096 :=
      add32_page (by omega)
    obtain ⟨k1, hrun1, hb1⟩ := hb.heap_step hf (by omega)
    rw [heapPagesLoop, if_pos (by omega), hb.get_page (Or.inr hindex.1), ok_bind] at hrun
    dsimp only at hrun
    rw [if_neg (by omega), hindex.2, hrun1, ok_bind, hnext] at hrun
    exact ih (h.heap_step hb hf (by omega) hrun1) hb1 (by omega) hrun

/-! ## Up to the loops -/

theorem placeFrames_off (hk : k.kheap = none) (hrun : placeFrames fuel k = .ok k') :
    SameOff k.mem k'.mem k.placementAddress (k.placementAddress + 128) := by
  have hbytes : indexFromBit (0x1000000 / 0x1000) = 128 := by decide
  have hkmalloc : kmalloc fuel (indexFromBit (0x1000000 / 0x1000)) { k with frameCount := 0x1000000 / 0x1000 } =
      .ok (k.placementAddress, { k with frameCount := 0x1000000 / 0x1000 }.withPlacement
        (add32 k.placementAddress (indexFromBit (0x1000000 / 0x1000)))) := kmalloc_of_none fuel hk
  unfold placeFrames at hrun
  dsimp only at hrun
  rw [hkmalloc, ok_bind] at hrun
  cases hrun
  dsimp only [Kernel.withMem_mem, Kernel.withPlacement]
  rw [hbytes]
  exact sameOff_memset _ _ _ _

/-- The heap's table comes right behind the three pages of the directory. -/
theorem pageUp_directory (hplacement : k.placementAddress = d + sizeofPageDirectory) (hd : d % 4096 = 0) :
    pageUp k.placementAddress = d + 0x3000 := by
  rw [hplacement, sizeofPageDirectory, pageUp]
  omega

/-- The new directory has no tables, in either of its two halves. -/
theorem placeDirectory_empty (hk : k.kheap = none) (hframes : k.frames + 128 ≤ d) (hd : pageUp k.placementAddress = d)
    (hlt : d + 0x6000 < 4294967296) (hrun : placeDirectory fuel k = .ok k') :
    EmptyDirectory d k' ∧ SameOff k.mem k'.mem d (d + 8196) := by
  have hup := pageUp_bounds k.placementAddress
  rw [hd] at hup
  have hkmallocA : kmallocA fuel sizeofPageDirectory k = .ok (d, k.withPlacement (d + sizeofPageDirectory)) := by
    rw [kmallocA, kmallocInt_aligned hk hd (by unfold sizeofPageDirectory; omega)]
    rfl
  unfold placeDirectory at hrun
  rw [hkmallocA, ok_bind] at hrun
  dsimp only [Kernel.withMem_mem, Kernel.withMem_kernelDirectory] at hrun
  obtain ⟨m1, hm1⟩ : ∃ m, m = memset k.mem d 0 sizeofPageDirectory := ⟨_, rfl⟩
  have hmem : (k.withPlacement (d + sizeofPageDirectory)).mem = k.mem := rfl
  rw [hmem, ← hm1] at hrun
  cases hrun
  have hoff1 : SameOff k.mem m1 d (d + 8196) := by
    rw [hm1]
    exact sameOff_memset _ _ _ _
  have hzero : ∀ a, d ≤ a → a + 4 ≤ d + 8192 → load32 (store32 m1 (physicalAddressSlot d) (tablesPhysicalSlot d 0)) a = 0 := by
    intro a hl hh
    rw [load32_store32_of_off (Or.inl (by unfold physicalAddressSlot; omega)), hm1]
    exact load32_memset_zero hl (by unfold sizeofPageDirectory; omega)
  refine ⟨⟨hk, ?_, hframes, le_rfl, fun t ht => ⟨hzero _ ?_ ?_, hzero _ ?_ ?_⟩⟩, ?_⟩
  · omega
  · unfold tablesSlot
    omega
  · unfold tablesSlot
    omega
  · unfold tablesPhysicalSlot
    omega
  · unfold tablesPhysicalSlot
    omega
  · exact hoff1.trans (sameOff_store32 (by unfold physicalAddressSlot; omega) (by unfold physicalAddressSlot; omega))

/-- The first loop makes the heap's table for its first page, and the other rounds find it. -/
theorem heapPagesLoop_table {k1 : Kernel} (hdirectory : k.kernelDirectory = d)
    (hget : getPage (kmallocAp fuel) KHEAP_START 1 d k = .ok (page, k1)) (hdirectory1 : k1.kernelDirectory = d)
    (hslot : load32 k1.mem (tablesSlot d 768) ≠ 0) :
    heapPagesLoop (fun i k => do
      let (_, k) ← getPage (kmallocAp fuel) i 1 k.kernelDirectory k
      return k) (KHEAP_INITIAL_SIZE / 0x1000) KHEAP_START k = .ok k1 := by
  have hstart : KHEAP_START = 0xC0000000 := rfl
  have hsize : KHEAP_INITIAL_SIZE = 0x100000 := rfl
  have hstill : ∀ i, KHEAP_START ≤ i → i < KHEAP_START + KHEAP_INITIAL_SIZE →
      (do let (_, k) ← getPage (kmallocAp fuel) i 1 k1.kernelDirectory k1
          return k) = (.ok k1 : Result Kernel) := by
    intro i hl hh
    have ht : tableIndex i = 768 := by
      unfold tableIndex
      omega
    rw [getPage_of_table (by rwa [hdirectory1, ht])]
    rfl
  obtain ⟨n, hn⟩ : ∃ n, n = 255 := ⟨_, rfl⟩
  have hpages : KHEAP_INITIAL_SIZE / 0x1000 = n + 1 := by rw [hn]; rfl
  have hnext : add32 KHEAP_START 0x1000 = KHEAP_START + 0x1000 := by decide
  rw [hpages, heapPagesLoop, if_pos (by omega), hdirectory, hget, ok_bind, hnext]
  exact heapPagesLoop_still hstill (by omega) (by omega)

/-- Both tables exist and are empty. -/
theorem bootTables_start {k1 k2 : Kernel} {page1 page2 : ℕ} (hempty : EmptyDirectory d k) (hoff : SameOff k0.mem k.mem f (d + 0x5000))
    (hf : f ≤ d) (hplacement : k.placementAddress = d + 8196) (hlt : d + 0x6000 < 4294967296)
    (hget1 : getPage (kmallocAp fuel) KHEAP_START 1 d k = .ok (page1, k1)) (hplacement1 : k1.placementAddress = d + 0x4000)
    (hget2 : getPage (kmallocAp fuel) 0 1 d k1 = .ok (page2, k2)) (hfree : load32 k1.mem (tablesSlot d 0) = 0) :
    BootTables k0 f d 0 0 k2 ∧ load32 k1.mem (tablesSlot d 768) ≠ 0 := by
  have hd : d % 0x1000 = 0 := hempty.aligned
  have hheapIndex : tableIndex (0xC0000000#32 : BitVec 32).toNat = 768 := rfl
  have hlowIndex : tableIndex (0#32 : BitVec 32).toNat = 0 := rfl
  have hzero : ∀ t < 1024, load32 k.mem (tablesSlot d t) = 0 := fun t ht => (hempty.zero t ht).1
  have hheapFree : load32 k.mem (tablesSlot d (tableIndex (0xC0000000#32 : BitVec 32).toNat)) = 0 := by
    rw [hheapIndex]
    exact hzero 768 (by decide)
  have hlowFree : load32 k1.mem (tablesSlot d (tableIndex (0#32 : BitVec 32).toNat)) = 0 := by
    rw [hlowIndex]
    exact hfree
  obtain ⟨e1, he1, hadded1, hearly1, hoff1⟩ := hempty.early.getPage_new hheapFree Nat.one_ne_zero
    (by rw [hplacement]; unfold pageUp sizeofPageTable; omega) hget1
  have he1' : e1 = d + 0x3000 := by
    rw [he1, hplacement, pageUp]
    omega
  obtain ⟨e2, he2, hadded2, hearly2, hoff2⟩ := hearly1.getPage_new hlowFree Nat.one_ne_zero
    (by rw [hplacement1]; unfold pageUp sizeofPageTable; omega) hget2
  have he2' : e2 = d + 0x4000 := by
    rw [he2, hplacement1, pageUp]
    omega
  rw [he1', sizeofPageTable] at hoff1
  rw [he2', sizeofPageTable] at hoff2
  have hslot1 : load32 k1.mem (tablesSlot d 768) = d + 0x3000 := he1' ▸ hadded1.slot
  have hne1 : load32 k1.mem (tablesSlot d 768) ≠ 0 := by
    rw [hslot1]
    omega
  refine ⟨⟨hearly2, ?_, fun t ht h0 h768 => ?_, ?_, ?_⟩, hne1⟩
  · exact hoff.trans ((hoff1.mono hf (by omega)).trans (hoff2.mono hf le_rfl))
  · rw [(hadded2.tables t ht (hlowIndex ▸ h0)).1, (hadded1.tables t ht (hheapIndex ▸ h768)).1]
    exact hzero t ht
  · exact bootEntries_zero 0 (he2' ▸ hadded2.empty)
  · intro i hi
    have hsame := hadded2.entries 768 (by norm_num) hne1 i hi
    rw [hslot1] at hsame
    rw [hsame]
    exact congrArg Page.ofWord (he1' ▸ hadded1.empty i hi)

/-! ## The whole function -/

theorem ok_inj {α : Type} {x : Result α} {a b : α} (ha : x = .ok a) (hb : x = .ok b) : a = b := by
  rw [ha] at hb
  cases hb
  rfl

/-- The first round of the identity loop makes the low table and maps page 0. -/
theorem identityLoop_first {ap : KmallocAp} {k1 : Kernel} (hdirectory : k.kernelDirectory = d)
    (hget : getPage ap 0 1 d k = .ok (page, k1)) (hplacement : 0 < add32 k.placementAddress 0x1000)
    (hrun : identityLoop ap fuel 0 k = .ok k') :
    ∃ fuel' k2, allocFrame page 0 0 k1 = .ok k2 ∧ identityLoop ap fuel' (1 * 4096) k2 = .ok k' := by
  cases fuel with
  | zero => cases hrun
  | succ fuel =>
    rw [identityLoop, if_pos hplacement, hdirectory, hget, ok_bind] at hrun
    exact ⟨fuel, bind_eq_ok.mp hrun⟩

/-- The tables when the pages are mapped. -/
theorem mapPages_tables (hk : k.kheap = none) (hend : identityEnd k.placementAddress ≤ 0x300000)
    (hrun : mapPages fuel k = .ok k') :
    Boot k' k.placementAddress (pageUp (k.placementAddress + 128)) (identityEnd k.placementAddress / 4096) 256 ∧
      BootTables k k.placementAddress (pageUp (k.placementAddress + 128)) (identityEnd k.placementAddress / 4096) 256 k' := by
  obtain ⟨f, hf⟩ : ∃ f, f = k.placementAddress := ⟨_, rfl⟩
  obtain ⟨d, hd⟩ : ∃ d, d = pageUp (f + 128) := ⟨_, rfl⟩
  obtain ⟨n, hn⟩ : ∃ n, n = identityEnd f / 4096 := ⟨_, rfl⟩
  have hdvd := identityEnd_dvd f
  have hendd : identityEnd f = d + 0x6000 := by rw [hd]; rfl
  have hspan : f + 128 ≤ d ∧ d % 4096 = 0 := by
    rw [hd]
    unfold pageUp
    omega
  rw [← hf] at hend ⊢
  rw [← hd, ← hn]
  rw [← hn, hendd] at hdvd
  rw [hendd] at hend
  obtain ⟨k1, hrun1, hrest⟩ := bind_eq_ok.mp hrun
  obtain ⟨k2, hrun2, hrest⟩ := bind_eq_ok.mp hrest
  obtain ⟨k3, hrun3, hrest⟩ := bind_eq_ok.mp hrest
  obtain ⟨k6, hrun6, hrun7⟩ := bind_eq_ok.mp hrest
  have hoff1 := placeFrames_off hk hrun1
  rw [← hf] at hoff1
  obtain ⟨k1', hrun1', hheap1, hframes1, hcount1, hplace1, hused1⟩ := placeFrames_spec fuel hk hf.symm
  cases ok_inj hrun1 hrun1'
  have hplacement1 : pageUp k1.placementAddress = d := by rw [hplace1, add32_of_lt (by omega), hd]
  obtain ⟨k2', hrun2', hplaced⟩ := placeDirectory_placed fuel hheap1 hframes1 hcount1 hused1 hplacement1 hspan.1 (by omega)
  cases ok_inj hrun2 hrun2'
  obtain ⟨hempty, hoff2⟩ := placeDirectory_empty hheap1 (hframes1 ▸ hspan.1) hplacement1 (by omega) hrun2
  obtain ⟨k3', hrun3', htabled⟩ := hplaced.heapTable fuel hspan.1 hspan.2 (by omega)
  cases ok_inj hrun3 hrun3'
  obtain ⟨k4, hget2, hboot4⟩ := htabled.boot fuel hspan.1 hspan.2 (by omega)
  rw [htabled.directory] at hget2
  have hplacement2 := pageUp_directory hplaced.placement hspan.2
  have hindex : tableIndex KHEAP_START = 768 := rfl
  have hfree : load32 k2.mem (tablesSlot d (tableIndex KHEAP_START)) = 0 := hplaced.tables _ (by decide)
  obtain ⟨m, hget1, hslot1, -⟩ := getPage_fresh fuel hplaced.kheap hplacement2 (by omega) hfree (by omega) (by decide)
  rw [hindex] at hslot1
  have hslot : load32 m (tablesSlot d 768) ≠ 0 := by omega
  have hloop := heapPagesLoop_table hplaced.directory hget1 hplaced.directory hslot
  rw [← ok_inj hrun3 hloop] at hget1
  obtain ⟨htables, -⟩ := bootTables_start hempty ((hoff1.mono le_rfl (by omega)).trans (hoff2.mono (by omega) (by omega)))
    (by omega) hplaced.placement (by omega) hget1 htabled.placement hget2 htabled.lowTable
  have hbound : 0 < add32 k3.placementAddress 0x1000 := by
    rw [htabled.placement, add32_of_lt (by omega)]
    omega
  obtain ⟨fuel', k5, halloc, hloop6⟩ := identityLoop_first htabled.directory hget2 hbound hrun6
  obtain ⟨k5', halloc', hboot5⟩ := hboot4.identity_step hspan.1 (by norm_num)
  cases ok_inj halloc halloc'
  have htables5 := htables.identity_step hboot4 hspan.1 (by norm_num) halloc
  obtain ⟨hboot6, htables6⟩ := htables5.identity_run hboot5 hspan.1 hdvd (by omega) (by omega) hloop6
  have hpages : KHEAP_INITIAL_SIZE / 0x1000 = 256 := rfl
  have hfirst : KHEAP_START = KHEAP_START + 0 * 4096 := rfl
  rw [hpages, hfirst] at hrun7
  obtain ⟨hboot7, htables7⟩ := htables6.heap_run hboot6 hspan.1 (by omega) (by omega) hrun7
  exact ⟨hboot7, htables7⟩

/-! ## What the processor reads -/

theorem BootTables.directory (h : BootTables k0 f d j q k) (hb : Boot k f d j q) : BootDirectory k.mem d j q :=
  ⟨h.early.coherent, h.missing, hb.lowTable, hb.heapTable, h.low, h.heap⟩

theorem BootDirectory.congr (h : BootDirectory m d j q) (hm : SameOn m m' d (d + 0x5000)) : BootDirectory m' d j q := by
  have hslot : ∀ t < 1024, load32 m' (tablesSlot d t) = load32 m (tablesSlot d t) := fun t ht =>
    hm.load32_eq (by unfold tablesSlot; omega) (by unfold tablesSlot; omega)
  refine ⟨h.coherent.congr (hm.mono le_rfl (by omega)), fun t ht h0 h768 => ?_, ?_, ?_, ?_, ?_⟩
  · rw [hslot t ht]
    exact h.missing t ht h0 h768
  · rw [hslot 0 (by norm_num)]
    exact h.lowTable
  · rw [hslot 768 (by norm_num)]
    exact h.heapTable
  · exact h.low.congr (hm.mono (by omega) (by omega))
  · exact h.heap.congr (hm.mono (by omega) (by omega))

/-- An entry that the boot wrote, or one of the empty ones. -/
theorem entryMapping_boot {v : ℕ} (hfor : load32 k.mem (tablesSlot d (tableIndex v)) = table) (hne : table ≠ 0)
    (hentries : BootEntries k.mem table n base) :
    entryMapping k d v = if pageIndex v < n then some ⟨(base + pageIndex v) * 0x1000 + v % 0x1000, false, true⟩ else none := by
  have hpage : pageFor k d v = pagesSlot table (pageIndex v) := by rw [pageFor_eq, hfor, if_neg hne]
  have hslot : pagesSlot table (pageIndex v) ≠ 0 := by
    unfold pagesSlot
    omega
  rw [entryMapping_page hpage hslot, hentries _ (pageIndex_lt v), bootEntry]
  by_cases hlt : pageIndex v < n
  · rw [if_pos hlt, if_pos hlt]
    rfl
  · rw [if_neg hlt, if_neg hlt]
    rfl

theorem BootDirectory.walk_eq {v : ℕ} (h : BootDirectory k.mem d j 256) (hj : j ≤ 1024) (hv : v < 4294967296) :
    walk k.mem (tablesPhysicalSlot d 0) v = bootMapping (j * 4096) v := by
  have hstart : KHEAP_START = 0xC0000000 := rfl
  have hsize : KHEAP_INITIAL_SIZE = 0x100000 := rfl
  have ht := tableIndex_lt hv
  have hpage := pageIndex_lt v
  have hsplit : v = tableIndex v * 0x400000 + pageIndex v * 4096 + v % 4096 := by
    unfold tableIndex pageIndex
    omega
  have hlow : v % 4096 < 4096 := Nat.mod_lt v (by norm_num)
  rw [h.coherent.walk_eq hv, bootMapping]
  by_cases h0 : tableIndex v = 0
  · rw [entryMapping_boot (h0 ▸ h.lowTable) (by omega) h.low]
    rw [h0] at hsplit
    by_cases hlt : pageIndex v < j
    · have hat : (0 + pageIndex v) * 0x1000 + v % 0x1000 = v := by omega
      rw [if_pos hlt, if_pos (by omega), hat]
    · rw [if_neg hlt, if_neg (by omega), if_neg (by omega)]
  · by_cases h768 : tableIndex v = 768
    · rw [entryMapping_boot (h768 ▸ h.heapTable) (by omega) h.heap]
      rw [h768] at hsplit
      by_cases hlt : pageIndex v < 256
      · have hat : (j + pageIndex v) * 0x1000 + v % 0x1000 = j * 4096 + (v - KHEAP_START) := by omega
        rw [if_pos hlt, if_neg (by omega), if_pos (by omega), hat]
      · rw [if_neg hlt, if_neg (by omega), if_neg (by omega)]
    · have hmissing : pageFor k d v = 0 := pageFor_zero_iff.mpr (h.missing _ ht h0 h768)
      rw [entryMapping_missing hmissing, if_neg (by omega), if_neg (by omega)]

/-! ## initialise_paging -/

/-- The pages are mapped, by a kernel that was `k0` before. -/
structure MappedPages (k0 k : Kernel) : Prop where
  directory : BootDirectory k.mem (pageUp (k0.placementAddress + 128)) (identityEnd k0.placementAddress / 4096) 256
  physical : load32 k.mem (physicalAddressSlot (pageUp (k0.placementAddress + 128))) =
    tablesPhysicalSlot (pageUp (k0.placementAddress + 128)) 0
  kheap : k.kheap = none
  fields : k.kernelDirectory = pageUp (k0.placementAddress + 128) ∧ k.frames = k0.placementAddress ∧ k.frameCount = 4096
  off : SameOff k0.mem k.mem k0.placementAddress (identityEnd k0.placementAddress)

/-- What `initialise_paging` leaves. -/
structure PagedBoot (k0 k : Kernel) (fuel : ℕ) : Prop where
  directory : BootDirectory k.mem (pageUp (k0.placementAddress + 128)) (identityEnd k0.placementAddress / 4096) 256
  enabled : k.pagingEnabled = true
  cr3 : k.cr3 = tablesPhysicalSlot (pageUp (k0.placementAddress + 128)) 0
  fields : k.kernelDirectory = pageUp (k0.placementAddress + 128) ∧ k.frames = k0.placementAddress ∧ k.frameCount = 4096
  heap : ∃ k1, k1.kheap = none ∧ createKernelHeap fuel 0 0 k1 = .ok k ∧
    BootDirectory k1.mem (pageUp (k0.placementAddress + 128)) (identityEnd k0.placementAddress / 4096) 256 ∧
    k1.kernelDirectory = pageUp (k0.placementAddress + 128) ∧ k1.frames = k0.placementAddress ∧ k1.frameCount = 4096
  off : ∀ x, (x < k0.placementAddress ∨ identityEnd k0.placementAddress ≤ x) →
    (x < KHEAP_START ∨ KHEAP_DATA + 12 ≤ x) → k.mem x = k0.mem x

theorem enablePaging_eq (fuel : ℕ) (k : Kernel) :
    enablePaging fuel k = mapPages fuel k >>= fun k => .ok (switchPageDirectory k.kernelDirectory k) := by
  simp only [enablePaging, mapPages, bind_assoc]
  rfl

theorem mapPages_mapped (hk : k.kheap = none) (hend : identityEnd k.placementAddress ≤ 0x300000) (hfuel : 0x300 < fuel) :
    ∃ k', mapPages fuel k = .ok k' ∧ MappedPages k k' := by
  have hspan : pageUp (k.placementAddress + 128) + 0x6000 = identityEnd k.placementAddress := rfl
  obtain ⟨K, henable, -⟩ := enablePaging_boot hk hend hfuel
  rw [enablePaging_eq] at henable
  obtain ⟨k', hrun, -⟩ := bind_eq_ok.mp henable
  obtain ⟨hboot, htables⟩ := mapPages_tables hk hend hrun
  exact ⟨k', hrun, htables.directory hboot, hboot.physical, hboot.kheap, ⟨hboot.directory, hboot.frames, hboot.frameCount⟩,
    htables.off.mono le_rfl (by omega)⟩

/-- A store below the paging structures changes nothing here. -/
theorem MappedPages.store (h : MappedPages k0 k) {a v : ℕ} (ha : a + 4 ≤ k0.placementAddress) :
    MappedPages (k0.withMem (store32 k0.mem a v)) (k.withMem (store32 k.mem a v)) := by
  have hspan : pageUp (k0.placementAddress + 128) + 0x6000 = identityEnd k0.placementAddress := rfl
  have hup : k0.placementAddress ≤ pageUp (k0.placementAddress + 128) := by
    unfold pageUp
    omega
  have hoff : SameOff k.mem (store32 k.mem a v) a (a + 4) := sameOff_store32 le_rfl le_rfl
  refine ⟨h.directory.congr (hoff.sameOn (Or.inr (by omega))), ?_, h.kheap, h.fields, fun x hx => ?_⟩
  · have hslot : a + 4 ≤ physicalAddressSlot (pageUp (k0.placementAddress + 128)) := by
      unfold physicalAddressSlot
      omega
    exact (hoff.load32_eq (Or.inr hslot)).trans h.physical
  · have hsame : k.mem x = k0.mem x := h.off x hx
    simp only [Kernel.withMem_mem, store32, hsame]

/-- Paging is switched on and the heap is created. -/
theorem MappedPages.booted (h : MappedPages k0 k) (fuel : ℕ) (hend : identityEnd k0.placementAddress ≤ 0x300000) :
    ∃ k', createKernelHeap fuel 0 0 (switchPageDirectory k.kernelDirectory k) = .ok k' ∧ PagedBoot k0 k' fuel := by
  have hspan : pageUp (k0.placementAddress + 128) + 0x6000 = identityEnd k0.placementAddress := rfl
  obtain ⟨hdirectory, hphysical, hkheap, ⟨hkd, hframes, hcount⟩, hoff⟩ := h
  obtain ⟨d, hd⟩ : ∃ d, d = pageUp (k0.placementAddress + 128) := ⟨_, rfl⟩
  rw [← hd] at hdirectory hphysical hkd hspan
  obtain ⟨K, hK⟩ : ∃ K, K = switchPageDirectory k.kernelDirectory k := ⟨_, rfl⟩
  rw [← hK]
  have hmem : K.mem = k.mem := by rw [hK]; rfl
  have hkheapK : K.kheap = none := by rw [hK]; exact hkheap
  have hkdK : K.kernelDirectory = d := by rw [hK]; exact hkd
  have hframesK : K.frames = k0.placementAddress := by rw [hK]; exact hframes
  have hcountK : K.frameCount = 4096 := by rw [hK]; exact hcount
  have hcr3 : K.cr3 = tablesPhysicalSlot d 0 := by
    rw [hK, ← hphysical, ← hkd]
    rfl
  have henabled : K.pagingEnabled = true := by rw [hK]; rfl
  obtain ⟨m', hcreate, hoff', -⟩ := createKernelHeap_returns fuel 0 0 hkheapK
  rw [hmem] at hoff'
  have hstart : KHEAP_START = 0xC0000000 := rfl
  obtain ⟨k', hk'⟩ : ∃ k', k' = ({ K with placementAddress := add32 K.placementAddress sizeofHeap }.withMem m').withHeap (freshHeap 0 0) :=
    ⟨_, rfl⟩
  rw [← hk'] at hcreate
  have hmem' : k'.mem = m' := by rw [hk']; rfl
  refine ⟨k', hcreate, ?_, ?_, ?_, ?_, ⟨K, hkheapK, hcreate, ?_, hkdK.trans hd, hframesK, hcountK⟩, fun x hx hx' => ?_⟩
  · rw [hmem', ← hd]
    exact hdirectory.congr (hoff'.sameOn (Or.inl (by omega)))
  · rw [hk']
    exact henabled
  · rw [hk', ← hd]
    exact hcr3
  · rw [hk', ← hd]
    exact ⟨hkdK, hframesK, hcountK⟩
  · rw [hmem, ← hd]
    exact hdirectory
  · rw [hmem', hoff' x hx', hoff x hx]

theorem initialisePaging_booted (hk : k.kheap = none) (hend : identityEnd k.placementAddress ≤ 0x300000) (hfuel : 0x300 < fuel) :
    ∃ k', initialisePaging fuel k = .ok k' ∧ PagedBoot k k' fuel := by
  obtain ⟨k1, hrun, hmapped⟩ := mapPages_mapped hk hend hfuel
  obtain ⟨k', hcreate, hbooted⟩ := hmapped.booted fuel hend
  refine ⟨k', ?_, hbooted⟩
  rw [initialisePaging, enablePaging_eq, hrun, ok_bind, ok_bind, hcreate]

/-- Which addresses are mapped after `initialise_paging`, where to, and what user code may do there. -/
theorem boot_translation (hk : k.kheap = none) (hend : identityEnd k.placementAddress ≤ 0x300000) (hfuel : 0x300 < fuel) :
    ∃ k', initialisePaging fuel k = .ok k' ∧ k'.pagingEnabled = true ∧
      ∀ v < 4294967296, walk k'.mem k'.cr3 v = bootMapping (identityEnd k.placementAddress) v := by
  obtain ⟨k', hrun, hbooted⟩ := initialisePaging_booted hk hend hfuel
  refine ⟨k', hrun, hbooted.enabled, fun v hv => ?_⟩
  have hdvd := identityEnd_dvd k.placementAddress
  rw [hbooted.cr3, hbooted.directory.walk_eq (by omega) hv, hdvd]

theorem boot_translation_loaded : ∃ k', initialisePaging 0x301 loadedKernel = .ok k' ∧ k'.pagingEnabled = true ∧
    ∀ v < 4294967296, walk k'.mem k'.cr3 v = bootMapping 0x113000 v :=
  boot_translation rfl (by decide) (by norm_num)

/-- With room for the whole bitmap in the padding before the directory, the heap's part of the memory is apart from all
paging structures. -/
theorem PagedBoot.paged (h : PagedBoot k0 k fuel) (hpad : k0.placementAddress + 512 ≤ pageUp (k0.placementAddress + 128))
    (hplacement : 4 ≤ k0.placementAddress) (hend : identityEnd k0.placementAddress ≤ 0x300000) :
    ∃ k1, k1.kheap = none ∧ createKernelHeap fuel 0 0 k1 = .ok k ∧ Paged k1 KHEAP_START KHEAP_MAX := by
  have hstart : KHEAP_START = 0xC0000000 := rfl
  have hspan : pageUp (k0.placementAddress + 128) + 0x6000 = identityEnd k0.placementAddress := rfl
  obtain ⟨k1, hkheap, hcreate, hdirectory, hkd, hframes, hcount⟩ := h.heap
  obtain ⟨d, hd⟩ : ∃ d, d = pageUp (k0.placementAddress + 128) := ⟨_, rfl⟩
  rw [← hd] at hdirectory hkd hspan hpad
  refine ⟨k1, hkheap, hcreate, ?_⟩
  have htables : ∀ t < 1024, load32 k1.mem (tablesSlot d t) ≠ 0 →
      load32 k1.mem (tablesSlot d t) = d + 0x3000 ∨ load32 k1.mem (tablesSlot d t) = d + 0x4000 := by
    intro t ht hne
    by_cases h0 : t = 0
    · exact Or.inr (h0 ▸ hdirectory.lowTable)
    · by_cases h768 : t = 768
      · exact Or.inl (h768 ▸ hdirectory.heapTable)
      · exact absurd (hdirectory.missing t ht h0 h768) hne
  refine ⟨hcount.le, ⟨?_, ?_, ?_⟩, ?_, ?_, ?_, fun t ht hne => ?_⟩
  · omega
  · omega
  · omega
  · exact Or.inl (by omega)
  · exact Or.inl (by omega)
  · rw [hframes, hkd]
    exact Or.inl (by omega)
  · rw [hkd] at hne ⊢
    rw [hframes]
    unfold Outside
    have hone := htables t ht hne
    omega

end PandaOS

import PandaOS.Memory.ClonedSlots
import PandaOS.Memory.EarlyAlloc

/-! What `clone_directory` shares and what it copies: the clone has the tables of the kernel directory, and for
every other table a new one with copies of its pages. -/
namespace PandaOS
open ByteMemory Word32
set_option autoImplicit false
set_option maxHeartbeats 250000

/-! ## The placement allocator -/

/-- The blocks that are handed out for calls with these sizes, from a placement address on. -/
def earlyBlocks : List ℕ → ℕ → List (ℕ × ℕ)
  | [], _ => []
  | size :: sizes, a => (pageUp a, size) :: earlyBlocks sizes (pageUp a + size)

/-- Before the heap exists: what the blocks reach does not wrap and is not in use. -/
structure EarlyReady (reach : ℕ → ℕ) (sizes : List ℕ) (used : List (ℕ × ℕ)) (k : Kernel) : Prop where
  heapless : k.kheap = none
  placed : 0 < k.placementAddress
  blocks : ∀ b ∈ earlyBlocks sizes k.placementAddress, b.1 + reach b.2 < 4294967296 ∧ ∀ r ∈ used, Apart (b.1, reach b.2) r

theorem le_of_mem_earlyBlocks {sizes : List ℕ} {a : ℕ} {b : ℕ × ℕ} (h : b ∈ earlyBlocks sizes a) : a ≤ b.1 := by
  induction sizes generalizing a with
  | nil => cases h
  | cons size sizes ih =>
    have hup := pageUp_bounds a
    rcases List.mem_cons.mp h with rfl | hmem
    · exact hup.1
    · have := ih hmem
      omega

/-- The placement allocator never hands out a byte twice. -/
theorem early_supply (fuel : ℕ) {reach : ℕ → ℕ} (hlarge : ∀ size, size ≤ reach size) :
    Supply (kmallocAp fuel) reach (EarlyReady reach) := by
  refine ⟨hlarge, fun size sizes used k h => ?_, fun sizes used k m phys h _ => ⟨h.heapless, h.placed, h.blocks⟩⟩
  obtain ⟨p, hp⟩ : ∃ p, p = pageUp k.placementAddress := ⟨_, rfl⟩
  have hup := pageUp_bounds k.placementAddress
  have hpos := h.placed
  have hsize := hlarge size
  have hblocks := h.blocks
  rw [earlyBlocks, ← hp] at hblocks
  obtain ⟨hfits, hapart⟩ := hblocks _ List.mem_cons_self
  dsimp only at hfits hapart
  have hrun : kmallocAp fuel size k = .ok ((p, p), k.withPlacement (p + size)) :=
    kmallocInt_aligned h.heapless hp.symm (by omega)
  refine ⟨p, p, k.withPlacement (p + size),
    ⟨hrun, by omega, hfits.le, hapart, fun _ _ => SameOn.refl _ _ _, ⟨rfl, rfl, rfl⟩, rfl⟩, fun m _ => ⟨h.heapless, (by omega : 0 < p + size), fun b hb => ?_⟩⟩
  have hb' : b ∈ earlyBlocks sizes (p + size) := hb
  obtain ⟨hbfits, hbapart⟩ := hblocks b (List.mem_cons_of_mem _ hb')
  refine ⟨hbfits, fun r hr => ?_⟩
  rcases List.mem_cons.mp hr with rfl | hr
  · have hbehind := le_of_mem_earlyBlocks hb'
    exact Or.inr hbehind
  · exact hbapart r hr

/-! ## The call -/

/-- `clone_directory(src)` is called. `entries` are the page entries of all tables, and `used` are the objects in
use: there is a free frame for each page that is copied, and the allocator has the memory for the directory and the
tables. -/
structure Cloneable (ready : List ℕ → List (ℕ × ℕ) → Kernel → Prop) (src : ℕ) (used : List (ℕ × ℕ)) (entries : Set ℕ)
    (k : Kernel) : Prop extends InUse src used k where
  count : k.frameCount = 4096
  zero : frameUsed k 0 = true
  held : ∀ a ∈ entries, Held k (loadPage k.mem a).frame
  pages : ∀ i < 1024, tableAt k.mem src i ≠ 0 → ∀ j < 1024, pagesSlot (tableAt k.mem src i) j ∈ entries
  enough : (copiedPages k src 1024 0).length ≤ (freeFrames k).card
  ready : ready (sizeofPageDirectory :: List.replicate (copiedTables k src 1024 0) sizeofPageTable) used k

/-- The clone at `dir` has the tables that the source has from the kernel directory, and for every other one a new
table with frames of its own. -/
structure Isolated (src dir : ℕ) (used : List (ℕ × ℕ)) (entries : Set ℕ) (k k' : Kernel) : Prop where
  shared : ∀ i < 1024, tableAt k.mem src i = tableAt k.mem k.kernelDirectory i →
    tableAt k'.mem dir i = tableAt k.mem src i ∧ physicalAt k'.mem dir i = physicalAt k.mem src i
  directory : ∀ r ∈ used, Apart (dir, sizeofPageDirectory) r
  tables : ∀ i < 1024, ¬ Linked k src i → tableAt k'.mem dir i ≠ 0 ∧
    ∀ r ∈ (dir, sizeofPageDirectory) :: used, Apart (tableAt k'.mem dir i, sizeofPageTable) r
  tablesApart : ∀ i j, i < j → j < 1024 → ¬ Linked k src i → ¬ Linked k src j →
    Apart (tableAt k'.mem dir j, sizeofPageTable) (tableAt k'.mem dir i, sizeofPageTable)
  pages : ∀ i < 1024, ¬ Linked k src i → ∀ j < 1024,
    (pageFrame k'.mem dir (i, j) ≠ 0 ↔ pageFrame k.mem src (i, j) ≠ 0)
  distinct : ∀ p ∈ copiedPages k src 1024 0, ∀ q ∈ copiedPages k src 1024 0,
    pageFrame k'.mem dir p = pageFrame k'.mem dir q → p = q
  unheld : ∀ p ∈ copiedPages k src 1024 0, ∀ a ∈ entries, (loadPage k.mem a).frame ≠ pageFrame k'.mem dir p
  contents : ∀ p ∈ copiedPages k src 1024 0, ∀ x < 4096,
    k'.phys (pageFrame k'.mem dir p * 4096 + x) = k.phys (pageFrame k.mem src p * 4096 + x)
  source : SameOn k.mem k'.mem src (src + sizeofPageDirectory)
  sourceTables : ∀ i < 1024, tableAt k.mem src i ≠ 0 →
    SameOn k.mem k'.mem (tableAt k.mem src i) (tableAt k.mem src i + sizeofPageTable)
  sourceContents : ∀ i < 1024, tableAt k.mem src i ≠ 0 → ∀ j < 1024, ∀ x < 4096,
    k'.phys (pageFrame k.mem src (i, j) * 4096 + x) = k.phys (pageFrame k.mem src (i, j) * 4096 + x)

section Call
variable {ap : KmallocAp} {reach : ℕ → ℕ} {ready : List ℕ → List (ℕ × ℕ) → Kernel → Prop} {used : List (ℕ × ℕ)}
  {entries : Set ℕ} {c : Cloning} {k k1 : Kernel} {src dir i : ℕ}

/-- The new directory has no tables yet. -/
theorem newDirectory_blank {physical : ℕ} (hnew : ap sizeofPageDirectory k = .ok ((dir, physical), k1))
    (hrun : newDirectory ap k = .ok (dir, c)) (hi : i < 1024) :
    tableAt c.kernel.mem dir i = 0 ∧ physicalAt c.kernel.mem dir i = 0 := by
  obtain ⟨n, hn⟩ : ∃ n, n = sizeofPageDirectory := ⟨_, rfl⟩
  have hsize : n = 8196 := hn
  rw [newDirectory, hnew, ok_bind] at hrun
  obtain ⟨-, hc⟩ := Prod.mk.inj (Except.ok.inj hrun)
  rw [← hc]
  dsimp only [setSlot, Cloning.stored, Kernel.withMem_mem, tableAt, physicalAt]
  rw [← hn, load32_store32_of_off (by unfold tablesSlot physicalAddressSlot; omega),
    load32_store32_of_off (by unfold tablesPhysicalSlot physicalAddressSlot; omega)]
  exact ⟨load32_memset_zero (by unfold tablesSlot; omega) (by unfold tablesSlot; omega),
    load32_memset_zero (by unfold tablesPhysicalSlot; omega) (by unfold tablesPhysicalSlot; omega)⟩

/-- The state in which the loop starts. -/
theorem newDirectory_state (h : Supply ap reach ready) (hc : Cloneable ready src used entries k) :
    ∃ dir, ∃ c : Cloning, newDirectory ap k = .ok (dir, c) ∧ (∀ r ∈ used, Apart (dir, sizeofPageDirectory) r) ∧
      ready (List.replicate (copiedTables k src 1024 0) sizeofPageTable) ((dir, sizeofPageDirectory) :: used) c.kernel ∧
      CloneState src dir ((dir, sizeofPageDirectory) :: used) c.kernel ∧ SameSource src k c.kernel ∧
      (∀ g < 4096, frameUsed c.kernel g = frameUsed k g) ∧ c.kernel.phys = k.phys ∧
      ∀ i < 1024, tableAt c.kernel.mem dir i = 0 ∧ physicalAt c.kernel.mem dir i = 0 := by
  obtain ⟨dir, physical, k1, hobject, hlater⟩ := h.serve _ _ _ _ hc.ready
  obtain ⟨m, hrun, hoff, -⟩ := newDirectory_spec hobject.run
  have hlarge := h.large sizeofPageDirectory
  have hsize : sizeofPageDirectory = 8196 := rfl
  have hapart : ∀ r ∈ used, Apart (dir, sizeofPageDirectory) r := by
    intro r hr
    have hr' := hobject.apart r hr
    unfold Apart at hr' ⊢
    dsimp only at hr' ⊢
    omega
  have hkept : ∀ r ∈ used, SameOn k.mem m r.1 (r.1 + r.2) := by
    intro r hr
    have hclear : SameOff k1.mem m dir (dir + reach sizeofPageDirectory) := hoff.mono le_rfl (by omega)
    exact (hobject.same r hr).trans ((hobject.apart r hr).sameOn hclear)
  have hpaging : SamePaging k (k1.withMem m) := hobject.paging.trans ⟨rfl, rfl, rfl⟩
  have hsame : SameSource src k (k1.withMem m) :=
    ⟨hpaging, hkept _ hc.source, hkept _ hc.kernel, fun i hi hne => hkept _ (hc.toInUse.tables i hi hne)⟩
  have hused : ∀ g < 4096, frameUsed (k1.withMem m) g = frameUsed k g := fun g hg =>
    hpaging.frameUsed (hkept _ hc.bitmap) hg
  have hframes : FramesHeld src k := ⟨hc.count, fun i hi hne j hj => hc.held _ (hc.pages i hi hne j hj)⟩
  have hheld : ∀ g, Held k g → Held (k1.withMem m) g := by
    intro g hg hlt
    rw [hused g hlt]
    exact hg hlt
  have huse : InUse src ((dir, sizeofPageDirectory) :: used) (k1.withMem m) :=
    hc.toInUse.later hsame fun r hr => List.mem_cons_of_mem _ hr
  refine ⟨dir, _, hrun, hapart, ?_, ⟨huse, hframes.later hsame hheld, List.mem_cons_self, hapart _ hc.source, ?_, ?_, ?_⟩,
    hsame, hused, hobject.phys, fun i hi => newDirectory_blank hobject.run hrun hi⟩
  · exact hlater m (hoff.mono le_rfl (by omega))
  · rw [hpaging.kernelDirectory]
    exact hapart _ hc.kernel
  · rw [hpaging.frames]
    exact hapart _ hc.bitmap
  · intro i hi hne
    rw [hsame.tableAt hi] at hne ⊢
    exact hapart _ (hc.toInUse.tables i hi hne)

end Call

/-! ## A directory with one table -/

/-- The objects in use: the source, the kernel directory, the bitmap and the source's table. -/
def entryUsed : List (ℕ × ℕ) := [(0x110000, sizeofPageDirectory), (0x100000, sizeofPageDirectory), (0x300000, 512),
  (0x120000, sizeofPageTable)]

def entryPages : Set ℕ := {a | ∃ j < 1024, a = pagesSlot 0x120000 j}

/-- The kernel whose one page has frame 5, with another placement address. -/
def pagedKernel (placement : ℕ) : Kernel := (entryKernel 0x5005).withPlacement placement

section Example
variable {placement i j : ℕ}

theorem pagedKernel_zero {a : ℕ} (h : a + 4 ≤ 0x110000 ∨ 0x110000 + 4 ≤ a) (h1 : a + 4 ≤ 0x120000 ∨ 0x120000 + 4 ≤ a)
    (h2 : a + 4 ≤ 0x300000 ∨ 0x300000 + 4 ≤ a) : load32 (pagedKernel placement).mem a = 0 := entryMem_zero 0x5005 h h1 h2

theorem pagedKernel_table : tableAt (pagedKernel placement).mem 0x110000 0 = 0x120000 := by
  show load32 (entryMem 0x5005) 0x110000 = 0x120000
  rw [entryMem, load32_store32_of_off (Or.inl (by decide)), load32_store32_of_off (Or.inl (by decide))]
  exact load32_store32_of_lt (by decide)

theorem pagedKernel_entry : load32 (pagedKernel placement).mem 0x120000 = 0x5005 := by
  show load32 (entryMem 0x5005) 0x120000 = 0x5005
  rw [entryMem, load32_store32_of_off (Or.inl (by decide))]
  exact load32_store32_of_lt (by decide)

theorem pagedKernel_bits : load32 (pagedKernel placement).mem 0x300000 = 0x21 := load32_store32_of_lt (by decide)

theorem pagedKernel_missing (hi : 0 < i) (hlt : i < 1024) : tableAt (pagedKernel placement).mem 0x110000 i = 0 :=
  pagedKernel_zero (by unfold tablesSlot; omega) (by unfold tablesSlot; omega) (by unfold tablesSlot; omega)

theorem pagedKernel_frame (hj : j < 1024) : entryFrame (pagedKernel placement).mem 0x120000 j = if j = 0 then 5 else 0 := by
  rcases Nat.eq_zero_or_pos j with rfl | hpos
  · rw [if_pos rfl, entryFrame, loadPage, pagesSlot, Nat.mul_zero, Nat.add_zero, pagedKernel_entry]
    rfl
  · rw [if_neg (by omega), entryFrame, loadPage, pagedKernel_zero (by unfold pagesSlot; omega) (by unfold pagesSlot; omega)
      (by unfold pagesSlot; omega)]
    rfl

theorem pagedKernel_used (hj : j < 32) : frameUsed (pagedKernel placement) j = (0x21 : ℕ).testBit j := by
  have hword : frameWord (pagedKernel placement) (indexFromBit j) = 0x300000 := by
    show 0x300000 + 4*indexFromBit j = 0x300000
    unfold indexFromBit
    omega
  rw [frameUsed, hword, pagedKernel_bits]
  unfold offsetFromBit
  rw [Nat.mod_eq_of_lt hj]

/-- Only the first slot is not linked. -/
theorem pagedKernel_linked (hi : i < 1024) : Linked (pagedKernel placement) 0x110000 i ↔ i ≠ 0 := by
  constructor
  · rintro hlinked rfl
    have htable : load32 (pagedKernel placement).mem (tablesSlot 0x110000 0) = 0x120000 := pagedKernel_table
    have hkernel : load32 (pagedKernel placement).mem (tablesSlot 0x100000 0) = 0 :=
      pagedKernel_zero (Or.inl (by decide)) (Or.inl (by decide)) (Or.inl (by decide))
    have hdirectory : (pagedKernel placement).kernelDirectory = 0x100000 := rfl
    rw [Linked, hdirectory, hkernel, htable] at hlinked
    cases hlinked with
    | inl h => cases h
    | inr h => cases h
  · intro hne
    exact Or.inl (pagedKernel_missing (by omega) hi)

theorem pagedKernel_pages : copiedPages (pagedKernel placement) 0x110000 1024 0 = [(0, 0)] := by
  have hrest : copiedPages (pagedKernel placement) 0x110000 1023 1 = [] := by
    unfold copiedPages
    rw [List.flatMap_eq_nil_iff]
    intro i hi
    rw [List.mem_range'_1] at hi
    exact if_pos ((pagedKernel_linked (by omega)).mpr (by omega))
  have hblank : framedEntries (pagedKernel placement).mem 0x120000 1023 1 = [] := by
    unfold framedEntries
    rw [List.filter_eq_nil_iff]
    intro j hj
    rw [List.mem_range'_1] at hj
    rw [pagedKernel_frame (by omega), if_neg (by omega)]
    decide
  have hframe : entryFrame (pagedKernel placement).mem 0x120000 0 ≠ 0 := by
    rw [pagedKernel_frame (by norm_num)]
    decide
  have hfirst : ¬ Linked (pagedKernel placement) 0x110000 0 := by
    rw [pagedKernel_linked (by norm_num)]
    exact not_not.mpr rfl
  rw [copiedPages_succ, hrest, slotPages, if_neg hfirst, pagedKernel_table, framedEntries_succ, hblank, if_pos hframe]
  rfl

theorem pagedKernel_tables : copiedTables (pagedKernel placement) 0x110000 1024 0 = 1 := by
  have hrest : copiedTables (pagedKernel placement) 0x110000 1023 1 = 0 := by
    unfold copiedTables
    rw [List.countP_eq_zero]
    intro i hi
    rw [List.mem_range'_1] at hi
    rw [decide_eq_true_eq, pagedKernel_linked (by omega)]
    omega
  rw [copiedTables_succ, hrest, if_neg ((pagedKernel_linked (by norm_num)).not.mpr (not_not.mpr rfl))]

theorem pagedKernel_physical (hi : i < 1024) : physicalAt (pagedKernel placement).mem 0x110000 i = 0 :=
  pagedKernel_zero (by unfold tablesPhysicalSlot; omega) (by unfold tablesPhysicalSlot; omega)
    (by unfold tablesPhysicalSlot; omega)

/-- Only its one table exists. -/
theorem pagedKernel_exists (hi : i < 1024) (hne : tableAt (pagedKernel placement).mem 0x110000 i ≠ 0) : i = 0 := by
  by_contra hpos
  exact hne (pagedKernel_missing (by omega) hi)

theorem pagedKernel_inUse : InUse 0x110000 entryUsed (pagedKernel placement) := by
  have hkernel : (0x100000, sizeofPageDirectory) ∈ entryUsed := by decide
  have hbitmap : (0x300000, 512) ∈ entryUsed := by decide
  have habove : ∀ r ∈ [(0x110000, sizeofPageDirectory), (0x100000, sizeofPageDirectory), (0x120000, sizeofPageTable)],
      Apart (0x300000, 512) r := by
    intro r hr
    refine Or.inr ?_
    revert r
    decide
  refine ⟨by decide, hkernel, hbitmap, fun i hi hne => ?_, habove _ (by decide),
    habove (0x100000, sizeofPageDirectory) (by decide), fun i hi hne => ?_⟩
  · rw [pagedKernel_exists hi hne, pagedKernel_table]
    decide
  · rw [pagedKernel_exists hi hne, pagedKernel_table]
    exact habove (0x120000, sizeofPageTable) (by decide)

theorem pagedKernel_cloneable {ready : List ℕ → List (ℕ × ℕ) → Kernel → Prop}
    (hready : ready [sizeofPageDirectory, sizeofPageTable] entryUsed (pagedKernel placement)) :
    Cloneable ready 0x110000 entryUsed entryPages (pagedKernel placement) := by
  have hcount : (pagedKernel placement).frameCount = 4096 := rfl
  refine ⟨pagedKernel_inUse, hcount, ?_, fun a ha => ?_, fun i hi hne j hj => ?_, ?_, ?_⟩
  · rw [pagedKernel_used (by norm_num)]
    decide
  · obtain ⟨j, hj, rfl⟩ := ha
    have hframe : (loadPage (pagedKernel placement).mem (pagesSlot 0x120000 j)).frame = if j = 0 then 5 else 0 :=
      pagedKernel_frame hj
    rw [hframe]
    intro _
    split
    · rw [pagedKernel_used (by norm_num)]
      decide
    · rw [pagedKernel_used (by norm_num)]
      decide
  · rw [pagedKernel_exists hi hne, pagedKernel_table]
    exact ⟨j, hj, rfl⟩
  · rw [pagedKernel_pages]
    refine Finset.card_pos.mpr ⟨1, (mem_freeFrames hcount).mpr ⟨by norm_num, ?_⟩⟩
    rw [pagedKernel_used (by norm_num)]
    decide
  · rw [pagedKernel_tables]
    exact hready

end Example

/-! ## Isolation -/

/-- The clone is isolated when a slot without a table has no physical address either, and when the bytes behind a new
table, as many as the clearing of it reaches, are not in use. -/
theorem clone_directory_isolates {ap : KmallocAp} {reach : ℕ → ℕ} {ready : List ℕ → List (ℕ × ℕ) → Kernel → Prop}
    {used : List (ℕ × ℕ)} {entries : Set ℕ} {k : Kernel} {src : ℕ} (h : Supply ap reach ready)
    (hc : Cloneable ready src used entries k)
    (hphysical : ∀ i < 1024, tableAt k.mem src i = 0 → tableAt k.mem k.kernelDirectory i = 0 → physicalAt k.mem src i = 0)
    (hroom : ∀ i < 1024, ¬ Linked k src i → sizeofPageDirectory ≤ reach sizeofPageTable) :
    ∃ dir, ∃ c : Cloning, cloneDirectory ap src k = .ok (dir, c) ∧ Isolated src dir used entries k c.kernel := by
  obtain ⟨dir, c0, hnew, hapart, hready, hs, hsame, hused, hphys, hblank⟩ := newDirectory_state h hc
  have hlinked : ∀ i < 1024, (Linked c0.kernel src i ↔ Linked k src i) := fun i hi => hsame.linked hi
  rw [← hsame.copiedTables (by norm_num)] at hready
  have hcount := hc.count
  have hfree : (copiedPages c0.kernel src 1024 0).length ≤ (freeFrames c0.kernel).card := by
    rw [hsame.copiedPages (by norm_num), freeFrames_same hsame.paging.frameCount fun g hg => hused g (by omega)]
    exact hc.enough
  obtain ⟨used', c, hloop, hcloned⟩ := cloneDirectoryLoop_clones h hs (by norm_num)
    (fun i _ hi hnot => hroom i (by omega) fun hl => hnot ((hlinked i (by omega)).mpr hl)) hready hfree
  -- everything is said of the state before the call
  have hlater := hcloned.sameSource hs
  have hsource : ∀ i < 1024, tableAt c0.kernel.mem src i = tableAt k.mem src i := fun i hi => hsame.tableAt hi
  have hcopied : FramesCopied k c.kernel (copiedPages k src 1024 0) (pageFrame k.mem src) (pageFrame c.kernel.mem dir) := by
    have hcopied0 := hcloned.copied
    rw [hsame.copiedPages (by norm_num)] at hcopied0
    refine (hcopied0.of_same hused hphys).congr (fun p hp => ?_) fun _ _ => rfl
    obtain ⟨i, j⟩ := p
    obtain ⟨hrange, hnot, hj, -⟩ := mem_copiedPages.mp hp
    exact (hsame.pageFrame (by dsimp only at hrange; omega) hj (exists_of_not_linked hnot)).symm
  have hrun : cloneDirectory ap src k = .ok (dir, c) := by
    rw [cloneDirectory, hnew, ok_bind]
    dsimp only
    rw [hloop]
    rfl
  refine ⟨dir, c, hrun, fun i hi heq => ?_, hapart, fun i hi hnot => ?_,
    fun i j hij hj hnot hnot' => ?_, fun i hi hnot j hj => ?_, fun p hp q hq heq => ?_, fun p hp a ha heq => ?_,
    hcopied.contents, hsame.source.trans hlater.source, fun i hi hne => ?_, fun i hi hne j hj => ?_⟩
  · by_cases hzero : tableAt k.mem src i = 0
    · obtain ⟨htable, hentry⟩ := hcloned.missing i (Nat.zero_le i) (by omega) ((hsource i hi).trans hzero)
      rw [htable, hentry, (hblank i hi).1, (hblank i hi).2, hzero, hphysical i hi hzero (heq.symm.trans hzero)]
      exact ⟨rfl, rfl⟩
    · obtain ⟨htable, hentry⟩ := hcloned.linked i (Nat.zero_le i) (by omega) (by rwa [hsource i hi])
        ((hlinked i hi).mpr (Or.inr heq.symm))
      rw [htable, hentry, hsource i hi, physicalAt_congr hsame.source hi]
      exact ⟨rfl, rfl⟩
  · obtain ⟨hne, -, hfar⟩ := hcloned.made i (Nat.zero_le i) (by omega) fun hl => hnot ((hlinked i hi).mp hl)
    exact ⟨hne, hfar⟩
  · exact hcloned.apart i j (Nat.zero_le i) hij (by omega) (fun hl => hnot ((hlinked i (by omega)).mp hl))
      fun hl => hnot' ((hlinked j hj).mp hl)
  · constructor
    · intro hframe hzero
      refine hframe (hcloned.blank i (Nat.zero_le i) (by omega) (fun hl => hnot ((hlinked i hi).mp hl)) j hj ?_)
      rw [hsame.pageFrame hi hj (exists_of_not_linked hnot)]
      exact hzero
    · intro hframe hzero
      have hfree := (hcopied.fresh (i, j) (mem_copiedPages.mpr ⟨⟨Nat.zero_le i, by omega⟩, hnot, hj, hframe⟩)).2
      rw [hzero, hc.zero] at hfree
      cases hfree
  · exact List.inj_on_of_nodup_map hcopied.distinct hp hq heq
  · refine hcopied.not_new (hc.held a ha) ?_
    rw [heq]
    exact List.mem_map_of_mem hp
  · have hne' : tableAt c0.kernel.mem src i ≠ 0 := by rwa [hsource i hi]
    have hkept := hlater.tables i hi hne'
    rw [hsource i hi] at hkept
    exact (hsame.tables i hi hne).trans hkept
  · exact hcopied.keeps (hc.held _ (hc.pages i hi hne j hj))

/-- With everything in use below the placement address. -/
theorem clone_isolates_page : ∃ dir, ∃ c : Cloning,
    cloneDirectory (kmallocAp 0) 0x110000 (pagedKernel 0x400000) = .ok (dir, c) ∧
    Isolated 0x110000 dir entryUsed entryPages (pagedKernel 0x400000) c.kernel := by
  have hready : EarlyReady (fun size => max size sizeofPageDirectory) [sizeofPageDirectory, sizeofPageTable] entryUsed
      (pagedKernel 0x400000) := by
    refine ⟨rfl, by decide, ?_⟩
    show ∀ b ∈ [(0x400000, sizeofPageDirectory), (0x403000, sizeofPageTable)], _
    unfold Apart entryUsed
    decide
  exact clone_directory_isolates (early_supply 0 fun size => le_max_left _ _) (pagedKernel_cloneable hready)
    (fun _ hi _ _ => pagedKernel_physical hi) fun _ _ _ => le_max_right _ _

/-- The new table ends where the source's begins, and clearing it clears the source's as well. -/
theorem pagedKernel_cleared : ∃ c, cloneDirectory (kmallocAp 0) 0x110000 (pagedKernel 0x11C000) = .ok (0x11C000, c) ∧
    load32 c.kernel.mem 0x120000 = 0 := by
  have hnew0 : kmallocAp 0 sizeofPageDirectory (pagedKernel 0x11C000) =
      .ok ((0x11C000, 0x11C000), (pagedKernel 0x11C000).withPlacement (0x11C000 + sizeofPageDirectory)) :=
    kmallocInt_aligned rfl (by decide : pageUp 0x11C000 = 0x11C000) (by decide)
  obtain ⟨m, hstart, hoff, -⟩ := newDirectory_spec hnew0
  obtain ⟨k1, hk1⟩ : ∃ k1, k1 = ((pagedKernel 0x11C000).withPlacement (0x11C000 + sizeofPageDirectory)).withMem m := ⟨_, rfl⟩
  have hmem1 : k1.mem = m := by rw [hk1]; rfl
  have hoff' : SameOff (pagedKernel 0x11C000).mem m 0x11C000 (0x11C000 + 8196) := hoff
  have hdir : k1.kernelDirectory = 0x100000 := by rw [hk1]; rfl
  have htable : load32 k1.mem (tablesSlot 0x110000 0) = 0x120000 := by
    rw [hmem1, hoff'.load32_eq (Or.inl (by decide))]
    exact pagedKernel_table
  have hkernel : load32 k1.mem (tablesSlot k1.kernelDirectory 0) = 0 := by
    rw [hmem1, hdir, hoff'.load32_eq (Or.inl (by decide))]
    exact pagedKernel_zero (Or.inl (by decide)) (Or.inl (by decide)) (Or.inl (by decide))
  have hnew : kmallocAp 0 sizeofPageTable k1 =
      .ok ((0x11F000, 0x11F000), k1.withPlacement (0x11F000 + sizeofPageTable)) := by
    refine kmallocInt_aligned ?_ ?_ (by decide)
    · rw [hk1]
      rfl
    · rw [hk1]
      exact (by decide : pageUp (0x11C000 + 8196) = 0x11F000)
  obtain ⟨n, hn⟩ : ∃ n, n = sizeofPageDirectory := ⟨_, rfl⟩
  have hn' : n = 8196 := hn
  obtain ⟨m2, hm2⟩ : ∃ m2, m2 = memset k1.mem 0x11F000 0 n := ⟨_, rfl⟩
  have hoff2 : SameOff m m2 0x11F000 (0x11F000 + n) := by
    rw [hm2, hmem1]
    exact sameOff_memset _ _ _ _
  have hcleared : ∀ j < 1024, load32 m2 (pagesSlot 0x120000 j) = 0 := by
    intro j hj
    rw [hm2]
    exact load32_memset_zero (by unfold pagesSlot; omega) (by unfold pagesSlot; omega)
  have hlater : ∀ j, 1 ≤ j → j < 1024 → load32 m2 (tablesSlot 0x110000 j) = 0 := by
    intro j hl hh
    unfold tablesSlot
    rw [hoff2.load32_eq (Or.inl (by omega)), hoff'.load32_eq (Or.inl (by omega))]
    exact pagedKernel_zero (by omega) (by omega) (by omega)
  rw [← hk1] at hstart
  obtain ⟨accesses, haccesses⟩ : ∃ l : List Access, l = [⟨0x11C000, sizeofPageDirectory, 0x11C000, sizeofPageDirectory⟩,
    ⟨0x11C000, sizeofPageDirectory, physicalAddressSlot 0x11C000, 4⟩] := ⟨_, rfl⟩
  rw [← haccesses] at hstart
  have hclone := @cloneTable_cleared (kmallocAp 0) ⟨k1, accesses⟩ _ m2 0x120000 0x11F000 0x11F000 hnew (by rw [hm2, hn]; rfl)
    hcleared
  refine ⟨_, cloneDirectory_one hstart htable (by decide) ?_ hclone hlater (Or.inr (by decide)), ?_⟩
  · dsimp only
    rw [hkernel]
    decide
  · show load32 (store32 (store32 m2 _ _) _ _) _ = 0
    rw [load32_store32_of_off (Or.inr (by decide)), load32_store32_of_off (Or.inr (by decide))]
    exact hcleared 0 (by norm_num)

/-- The new objects are apart from everything in use, and the source loses its entry. -/
theorem clone_clears_source : Supply (kmallocAp 0) id (EarlyReady id) ∧
    Cloneable (EarlyReady id) 0x110000 entryUsed entryPages (pagedKernel 0x11C000) ∧
    (∀ i < 1024, physicalAt (pagedKernel 0x11C000).mem 0x110000 i = 0) ∧
    ∃ dir, ∃ c : Cloning, cloneDirectory (kmallocAp 0) 0x110000 (pagedKernel 0x11C000) = .ok (dir, c) ∧
      ¬ Isolated 0x110000 dir entryUsed entryPages (pagedKernel 0x11C000) c.kernel := by
  have hready : EarlyReady id [sizeofPageDirectory, sizeofPageTable] entryUsed (pagedKernel 0x11C000) := by
    refine ⟨rfl, by decide, ?_⟩
    show ∀ b ∈ [(0x11C000, sizeofPageDirectory), (0x11F000, sizeofPageTable)], _
    unfold Apart entryUsed
    decide
  obtain ⟨c, hrun, hcleared⟩ := pagedKernel_cleared
  refine ⟨early_supply 0 fun _ => le_rfl, pagedKernel_cloneable hready, fun i hi => pagedKernel_physical hi, 0x11C000, c, hrun,
    fun h => ?_⟩
  have hsource := h.sourceTables 0 (by norm_num) (by rw [pagedKernel_table]; decide)
  rw [pagedKernel_table] at hsource
  have hentry := hsource.load32_eq (a := 0x120000) le_rfl (by decide)
  rw [hcleared, pagedKernel_entry] at hentry
  cases hentry

end PandaOS

import PandaOS.Memory.TableCopies

/-! The loop of `clone_directory`. A slot whose table the kernel directory has too is linked, and the table of
any other slot is copied into a new one whose pages have frames of their own. -/
namespace PandaOS
open ByteMemory Word32
set_option autoImplicit false
set_option maxHeartbeats 250000

/-! ## The directory -/

/-- `dir->tables[i]` -/
def tableAt (m : Mem) (dir i : ℕ) : ℕ := load32 m (tablesSlot dir i)

/-- `dir->tables_physical[i]` -/
def physicalAt (m : Mem) (dir i : ℕ) : ℕ := load32 m (tablesPhysicalSlot dir i)

/-- The frame of the page with these indices: the place of its table, and its place in the table. -/
def pageFrame (m : Mem) (dir : ℕ) (p : ℕ × ℕ) : ℕ := entryFrame m (tableAt m dir p.1) p.2

instance (k : Kernel) (src i : ℕ) : Decidable (Linked k src i) := inferInstanceAs (Decidable (_ ∨ _))

/-- The pages of slot `i` that are copied. -/
def slotPages (k : Kernel) (src i : ℕ) : List (ℕ × ℕ) :=
  if Linked k src i then [] else (framedEntries k.mem (tableAt k.mem src i) 1024 0).map (Prod.mk i)

/-- The pages that are copied, of the `n` slots from `i` on. -/
def copiedPages (k : Kernel) (src n i : ℕ) : List (ℕ × ℕ) := (List.range' i n).flatMap (slotPages k src)

/-- How many of the `n` slots from `i` on have a table that is copied. -/
def copiedTables (k : Kernel) (src n i : ℕ) : ℕ := (List.range' i n).countP fun j => ¬ Linked k src j

/-- The source directory, the kernel directory, the bitmap and the source's tables are in use, and the bitmap is
apart from the others. -/
structure InUse (src : ℕ) (used : List (ℕ × ℕ)) (k : Kernel) : Prop where
  source : (src, sizeofPageDirectory) ∈ used
  kernel : (k.kernelDirectory, sizeofPageDirectory) ∈ used
  bitmap : (k.frames, 512) ∈ used
  tables : ∀ i < 1024, tableAt k.mem src i ≠ 0 → (tableAt k.mem src i, sizeofPageTable) ∈ used
  bitmapSource : Apart (k.frames, 512) (src, sizeofPageDirectory)
  bitmapKernel : Apart (k.frames, 512) (k.kernelDirectory, sizeofPageDirectory)
  bitmapTables : ∀ i < 1024, tableAt k.mem src i ≠ 0 → Apart (k.frames, 512) (tableAt k.mem src i, sizeofPageTable)

/-- The bitmap has one bit for each of 4096 frames, and the source's frames are marked. -/
structure FramesHeld (src : ℕ) (k : Kernel) : Prop where
  count : k.frameCount = 4096
  held : ∀ i < 1024, tableAt k.mem src i ≠ 0 → ∀ j < 1024, Held k (pageFrame k.mem src (i, j))

/-- A clone of `src` at `dir` is being made. -/
structure CloneState (src dir : ℕ) (used : List (ℕ × ℕ)) (k : Kernel) : Prop extends InUse src used k, FramesHeld src k where
  directory : (dir, sizeofPageDirectory) ∈ used
  apartSource : Apart (dir, sizeofPageDirectory) (src, sizeofPageDirectory)
  apartKernel : Apart (dir, sizeofPageDirectory) (k.kernelDirectory, sizeofPageDirectory)
  apartBitmap : Apart (dir, sizeofPageDirectory) (k.frames, 512)
  apartTables : ∀ i < 1024, tableAt k.mem src i ≠ 0 →
    Apart (dir, sizeofPageDirectory) (tableAt k.mem src i, sizeofPageTable)

/-- What the rounds for the `n` slots from `i` on do: the slots are linked or copied, the new tables are objects of
their own, and nothing in use changes but the new directory and the bitmap. -/
structure SlotsCloned (src dir : ℕ) (used used' : List (ℕ × ℕ)) (k k' : Kernel) (n i : ℕ) : Prop where
  paging : SamePaging k k'
  grows : ∀ r ∈ used, r ∈ used'
  kept : ∀ r ∈ used, Apart (dir, sizeofPageDirectory) r → Apart (k.frames, 512) r →
    SameOn k.mem k'.mem r.1 (r.1 + r.2)
  slots : ∀ j < 1024, (j < i ∨ i + n ≤ j) →
    tableAt k'.mem dir j = tableAt k.mem dir j ∧ physicalAt k'.mem dir j = physicalAt k.mem dir j
  missing : ∀ j, i ≤ j → j < i + n → tableAt k.mem src j = 0 →
    tableAt k'.mem dir j = tableAt k.mem dir j ∧ physicalAt k'.mem dir j = physicalAt k.mem dir j
  linked : ∀ j, i ≤ j → j < i + n → tableAt k.mem src j ≠ 0 → Linked k src j →
    tableAt k'.mem dir j = tableAt k.mem src j ∧ physicalAt k'.mem dir j = physicalAt k.mem src j
  made : ∀ j, i ≤ j → j < i + n → ¬ Linked k src j → tableAt k'.mem dir j ≠ 0 ∧
    (tableAt k'.mem dir j, sizeofPageTable) ∈ used' ∧ ∀ r ∈ used, Apart (tableAt k'.mem dir j, sizeofPageTable) r
  blank : ∀ j, i ≤ j → j < i + n → ¬ Linked k src j → ∀ l < 1024, pageFrame k.mem src (j, l) = 0 →
    pageFrame k'.mem dir (j, l) = 0
  apart : ∀ j l, i ≤ j → j < l → l < i + n → ¬ Linked k src j → ¬ Linked k src l →
    Apart (tableAt k'.mem dir l, sizeofPageTable) (tableAt k'.mem dir j, sizeofPageTable)
  copied : FramesCopied k k' (copiedPages k src n i) (pageFrame k.mem src) (pageFrame k'.mem dir)

section Directory
variable {ap : KmallocAp} {reach : ℕ → ℕ} {ready : List ℕ → List (ℕ × ℕ) → Kernel → Prop} {sizes : List ℕ}
  {used used' used1 : List (ℕ × ℕ)}
  {c c' : Cloning} {k k' k1 : Kernel} {m m' : Mem} {src dir i j n v w : ℕ} {p : ℕ × ℕ}

theorem mem_slotPages : p ∈ slotPages k src i ↔ p.1 = i ∧ ¬ Linked k src i ∧ p.2 < 1024 ∧ pageFrame k.mem src p ≠ 0 := by
  obtain ⟨a, b⟩ := p
  unfold slotPages
  by_cases hlinked : Linked k src i
  · simp [hlinked]
  · rw [if_neg hlinked, List.mem_map]
    constructor
    · rintro ⟨x, hx, heq⟩
      obtain ⟨rfl, rfl⟩ := Prod.mk.inj heq
      obtain ⟨hrange, hframe⟩ := mem_framedEntries.mp hx
      exact ⟨rfl, hlinked, by dsimp only; omega, hframe⟩
    · rintro ⟨rfl, -, hb, hframe⟩
      exact ⟨b, mem_framedEntries.mpr ⟨⟨Nat.zero_le b, by dsimp only at hb; omega⟩, hframe⟩, rfl⟩

theorem mem_copiedPages : p ∈ copiedPages k src n i ↔
    (i ≤ p.1 ∧ p.1 < i + n) ∧ ¬ Linked k src p.1 ∧ p.2 < 1024 ∧ pageFrame k.mem src p ≠ 0 := by
  unfold copiedPages
  rw [List.mem_flatMap]
  constructor
  · rintro ⟨j, hj, hp⟩
    obtain ⟨rfl, hrest⟩ := mem_slotPages.mp hp
    exact ⟨List.mem_range'_1.mp hj, hrest⟩
  · rintro ⟨hrange, hrest⟩
    exact ⟨p.1, List.mem_range'_1.mpr hrange, mem_slotPages.mpr ⟨rfl, hrest⟩⟩

theorem copiedPages_succ (k : Kernel) (src n i : ℕ) :
    copiedPages k src (n + 1) i = slotPages k src i ++ copiedPages k src n (i + 1) := by
  unfold copiedPages
  rw [List.range'_succ, List.flatMap_cons]

theorem copiedTables_succ (k : Kernel) (src n i : ℕ) :
    copiedTables k src (n + 1) i = copiedTables k src n (i + 1) + if Linked k src i then 0 else 1 := by
  unfold copiedTables
  rw [List.range'_succ, List.countP_cons]
  by_cases hlinked : Linked k src i
  · simp [hlinked]
  · simp [hlinked]

/-! ### Stability -/

theorem tableAt_congr (h : SameOn m m' dir (dir + sizeofPageDirectory)) (hi : i < 1024) :
    tableAt m' dir i = tableAt m dir i := by
  have hsize : sizeofPageDirectory = 8196 := rfl
  exact h.load32_eq (by unfold tablesSlot; omega) (by unfold tablesSlot; omega)

theorem physicalAt_congr (h : SameOn m m' dir (dir + sizeofPageDirectory)) (hi : i < 1024) :
    physicalAt m' dir i = physicalAt m dir i := by
  have hsize : sizeofPageDirectory = 8196 := rfl
  exact h.load32_eq (by unfold tablesPhysicalSlot; omega) (by unfold tablesPhysicalSlot; omega)

/-- The source, its tables and the kernel directory are as they were. -/
structure SameSource (src : ℕ) (k k' : Kernel) : Prop where
  paging : SamePaging k k'
  source : SameOn k.mem k'.mem src (src + sizeofPageDirectory)
  kernel : SameOn k.mem k'.mem k.kernelDirectory (k.kernelDirectory + sizeofPageDirectory)
  tables : ∀ i < 1024, tableAt k.mem src i ≠ 0 →
    SameOn k.mem k'.mem (tableAt k.mem src i) (tableAt k.mem src i + sizeofPageTable)

theorem SameSource.tableAt (h : SameSource src k k') (hi : i < 1024) :
    PandaOS.tableAt k'.mem src i = PandaOS.tableAt k.mem src i := tableAt_congr h.source hi

theorem SameSource.linked (h : SameSource src k k') (hi : i < 1024) : Linked k' src i ↔ Linked k src i := by
  have hsize : sizeofPageDirectory = 8196 := rfl
  exact Linked.congr (h.source.mono le_rfl (by omega)) (h.kernel.mono le_rfl (by omega)) h.paging.kernelDirectory hi

theorem SameSource.pageFrame (h : SameSource src k k') (hi : i < 1024) (hj : j < 1024)
    (hne : PandaOS.tableAt k.mem src i ≠ 0) : PandaOS.pageFrame k'.mem src (i, j) = PandaOS.pageFrame k.mem src (i, j) := by
  unfold PandaOS.pageFrame
  rw [h.tableAt hi]
  exact entryFrame_congr_table (h.tables i hi hne) hj

/-- A table that is not linked exists. -/
theorem exists_of_not_linked (h : ¬ Linked k src i) : tableAt k.mem src i ≠ 0 := fun hzero => h (Or.inl hzero)

theorem SameSource.slotPages (h : SameSource src k k') (hi : i < 1024) :
    PandaOS.slotPages k' src i = PandaOS.slotPages k src i := by
  unfold PandaOS.slotPages
  by_cases hlinked : Linked k src i
  · rw [if_pos hlinked, if_pos ((h.linked hi).mpr hlinked)]
  · have hentries : ∀ j, 0 ≤ j → j < 0 + 1024 →
        entryFrame k'.mem (PandaOS.tableAt k.mem src i) j = entryFrame k.mem (PandaOS.tableAt k.mem src i) j :=
      fun j _ hj => entryFrame_congr_table (h.tables i hi (exists_of_not_linked hlinked)) (by omega)
    rw [if_neg hlinked, if_neg fun hl => hlinked ((h.linked hi).mp hl), h.tableAt hi, framedEntries_congr hentries]

theorem SameSource.copiedPages (h : SameSource src k k') (hn : i + n ≤ 1024) :
    PandaOS.copiedPages k' src n i = PandaOS.copiedPages k src n i := by
  unfold PandaOS.copiedPages
  apply List.flatMap_congr
  intro j hj
  rw [List.mem_range'_1] at hj
  exact h.slotPages (by omega)

theorem SameSource.copiedTables (h : SameSource src k k') (hn : i + n ≤ 1024) :
    PandaOS.copiedTables k' src n i = PandaOS.copiedTables k src n i := by
  unfold PandaOS.copiedTables
  apply List.countP_congr
  intro j hj
  rw [List.mem_range'_1] at hj
  simp only [decide_eq_true_eq, h.linked (by omega : j < 1024)]

theorem SlotsCloned.sameSource (h : SlotsCloned src dir used used' k k' n i) (hs : CloneState src dir used k) :
    SameSource src k k' :=
  ⟨h.paging, h.kept _ hs.source hs.apartSource hs.bitmapSource, h.kept _ hs.kernel hs.apartKernel hs.bitmapKernel,
    fun j hj hne => h.kept _ (hs.tables j hj hne) (hs.apartTables j hj hne) (hs.bitmapTables j hj hne)⟩

theorem InUse.later (hu : InUse src used k) (h : SameSource src k k') (hgrows : ∀ r ∈ used, r ∈ used') :
    InUse src used' k' := by
  have htable : ∀ j < 1024, PandaOS.tableAt k'.mem src j = PandaOS.tableAt k.mem src j := fun j hj => h.tableAt hj
  refine ⟨hgrows _ hu.source, ?_, ?_, fun j hj hne => ?_, ?_, ?_, fun j hj hne => ?_⟩
  · rw [h.paging.kernelDirectory]
    exact hgrows _ hu.kernel
  · rw [h.paging.frames]
    exact hgrows _ hu.bitmap
  · rw [htable j hj] at hne ⊢
    exact hgrows _ (hu.tables j hj hne)
  · rw [h.paging.frames]
    exact hu.bitmapSource
  · rw [h.paging.frames, h.paging.kernelDirectory]
    exact hu.bitmapKernel
  · rw [htable j hj] at hne ⊢
    rw [h.paging.frames]
    exact hu.bitmapTables j hj hne

theorem FramesHeld.later (hf : FramesHeld src k) (h : SameSource src k k') (hheld : ∀ g, Held k g → Held k' g) :
    FramesHeld src k' := by
  refine ⟨h.paging.frameCount.trans hf.count, fun j hj hne l hl => ?_⟩
  rw [h.tableAt hj] at hne
  rw [h.pageFrame hj hl hne]
  exact hheld _ (hf.held j hj hne l hl)

theorem CloneState.later (hs : CloneState src dir used k) (h : SlotsCloned src dir used used' k k' n i) :
    CloneState src dir used' k' := by
  have hsame := h.sameSource hs
  refine ⟨hs.toInUse.later hsame h.grows, hs.toFramesHeld.later hsame fun _ hg => h.copied.held hg,
    h.grows _ hs.directory, hs.apartSource, ?_, ?_, fun j hj hne => ?_⟩
  · rw [h.paging.kernelDirectory]
    exact hs.apartKernel
  · rw [h.paging.frames]
    exact hs.apartBitmap
  · rw [hsame.tableAt hj] at hne ⊢
    exact hs.apartTables j hj hne

/-! ### A round -/

/-- The two stores of a round reach slot `i` and nothing else. -/
theorem slot_stores (hi : i < 1024) (hm : m' = store32 (store32 m (tablesSlot dir i) v) (tablesPhysicalSlot dir i) w) :
    SameOff m m' dir (dir + sizeofPageDirectory) ∧ (v < 4294967296 → tableAt m' dir i = v) ∧
      (w < 4294967296 → physicalAt m' dir i = w) ∧
      ∀ j < 1024, j ≠ i → tableAt m' dir j = tableAt m dir j ∧ physicalAt m' dir j = physicalAt m dir j := by
  have hsize : sizeofPageDirectory = 8196 := rfl
  rw [hm]
  unfold tableAt physicalAt
  refine ⟨?_, fun hv => ?_, fun hw => load32_store32_of_lt hw, fun j hj hne => ⟨?_, ?_⟩⟩
  · exact (sameOff_store32 (by unfold tablesSlot; omega) (by unfold tablesSlot; omega)).trans
      (sameOff_store32 (by unfold tablesPhysicalSlot; omega) (by unfold tablesPhysicalSlot; omega))
  · rw [load32_store32_of_off (by unfold tablesSlot tablesPhysicalSlot; omega), load32_store32_of_lt hv]
  · rw [load32_store32_of_off (by unfold tablesSlot tablesPhysicalSlot; omega),
      load32_store32_of_off (by unfold tablesSlot; omega)]
  · rw [load32_store32_of_off (by unfold tablesPhysicalSlot; omega),
      load32_store32_of_off (by unfold tablesSlot tablesPhysicalSlot; omega)]

/-- A slot without a table, or with one of the kernel's, where only the new directory's slot changes. -/
theorem SlotsCloned.of_linked (hs : CloneState src dir used k) (hi : i < 1024) (hlinked : Linked k src i)
    (hoff : SameOff k.mem m dir (dir + sizeofPageDirectory))
    (hothers : ∀ j < 1024, j ≠ i → tableAt m dir j = tableAt k.mem dir j ∧ physicalAt m dir j = physicalAt k.mem dir j)
    (hmissing : tableAt k.mem src i = 0 →
      tableAt m dir i = tableAt k.mem dir i ∧ physicalAt m dir i = physicalAt k.mem dir i)
    (hlink : tableAt k.mem src i ≠ 0 → tableAt m dir i = tableAt k.mem src i ∧ physicalAt m dir i = physicalAt k.mem src i) :
    SlotsCloned src dir used used k (k.withMem m) 1 i := by
  have hpaging : SamePaging k (k.withMem m) := ⟨rfl, rfl, rfl⟩
  have hnone : copiedPages k src 1 i = [] := by
    rw [copiedPages_succ, slotPages, if_pos hlinked]
    rfl
  refine ⟨hpaging, fun _ hr => hr, fun r _ hdir _ => hdir.sameOn hoff, fun j hj hout => hothers j hj (by omega),
    fun j hl hh hzero => ?_, fun j hl hh hne _ => ?_, fun j hl hh hnot => ?_, fun j hl hh hnot => ?_,
    fun j l hl hh hlt _ => by omega, ?_⟩
  · obtain rfl : j = i := by omega
    exact hmissing hzero
  · obtain rfl : j = i := by omega
    exact hlink hne
  · obtain rfl : j = i := by omega
    exact absurd hlinked hnot
  · obtain rfl : j = i := by omega
    exact absurd hlinked hnot
  · rw [hnone]
    exact (FramesCopied.nil k _ _).to_same (fun g hg => hpaging.frameUsed (hs.apartBitmap.sameOn hoff) hg) rfl

theorem cloneSlot_links (ap : KmallocAp) (hs : CloneState src dir used c.kernel) (hi : i < 1024)
    (hlinked : Linked c.kernel src i) : ∃ m, ∃ c' : Cloning, cloneSlot ap src dir i c = .ok c' ∧
      c'.kernel = c.kernel.withMem m ∧ SameOff c.kernel.mem m dir (dir + sizeofPageDirectory) ∧
      SlotsCloned src dir used used c.kernel c'.kernel 1 i := by
  by_cases hzero : tableAt c.kernel.mem src i = 0
  · have hrun : cloneSlot ap src dir i c = .ok c := if_pos hzero
    exact ⟨c.kernel.mem, c, hrun, rfl, SameOff.refl _ _ _, SlotsCloned.of_linked hs hi hlinked (SameOff.refl _ _ _)
      (fun _ _ _ => ⟨rfl, rfl⟩) (fun _ => ⟨rfl, rfl⟩) fun hne => absurd hzero hne⟩
  · obtain ⟨v, hv⟩ : ∃ v, v = tableAt c.kernel.mem src i := ⟨_, rfl⟩
    obtain ⟨w, hw⟩ : ∃ w, w = physicalAt c.kernel.mem src i := ⟨_, rfl⟩
    obtain ⟨m, hm⟩ : ∃ m, m = store32 (store32 c.kernel.mem (tablesSlot dir i) v) (tablesPhysicalSlot dir i) w := ⟨_, rfl⟩
    obtain ⟨hoff, htable, hphysical, hothers⟩ := slot_stores hi hm
    -- the first store does not reach the source's second table
    have hfirst : SameOff c.kernel.mem (store32 c.kernel.mem (tablesSlot dir i) v) dir (dir + sizeofPageDirectory) := by
      have hsize : sizeofPageDirectory = 8196 := rfl
      exact sameOff_store32 (by unfold tablesSlot; omega) (by unfold tablesSlot; omega)
    have hentry : load32 (store32 c.kernel.mem (tablesSlot dir i) v) (tablesPhysicalSlot src i) = w := by
      rw [hw]
      exact physicalAt_congr (hs.apartSource.sameOn hfirst) hi
    have hrun : cloneSlot ap src dir i c =
        .ok (setSlot dir (tablesPhysicalSlot dir i) w (setSlot dir (tablesSlot dir i) v c)) := by
      unfold tableAt at hzero hv
      rw [cloneSlot, if_neg hzero, if_pos (hlinked.resolve_left hzero), ← hv]
      dsimp only [setSlot, Cloning.stored, Kernel.withMem_mem]
      rw [hentry]
    have hkernel : (setSlot dir (tablesPhysicalSlot dir i) w (setSlot dir (tablesSlot dir i) v c)).kernel =
        c.kernel.withMem m := by
      rw [hm]
      rfl
    refine ⟨m, _, hrun, hkernel, hoff, ?_⟩
    rw [hkernel]
    refine SlotsCloned.of_linked hs hi hlinked hoff hothers (fun hnone => absurd hnone hzero) fun _ => ?_
    rw [htable (by rw [hv]; exact load32_lt _ _), hphysical (by rw [hw]; exact load32_lt _ _), hv, hw]
    exact ⟨rfl, rfl⟩

/-- A slot with a table of the source's own. -/
theorem cloneSlot_copies (h : Supply ap reach ready) (hready : ready (sizeofPageTable :: sizes) used c.kernel)
    (hroom : sizeofPageDirectory ≤ reach sizeofPageTable) (hs : CloneState src dir used c.kernel) (hi : i < 1024)
    (hnot : ¬ Linked c.kernel src i) (hfree : (slotPages c.kernel src i).length ≤ (freeFrames c.kernel).card) :
    ∃ used', ∃ c' : Cloning, cloneSlot ap src dir i c = .ok c' ∧ ready sizes used' c'.kernel ∧
      SlotsCloned src dir used used' c.kernel c'.kernel 1 i := by
  have hexists := exists_of_not_linked hnot
  obtain ⟨s, hs'⟩ : ∃ s, s = tableAt c.kernel.mem src i := ⟨_, rfl⟩
  have hslot : slotPages c.kernel src i = (framedEntries c.kernel.mem s 1024 0).map (Prod.mk i) := by
    rw [hs']
    exact if_neg hnot
  rw [hslot, List.length_map] at hfree
  have hheld : ∀ j < 1024, Held c.kernel (entryFrame c.kernel.mem s j) := by
    intro j hj
    rw [hs']
    exact hs.held i hi hexists j hj
  obtain ⟨table, physical, c1, hrun, hne, hlt, happart, hready1, hpaging, hkept, hblank, hcopied⟩ :=
    cloneTable_copies h hready hroom (hs' ▸ hs.tables i hi hexists) hs.bitmap (hs' ▸ hs.bitmapTables i hi hexists)
      hs.count hheld hfree
  -- the stores to the directory
  obtain ⟨w, hw⟩ : ∃ w, w = physical ||| 0x07 := ⟨_, rfl⟩
  obtain ⟨m, hm⟩ : ∃ m, m = store32 (store32 c1.kernel.mem (tablesSlot dir i) table) (tablesPhysicalSlot dir i) w := ⟨_, rfl⟩
  obtain ⟨hoff, htable, -, hothers⟩ := slot_stores hi hm
  have htable := htable hlt
  obtain ⟨c', hc'⟩ : ∃ c', c' = setSlot dir (tablesPhysicalSlot dir i) w (setSlot dir (tablesSlot dir i) table c1) := ⟨_, rfl⟩
  have hkernel : c'.kernel = c1.kernel.withMem m := by
    rw [hc', hm]
    rfl
  have hmem : c'.kernel.mem = m := by rw [hkernel]; rfl
  have hpaging' : SamePaging c.kernel c'.kernel := by
    rw [hkernel]
    exact hpaging.trans ⟨rfl, rfl, rfl⟩
  have hdir : SameOn c.kernel.mem c1.kernel.mem dir (dir + sizeofPageDirectory) :=
    hkept _ hs.directory hs.apartBitmap.symm
  have hentries : SameOn c1.kernel.mem m table (table + sizeofPageTable) :=
    (happart _ hs.directory).symm.sameOn hoff
  have hused : ∀ g < 4096, PandaOS.frameUsed c'.kernel g = PandaOS.frameUsed c1.kernel g := by
    have hsame : SamePaging c1.kernel c'.kernel := by
      rw [hkernel]
      exact ⟨rfl, rfl, rfl⟩
    refine fun g hg => hsame.frameUsed ?_ hg
    rw [hmem, hpaging.frames]
    exact hs.apartBitmap.sameOn hoff
  refine ⟨(table, sizeofPageTable) :: used, c', ?_, ?_, hpaging', fun r hr => List.mem_cons_of_mem _ hr,
    fun r hr hrdir hrbits => ?_, fun j hj hout => ?_, fun j hl hh hzero => ?_, fun j hl hh _ hlinked => ?_,
    fun j hl hh _ => ?_, fun j hl hh _ l hl' hzero => ?_, fun j l hl hh hlt' _ => by omega, ?_⟩
  · unfold tableAt at hexists hs'
    rw [cloneSlot, if_neg hexists, if_neg fun hsame => hnot (Or.inr hsame), ← hs', hrun, ok_bind, hc', hw]
    rfl
  · rw [hkernel]
    refine h.keep _ _ _ _ _ hready1 fun x hx => hoff x ?_
    exact hx _ (List.mem_cons_of_mem _ hs.directory)
  · rw [hmem]
    exact (hkept r hr hrbits).trans (hrdir.sameOn hoff)
  · rw [hmem, (hothers j hj (by omega)).1, (hothers j hj (by omega)).2]
    exact ⟨tableAt_congr hdir hj, physicalAt_congr hdir hj⟩
  · obtain rfl : j = i := by omega
    exact absurd hzero hexists
  · obtain rfl : j = i := by omega
    exact absurd hlinked hnot
  · obtain rfl : j = i := by omega
    rw [hmem, htable]
    exact ⟨hne, List.mem_cons_self, happart⟩
  · obtain rfl : j = i := by omega
    unfold pageFrame at hzero ⊢
    dsimp only at hzero ⊢
    rw [← hs'] at hzero
    rw [hmem, htable, entryFrame_congr_table hentries hl']
    exact hblank l hl' hzero
  · rw [copiedPages_succ, hslot, show copiedPages c.kernel src 0 (i + 1) = [] from rfl, List.append_nil]
    have hcopied' : FramesCopied c.kernel c'.kernel (framedEntries c.kernel.mem s 1024 0) (entryFrame c.kernel.mem s)
        (entryFrame c1.kernel.mem table) := hcopied.to_same hused (by rw [hkernel]; rfl)
    refine hcopied'.rename (Prod.mk i) (fun j _ => ?_) fun j hj => ?_
    · rw [pageFrame, hs']
    · have hj' := (mem_framedEntries.mp hj).1.2
      rw [pageFrame, hmem, htable, entryFrame_congr_table hentries (by omega)]

/-! ### All rounds -/

theorem SlotsCloned.none (k : Kernel) (src dir i : ℕ) (used : List (ℕ × ℕ)) : SlotsCloned src dir used used k k 0 i :=
  ⟨SamePaging.refl k, fun _ hr => hr, fun _ _ _ _ => SameOn.refl _ _ _, fun _ _ _ => ⟨rfl, rfl⟩, fun j hl hh => by omega,
    fun j hl hh => by omega, fun j hl hh => by omega, fun j hl hh => by omega, fun j l hl hh hlt => by omega,
    FramesCopied.nil k _ _⟩

/-- A round and the rounds behind it. -/
theorem SlotsCloned.append (hs : CloneState src dir used k) (hn : i + (n + 1) ≤ 1024)
    (h : SlotsCloned src dir used used1 k k1 1 i) (h' : SlotsCloned src dir used1 used' k1 k' n (i + 1)) :
    SlotsCloned src dir used used' k k' (n + 1) i := by
  have hsame := h.sameSource hs
  have hs1 := hs.later h
  have hfirst := h'.slots i (by omega) (by omega)
  have hsource : ∀ j < 1024, tableAt k1.mem src j = tableAt k.mem src j := fun j hj => hsame.tableAt hj
  have hlinked : ∀ j < 1024, (Linked k1 src j ↔ Linked k src j) := fun j hj => hsame.linked hj
  -- the first round's table is in use when the others run
  have hpages : ¬ Linked k src i → ∀ l < 1024, pageFrame k'.mem dir (i, l) = pageFrame k1.mem dir (i, l) := by
    intro hnot l hl
    obtain ⟨-, hmem, happart⟩ := h.made i le_rfl (by omega) hnot
    unfold pageFrame
    rw [hfirst.1]
    refine entryFrame_congr_table (h'.kept _ hmem (happart _ hs.directory).symm ?_) hl
    rw [h.paging.frames]
    exact (happart _ hs.bitmap).symm
  refine ⟨h.paging.trans h'.paging, fun r hr => h'.grows r (h.grows r hr), fun r hr hdir hbits => ?_, fun j hj hout => ?_,
    fun j hl hh hzero => ?_, fun j hl hh hne hlink => ?_, fun j hl hh hnot => ?_, fun j hl hh hnot l hl' hzero => ?_,
    fun j l hl hh hlt hnot hnot' => ?_, ?_⟩
  · refine (h.kept r hr hdir hbits).trans (h'.kept r (h.grows r hr) hdir ?_)
    rw [h.paging.frames]
    exact hbits
  · rw [(h'.slots j hj (by omega)).1, (h'.slots j hj (by omega)).2]
    exact h.slots j hj (by omega)
  · rcases Nat.eq_or_lt_of_le hl with rfl | hlt
    · rw [hfirst.1, hfirst.2]
      exact h.missing i le_rfl (by omega) hzero
    · obtain ⟨htable, hphysical⟩ := h'.missing j hlt (by omega) (by rwa [hsource j (by omega)])
      rw [htable, hphysical]
      exact h.slots j (by omega) (by omega)
  · rcases Nat.eq_or_lt_of_le hl with rfl | hlt
    · rw [hfirst.1, hfirst.2]
      exact h.linked i le_rfl (by omega) hne hlink
    · obtain ⟨htable, hphysical⟩ := h'.linked j hlt (by omega) (by rwa [hsource j (by omega)])
        ((hlinked j (by omega)).mpr hlink)
      rw [htable, hphysical, hsource j (by omega), physicalAt_congr hsame.source (by omega)]
      exact ⟨rfl, rfl⟩
  · rcases Nat.eq_or_lt_of_le hl with rfl | hlt
    · obtain ⟨hne, hmem, happart⟩ := h.made i le_rfl (by omega) hnot
      rw [hfirst.1]
      exact ⟨hne, h'.grows _ hmem, happart⟩
    · obtain ⟨hne, hmem, happart⟩ := h'.made j hlt (by omega) fun hl' => hnot ((hlinked j (by omega)).mp hl')
      exact ⟨hne, hmem, fun r hr => happart r (h.grows r hr)⟩
  · rcases Nat.eq_or_lt_of_le hl with rfl | hlt
    · rw [hpages hnot l hl']
      exact h.blank i le_rfl (by omega) hnot l hl' hzero
    · refine h'.blank j hlt (by omega) (fun hl' => hnot ((hlinked j (by omega)).mp hl')) l hl' ?_
      rw [hsame.pageFrame (by omega) hl' (exists_of_not_linked hnot)]
      exact hzero
  · have hnot1 : ¬ Linked k1 src l := fun hl' => hnot' ((hlinked l (by omega)).mp hl')
    rcases Nat.eq_or_lt_of_le hl with rfl | hlt'
    · obtain ⟨-, -, happart⟩ := h'.made l hh (by omega) hnot1
      rw [hfirst.1]
      exact happart _ (h.made i le_rfl (by omega) hnot).2.1
    · exact h'.apart j l hlt' hh (by omega) (fun hl' => hnot ((hlinked j (by omega)).mp hl')) hnot1
  · have hone : copiedPages k src 1 i = slotPages k src i := by
      rw [copiedPages_succ]
      exact List.append_nil _
    have hlater := h'.copied
    rw [hsame.copiedPages (by omega)] at hlater
    have hearlier := h.copied
    rw [hone] at hearlier
    rw [copiedPages_succ]
    refine FramesCopied.append (hearlier.congr (fun _ _ => rfl) fun p hp => ?_) (hlater.congr (fun p hp => ?_) fun _ _ => rfl)
      fun p hp => ?_
    · obtain ⟨j, l⟩ := p
      obtain ⟨rfl, hnot, hl', -⟩ := mem_slotPages.mp hp
      exact hpages hnot l hl'
    · obtain ⟨j, l⟩ := p
      obtain ⟨hrange, hnot, hl', -⟩ := mem_copiedPages.mp hp
      exact (hsame.pageFrame (by dsimp only at hrange; omega) hl' (exists_of_not_linked hnot)).symm
    · obtain ⟨j, l⟩ := p
      obtain ⟨hrange, hnot, hl', -⟩ := mem_copiedPages.mp hp
      exact hs.held j (by dsimp only at hrange; omega) (exists_of_not_linked hnot) l hl'

theorem cloneDirectoryLoop_clones (h : Supply ap reach ready) (hs : CloneState src dir used c.kernel) (hn : i + n ≤ 1024)
    (hroom : ∀ j, i ≤ j → j < i + n → ¬ Linked c.kernel src j → sizeofPageDirectory ≤ reach sizeofPageTable)
    (hready : ready (List.replicate (copiedTables c.kernel src n i) sizeofPageTable) used c.kernel)
    (hfree : (copiedPages c.kernel src n i).length ≤ (freeFrames c.kernel).card) :
    ∃ used', ∃ c' : Cloning, cloneDirectoryLoop ap src dir n i c = .ok c' ∧
      SlotsCloned src dir used used' c.kernel c'.kernel n i := by
  induction n generalizing i c used with
  | zero => exact ⟨used, c, rfl, SlotsCloned.none _ _ _ _ _⟩
  | succ n ih =>
    rw [copiedPages_succ, List.length_append] at hfree
    rw [copiedTables_succ] at hready
    obtain ⟨used1, c1, hslot, hready1, hone⟩ : ∃ used1, ∃ c1 : Cloning, cloneSlot ap src dir i c = .ok c1 ∧
        ready (List.replicate (copiedTables c.kernel src n (i + 1)) sizeofPageTable) used1 c1.kernel ∧
        SlotsCloned src dir used used1 c.kernel c1.kernel 1 i := by
      by_cases hlinked : Linked c.kernel src i
      · rw [if_pos hlinked, Nat.add_zero] at hready
        obtain ⟨m, c1, hslot, hkernel, hoff, hone⟩ := cloneSlot_links ap hs (by omega) hlinked
        refine ⟨used, c1, hslot, ?_, hone⟩
        rw [hkernel]
        exact h.keep _ _ _ _ _ hready fun x hx => hoff x (hx _ hs.directory)
      · rw [if_neg hlinked] at hready
        exact cloneSlot_copies h hready (hroom i le_rfl (by omega) hlinked) hs (by omega) hlinked (by omega)
    have hsame := hone.sameSource hs
    have hs1 := hs.later hone
    have hcount := hone.copied.count hs.count hs1.count
    rw [copiedPages_succ, show copiedPages c.kernel src 0 (i + 1) = [] from rfl, List.append_nil] at hcount
    have hroom1 : ∀ j, i + 1 ≤ j → j < i + 1 + n → ¬ Linked c1.kernel src j → sizeofPageDirectory ≤ reach sizeofPageTable :=
      fun j hl hh hnot => hroom j (by omega) (by omega) fun hl' => hnot ((hsame.linked (by omega)).mpr hl')
    have hfree1 : (copiedPages c1.kernel src n (i + 1)).length ≤ (freeFrames c1.kernel).card := by
      rw [hsame.copiedPages (by omega)]
      omega
    rw [← hsame.copiedTables (by omega)] at hready1
    obtain ⟨used', c', hloop, hrest⟩ := ih hs1 (by omega) hroom1 hready1 hfree1
    exact ⟨used', c', by rw [cloneDirectoryLoop, hslot, ok_bind, hloop], hone.append hs hn hrest⟩

end Directory

end PandaOS

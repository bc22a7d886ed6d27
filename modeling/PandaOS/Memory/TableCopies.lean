import PandaOS.Memory.CloneBounds
import PandaOS.Memory.FrameCopies

/-! `clone_table` with every frame copied. The table comes from an allocator that returns objects apart from
everything in use; `clone_table` clears the size of a directory from there on, so that many bytes have to be
apart from everything in use. -/
namespace PandaOS
open ByteMemory Word32
set_option autoImplicit false
set_option maxHeartbeats 250000

/-! ## A table -/

/-- The frame in entry `j` of a table. -/
def entryFrame (m : Mem) (table j : ℕ) : ℕ := (loadPage m (pagesSlot table j)).frame

/-- The entries with a frame among the `n` from `i` on. -/
def framedEntries (m : Mem) (table n i : ℕ) : List ℕ := (List.range' i n).filter fun j => entryFrame m table j ≠ 0

section Table
variable {ap : KmallocAp} {c c' : Cloning} {k k' : Kernel} {m m' : Mem} {src table i j n f : ℕ}

theorem mem_framedEntries : j ∈ framedEntries m table n i ↔ (i ≤ j ∧ j < i + n) ∧ entryFrame m table j ≠ 0 := by
  simp [framedEntries, List.mem_range'_1]

theorem framedEntries_succ (m : Mem) (table n i : ℕ) : framedEntries m table (n + 1) i =
    (if entryFrame m table i ≠ 0 then [i] else []) ++ framedEntries m table n (i + 1) := by
  unfold framedEntries
  rw [List.range'_succ, List.filter_cons]
  simp only [decide_eq_true_eq]
  split <;> rfl

theorem entryFrame_congr (h : SameOn m m' (pagesSlot table j) (pagesSlot table j + 4)) :
    entryFrame m' table j = entryFrame m table j := by
  rw [entryFrame, loadPage_congr h, entryFrame]

theorem entryFrame_congr_table (h : SameOn m m' table (table + sizeofPageTable)) (hj : j < 1024) :
    entryFrame m' table j = entryFrame m table j := by
  have hsize : sizeofPageTable = 4096 := rfl
  exact entryFrame_congr (h.mono (by unfold pagesSlot; omega) (by unfold pagesSlot; omega))

theorem framedEntries_congr (h : ∀ j, i ≤ j → j < i + n → entryFrame m' table j = entryFrame m table j) :
    framedEntries m' table n i = framedEntries m table n i := by
  refine List.filter_congr fun j hj => ?_
  rw [List.mem_range'_1] at hj
  rw [h j hj.1 hj.2]

/-- A round leaves the other entries of the new table alone. -/
theorem EntryCloned.sameEntry (h : EntryCloned src table i f k k') (happart : TableApart src table k) (hj : j < 1024)
    (hne : j ≠ i) : SameOn k.mem k'.mem (pagesSlot table j) (pagesSlot table j + 4) := by
  have hsize : sizeofPageTable = 4096 := rfl
  have hbits := happart.bitmapTable
  unfold Apart at hbits
  dsimp only at hbits
  exact fun x hl hh => h.rest x (by unfold pagesSlot at *; omega) (by unfold pagesSlot at *; omega)

/-- And those of the source. -/
theorem EntryCloned.sameSource (h : EntryCloned src table i f k k') (happart : TableApart src table k) (hi : i < 1024)
    (hj : j < 1024) : entryFrame k'.mem src j = entryFrame k.mem src j := by
  have hsize : sizeofPageTable = 4096 := rfl
  have hsource := happart.source
  have hbits := happart.bitmapSource
  unfold Apart at hsource hbits
  dsimp only at hsource hbits
  apply entryFrame_congr
  exact fun x hl hh => h.rest x (by unfold pagesSlot at *; omega) (by unfold pagesSlot at *; omega)

/-- The round that copies a frame. -/
theorem EntryCloned.copied (h : EntryCloned src table j f k k') (hheld : Held k (entryFrame k.mem src j)) :
    FramesCopied k k' [j] (entryFrame k.mem src) (entryFrame k'.mem table) := by
  have hfree := (firstFrame_spec h.free).2.1
  have hf := h.small
  have hframe : entryFrame k'.mem table j = f := by
    rw [entryFrame, h.entry]
    rfl
  obtain ⟨s, hs⟩ : ∃ s, s = entryFrame k.mem src j := ⟨_, rfl⟩
  have hsmall : s < 1048576 := by
    rw [hs]
    exact (loadPage_fits _ _).frame
  have hne : s ≠ f := by
    rintro rfl
    rw [← hs] at hheld
    rw [hheld hf] at hfree
    cases hfree
  have hphys : k'.phys = copyWords 1024 (s * 0x1000) (f * 0x1000) k.phys := by
    rw [hs]
    exact h.phys
  obtain ⟨hcopy, hoff⟩ : (∀ x < 4*1024, k'.phys (f * 0x1000 + x) = k.phys (s * 0x1000 + x)) ∧
      SameOff k.phys k'.phys (f * 0x1000) (f * 0x1000 + 4*1024) := by
    rw [hphys]
    exact copyWords_spec 1024 k.phys (by omega) (by omega) (by omega)
  refine ⟨fun p hp => ?_, List.nodup_singleton _, fun g hg => ?_, fun p hp x hx => ?_, fun g hg x hx => ?_⟩
  · rw [List.mem_singleton.mp hp, hframe]
    exact ⟨hf, hfree⟩
  · simp only [List.map_cons, List.map_nil, List.mem_singleton, hframe]
    exact h.used g hg
  · rw [List.mem_singleton.mp hp, hframe, ← hs]
    exact hcopy x (by omega)
  · rw [List.map_cons, List.map_nil, List.mem_singleton, hframe] at hg
    exact hoff (g * 4096 + x) (by omega)

/-- The loop of `clone_table`, from entry `i` on with `n` left. -/
theorem cloneTableLoop_copies (h : TableApart src table c.kernel) (hcount : c.kernel.frameCount = 4096) (hn : i + n ≤ 1024)
    (hzero : ∀ j, i ≤ j → j < i + n → loadPage c.kernel.mem (pagesSlot table j) = Page.ofWord 0)
    (hheld : ∀ j, i ≤ j → j < i + n → Held c.kernel (entryFrame c.kernel.mem src j))
    (hfree : (framedEntries c.kernel.mem src n i).length ≤ (freeFrames c.kernel).card) :
    ∃ c', cloneTableLoop src table n i c = .ok c' ∧
      c'.kernel = { c.kernel with mem := c'.kernel.mem, phys := c'.kernel.phys } ∧
      (∀ x, (x < pagesSlot table i ∨ pagesSlot table (i + n) ≤ x) →
        (x < c.kernel.frames ∨ c.kernel.frames + 512 ≤ x) → c'.kernel.mem x = c.kernel.mem x) ∧
      (∀ j, i ≤ j → j < i + n → entryFrame c.kernel.mem src j = 0 → entryFrame c'.kernel.mem table j = 0) ∧
      FramesCopied c.kernel c'.kernel (framedEntries c.kernel.mem src n i) (entryFrame c.kernel.mem src)
        (entryFrame c'.kernel.mem table) := by
  induction n generalizing i c with
  | zero => exact ⟨c, rfl, rfl, fun _ _ _ => rfl, fun j hl hh => by omega, FramesCopied.nil _ _ _⟩
  | succ n ih =>
    rw [framedEntries_succ] at hfree ⊢
    have hsize : sizeofPageTable = 4096 := rfl
    have hsource := h.source
    have hbits := h.bitmapSource
    have hbitt := h.bitmapTable
    unfold Apart at hsource hbits hbitt
    dsimp only at hsource hbits hbitt
    rw [hsize] at hsource hbits hbitt
    by_cases hsrc : entryFrame c.kernel.mem src i = 0
    · rw [if_neg (not_not.mpr hsrc), List.nil_append] at hfree ⊢
      obtain ⟨c', hrun, hfields, hrest, hblank, hcopied⟩ := ih h hcount (by omega)
        (fun j hl hh => hzero j (by omega) (by omega)) (fun j hl hh => hheld j (by omega) (by omega)) hfree
      refine ⟨c', ?_, hfields, fun x hx hb => hrest x (by unfold pagesSlot at *; omega) hb, fun j hl hh hj => ?_, hcopied⟩
      · rw [cloneTableLoop, cloneEntry_blank hsrc, ok_bind, hrun]
      · rcases Nat.eq_or_lt_of_le hl with rfl | hlt
        · have hsame : SameOn c.kernel.mem c'.kernel.mem (pagesSlot table i) (pagesSlot table i + 4) := fun x hl hh =>
            hrest x (by unfold pagesSlot at *; omega) (by unfold pagesSlot at *; omega)
          rw [entryFrame_congr hsame, entryFrame, hzero i le_rfl (by omega)]
          rfl
        · exact hblank j hlt (by omega) hj
    · rw [if_pos hsrc] at hfree ⊢
      simp only [List.length_append, List.length_singleton] at hfree
      have hblank : (loadPage c.kernel.mem (pagesSlot table i)).frame = 0 := by
        rw [hzero i le_rfl (by omega)]
        rfl
      obtain ⟨f, hfirst⟩ := firstFrame_of_free (k := c.kernel) (by omega)
      have hsmall : f < 0xFFFFFFFF := by
        obtain ⟨hlt, -⟩ := firstFrame_spec hfirst
        omega
      obtain ⟨c1, hentry⟩ := cloneEntry_runs hsrc hblank hfirst hsmall
      obtain ⟨⟨f, hcloned⟩, -⟩ := cloneEntry_cloned h (by omega) hsrc hblank hentry
      have hone := hcloned.copied (hheld i le_rfl (by omega))
      have hframes : c1.kernel.frames = c.kernel.frames := by rw [hcloned.fields]
      have hcount1 : c1.kernel.frameCount = 4096 := by
        rw [hcloned.fields]
        exact hcount
      have hsame : ∀ j < 1024, entryFrame c1.kernel.mem src j = entryFrame c.kernel.mem src j := fun j hj =>
        hcloned.sameSource h (by omega) hj
      have hentries : framedEntries c1.kernel.mem src n (i + 1) = framedEntries c.kernel.mem src n (i + 1) :=
        framedEntries_congr fun j _ hj => hsame j (by omega)
      have hfree1 := hone.count hcount hcount1
      rw [List.length_singleton] at hfree1
      have hzero1 : ∀ j, i + 1 ≤ j → j < i + 1 + n → loadPage c1.kernel.mem (pagesSlot table j) = Page.ofWord 0 := by
        intro j hl hh
        rw [loadPage_congr (hcloned.sameEntry h (by omega : j < 1024) (by omega))]
        exact hzero j (by omega) (by omega)
      have hheld1 : ∀ j, i + 1 ≤ j → j < i + 1 + n → Held c1.kernel (entryFrame c1.kernel.mem src j) := by
        intro j hl hh
        rw [hsame j (by omega)]
        exact hone.held (hheld j (by omega) (by omega))
      obtain ⟨c', hrun, hfields, hrest, hzeros, hcopied⟩ := ih (h.congr hcloned.fields) hcount1 (by omega) hzero1 hheld1
        (by rw [hentries]; omega)
      rw [hframes] at hrest
      rw [hentries] at hcopied
      have hlast : entryFrame c'.kernel.mem table i = entryFrame c1.kernel.mem table i := entryFrame_congr fun x hl hh =>
        hrest x (by unfold pagesSlot at *; omega) (by unfold pagesSlot at *; omega)
      refine ⟨c', ?_, ?_, fun x hx hb => ?_, fun j hl hh hj => ?_, ?_⟩
      · rw [cloneTableLoop, hentry, ok_bind, hrun]
      · rw [hfields, hcloned.fields]
      · rw [hrest x (by unfold pagesSlot at *; omega) hb, hcloned.rest x (by unfold pagesSlot at *; omega) hb]
      · rcases Nat.eq_or_lt_of_le hl with rfl | hlt
        · exact absurd hj hsrc
        · exact hzeros j hlt (by omega) (by rwa [hsame j (by omega)])
      · refine FramesCopied.append (hone.congr (fun _ _ => rfl) fun p hp => ?_)
          (hcopied.congr (fun p hp => ?_) fun _ _ => rfl) fun p hp => ?_
        · rw [List.mem_singleton.mp hp, hlast]
        · exact (hsame p (by have := (mem_framedEntries.mp hp).1; omega)).symm
        · have := (mem_framedEntries.mp hp).1
          exact hheld p (by omega) (by omega)

end Table

/-! ## Memory objects -/

structure SamePaging (k k' : Kernel) : Prop where
  kernelDirectory : k'.kernelDirectory = k.kernelDirectory
  frames : k'.frames = k.frames
  frameCount : k'.frameCount = k.frameCount

/-- `kmalloc_ap(size)` returns an object at `p`, apart from everything in use, and so are the `reach size` bytes
from there on. -/
structure NewObject (ap : KmallocAp) (reach : ℕ → ℕ) (used : List (ℕ × ℕ)) (size : ℕ) (k : Kernel) (p physical : ℕ)
    (k' : Kernel) : Prop where
  run : ap size k = .ok ((p, physical), k')
  nonnull : p ≠ 0
  fits : p + reach size ≤ 4294967296
  apart : ∀ r ∈ used, Apart (p, reach size) r
  same : ∀ r ∈ used, SameOn k.mem k'.mem r.1 (r.1 + r.2)
  paging : SamePaging k k'
  phys : k'.phys = k.phys

/-- An allocator that is ready for calls with these sizes while the regions `used` are in use. It stays ready when
these are written to, and when the bytes are that a new object reaches. -/
structure Supply (ap : KmallocAp) (reach : ℕ → ℕ) (ready : List ℕ → List (ℕ × ℕ) → Kernel → Prop) : Prop where
  large : ∀ size, size ≤ reach size
  serve : ∀ size sizes used k, ready (size :: sizes) used k →
    ∃ p physical k', NewObject ap reach used size k p physical k' ∧
      ∀ m, SameOff k'.mem m p (p + reach size) → ready sizes ((p, size) :: used) (k'.withMem m)
  keep : ∀ sizes used k m phys, ready sizes used k → (∀ x, (∀ r ∈ used, x < r.1 ∨ r.1 + r.2 ≤ x) → m x = k.mem x) →
    ready sizes used { k with mem := m, phys := phys }

section Objects
variable {ap : KmallocAp} {reach : ℕ → ℕ} {ready : List ℕ → List (ℕ × ℕ) → Kernel → Prop} {sizes : List ℕ}
  {used : List (ℕ × ℕ)} {c c' : Cloning} {k k' k1 : Kernel} {m : Mem} {src g : ℕ}

theorem SamePaging.refl (k : Kernel) : SamePaging k k := ⟨rfl, rfl, rfl⟩

theorem SamePaging.trans (h : SamePaging k k1) (h' : SamePaging k1 k') : SamePaging k k' :=
  ⟨h'.kernelDirectory.trans h.kernelDirectory, h'.frames.trans h.frames, h'.frameCount.trans h.frameCount⟩

theorem SamePaging.of_fields (h : k' = { k with mem := k'.mem, phys := k'.phys }) : SamePaging k k' := by
  rw [h]
  exact ⟨rfl, rfl, rfl⟩

theorem SamePaging.frameUsed (h : SamePaging k k') (hm : SameOn k.mem k'.mem k.frames (k.frames + 512)) (hg : g < 4096) :
    PandaOS.frameUsed k' g = PandaOS.frameUsed k g := by
  have hword : frameWord k' (indexFromBit g) = frameWord k (indexFromBit g) := by rw [frameWord, h.frames, frameWord]
  rw [PandaOS.frameUsed, hword, hm.load32_eq (by unfold frameWord; omega) (by unfold frameWord indexFromBit; omega),
    PandaOS.frameUsed]

/-- `clone_table` before its loop: the table at `p` is an object of its own, its entries are clear, and nothing in use
has changed. -/
structure TableCleared (ap : KmallocAp) (ready : List ℕ → List (ℕ × ℕ) → Kernel → Prop) (sizes : List ℕ)
    (used : List (ℕ × ℕ)) (src : ℕ) (c : Cloning) (p physical : ℕ) (c1 : Cloning) : Prop where
  run : cloneTable ap src c = do
    let c ← cloneTableLoop src p 1024 0 c1
    return ((p, physical), c)
  nonnull : p ≠ 0
  small : p < 4294967296
  apart : ∀ r ∈ used, Apart (p, sizeofPageTable) r
  ready : ready sizes ((p, sizeofPageTable) :: used) c1.kernel
  paging : SamePaging c.kernel c1.kernel
  same : ∀ r ∈ used, SameOn c.kernel.mem c1.kernel.mem r.1 (r.1 + r.2)
  phys : c1.kernel.phys = c.kernel.phys
  blank : ∀ j < 1024, loadPage c1.kernel.mem (pagesSlot p j) = Page.ofWord 0

theorem Supply.tableCleared (hs : Supply ap reach ready) (hready : ready (sizeofPageTable :: sizes) used c.kernel)
    (hroom : sizeofPageDirectory ≤ reach sizeofPageTable) (src : ℕ) :
    ∃ p physical c1, TableCleared ap ready sizes used src c p physical c1 := by
  have hsize : sizeofPageTable = 4096 := rfl
  obtain ⟨d, hd⟩ : ∃ d, d = sizeofPageDirectory := ⟨_, rfl⟩
  have hd' : d = 8196 := hd
  obtain ⟨p, physical, k1, hobject, hlater⟩ := hs.serve sizeofPageTable sizes used c.kernel hready
  have hfits := hobject.fits
  have hlarge := hs.large sizeofPageTable
  obtain ⟨m, hm⟩ : ∃ m, m = memset k1.mem p 0 d := ⟨_, rfl⟩
  have hclear : SameOff k1.mem m p (p + d) := by
    rw [hm]
    exact sameOff_memset _ _ _ _
  have hrange : SameOff k1.mem m p (p + reach sizeofPageTable) := hclear.mono le_rfl (by omega)
  refine ⟨p, physical, (Cloning.mk k1 c.accesses).stored ⟨p, sizeofPageTable, p, d⟩ m, ?_, hobject.nonnull, by omega,
    fun r hr => ?_, hlater m hrange, hobject.paging.trans ⟨rfl, rfl, rfl⟩,
    fun r hr => (hobject.same r hr).trans ((hobject.apart r hr).sameOn hrange), hobject.phys, fun j hj => ?_⟩
  · rw [cloneTable, hobject.run, ok_bind]
    dsimp only
    rw [← hd, ← hm]
  · have hr' := hobject.apart r hr
    unfold Apart at hr' ⊢
    dsimp only at hr' ⊢
    omega
  · show Page.ofWord (load32 m (pagesSlot p j)) = Page.ofWord 0
    rw [hm, load32_memset_zero (by unfold pagesSlot; omega) (by unfold pagesSlot; omega)]

/-- `clone_table`, where what it clears behind the new table is not in use. -/
theorem cloneTable_copies (hs : Supply ap reach ready) (hready : ready (sizeofPageTable :: sizes) used c.kernel)
    (hroom : sizeofPageDirectory ≤ reach sizeofPageTable) (hsrc : (src, sizeofPageTable) ∈ used)
    (hbits : (c.kernel.frames, 512) ∈ used) (happart : Apart (c.kernel.frames, 512) (src, sizeofPageTable))
    (hcount : c.kernel.frameCount = 4096) (hheld : ∀ j < 1024, Held c.kernel (entryFrame c.kernel.mem src j))
    (hfree : (framedEntries c.kernel.mem src 1024 0).length ≤ (freeFrames c.kernel).card) :
    ∃ table physical c', cloneTable ap src c = .ok ((table, physical), c') ∧ table ≠ 0 ∧ table < 4294967296 ∧
      (∀ r ∈ used, Apart (table, sizeofPageTable) r) ∧ ready sizes ((table, sizeofPageTable) :: used) c'.kernel ∧
      SamePaging c.kernel c'.kernel ∧
      (∀ r ∈ used, Apart (c.kernel.frames, 512) r → SameOn c.kernel.mem c'.kernel.mem r.1 (r.1 + r.2)) ∧
      (∀ j < 1024, entryFrame c.kernel.mem src j = 0 → entryFrame c'.kernel.mem table j = 0) ∧
      FramesCopied c.kernel c'.kernel (framedEntries c.kernel.mem src 1024 0) (entryFrame c.kernel.mem src)
        (entryFrame c'.kernel.mem table) := by
  have hsize : sizeofPageTable = 4096 := rfl
  obtain ⟨p, physical, c1, ht⟩ := hs.tableCleared hready hroom src
  have hused : ∀ g < 4096, PandaOS.frameUsed c1.kernel g = PandaOS.frameUsed c.kernel g := fun g hg =>
    ht.paging.frameUsed (ht.same _ hbits) hg
  have hentry : ∀ j < 1024, entryFrame c1.kernel.mem src j = entryFrame c.kernel.mem src j := fun j hj =>
    entryFrame_congr_table (ht.same _ hsrc) hj
  have hentries : framedEntries c1.kernel.mem src 1024 0 = framedEntries c.kernel.mem src 1024 0 :=
    framedEntries_congr fun j _ hj => hentry j (by omega)
  have htable : TableApart src p c1.kernel := by
    refine ⟨?_, ht.apart _ hsrc, ?_, ?_⟩
    · rw [ht.paging.frameCount, hcount]
    · rw [ht.paging.frames]
      exact happart
    · rw [ht.paging.frames]
      exact (ht.apart _ hbits).symm
  have hheld1 : ∀ j, 0 ≤ j → j < 0 + 1024 → Held c1.kernel (entryFrame c1.kernel.mem src j) := by
    intro j _ hj hlt
    rw [hentry j (by omega)] at hlt ⊢
    rw [hused _ hlt]
    exact hheld j (by omega) hlt
  have hfree1 : (framedEntries c1.kernel.mem src 1024 0).length ≤ (freeFrames c1.kernel).card := by
    rw [hentries, freeFrames_same ht.paging.frameCount fun g hg => hused g (by omega)]
    exact hfree
  obtain ⟨c', hloop, hfields, hrest, hzeros, hcopied⟩ := cloneTableLoop_copies htable (ht.paging.frameCount.trans hcount)
    (by norm_num) (fun j _ hj => ht.blank j (by omega)) hheld1 hfree1
  rw [ht.paging.frames] at hrest
  rw [hentries] at hcopied
  have hframe : ∀ x, (x < p ∨ p + 4096 ≤ x) → (x < c.kernel.frames ∨ c.kernel.frames + 512 ≤ x) →
      c'.kernel.mem x = c1.kernel.mem x := by
    intro x hx hb
    exact hrest x (by unfold pagesSlot; omega) hb
  refine ⟨p, physical, c', by rw [ht.run, hloop]; rfl, ht.nonnull, ht.small, ht.apart, ?_, ht.paging.trans (.of_fields hfields),
    fun r hr hrbits x hl hh => ?_, fun j hj hzero => ?_, ?_⟩
  · rw [hfields]
    refine hs.keep _ _ _ _ _ ht.ready fun x hx => ?_
    exact hframe x (hx _ List.mem_cons_self) (hx _ (List.mem_cons_of_mem _ hbits))
  · have hnew := ht.apart r hr
    unfold Apart at hnew hrbits
    dsimp only at hnew hrbits
    rw [hframe x (by omega) (by omega)]
    exact ht.same r hr x hl hh
  · exact hzeros j (Nat.zero_le j) (by omega) (by rwa [hentry j hj])
  · refine (hcopied.of_same hused ht.phys).congr (fun j hj => ?_) fun _ _ => rfl
    exact (hentry j (by have := (mem_framedEntries.mp hj).1; omega)).symm

end Objects

end PandaOS

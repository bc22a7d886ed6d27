import PandaOS.Library.GuardedRun
import PandaOS.Library.PageWalk
import PandaOS.Memory.EarlyTables

/-! The kernel's view of a page directory and the processor's. The kernel follows `tables`, the processor
`tables_physical` from cr3 on; `get_page` writes both. Before the heap exists the two always agree, so
the processor maps an address as the page entry says that `get_page` finds for it. -/
namespace PandaOS
open ByteMemory Word32 GuardedRun PageWalk
set_option autoImplicit false
set_option maxHeartbeats 250000

/-- The page entry that `get_page(v, 0, dir)` returns. -/
def pageFor (k : Kernel) (dir v : ℕ) : ℕ :=
  match findPage v dir k with
  | .ok (page, _) => page
  | .error _ => 0

/-- The mapping of `v` by that entry. -/
def entryMapping (k : Kernel) (dir v : ℕ) : Option Mapping :=
  let page := pageFor k dir v
  let p := loadPage k.mem page
  if page ≠ 0 ∧ p.present = 1 then some ⟨p.frame * 0x1000 + v % 0x1000, p.rw = 1, p.user = 1⟩ else none

/-- Each table has its address in `tables_physical` too, with the flags for present, read-write and user. -/
structure Coherent (m : Mem) (dir : ℕ) : Prop where
  aligned : dir % 0x1000 = 0
  tables : ∀ t < 1024, load32 m (tablesSlot dir t) % 0x1000 = 0
  physical : ∀ t < 1024, load32 m (tablesPhysicalSlot dir t) =
    if load32 m (tablesSlot dir t) = 0 then 0 else load32 m (tablesSlot dir t) ||| 0x7

variable {k k' : Kernel} {m m' : Mem} {dir v a t page : ℕ}

/-! ## The two views -/

theorem or_flags (h : a % 0x1000 = 0) : a ||| 0x7 = a + 7 := by
  have hshift : a = (a / 8) <<< 3 := by
    rw [Nat.shiftLeft_eq]
    omega
  rw [hshift]
  exact (Nat.shiftLeft_add_eq_or_of_lt (by norm_num) _).symm

theorem testBit_flags (h : a % 0x1000 = 0) :
    (a + 7).testBit 0 = true ∧ (a + 7).testBit 1 = true ∧ (a + 7).testBit 2 = true := by
  simp only [Nat.testBit_eq_decide_div_mod_eq, decide_eq_true_eq]
  omega

/-- A page entry as the processor reads its word. -/
theorem loadPage_bits (m : Mem) (page : ℕ) : base (load32 m page) = (loadPage m page).frame * 0x1000 ∧
    (load32 m page).testBit 0 = decide ((loadPage m page).present = 1) ∧
    (load32 m page).testBit 1 = decide ((loadPage m page).rw = 1) ∧
    (load32 m page).testBit 2 = decide ((loadPage m page).user = 1) := by
  refine ⟨rfl, ?_, ?_, ?_⟩ <;>
    simp only [loadPage, Page.ofWord, Nat.testBit_eq_decide_div_mod_eq, Nat.pow_zero, Nat.div_one, Nat.pow_one] <;>
    rfl

theorem pageFor_eq (k : Kernel) (dir v : ℕ) : pageFor k dir v =
    if load32 k.mem (tablesSlot dir (tableIndex v)) = 0 then 0
    else pagesSlot (load32 k.mem (tablesSlot dir (tableIndex v))) (pageIndex v) := by
  by_cases h : load32 k.mem (tablesSlot dir (tableIndex v)) = 0
  · have hfind : findPage v dir k = .ok (0, k) := by
      unfold findPage getPage
      dsimp only
      rw [if_neg (not_not.mpr h), if_neg (by decide)]
    rw [pageFor, hfind, if_pos h]
  · rw [pageFor, findPage, getPage_of_table h, if_neg h]

theorem pageFor_zero_iff : pageFor k dir v = 0 ↔ load32 k.mem (tablesSlot dir (tableIndex v)) = 0 := by
  rw [pageFor_eq]
  split
  · next h => simp [h]
  · next h => exact iff_of_false (by unfold pagesSlot; omega) h

theorem entryMapping_missing (h : pageFor k dir v = 0) : entryMapping k dir v = none := by
  unfold entryMapping
  exact if_neg fun hp => hp.1 h

theorem entryMapping_page (h : pageFor k dir v = page) (hne : page ≠ 0) :
    entryMapping k dir v = if (loadPage k.mem page).present = 1 then
      some ⟨(loadPage k.mem page).frame * 0x1000 + v % 0x1000, (loadPage k.mem page).rw = 1,
        (loadPage k.mem page).user = 1⟩ else none := by
  unfold entryMapping
  dsimp only
  rw [h]
  by_cases hp : (loadPage k.mem page).present = 1
  · rw [if_pos ⟨hne, hp⟩, if_pos hp]
  · rw [if_neg fun hboth => hp hboth.2, if_neg hp]

/-- Where the views agree on the tables, they agree on every address. -/
theorem Coherent.walk_eq (h : Coherent k.mem dir) (hv : v < 4294967296) :
    walk k.mem (tablesPhysicalSlot dir 0) v = entryMapping k dir v := by
  have ht := tableIndex_lt hv
  obtain ⟨t, htdef⟩ : ∃ t, t = load32 k.mem (tablesSlot dir (tableIndex v)) := ⟨_, rfl⟩
  have haligned := h.tables _ ht
  have hslot : directorySlot (tablesPhysicalSlot dir 0) v = tablesPhysicalSlot dir (tableIndex v) := by
    have hdir := h.aligned
    have hbase : base (tablesPhysicalSlot dir 0) = dir + 4096 := base_of_dvd (by unfold tablesPhysicalSlot; omega)
    rw [directorySlot, hbase]
    rfl
  have hentry := h.physical _ ht
  rw [← htdef] at haligned hentry
  by_cases hzero : t = 0
  · rw [if_pos hzero] at hentry
    rw [entryMapping_missing (pageFor_zero_iff.mpr (htdef.symm.trans hzero))]
    exact walk_absent (by rw [hslot, hentry]; rfl)
  · rw [if_neg hzero, or_flags haligned] at hentry
    obtain ⟨hpresent, hwritable, huser⟩ := testBit_flags haligned
    have hpage : tableSlot (t + 7) v = pagesSlot t (pageIndex v) := by
      rw [tableSlot, base_add haligned (by norm_num)]
      rfl
    have hfor : pageFor k dir v = pagesSlot t (pageIndex v) := by
      rw [pageFor_eq, ← htdef, if_neg hzero]
    have hne : pagesSlot t (pageIndex v) ≠ 0 := by
      unfold pagesSlot
      omega
    obtain ⟨hbase, h0, h1, h2⟩ := loadPage_bits k.mem (pagesSlot t (pageIndex v))
    rw [walk_table (by rw [hslot, hentry]) hpresent, hpage, hwritable, huser, hbase, h0, h1, h2,
      entryMapping_page hfor hne, Bool.true_and, Bool.true_and]
    by_cases hp : (loadPage k.mem (pagesSlot t (pageIndex v))).present = 1
    · rw [if_pos hp, if_pos (decide_eq_true hp)]
    · rw [if_neg hp, if_neg (by rwa [decide_eq_true_eq])]

/-! ## Calls -/

/-- A call on the directory, or on a page entry that `get_page` returned. -/
inductive PagingCall
  | getPage (address : BitVec 32) (make : ℕ)
  | allocFrame (page isKernel isWriteable : ℕ)
  | freeFrame (page : ℕ)

def PagingCall.run (fuel dir : ℕ) (k : Kernel) : PagingCall → Result Kernel
  | .getPage address make => do
    let (_, k) ← PandaOS.getPage (kmallocAp fuel) address.toNat make dir k
    return k
  | .allocFrame page isKernel isWriteable => PandaOS.allocFrame page isKernel isWriteable k
  | .freeFrame page => .ok (PandaOS.freeFrame page k)

def PagingCall.Step (dir : ℕ) (k : Kernel) (c : PagingCall) (k' : Kernel) : Prop := ∃ fuel, c.run fuel dir k = .ok k'

/-- An entry of a table of the directory. -/
def IsEntry (dir : ℕ) (k : Kernel) (page : ℕ) : Prop :=
  ∃ t < 1024, ∃ j < 1024, load32 k.mem (tablesSlot dir t) ≠ 0 ∧ page = pagesSlot (load32 k.mem (tablesSlot dir t)) j

/-- The placement address does not wrap, the entries are entries, and the frame that `alloc_frame` finds has its bit
in the 128 bytes that `initialise_paging` has for the bitmap. -/
def PagingCall.Guard (dir : ℕ) (k : Kernel) : PagingCall → Prop
  | .getPage address make => load32 k.mem (tablesSlot dir (tableIndex address.toNat)) = 0 → make ≠ 0 →
      pageUp k.placementAddress + sizeofPageTable < 4294967296
  | .allocFrame page _ _ => IsEntry dir k page ∧ ∀ f, firstFrame k = some f → f < 1024
  | .freeFrame page => IsEntry dir k page

/-- Before the heap exists: a cleared directory at a page boundary below the placement address, with the bitmap below it. -/
structure EmptyDirectory (dir : ℕ) (k : Kernel) : Prop where
  kheap : k.kheap = none
  aligned : dir % 0x1000 = 0
  bitmap : k.frames + 128 ≤ dir
  below : dir + sizeofPageDirectory ≤ k.placementAddress
  zero : ∀ t < 1024, load32 k.mem (tablesSlot dir t) = 0 ∧ load32 k.mem (tablesPhysicalSlot dir t) = 0

/-- The invariant of the runs. -/
structure EarlyPaging (dir : ℕ) (k : Kernel) : Prop where
  coherent : Coherent k.mem dir
  bitmap : k.frames + 128 ≤ dir
  placed : ∃ requested, TablesPlaced dir ⟨k, requested⟩

variable {c : PagingCall} {fuel make isKernel isWriteable f : ℕ} {address : BitVec 32}

theorem EmptyDirectory.early (h : EmptyDirectory dir k) : EarlyPaging dir k := by
  have hcleared : ClearedDirectory dir ⟨k, []⟩ := ⟨h.kheap, h.below, fun t ht => (h.zero t ht).1, rfl⟩
  refine ⟨⟨h.aligned, fun t ht => ?_, fun t ht => ?_⟩, h.bitmap, _, hcleared.placed⟩
  · rw [(h.zero t ht).1]
  · rw [(h.zero t ht).1, (h.zero t ht).2]
    rfl

/-- Memory outside the directory. -/
theorem Coherent.congr (h : Coherent m dir) (hm : SameOn m m' dir (dir + 8192)) : Coherent m' dir := by
  have htable : ∀ t < 1024, load32 m' (tablesSlot dir t) = load32 m (tablesSlot dir t) := fun t ht =>
    hm.load32_eq (by unfold tablesSlot; omega) (by unfold tablesSlot; omega)
  have hphysical : ∀ t < 1024, load32 m' (tablesPhysicalSlot dir t) = load32 m (tablesPhysicalSlot dir t) := fun t ht =>
    hm.load32_eq (by unfold tablesPhysicalSlot; omega) (by unfold tablesPhysicalSlot; omega)
  refine ⟨h.aligned, fun t ht => ?_, fun t ht => ?_⟩
  · rw [htable t ht]
    exact h.tables t ht
  · rw [htable t ht, hphysical t ht]
    exact h.physical t ht

/-! ## get_page -/

/-- What `get_page` stores in `tables_physical` for a table that it makes. -/
theorem getPage_physical {ap : KmallocAp} {table tmp : ℕ} {k1 : Kernel} (hzero : load32 k.mem (tablesSlot dir (tableIndex v)) = 0)
    (hmake : make ≠ 0) (hap : ap sizeofPageTable k = .ok ((table, tmp), k1))
    (hrun : getPage ap v make dir k = .ok (page, k')) :
    load32 k'.mem (tablesPhysicalSlot dir (tableIndex v)) = (tmp ||| 0x7) % 4294967296 := by
  unfold getPage at hrun
  dsimp only at hrun
  rw [if_neg (not_not.mpr hzero), if_pos hmake, hap, ok_bind] at hrun
  cases hrun
  exact load32_store32_self _ _ _

/-- A table was made for `v`, empty. -/
structure TableAdded (dir v e : ℕ) (k k' : Kernel) : Prop where
  free : load32 k.mem (tablesSlot dir (tableIndex v)) = 0
  aligned : e ≠ 0 ∧ e % 0x1000 = 0
  slot : load32 k'.mem (tablesSlot dir (tableIndex v)) = e
  physical : load32 k'.mem (tablesPhysicalSlot dir (tableIndex v)) = e ||| 0x7
  empty : ∀ j < 1024, load32 k'.mem (pagesSlot e j) = 0
  tables : ∀ u < 1024, u ≠ tableIndex v → load32 k'.mem (tablesSlot dir u) = load32 k.mem (tablesSlot dir u) ∧
    load32 k'.mem (tablesPhysicalSlot dir u) = load32 k.mem (tablesPhysicalSlot dir u)
  entries : ∀ u < 1024, load32 k.mem (tablesSlot dir u) ≠ 0 → ∀ j < 1024,
    loadPage k'.mem (pagesSlot (load32 k.mem (tablesSlot dir u)) j) = loadPage k.mem (pagesSlot (load32 k.mem (tablesSlot dir u)) j)

theorem TableAdded.coherent {e : ℕ} (h : TableAdded dir v e k k') (hk : Coherent k.mem dir) : Coherent k'.mem dir := by
  refine ⟨hk.aligned, fun t ht => ?_, fun t ht => ?_⟩
  · by_cases heq : t = tableIndex v
    · rw [heq, h.slot]
      exact h.aligned.2
    · rw [(h.tables t ht heq).1]
      exact hk.tables t ht
  · by_cases heq : t = tableIndex v
    · rw [heq, h.slot, h.physical, if_neg h.aligned.1]
    · rw [(h.tables t ht heq).1, (h.tables t ht heq).2]
      exact hk.physical t ht

/-- An empty table maps nothing, so no address is mapped otherwise than before. -/
theorem TableAdded.entryMapping_eq {e w : ℕ} (h : TableAdded dir v e k k') (hw : w < 4294967296) :
    entryMapping k' dir w = entryMapping k dir w := by
  have ht := tableIndex_lt hw
  have hj := pageIndex_lt w
  by_cases heq : tableIndex w = tableIndex v
  · have hfor : pageFor k' dir w = pagesSlot e (pageIndex w) := by
      rw [pageFor_eq, heq, h.slot, if_neg h.aligned.1]
    have hne : pagesSlot e (pageIndex w) ≠ 0 := by
      have := h.aligned.1
      unfold pagesSlot
      omega
    have hnot : ¬ (loadPage k'.mem (pagesSlot e (pageIndex w))).present = 1 := by
      rw [loadPage, h.empty _ hj]
      decide
    have hmissing : pageFor k dir w = 0 := by
      rw [pageFor_zero_iff, heq]
      exact h.free
    rw [entryMapping_page hfor hne, if_neg hnot, entryMapping_missing hmissing]
  · obtain ⟨htable, -⟩ := h.tables _ ht heq
    by_cases hzero : load32 k.mem (tablesSlot dir (tableIndex w)) = 0
    · rw [entryMapping_missing (pageFor_zero_iff.mpr hzero), entryMapping_missing (pageFor_zero_iff.mpr (htable.trans hzero))]
    · have hfor : pageFor k dir w = pagesSlot (load32 k.mem (tablesSlot dir (tableIndex w))) (pageIndex w) := by
        rw [pageFor_eq, if_neg hzero]
      have hfor' : pageFor k' dir w = pagesSlot (load32 k.mem (tablesSlot dir (tableIndex w))) (pageIndex w) := by
        rw [pageFor_eq, htable, if_neg hzero]
      have hne : pagesSlot (load32 k.mem (tablesSlot dir (tableIndex w))) (pageIndex w) ≠ 0 := by
        unfold pagesSlot
        omega
      rw [entryMapping_page hfor hne, entryMapping_page hfor' hne, h.entries _ ht hzero _ hj]

theorem EarlyPaging.getPage_new (h : EarlyPaging dir k) (hzero : load32 k.mem (tablesSlot dir (tableIndex address.toNat)) = 0)
    (hmake : make ≠ 0) (hwrap : pageUp k.placementAddress + sizeofPageTable < 4294967296)
    (hrun : getPage (kmallocAp fuel) address.toNat make dir k = .ok (page, k')) :
    ∃ e, e = pageUp k.placementAddress ∧ TableAdded dir address.toNat e k k' ∧ EarlyPaging dir k' ∧
      SameOff k.mem k'.mem dir (e + sizeofPageTable) := by
  obtain ⟨requested, hplaced⟩ := h.placed
  have ht := tableIndex_lt address.isLt
  have hsize : sizeofPageTable = 4096 := rfl
  obtain ⟨e, he⟩ : ∃ e, e = pageUp k.placementAddress := ⟨_, rfl⟩
  have hup := pageUp_bounds k.placementAddress
  have hbelow : dir + 8196 ≤ k.placementAddress := hplaced.below
  rw [← he] at hup hwrap
  have hap : kmallocAp fuel sizeofPageTable k = .ok ((e, e), k.withPlacement (e + sizeofPageTable)) :=
    kmallocInt_aligned hplaced.kheap he.symm (by omega)
  obtain ⟨m, hfresh, hslot, hempty, hoff⟩ :=
    getPage_fresh fuel hplaced.kheap he.symm (by omega) hzero (by omega : dir + 8196 ≤ e) address.isLt
  have hphysical := getPage_physical hzero hmake hap hrun
  rw [getPage_make hmake, hfresh] at hrun
  cases hrun
  have hadded : TableAdded dir address.toNat e k ((k.withPlacement (e + 4096)).withMem m) := by
    refine ⟨hzero, ⟨by omega, by omega⟩, hslot, ?_, hempty, fun u hu hne => ⟨?_, ?_⟩, fun u hu hne j hj => ?_⟩
    · rw [hphysical, or_flags (by omega), Nat.mod_eq_of_lt (by omega)]
    · have hsame : SameOn k.mem m (tablesSlot dir u) (tablesSlot dir u + 4) := by
        intro x hl hh
        unfold tablesSlot at hl hh
        exact hoff x (by unfold tablesSlot; omega) (by unfold tablesPhysicalSlot; omega) (by omega)
      exact hsame.load32_eq le_rfl le_rfl
    · have hsame : SameOn k.mem m (tablesPhysicalSlot dir u) (tablesPhysicalSlot dir u + 4) := by
        intro x hl hh
        unfold tablesPhysicalSlot at hl hh
        exact hoff x (by unfold tablesSlot; omega) (by unfold tablesPhysicalSlot; omega) (by omega)
      exact hsame.load32_eq le_rfl le_rfl
    · have hbounds : _ ∧ dir + 8196 ≤ load32 k.mem (tablesSlot dir u) ∧
          load32 k.mem (tablesSlot dir u) + 4096 ≤ k.placementAddress := hplaced.placed u hu hne
      have hsame : SameOn k.mem m (pagesSlot (load32 k.mem (tablesSlot dir u)) j)
          (pagesSlot (load32 k.mem (tablesSlot dir u)) j + 4) := by
        intro x hl hh
        unfold pagesSlot at hl hh
        exact hoff x (by unfold tablesSlot; omega) (by unfold tablesPhysicalSlot; omega) (by omega)
      exact congrArg Page.ofWord (hsame.load32_eq le_rfl le_rfl)
  obtain ⟨page', s', hcall, hfound⟩ := hplaced.call_new (a := address) fuel hzero hmake (by rw [← he]; omega)
  have hcall' : (⟨k, requested⟩ : Lookup).call fuel dir address make = .ok (pagesSlot e (pageIndex address.toNat),
      ⟨(k.withPlacement (e + 4096)).withMem m, tableIndex address.toNat :: requested⟩) := by
    rw [Lookup.call, getPage_make hmake, hfresh, if_pos hmake]
    rfl
  rw [hcall'] at hcall
  cases hcall
  refine ⟨e, he, hadded, ⟨hadded.coherent h.coherent, h.bitmap, _, hfound.placed⟩, fun x hx => ?_⟩
  exact hoff x (by unfold tablesSlot; omega) (by unfold tablesPhysicalSlot; omega) (by omega)

theorem EarlyPaging.getPage (h : EarlyPaging dir k) (hguard : (PagingCall.getPage address make).Guard dir k)
    (hrun : (PagingCall.getPage address make).run fuel dir k = .ok k') :
    EarlyPaging dir k' ∧ ∀ w < 4294967296, entryMapping k' dir w = entryMapping k dir w := by
  obtain ⟨⟨page, k1⟩, hget, hret⟩ := bind_eq_ok.mp hrun
  cases hret
  by_cases hzero : load32 k.mem (tablesSlot dir (tableIndex address.toNat)) = 0
  · by_cases hmake : make = 0
    · unfold PandaOS.getPage at hget
      dsimp only at hget
      rw [if_neg (not_not.mpr hzero), if_neg (not_not.mpr hmake)] at hget
      cases hget
      exact ⟨h, fun _ _ => rfl⟩
    · obtain ⟨e, -, hadded, hearly, -⟩ := h.getPage_new hzero hmake (hguard hzero hmake) hget
      exact ⟨hearly, fun w hw => hadded.entryMapping_eq hw⟩
  · rw [getPage_of_table hzero] at hget
    cases hget
    exact ⟨h, fun _ _ => rfl⟩

/-! ## alloc_frame and free_frame -/

/-- Only the page entry and the first 128 bytes of the bitmap were written. -/
structure EntryWritten (page : ℕ) (p : Page) (k k' : Kernel) : Prop where
  fields : k' = k.withMem k'.mem
  entry : loadPage k'.mem page = p
  rest : ∀ x, (x < page ∨ page + 4 ≤ x) → (x < k.frames ∨ k.frames + 128 ≤ x) → k'.mem x = k.mem x

/-- A bit of the bitmap and then the entry. -/
theorem entryWritten {w u : ℕ} {p : Page} (hw : k.frames ≤ w ∧ w + 4 ≤ k.frames + 128) (hp : p.Fits) :
    EntryWritten page p k (k.withMem (storePage (store32 k.mem w u) page p)) :=
  ⟨rfl, loadPage_storePage_self _ _ hp, fun x hx hb =>
    ((sameOff_store32 le_rfl le_rfl : SameOff _ (storePage _ page p) page (page + 4)) x hx).trans
      (store32_of_off (by omega))⟩

theorem allocFrame_written (hpage : k.frames + 128 ≤ page) (hlow : ∀ f, firstFrame k = some f → f < 1024)
    (hrun : allocFrame page isKernel isWriteable k = .ok k') (hzero : (loadPage k.mem page).frame = 0) :
    ∃ f, firstFrame k = some f ∧ EntryWritten page ((loadPage k.mem page).allocated isKernel isWriteable f) k k' := by
  rcases allocFrame_cases hrun with ⟨hne, -⟩ | ⟨-, f, hf, rfl⟩
  · exact absurd hzero hne
  · have hflt := hlow f hf
    have hdiv : f * 0x1000 % 4294967296 / 0x1000 = f := by omega
    have hword : k.frames ≤ frameWord k (indexFromBit f) ∧ frameWord k (indexFromBit f) + 4 ≤ k.frames + 128 := by
      unfold frameWord indexFromBit
      omega
    have hset := sameOff_setFrame (f * 0x1000 % 4294967296) k
    rw [hdiv] at hset
    have hsame : loadPage (setFrame (f * 0x1000 % 4294967296) k).mem page = loadPage k.mem page :=
      congrArg Page.ofWord (hset.load32_eq (Or.inr (by omega)))
    refine ⟨f, hf, ?_⟩
    rw [hsame]
    obtain ⟨u, hu⟩ : ∃ u, (setFrame (f * 0x1000 % 4294967296) k).mem = store32 k.mem (frameWord k (indexFromBit f)) u := by
      unfold setFrame
      dsimp only
      rw [hdiv]
      exact ⟨_, rfl⟩
    rw [hu]
    exact entryWritten hword (Page.allocated_fits (loadPage_fits _ _) (by omega))

theorem freeFrame_written (hpage : k.frames + 128 ≤ page) (hne : (loadPage k.mem page).frame ≠ 0) :
    EntryWritten page { loadPage k.mem page with frame := 0 } k (freeFrame page k) := by
  have hfits := loadPage_fits k.mem page
  have hframe := hfits.frame
  have hword : k.frames ≤ frameWord k (indexFromBit ((loadPage k.mem page).frame / 0x1000)) ∧
      frameWord k (indexFromBit ((loadPage k.mem page).frame / 0x1000)) + 4 ≤ k.frames + 128 := by
    unfold frameWord indexFromBit
    omega
  have hclear := sameOff_clearFrame (loadPage k.mem page).frame k
  have hsame : loadPage (clearFrame (loadPage k.mem page).frame k).mem page = loadPage k.mem page :=
    congrArg Page.ofWord (hclear.load32_eq (Or.inr (by omega)))
  have hrun : freeFrame page k = (clearFrame (loadPage k.mem page).frame k).withMem
      (storePage (clearFrame (loadPage k.mem page).frame k).mem page { loadPage k.mem page with frame := 0 }) := by
    simp only [freeFrame, if_neg hne, hsame]
  rw [hrun]
  exact entryWritten hword ⟨hfits.1, hfits.2, hfits.3, hfits.4, hfits.5, hfits.6, by norm_num⟩

/-- An entry lies behind the directory, in a table. -/
theorem EarlyPaging.entry (h : EarlyPaging dir k) (hpage : IsEntry dir k page) : dir + 8196 ≤ page ∧ page % 4 = 0 := by
  obtain ⟨t, ht, j, hj, hne, rfl⟩ := hpage
  obtain ⟨requested, hplaced⟩ := h.placed
  have hbounds : _ ∧ dir + 8196 ≤ load32 k.mem (tablesSlot dir t) ∧ _ := hplaced.placed t ht hne
  have haligned := h.coherent.tables t ht
  unfold pagesSlot
  omega

theorem pageFor_isEntry (hv : v < 4294967296) (hne : pageFor k dir v ≠ 0) : IsEntry dir k (pageFor k dir v) := by
  have htable := pageFor_zero_iff.not.mp hne
  exact ⟨_, tableIndex_lt hv, _, pageIndex_lt v, htable, by rw [pageFor_eq, if_neg htable]⟩

theorem EarlyPaging.written {p : Page} (h : EarlyPaging dir k) (hpage : IsEntry dir k page) (hw : EntryWritten page p k k') :
    EarlyPaging dir k' ∧ (∀ v < 4294967296, pageFor k' dir v = pageFor k dir v) ∧
      ∀ v < 4294967296, pageFor k dir v ≠ page → entryMapping k' dir v = entryMapping k dir v := by
  obtain ⟨hbehind, hmod⟩ := h.entry hpage
  have hbitmap := h.bitmap
  have hdirectory : SameOn k.mem k'.mem dir (dir + 8192) := fun x hl hh => hw.rest x (by omega) (by omega)
  have htable : ∀ t < 1024, load32 k'.mem (tablesSlot dir t) = load32 k.mem (tablesSlot dir t) := fun t ht =>
    hdirectory.load32_eq (by unfold tablesSlot; omega) (by unfold tablesSlot; omega)
  have hfor : ∀ v < 4294967296, pageFor k' dir v = pageFor k dir v := by
    intro v hv
    rw [pageFor_eq, pageFor_eq, htable _ (tableIndex_lt hv)]
  obtain ⟨requested, hplaced⟩ := h.placed
  refine ⟨⟨h.coherent.congr hdirectory, ?_, requested, ?_⟩, hfor, fun v hv hne => ?_⟩
  · rw [hw.fields]
    exact hbitmap
  · have htables : ∀ t < 1024, (⟨k', requested⟩ : Lookup).table dir t = (⟨k, requested⟩ : Lookup).table dir t := htable
    refine ⟨?_, ?_, fun t ht => ?_, fun t ht hne => ?_, fun t ht u hu htu hnet hneu => ?_⟩
    · rw [hw.fields]
      exact hplaced.kheap
    · rw [hw.fields]
      exact hplaced.below
    · rw [htables t ht]
      exact hplaced.requested t ht
    · rw [htables t ht] at hne ⊢
      rw [hw.fields]
      exact hplaced.placed t ht hne
    · rw [htables t ht] at hnet ⊢
      rw [htables u hu] at hneu ⊢
      exact hplaced.disjoint t ht u hu htu hnet hneu
  · by_cases hzero : pageFor k dir v = 0
    · rw [entryMapping_missing hzero, entryMapping_missing ((hfor v hv).trans hzero)]
    · obtain ⟨hbehind', hmod'⟩ := h.entry (pageFor_isEntry hv hzero)
      have hsame : SameOn k.mem k'.mem (pageFor k dir v) (pageFor k dir v + 4) := fun x hl hh =>
        hw.rest x (by omega) (by omega)
      have hload : loadPage k'.mem (pageFor k dir v) = loadPage k.mem (pageFor k dir v) :=
        congrArg Page.ofWord (hsame.load32_eq le_rfl le_rfl)
      rw [entryMapping_page rfl hzero, entryMapping_page (hfor v hv) hzero, hload]

theorem EarlyPaging.step (h : EarlyPaging dir k) (hguard : c.Guard dir k) (hstep : c.Step dir k k') : EarlyPaging dir k' := by
  obtain ⟨fuel, hrun⟩ := hstep
  have hbitmap := h.bitmap
  cases c with
  | getPage address make => exact (h.getPage hguard hrun).1
  | allocFrame page isKernel isWriteable =>
    obtain ⟨hpage, hlow⟩ := hguard
    obtain ⟨hbehind, -⟩ := h.entry hpage
    by_cases hzero : (loadPage k.mem page).frame = 0
    · obtain ⟨f, -, hw⟩ := allocFrame_written (by omega) hlow hrun hzero
      exact (h.written hpage hw).1
    · rcases allocFrame_cases hrun with ⟨-, rfl⟩ | ⟨hfree, -⟩
      · exact h
      · exact absurd hfree hzero
  | freeFrame page =>
    cases hrun
    obtain ⟨hbehind, -⟩ := h.entry hguard
    by_cases hzero : (loadPage k.mem page).frame = 0
    · rw [freeFrame_of_zero hzero]
      exact h
    · exact (h.written hguard (freeFrame_written (by omega) hzero)).1

end PandaOS

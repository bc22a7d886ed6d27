import PandaOS.Memory.Contraction
import PandaOS.Memory.FullBlocks
import PandaOS.Memory.AllocEnds

/-! What `expand` does to the length and the pages of the heap. `new_size&0xFFFFF000` is the part that is a whole
number of pages, not the remainder, so a request for whole pages gets one page too many and a request for
less than a page is not rounded. The loop maps what it visits as long as frames are left for it. -/
namespace PandaOS
open ByteMemory Word32
set_option autoImplicit false
set_option maxHeartbeats 250000

/-- The least whole number of pages that holds `n` bytes. -/
def wholePages (n : ℕ) : ℕ := (n + 4095) / 4096 * 4096

/-- The pages of the heap up to the length `len` have their tables, and each has an entry of its own. -/
structure GrowableHeap (k : Kernel) (heap : Heap) (lo hi len : ℕ) : Prop where
  kheap : k.kheap = some heap
  paged : Paged k lo hi
  bound : heap.startAddress + len < 4294967296
  tables : TablesPresent k heap.startAddress (heap.startAddress + len)
  apart : ∀ i < len, ∀ j < len, i % 4096 = 0 → j % 4096 = 0 → i ≠ j →
    heapPage k heap i + 4 ≤ heapPage k heap j ∨ heapPage k heap j + 4 ≤ heapPage k heap i

/-- How many of the `n` pages from offset `i` on hold no frame. -/
def unmapped (k : Kernel) (heap : Heap) : ℕ → ℕ → ℕ
  | 0, _ => 0
  | n + 1, i => (if heapFrame k heap i = 0 then 1 else 0) + unmapped k heap n (i + 4096)

/-- There are frames for the pages that hold none. Frame 0 would look like no frame. -/
def FramesFor (k : Kernel) (needed : ℕ) : Prop :=
  needed ≤ (freeFrames k).card ∧ (needed = 0 ∨ frameUsed k 0 = true)

/-- The heap has the least length that holds `n` bytes, and frames in all its new pages. -/
structure Expands (k : Kernel) (heap : Heap) (n : ℕ) (k' : Kernel) : Prop where
  installed : k'.kheap = some (heap.withEnd (heap.startAddress + wholePages n))
  mapped : ∀ i, heap.endAddress - heap.startAddress ≤ i → i < wholePages n → i % 4096 = 0 →
    heapFrame k' heap i ≠ 0
  kept : ∀ i < wholePages n, i % 4096 = 0 → heapFrame k heap i ≠ 0 → heapFrame k' heap i = heapFrame k heap i

variable {k k' k1 : Kernel} {heap : Heap} {lo hi len n i j f fuel newSize : ℕ} {ap : KmallocAp}

theorem GrowableHeap.touch (h : GrowableHeap k heap lo hi len) (ht : PageTouch k k' lo hi) :
    GrowableHeap k' heap lo hi len := by
  refine ⟨ht.kheap.trans h.kheap, h.paged.touch ht, h.bound, h.tables.touch ht h.bound.le, ?_⟩
  intro i hi j hj hmi hmj hne
  have hbound := h.bound
  rw [heapPage_touch ht (by omega), heapPage_touch ht (by omega)]
  exact h.apart i hi j hj hmi hmj hne

theorem GrowableHeap.isPage (h : GrowableHeap k heap lo hi len) (hi' : i < len) : IsPage k (heapPage k heap i) := by
  have hbound := h.bound
  exact heapPage_isPage (by omega) (h.tables _ (by omega) (by omega))

theorem unmapped_congr (hsame : ∀ j, i ≤ j → j < i + 4096*n → j % 4096 = i % 4096 →
    heapFrame k' heap j = heapFrame k heap j) : unmapped k' heap n i = unmapped k heap n i := by
  induction n generalizing i with
  | zero => rfl
  | succ n ih =>
    rw [unmapped, unmapped, hsame i le_rfl (by omega) rfl,
      ih fun j hl hh hmod => hsame j (by omega) (by omega) (by omega)]

/-! ## One page -/

/-- A page without a frame gets the lowest free one; no other page changes. -/
theorem GrowableHeap.allocFrame_page (h : GrowableHeap k heap lo hi len) (hi' : i < len) (hmod : i % 4096 = 0)
    (hzero : heapFrame k heap i = 0) (hfirst : firstFrame k = some f) (isKernel isWriteable : ℕ) :
    ∃ k1, allocFrame (heapPage k heap i) isKernel isWriteable k = .ok k1 ∧ PageTouch k k1 lo hi ∧
      heapFrame k1 heap i = f ∧
      (∀ j < len, j % 4096 = 0 → j ≠ i → heapFrame k1 heap j = heapFrame k heap j) ∧
      (∀ g < 4096, frameUsed k1 g = (decide (g = f) || frameUsed k g)) := by
  have hbound := h.bound
  have hcount := h.paged.frameCount
  have hapart := h.paged.apart (h.isPage hi')
  obtain ⟨hlt, -, -⟩ := firstFrame_spec hfirst
  obtain ⟨k1, hk1⟩ : ∃ k1, k1 = k.withMem (storePage (setFrame (f * 0x1000 % 4294967296) k).mem (heapPage k heap i)
    ((loadPage (setFrame (f * 0x1000 % 4294967296) k).mem (heapPage k heap i)).allocated isKernel isWriteable f)) :=
    ⟨_, rfl⟩
  have hrun : allocFrame (heapPage k heap i) isKernel isWriteable k = .ok k1 := by
    rw [hk1]
    exact allocFrame_some hzero hfirst (by omega) isKernel isWriteable
  have htouch := allocFrame_touch h.paged (h.isPage hi') hrun
  obtain ⟨-, -, hpage, hbits, hwrites⟩ := allocated_spec hcount hfirst hapart.2.2 hk1
  refine ⟨k1, hrun, htouch, ?_, fun j hj hmj hne => ?_, hbits⟩
  · rw [heapFrame, heapPage_touch htouch (by omega), hpage]
    rfl
  · have hj' := (h.paged.apart (h.isPage hj)).2.2
    have hoff := h.apart j hj i hi' hmj hmod hne
    unfold BitmapApart at hj'
    have hsame : SameOn k.mem k1.mem (heapPage k heap j) (heapPage k heap j + 4) :=
      fun x h1 h2 => hwrites x (by omega) (by omega)
    rw [heapFrame, heapPage_touch htouch (by omega), heapFrame, loadPage, loadPage, hsame.load32_eq le_rfl le_rfl]

/-- The frames that are left after one was taken. -/
theorem framesFor_taken (hcount : k.frameCount ≤ 4096) (hsame : k1.frameCount = k.frameCount)
    (hfirst : firstFrame k = some f) (hbits : ∀ g < 4096, frameUsed k1 g = (decide (g = f) || frameUsed k g)) :
    FramesFor k (n + 1) ↔ f ≠ 0 ∧ FramesFor k1 n := by
  obtain ⟨hlt, hfree, hlowest⟩ := firstFrame_spec hfirst
  have hcard := card_freeFrames_taken hcount hsame hfirst hbits
  have hzero := hbits 0 (by norm_num)
  constructor
  · rintro ⟨hcards, hor⟩
    have hused : frameUsed k 0 = true := hor.resolve_left (Nat.succ_ne_zero n)
    refine ⟨?_, by omega, Or.inr ?_⟩
    · rintro rfl
      rw [hused] at hfree
      cases hfree
    · rw [hzero, hused, Bool.or_true]
  · rintro ⟨hne, hcards, -⟩
    exact ⟨by omega, Or.inr (hlowest 0 (Nat.pos_of_ne_zero hne))⟩

theorem framesFor_exhausted (hfirst : firstFrame k = none) : ¬ FramesFor k (n + 1) := by
  rintro ⟨hcards, -⟩
  obtain ⟨f, hf⟩ := firstFrame_of_free (k := k) (by omega)
  rw [hfirst] at hf
  cases hf

/-! ## The loop -/

theorem GrowableHeap.expandLoop_succ (h : GrowableHeap k heap lo hi len) (ap : KmallocAp) (hlt : i < newSize)
    (hle : newSize ≤ len) (hnext : i + 4096 < 4294967296) (n : ℕ) :
    expandLoop ap newSize (n + 1) i k =
      allocFrame (heapPage k heap i) (if heap.supervisor ≠ 0 then 1 else 0) (if heap.readonly ≠ 0 then 0 else 1) k >>=
        fun k => expandLoop ap newSize n (i + 4096) k := by
  have hbound := h.bound
  have haddr : add32 heap.startAddress i = heap.startAddress + i := add32_of_lt (by omega)
  have hstep : add32 i PAGE_SIZE = i + 4096 := add32_of_lt hnext
  have htable := h.tables (heap.startAddress + i) (by omega) (by omega)
  have hget : getPage ap (heap.startAddress + i) 1 k.kernelDirectory k = .ok (heapPage k heap i, k) :=
    getPage_of_table htable
  rw [expandLoop, if_pos hlt, heapOf_eq h.kheap, ok_bind, haddr, hget, ok_bind, hstep]

/-- What the loop does not have to map stays as it is. -/
theorem GrowableHeap.expandLoop_frames (h : GrowableHeap k heap lo hi len) (hmod : i % 4096 = 0)
    (hsize : newSize = i + 4096*n) (hle : newSize ≤ len) (hlast : newSize + 4096 ≤ 4294967296)
    (hrun : expandLoop ap newSize n i k = .ok k') : PageTouch k k' lo hi ∧
      ∀ j < len, j % 4096 = 0 → (heapFrame k heap j ≠ 0 ∨ j < i) → heapFrame k' heap j = heapFrame k heap j := by
  induction n generalizing i k with
  | zero =>
    cases hrun
    exact ⟨PageTouch.refl _ _ _, fun _ _ _ _ => rfl⟩
  | succ n ih =>
    rw [h.expandLoop_succ ap (by omega) hle (by omega)] at hrun
    obtain ⟨k1, halloc, hrest⟩ := bind_eq_ok.mp hrun
    have htouch := allocFrame_touch h.paged (h.isPage (by omega)) halloc
    obtain ⟨htouch', hframes⟩ := ih (h.touch htouch) (by omega) (by omega) hrest
    have hstep : ∀ j < len, j % 4096 = 0 → (heapFrame k heap j ≠ 0 ∨ j < i) →
        heapFrame k1 heap j = heapFrame k heap j := by
      intro j hj hmj hor
      rcases allocFrame_cases halloc with ⟨-, rfl⟩ | ⟨hzero, f, hfirst, -⟩
      · rfl
      · have hzero' : heapFrame k heap i = 0 := hzero
        obtain ⟨k2, halloc2, -, -, hothers, -⟩ := h.allocFrame_page (by omega) hmod hzero' hfirst
          (if heap.supervisor ≠ 0 then 1 else 0) (if heap.readonly ≠ 0 then 0 else 1)
        obtain rfl := Except.ok.inj (halloc.symm.trans halloc2)
        refine hothers j hj hmj ?_
        rintro rfl
        exact hor.elim (fun hne => hne hzero') (lt_irrefl _)
    refine ⟨htouch.trans htouch', fun j hj hmj hor => ?_⟩
    have hfirst := hstep j hj hmj hor
    rw [hframes j hj hmj ?_, hfirst]
    rw [hfirst]
    exact hor.imp_right fun hlt => by omega

/-- The loop maps every page that it visits exactly if there are frames for those that hold none. -/
theorem GrowableHeap.expandLoop_iff (h : GrowableHeap k heap lo hi len) (ap : KmallocAp) (hmod : i % 4096 = 0)
    (hsize : newSize = i + 4096*n) (hle : newSize ≤ len) (hlast : newSize + 4096 ≤ 4294967296) :
    (∃ k', expandLoop ap newSize n i k = .ok k' ∧
      ∀ j, i ≤ j → j < newSize → j % 4096 = 0 → heapFrame k' heap j ≠ 0) ↔ FramesFor k (unmapped k heap n i) := by
  induction n generalizing i k with
  | zero => exact iff_of_true ⟨k, rfl, fun j hl hh => by omega⟩ ⟨Nat.zero_le _, Or.inl rfl⟩
  | succ n ih =>
    have hlt : i < newSize := by omega
    -- the rest of the loop, once the page at `i` holds the frame it will keep
    have hrest : ∀ k1, PageTouch k k1 lo hi → heapFrame k1 heap i ≠ 0 →
        allocFrame (heapPage k heap i) (if heap.supervisor ≠ 0 then 1 else 0) (if heap.readonly ≠ 0 then 0 else 1) k =
          .ok k1 →
        ((∃ k', expandLoop ap newSize (n + 1) i k = .ok k' ∧
          ∀ j, i ≤ j → j < newSize → j % 4096 = 0 → heapFrame k' heap j ≠ 0) ↔
            FramesFor k1 (unmapped k1 heap n (i + 4096))) := by
      intro k1 htouch hframe halloc
      have h1 := h.touch htouch
      rw [← ih h1 (by omega) (by omega), h.expandLoop_succ ap hlt hle (by omega), halloc, ok_bind]
      constructor
      · rintro ⟨k', hrun, hall⟩
        exact ⟨k', hrun, fun j hl hh hmj => hall j (by omega) hh hmj⟩
      · rintro ⟨k', hrun, hall⟩
        refine ⟨k', hrun, fun j hl hh hmj => ?_⟩
        rcases Nat.lt_or_ge j (i + 4096) with hlow | hhigh
        · obtain rfl : j = i := by omega
          have hkept := (h1.expandLoop_frames (by omega) (by omega) hle hlast hrun).2 j (by omega) hmj (Or.inl hframe)
          rw [hkept]
          exact hframe
        · exact hall j hhigh hh hmj
    by_cases hzero : heapFrame k heap i = 0
    · rw [unmapped, if_pos hzero, Nat.add_comm 1]
      cases hfirst : firstFrame k with
      | none =>
        refine iff_of_false ?_ (framesFor_exhausted hfirst)
        rintro ⟨k', hrun, -⟩
        rw [h.expandLoop_succ ap hlt hle (by omega)] at hrun
        obtain ⟨k1, halloc, -⟩ := bind_eq_ok.mp hrun
        rcases allocFrame_cases halloc with ⟨hne, -⟩ | ⟨-, f, hf, -⟩
        · exact hne hzero
        · rw [hfirst] at hf
          cases hf
      | some f =>
        obtain ⟨k1, halloc, htouch, hframe, hothers, hbits⟩ := h.allocFrame_page (by omega) hmod hzero hfirst
          (if heap.supervisor ≠ 0 then 1 else 0) (if heap.readonly ≠ 0 then 0 else 1)
        have hcount : k1.frameCount = k.frameCount := by
          rw [htouch.fields]
          rfl
        have hcongr : unmapped k1 heap n (i + 4096) = unmapped k heap n (i + 4096) :=
          unmapped_congr fun j hl hh hmj => hothers j (by omega) (by omega) (by omega)
        rw [framesFor_taken h.paged.frameCount hcount hfirst hbits, ← hcongr]
        by_cases hf : f = 0
        · -- the page is given frame 0 and keeps looking unmapped
          refine iff_of_false ?_ fun hand => hand.1 hf
          rintro ⟨k', hrun, hall⟩
          rw [h.expandLoop_succ ap hlt hle (by omega), halloc, ok_bind] at hrun
          have hkept := ((h.touch htouch).expandLoop_frames (by omega) (by omega) hle hlast hrun).2 i (by omega) hmod
            (Or.inr (by omega))
          exact hall i le_rfl hlt hmod (hkept.trans (hframe.trans hf))
        · rw [and_iff_right hf]
          exact hrest k1 htouch (by rw [hframe]; exact hf) halloc
    · rw [unmapped, if_neg hzero, Nat.zero_add]
      refine hrest k (PageTouch.refl _ _ _) hzero ?_
      exact if_pos hzero

/-! ## The length -/

/-- A request for more than a page that is no whole number of pages is rounded up to one. -/
theorem roundUp_eq_wholePages (hlow : 0x1000 < n) (hmod : n % 0x1000 ≠ 0) (hn : wholePages n < 4294967296) :
    roundUp n = wholePages n := by
  unfold wholePages at *
  rw [roundUp_eq (by omega) (by omega)]
  omega

/-- Only then does the end come to the least length. -/
theorem end_of_roundUp {start : ℕ} (hpos : 0 < n) (hwhole : start + wholePages n < 4294967296)
    (hend : add32 start (roundUp n) = start + wholePages n) : 0x1000 < n ∧ n % 0x1000 ≠ 0 := by
  unfold wholePages at *
  have hhigh : n &&& 0xFFFFF000 = n / 4096 * 4096 := and_high_page (by omega)
  unfold roundUp add32 PAGE_SIZE at hend
  rw [hhigh] at hend
  split at hend <;> omega

theorem expand_rounded (hk : k.kheap = some heap) (hordered : heap.startAddress ≤ heap.endAddress)
    (hwhole : (heap.endAddress - heap.startAddress) % 4096 = 0) (hn : heap.endAddress - heap.startAddress < n)
    (hmax : heap.startAddress + wholePages n ≤ heap.maxAddress) (hmax32 : heap.maxAddress < 4294967296)
    (hlow : 0x1000 < n) (hmod : n % 0x1000 ≠ 0) (ap : KmallocAp) :
    expand ap n k =
      expandLoop ap (wholePages n) ((wholePages n - (heap.endAddress - heap.startAddress)) / 4096)
        (heap.endAddress - heap.startAddress) k >>= fun k1 => heapOf k1 >>= fun heap1 =>
          .ok (k1.withHeap { heap1 with endAddress := add32 heap1.startAddress (wholePages n) }) := by
  have hle : n ≤ wholePages n ∧ wholePages n % 4096 = 0 := by
    unfold wholePages
    omega
  have hold : sub32 heap.endAddress heap.startAddress = heap.endAddress - heap.startAddress :=
    sub32_of_le hordered (by omega)
  have hround := roundUp_eq_wholePages hlow hmod (by omega)
  have hsum : add32 heap.startAddress (wholePages n) = heap.startAddress + wholePages n := add32_of_lt (by omega)
  have hrounds : (wholePages n - (heap.endAddress - heap.startAddress) + 0xFFF) / 0x1000 =
      (wholePages n - (heap.endAddress - heap.startAddress)) / 4096 := by omega
  rw [expand, heapOf_eq hk, ok_bind, hold, decide_eq_true hn, hround]
  dsimp only
  rw [hsum, decide_eq_true hmax]
  simp only [assert, if_true, ok_bind, hrounds]
  rfl

/-- An expansion to the least length was a request of that kind. -/
theorem expands_sizes (hk : k.kheap = some heap) (hn : heap.endAddress - heap.startAddress < n)
    (hmax : heap.startAddress + wholePages n ≤ heap.maxAddress) (hmax32 : heap.maxAddress < 4294967296)
    (hrun : expand (kmallocAp fuel) n k = .ok k')
    (hinstalled : k'.kheap = some (heap.withEnd (heap.startAddress + wholePages n))) :
    0x1000 < n ∧ n % 0x1000 ≠ 0 := by
  have hle : n ≤ wholePages n := by
    unfold wholePages
    omega
  rw [expand, heapOf_eq hk, ok_bind, assert_bind_eq_ok, assert_bind_eq_ok] at hrun
  obtain ⟨-, -, hrun⟩ := hrun
  obtain ⟨k1, hloop, hrun⟩ := bind_eq_ok.mp hrun
  obtain ⟨heap1, hheap1, hret⟩ := bind_eq_ok.mp hrun
  obtain ⟨heap2, hk2, hstart, -, -⟩ := expandLoop_keeps (fun _ _ _ _ => kmallocAp_keeps) hloop heap hk (by omega)
  obtain rfl := Option.some.inj (hk2.symm.trans (heapOf_ok hheap1))
  cases hret
  have hends := congrArg Heap.endAddress (Option.some.inj hinstalled)
  simp only [hstart] at hends
  exact end_of_roundUp (by omega) (by omega) hends

/-- `expand` gives the heap the least length and frames for it exactly if the request is no whole number of
pages, more than one page, and frames are left. -/
theorem expand_iff (h : GrowableHeap k heap lo hi (wholePages n)) (hordered : heap.startAddress ≤ heap.endAddress)
    (hwhole : (heap.endAddress - heap.startAddress) % 4096 = 0) (hn : heap.endAddress - heap.startAddress < n)
    (hmax : heap.startAddress + wholePages n ≤ heap.maxAddress) (hmax32 : heap.maxAddress < 4294967296) (fuel : ℕ) :
    (∃ k', expand (kmallocAp fuel) n k = .ok k' ∧ Expands k heap n k') ↔
      0x1000 < n ∧ n % 0x1000 ≠ 0 ∧
      FramesFor k (unmapped k heap ((wholePages n - (heap.endAddress - heap.startAddress)) / 4096)
        (heap.endAddress - heap.startAddress)) := by
  have hle : n ≤ wholePages n ∧ wholePages n % 4096 = 0 := by
    unfold wholePages
    omega
  have hsize : wholePages n = heap.endAddress - heap.startAddress +
      4096*((wholePages n - (heap.endAddress - heap.startAddress)) / 4096) := by omega
  have hloop := h.expandLoop_iff (kmallocAp fuel) hwhole hsize le_rfl (by omega)
  constructor
  · rintro ⟨k', hrun, hexpands⟩
    have hsizes := expands_sizes h.kheap hn hmax hmax32 hrun hexpands.installed
    obtain ⟨hlow, hmod⟩ := hsizes
    refine ⟨hlow, hmod, hloop.mp ?_⟩
    rw [expand_rounded h.kheap hordered hwhole hn hmax hmax32 hlow hmod] at hrun
    obtain ⟨k1, hloop1, hrest⟩ := bind_eq_ok.mp hrun
    obtain ⟨heap1, -, hret⟩ := bind_eq_ok.mp hrest
    cases hret
    exact ⟨k1, hloop1, hexpands.mapped⟩
  · rintro ⟨hlow, hmod, hframes⟩
    obtain ⟨k1, hrun, hall⟩ := hloop.mpr hframes
    obtain ⟨htouch, hkept⟩ := h.expandLoop_frames hwhole hsize le_rfl (by omega) hrun
    have hsum : add32 heap.startAddress (wholePages n) = heap.startAddress + wholePages n := add32_of_lt (by omega)
    refine ⟨k1.withHeap (heap.withEnd (heap.startAddress + wholePages n)), ?_, rfl, hall,
      fun i hi hmi hne => hkept i hi hmi (Or.inl hne)⟩
    rw [expand_rounded h.kheap hordered hwhole hn hmax hmax32 hlow hmod, hrun, ok_bind,
      heapOf_eq (htouch.kheap.trans h.kheap), ok_bind, hsum]
    rfl

theorem longHeap_growable {length : ℕ} (hlen : len ≤ 0x400000) :
    GrowableHeap (longHeapKernel length) (longHeap length) 0xC0000000 (0xC0000000 + length) len := by
  have hstart : (longHeap length).startAddress = 0xC0000000 := rfl
  refine ⟨rfl, tableKernel_paged _ _, by omega, fun x hl hh => tableKernel_tables _ x hl (by omega), ?_⟩
  intro i hi j hj hmi hmj hne
  rw [longHeap_page (by omega) hmi, longHeap_page (by omega) hmj]
  omega

theorem longHeap_unmapped {length : ℕ} (hi' : i % 4096 = 0) (hlen : i + 4096*n ≤ 0x400000) :
    unmapped (longHeapKernel length) (longHeap length) n i = 0 := by
  induction n generalizing i with
  | zero => rfl
  | succ n ih =>
    have hframe : heapFrame (longHeapKernel length) (longHeap length) i ≠ 0 := by
      have hplace : i / 4096 < 1024 := by omega
      have hword : load32 fullTableMem (0x200000 + 4*(i/4096)) = 0xFFFFFFFF :=
        fullTable_entry (Nat.le_add_right _ _) (by omega)
      have hmem : (longHeapKernel length).mem = fullTableMem := rfl
      rw [heapFrame, longHeap_page (by omega) hi', loadPage, hmem, hword]
      decide
    rw [unmapped, if_neg hframe, ih (by omega) (by omega)]

/-- 0x70800 bytes for a heap of 0x70000. -/
theorem expand_iff_half_page : ∃ k', expand (kmallocAp 1) 0x70800 (longHeapKernel 0x70000) = .ok k' ∧
    Expands (longHeapKernel 0x70000) (longHeap 0x70000) 0x70800 k' := by
  refine (expand_iff (longHeap_growable (by decide)) (by decide) (by decide) (by decide) (by decide) (by decide)
    1).mpr ⟨by decide, by decide, ?_⟩
  have hnone : unmapped (longHeapKernel 0x70000) (longHeap 0x70000) ((wholePages 0x70800 -
      ((longHeap 0x70000).endAddress - (longHeap 0x70000).startAddress)) / 4096)
      ((longHeap 0x70000).endAddress - (longHeap 0x70000).startAddress) = 0 :=
    longHeap_unmapped (by decide) (by decide)
  rw [hnone]
  exact ⟨Nat.zero_le _, Or.inl rfl⟩

/-- A request for one page more, with that page mapped already, does not make the heap one page longer. -/
theorem expand_whole_page :
    GrowableHeap (longHeapKernel 0x70000) (longHeap 0x70000) 0xC0000000 0xC0070000 (wholePages 0x71000) ∧
    unmapped (longHeapKernel 0x70000) (longHeap 0x70000) 1 0x70000 = 0 ∧
    ¬ ∃ k', expand (kmallocAp 1) 0x71000 (longHeapKernel 0x70000) = .ok k' ∧
      Expands (longHeapKernel 0x70000) (longHeap 0x70000) 0x71000 k' := by
  refine ⟨longHeap_growable (by decide), longHeap_unmapped (by decide) (by decide), ?_⟩
  rintro ⟨k', hrun, hexpands⟩
  have hsizes := expands_sizes rfl (by decide) (by decide) (by decide) hrun hexpands.installed
  exact absurd hsizes.2 (by decide)

end PandaOS

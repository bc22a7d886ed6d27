import PandaOS.Memory.HoleAlloc
import PandaOS.Memory.HeapSafety

/-! The order of the index over the runs of a heap client. An entry gets its place when it is inserted. `free`
changes the size of a hole that is in the index already when it merges with it on the left; the other calls take
the entry whose size they change out of the index. So the order is kept unless such a merge breaks it, and in a
sorted index `alloc` finds a smallest hole. -/
namespace PandaOS
open ByteMemory Word32 Tiling GuardedRun
set_option autoImplicit false
set_option maxHeartbeats 250000

/-- The index lists the holes in the order of their sizes, and an unaligned search that succeeds ends at a smallest
hole that is large enough. -/
structure Catalogue (k : Kernel) (heap : Heap) (ts : List Tile) : Prop where
  kheap : k.kheap = some heap
  tiles : Tiles Tile.size (TileAt k.mem) heap.startAddress ts heap.endAddress
  exact : (entries k.mem heap.index).Perm (holes heap.startAddress ts)
  sorted : SortedBySize k.mem (entries k.mem heap.index)
  best : ∀ n i, findSmallestHole n 0 heap k.mem = some i →
    ∃ b, (entries k.mem heap.index)[i]? = some b ∧ n ≤ hSize k.mem b ∧
      ∀ a t, At Tile.size heap.startAddress ts a t → t.hole = true → n ≤ t.size → hSize k.mem b ≤ t.size

def Client.Catalogued (s : Client) : Prop := ∃ heap ts, Catalogue s.kernel heap ts

/-- The size of the hole that `free` makes of the block at `header`, after the contraction. -/
def freedSize (m : Mem) (heap : Heap) (header : ℕ) : ℕ :=
  (if mergedEnd m header = heap.endAddress then heap.startAddress + HEAP_MIN_SIZE else mergedEnd m header) -
    mergedStart m header

/-- A hole that `free` enlarges to the right of it does not outgrow the entries behind its own, and does not shrink
below those in front of it. The entry of the hole behind the block is gone by then. -/
def KeepsOrder (m : Mem) (heap : Heap) (header : ℕ) : Prop :=
  LeftMerges m header → (entries m heap.index).Pairwise fun x y =>
    x ≠ header + hSize m header → y ≠ header + hSize m header →
      (x = mergedStart m header → freedSize m heap header ≤ hSize m y) ∧
        (y = mergedStart m header → hSize m x ≤ freedSize m heap header)

/-- The condition on the heap before a call. -/
def Client.OrderGuard (s : Client) (r : Request) : Prop :=
  s.Guard r ∧
    match r with
    | .alloc _ _ => True
    | .free i => ∀ heap p, s.kernel.kheap = some heap → s.blocks[i]? = some p →
        KeepsOrder s.kernel.mem heap (p.1 - sizeofHeader)

/-- The invariant of the runs. -/
def Client.Sorted (s : Client) : Prop :=
  ∃ heap ts l, HeapState s.kernel heap ts l ∧ Owns s.blocks heap.startAddress ts ∧ SortedBySize s.kernel.mem l

variable {k k' : Kernel} {heap heap' : Heap} {ts pre old left right post : List Tile} {t x : Tile}
  {l l0 : List ℕ} {blocks : List (ℕ × ℕ)} {m : Mem} {a b c e i n p s size start fuel hi : ℕ}

/-! ## A sorted index -/

theorem HeapState.catalogue (h : HeapState k heap ts l) (hsorted : SortedBySize k.mem l) : Catalogue k heap ts := by
  have hrep := h.represents
  have hindex := hrep.index
  refine ⟨h.kheap, hrep.tiles, by rw [hindex]; exact hrep.perm, by rwa [hindex], fun n i hfind => ?_⟩
  obtain ⟨hlt, hfit, hmin⟩ := findSmallestHole_some hindex hfind
  rw [hindex]
  refine ⟨l[i], List.getElem?_eq_getElem hlt, size_of_fits hfit fun hne => absurd rfl hne, fun a t hat hole hroom => ?_⟩
  have hsize := (hrep.tiles.at hat).size
  have hmem : a ∈ l := hrep.perm.mem_iff.mpr (mem_starts.mpr ⟨t, hat, hole⟩)
  rw [← hsize] at hroom ⊢
  exact smallest_of_first hsorted hlt hmin hmem hroom

theorem Client.Sorted.catalogued {s : Client} (h : s.Sorted) : s.Catalogued := by
  obtain ⟨heap, ts, l, hstate, -, hsorted⟩ := h
  exact ⟨heap, ts, hstate.catalogue hsorted⟩

/-- An entry of a stretch of tiles lies in it. -/
theorem holes_bounds (h : Tiles Tile.size (TileAt m) a ts e) (hx : b ∈ holes a ts) : a ≤ b ∧ b + 20 ≤ e := by
  obtain ⟨t, hat, -⟩ := mem_starts.mp hx
  have hbig := (h.at hat).big
  have hbounds := hat.bounds
  have hend := h.end_eq
  omega

/-- An entry outside the stretch that a call writes has the size it had. -/
theorem hSize_frame (h : HeapState k heap ts l) (hframe : Frame k k' heap.index heap.index.array heap.maxAddress a e)
    (hb : b ∈ l) (hout : b + 20 ≤ a ∨ e ≤ b) : hSize k'.mem b = hSize k.mem b := by
  have hbelow := h.below
  have htop := h.represents.top
  have hbounds := h.represents.entry_bounds hb
  have hsame : SameOn k.mem k'.mem b (b+12) := by
    apply hframe.sameOn (by omega) (by omega)
    · unfold Outside
      omega
    · omega
  exact hSize_congr hsame le_rfl le_rfl

/-! ## alloc -/

/-- The entries but the one of the hole that was cut. -/
theorem allocates_rest (h : Allocates k k' heap heap' ts pre old post l l0 s i n p) :
    (l0.eraseIdx i).Perm (holes heap.startAddress pre ++
      holes (heap.startAddress + total Tile.size pre + s) post) := by
  have hperm := h.state.represents.perm
  rw [h.sameHeap.startAddress, holes_middle, total_carved h.room, holes_carved, carvedIndex] at hperm
  split_ifs at hperm with hs
  · simpa using hperm
  · have hcons := (insertEntry_perm _ _ _).symm.trans hperm
    rw [List.append_assoc, List.singleton_append] at hcons
    exact (List.perm_cons _).mp (hcons.trans List.perm_middle)

/-- The hole that is cut leaves the index, and what is left of it is inserted. -/
theorem sorted_allocates (h : Allocates k k' heap heap' ts pre old post l l0 s i n p) (hstate : HeapState k heap ts l)
    (hsorted : SortedBySize k.mem l) :
    SortedBySize k'.mem (carvedIndex (headerTLessThan k'.mem) i (heap.startAddress + total Tile.size pre) s n l0) := by
  have hrest : SortedBySize k'.mem (l0.eraseIdx i) := by
    rcases h.entries with rfl | ⟨-, rfl⟩
    · have htiles := hstate.represents.tiles
      rw [h.tiles, List.append_assoc] at htiles
      refine SortedBySize.congr (hsorted.sublist (List.eraseIdx_sublist l0 i)) fun b hb => ?_
      apply hSize_frame hstate h.frame (List.mem_of_mem_eraseIdx hb)
      rcases List.mem_append.mp ((allocates_rest h).mem_iff.mp hb) with hpre | hpost
      · exact Or.inl (holes_bounds (tiles_append.mp htiles).1 hpre).2
      · obtain ⟨u, hat, -⟩ := mem_starts.mp hpost
        exact Or.inr hat.bounds.1
    · obtain ⟨hlt, -⟩ := h.entry
      have hzero : i = 0 := by simpa using hlt
      rw [hzero]
      exact List.Pairwise.nil
  unfold carvedIndex
  split
  · exact hrest
  · exact hrest.insertEntry _

/-! ## free -/

theorem LeftCase.mergedStart_eq (h : LeftCase m a b left) : mergedStart m b = a := by
  cases h with
  | none hab hnot => rw [mergedStart, if_neg hnot, hab]
  | merge _ _ _ htest hname => rw [mergedStart, if_pos htest, hname]

theorem RightCase.mergedEnd_eq (h : RightCase m c l right) (hc : c = b + hSize m b) :
    mergedEnd m b = c + total Tile.size right := by
  unfold mergedEnd
  rw [← hc]
  cases h with
  | none hnot => rw [if_neg hnot, total_nil, Nat.add_zero]
  | merge hr hole _ =>
    rw [if_pos ((rightMerges_iff hr).mpr hole), hr.size, total_cons, total_nil, Nat.add_zero]

/-- The entry of the hole behind the block is gone, and there is none of anything else there. -/
theorem RightCase.not_mem (h : RightCase m c l right) (hrep : Represents m heap hi ts l) :
    c ∉ withoutRight c right l := by
  cases h with
  | none hnot =>
    intro hmem
    obtain ⟨u, hat, hole⟩ := mem_starts.mp (hrep.perm.mem_iff.mp hmem)
    exact hnot ((rightMerges_iff (hrep.tiles.at hat)).mpr hole)
  | merge _ _ _ => exact hrep.nodup.not_mem_erase

theorem freedSize_eq (h : Frees k k' heap heap' pre left right post t x l a b c) (hsize : hSize k.mem b = t.size) :
    hSize k'.mem a = freedSize k.mem heap b := by
  have htile := h.state.represents.tiles
  rw [List.append_assoc, List.singleton_append, h.sameHeap.startAddress] at htile
  have hx := (tiles_middle.mp htile).2.1.size
  have hc := h.finish
  have hab := h.leftCase.total_eq
  rw [← h.start] at hx
  rw [hx, freedSize, h.leftCase.mergedStart_eq, h.rightCase.mergedEnd_eq (by rw [hsize]; exact hc)]
  rcases h.merged with ⟨hinner, hmerged, -⟩ | ⟨hlast, -, hmerged, -⟩
  · rw [if_neg hinner, hmerged]
    simp only [mergedTile]
    omega
  · rw [if_pos hlast, hmerged]
    rfl

/-- Every entry but the merged hole's keeps its size, and the merged hole is inserted or keeps the order. -/
theorem sorted_frees (h : Frees k k' heap heap' pre left right post t x l a b c)
    (hstate : HeapState k heap (pre ++ (left ++ t :: right) ++ post) l) (hlive : t.hole = false)
    (hsize : hSize k.mem b = t.size) (hsorted : SortedBySize k.mem l) (horder : KeepsOrder k.mem heap b) :
    SortedBySize k'.mem (freedIndex (headerTLessThan k'.mem) a c left right l) := by
  have hrep := hstate.represents
  have hsub := withoutRight_sublist c right l
  have hold := hsorted.sublist hsub
  have hperm := withoutRight_perm hrep hlive h.start h.finish h.leftCase h.rightCase
  have htiles := hrep.tiles
  rw [List.append_assoc] at htiles
  have hsame : ∀ y ∈ withoutRight c right l, (left ≠ [] → y ≠ a) → hSize k'.mem y = hSize k.mem y := by
    intro y hy hne
    apply hSize_frame hstate h.frame (hsub.subset hy)
    rcases List.mem_append.mp (hperm.mem_iff.mp hy) with hfirst | hrest
    · cases left with
      | nil => cases hfirst
      | cons u left => exact absurd (List.mem_singleton.mp hfirst) (hne (List.cons_ne_nil u left))
    · rcases List.mem_append.mp hrest with hpre | hpost
      · rw [h.start]
        exact Or.inl (holes_bounds (tiles_append.mp htiles).1 hpre).2
      · obtain ⟨u, hat, -⟩ := mem_starts.mp hpost
        exact Or.inr hat.bounds.1
  have hcase := h.leftCase
  cases hcase with
  | none _ _ =>
    have hkept : SortedBySize k'.mem (withoutRight c right l) :=
      SortedBySize.congr hold fun y hy => hsame y hy fun hne => absurd rfl hne
    exact hkept.insertEntry a
  | @merge u _ _ _ htest _ =>
    have hmerged := freedSize_eq h hsize
    have hstart := h.leftCase.mergedStart_eq
    have hout := h.rightCase.not_mem hrep
    have hc : b + hSize k.mem b = c := by rw [hsize, h.finish]
    have horder := horder htest
    rw [hrep.index] at horder
    have hpairs := (hold.and (horder.sublist hsub)).and (hrep.nodup.sublist hsub)
    refine List.Pairwise.imp_of_mem (fun {y z} hy hz hall => ?_) hpairs
    obtain ⟨⟨hle, hplace⟩, hne⟩ := hall
    rw [hc, hstart] at hplace
    obtain ⟨hfirst, hsecond⟩ := hplace (fun heq => hout (heq ▸ hy)) (fun heq => hout (heq ▸ hz))
    by_cases hya : y = a
    · rw [hya, hmerged, hsame z hz fun _ heq => hne (hya.trans heq.symm)]
      exact hfirst hya
    · by_cases hza : z = a
      · rw [hza, hmerged, hsame y hy fun _ => hya]
        exact hsecond hza
      · rw [hsame y hy fun _ => hya, hsame z hz fun _ => hza]
        exact hle

/-! ## Runs -/

theorem Client.Start.sorted {s : Client} (h : s.Start) : s.Sorted := by
  obtain ⟨hblocks, k, fuel, supervisor, readonly, hk, hpaged, hfresh⟩ := h
  refine ⟨freshHeap supervisor readonly, [freshHole], [KHEAP_DATA], heapState_fresh hk hpaged hfresh, ?_,
    List.pairwise_singleton _ _⟩
  rw [hblocks]
  exact Owns.nil _ _

theorem Client.alloc_sorted {s s' : Client} {pageAlign : ℕ} (hstate : HeapState s.kernel heap ts l)
    (howns : Owns s.blocks heap.startAddress ts) (hsorted : SortedBySize s.kernel.mem l)
    (hsafe : AllocSafe s.kernel heap ts l size pageAlign) (hrun : s.call fuel (.alloc size pageAlign) = .ok s') :
    s'.Sorted := by
  obtain ⟨p, k', halloc, rfl⟩ := Client.of_call_alloc hrun
  obtain ⟨heap', pre, old, post, l0, s1, i, hall⟩ := alloc_spec hstate hsafe halloc
  exact ⟨heap', _, _, hall.state, hall.owns howns, sorted_allocates hall hstate hsorted⟩

theorem Client.free_sorted {s s' : Client} (hstate : HeapState s.kernel heap ts l)
    (howns : Owns s.blocks heap.startAddress ts) (hsorted : SortedBySize s.kernel.mem l)
    (hsafe : ∀ q, s.blocks[i]? = some q → FreeSafe s.kernel heap (q.1 - sizeofHeader))
    (horder : ∀ q, s.blocks[i]? = some q → KeepsOrder s.kernel.mem heap (q.1 - sizeofHeader))
    (hrun : s.call fuel (.free i) = .ok s') : s'.Sorted := by
  obtain ⟨heap', pre, left, right, post, t, x, a, b, rfl, hlive, hleft, hright, hblocks, hne, hplace, hfrees⟩ :=
    Client.free_call hstate howns hsafe hrun
  have hrest := howns.eraseIdx i
  rw [← hblocks] at hrest
  obtain ⟨q, hq, hqb⟩ := Option.map_eq_some_iff.mp hplace
  have hkeeps := horder q hq
  rw [hqb, sizeofHeader, Nat.add_sub_cancel] at hkeeps
  have htiles := hstate.represents.tiles
  have hsplit : pre ++ (left ++ t :: right) ++ post = (pre ++ left) ++ t :: (right ++ post) := by simp
  rw [hsplit] at htiles
  have hsize := (tiles_middle.mp htiles).2.1.size
  rw [total_append, ← Nat.add_assoc, ← hfrees.start, hfrees.leftCase.total_eq] at hsize
  exact ⟨heap', _, _, hfrees.state, hfrees.owns hleft hright hrest hne,
    sorted_frees hfrees hstate hlive hsize hsorted hkeeps⟩

theorem Client.Sorted.step {s s' : Client} {r : Request} (h : s.Sorted) (hguard : s.OrderGuard r)
    (hstep : s.Step r s') : s'.Sorted := by
  obtain ⟨heap, ts, l, hstate, howns, hsorted⟩ := h
  obtain ⟨fuel, hrun⟩ := hstep
  have hsafe := hguard.1 heap ts l hstate
  cases r with
  | alloc size pageAlign => exact Client.alloc_sorted hstate howns hsorted hsafe hrun
  | free i =>
    exact Client.free_sorted hstate howns hsorted hsafe (fun q hq => hguard.2 heap q hstate.kheap hq) hrun

/-- In every run from the fresh heap whose calls all meet the condition the index is a sorted list of the holes, and
`alloc` finds a smallest one. -/
theorem hole_index_sorted {s : Client} (h : Reach Client.Start Client.OrderGuard Client.Step s) : s.Catalogued := by
  have hsorted : s.Sorted :=
    h.invariant (fun s hs => hs.sorted) fun s r s' hs hguard hstep => hs.step hguard hstep
  exact hsorted.catalogued

theorem hole_index_sorted_one_block : ∃ s, s.blocks = [(KHEAP_DATA + 12, 8)] ∧
    Reach Client.Start Client.OrderGuard Client.Step s ∧ s.Catalogued := by
  obtain ⟨k0, hstart, hstate0⟩ := client_start
  have hroom : 8 + 40 ≤ freshHole.size := by decide
  obtain ⟨k1, heap1, hcall1, -, -⟩ := alloc_only_hole hstate0 rfl rfl hroom 0
  have hserved : HeapState (Client.mk k0 []).kernel (freshHeap 1 0) ([] ++ [freshHole]) [KHEAP_DATA] := hstate0
  have hguard : Client.OrderGuard ⟨k0, []⟩ (.alloc 8 0) :=
    ⟨guard_only_hole hserved rfl ((Nat.le_add_right 28 20).trans hroom), trivial⟩
  have hreach : Reach Client.Start Client.OrderGuard Client.Step ⟨k1, [(KHEAP_DATA + 12, 8)]⟩ :=
    .next (.start hstart) hguard ⟨1, Client.call_alloc hcall1⟩
  exact ⟨_, rfl, hreach, hole_index_sorted hreach⟩

/-! ## A merge that breaks the order -/

theorem three_blocks : ∃ k heap, Reach Client.Start (fun _ r => r.Fits) Client.Step
      ⟨k, [(KHEAP_DATA + 0x50084, 100), (KHEAP_DATA + 132, 0x4FFEC), (KHEAP_DATA + 12, 100)]⟩ ∧
    HeapState k heap [live 120, live 0x50000, live 120, gap 0x2FF10] [KHEAP_DATA + 0x500F0] ∧
    SameHeap (freshHeap 1 0) heap := by
  obtain ⟨k0, hstart, hstate0⟩ := client_start
  have hroom0 : 100 + 40 ≤ freshHole.size := by decide
  obtain ⟨k1, heap1, hcall1, hstate1, hsame1⟩ := alloc_only_hole hstate0 rfl rfl hroom0 0
  have hplace1 : KHEAP_DATA + (100 + 20) = heap1.startAddress + total Tile.size ([] ++ [live (100 + 20)]) := by
    rw [hsame1.startAddress]
    rfl
  have hroom1 : 0x4FFEC + 40 ≤ (gap (freshHole.size - (100 + 20))).size := by decide
  obtain ⟨k2, heap2, hcall2, hstate2, hsame2⟩ := alloc_only_hole hstate1 rfl hplace1 hroom1 0
  have hplace2 : KHEAP_DATA + (100 + 20) + (0x4FFEC + 20) =
      heap2.startAddress + total Tile.size ([] ++ [live (100 + 20)] ++ [live (0x4FFEC + 20)]) := by
    rw [hsame2.startAddress, hsame1.startAddress]
    rfl
  have hroom2 : 100 + 40 ≤ (gap ((gap (freshHole.size - (100 + 20))).size - (0x4FFEC + 20))).size := by decide
  obtain ⟨k3, heap3, hcall3, hstate3, hsame3⟩ := alloc_only_hole hstate2 rfl hplace2 hroom2 0
  refine ⟨k3, heap3, .next (.next (.next (.start hstart) (i := .alloc 100 0) ?_ ⟨1, Client.call_alloc hcall1⟩)
    (i := .alloc 0x4FFEC 0) ?_ ⟨1, Client.call_alloc hcall2⟩) (i := .alloc 100 0) ?_ ⟨1, Client.call_alloc hcall3⟩,
    hstate3, (hsame1.trans hsame2).trans hsame3⟩
  · show 100 + 20 < 4294967296
    decide
  · show 0x4FFEC + 20 < 4294967296
    decide
  · show 100 + 20 < 4294967296
    decide

/-- The first block becomes the smaller of two holes. -/
theorem first_freed (h : HeapState k heap [live 120, live 0x50000, live 120, gap 0x2FF10] [KHEAP_DATA + 0x500F0])
    (hsame : SameHeap (freshHeap 1 0) heap) :
    ∃ k' heap', free (KHEAP_DATA + 12) k = .ok k' ∧ SameHeap (freshHeap 1 0) heap' ∧
      HeapState k' heap' [gap 120, live 0x50000, live 120, gap 0x2FF10] [KHEAP_DATA, KHEAP_DATA + 0x500F0] := by
  have hstart : heap.startAddress = KHEAP_DATA := hsame.startAddress
  have hindex : heap.index.array + 4*heap.index.maxSize = heap.startAddress := by
    rw [hsame.array, hsame.maxSize, hsame.startAddress]
    decide
  have hend := h.represents.end_eq
  have hroom : heap.index.size + 1 < heap.index.maxSize := by
    rw [h.represents.size_eq, hsame.maxSize]
    decide
  have hfirst := h.first hindex
  have htiles := h.represents.tiles
  rw [hstart] at hend hfirst htiles
  have hnext : ¬ RightMerges k.mem (KHEAP_DATA + 120) :=
    fun htest => Bool.false_ne_true ((rightMerges_iff htiles.2.1).mp htest)
  have hstate : HeapState k heap ([] ++ ([] ++ live 120 :: []) ++ [live 0x50000, live 120, gap 0x2FF10])
      [KHEAP_DATA + 0x500F0] := h
  obtain ⟨k', heap', hfree, hfrees⟩ := free_inner_call hstate rfl (hstart.symm.trans (Nat.add_zero _).symm) rfl
    (.none rfl hfirst) (.none hnext) (by rw [hend]; decide) hroom
  have hall : HeapState k' heap' [gap 120, live 0x50000, live 120, gap 0x2FF10]
      (insertEntry (headerTLessThan k'.mem) KHEAP_DATA [KHEAP_DATA + 0x500F0]) := hfrees.state
  have hsame' := hsame.trans hfrees.sameHeap
  have htiles' := hall.represents.tiles
  have hstart' : heap'.startAddress = KHEAP_DATA := hsame'.startAddress
  rw [hstart'] at htiles'
  have hbehind : headerTLessThan k'.mem (KHEAP_DATA + 0x500F0) KHEAP_DATA = false := by
    have hlast : hSize k'.mem (KHEAP_DATA + 0x500F0) = 0x2FF10 := htiles'.2.2.2.1.size
    rw [headerTLessThan_false, htiles'.1.size, hlast]
    decide
  have hentries : insertEntry (headerTLessThan k'.mem) KHEAP_DATA [KHEAP_DATA + 0x500F0] =
      [KHEAP_DATA, KHEAP_DATA + 0x500F0] := by
    simp [insertEntry, hbehind]
  rw [hentries] at hall
  exact ⟨k', heap', hfree, hsame', hall⟩

/-- The hole in front grows beyond the other one, and keeps its place. -/
theorem second_freed (h : HeapState k heap [gap 120, live 0x50000, live 120, gap 0x2FF10]
      [KHEAP_DATA, KHEAP_DATA + 0x500F0]) (hsame : SameHeap (freshHeap 1 0) heap) :
    ∃ k' heap', free (KHEAP_DATA + 132) k = .ok k' ∧ SameHeap (freshHeap 1 0) heap' ∧
      HeapState k' heap' [gap 0x50078, live 120, gap 0x2FF10] [KHEAP_DATA, KHEAP_DATA + 0x500F0] := by
  have hstart : heap.startAddress = KHEAP_DATA := hsame.startAddress
  have hend := h.represents.end_eq
  have hroom : heap.index.size + 1 < heap.index.maxSize := by
    rw [h.represents.size_eq, hsame.maxSize]
    decide
  have htiles := h.represents.tiles
  rw [hstart] at hend htiles
  have hmerges : LeftMerges k.mem (KHEAP_DATA + 120) := (leftMerges_iff htiles.1 rfl).mpr rfl
  have hnext : ¬ RightMerges k.mem (KHEAP_DATA + 120 + 0x50000) :=
    fun htest => Bool.false_ne_true ((rightMerges_iff htiles.2.2.1).mp htest)
  have hleft : LeftCase k.mem KHEAP_DATA (KHEAP_DATA + 120) [gap 120] :=
    .merge htiles.1 rfl rfl hmerges (htiles.1.footer rfl).2
  have hstate : HeapState k heap ([] ++ ([gap 120] ++ live 0x50000 :: []) ++ [live 120, gap 0x2FF10])
      [KHEAP_DATA, KHEAP_DATA + 0x500F0] := h
  obtain ⟨k', heap', hfree, hfrees⟩ := free_inner_call hstate rfl (hstart.symm.trans (Nat.add_zero _).symm) rfl
    hleft (.none hnext) (by rw [hend]; decide) hroom
  exact ⟨k', heap', hfree, hsame.trans hfrees.sameHeap, hfrees.state⟩

/-- Two blocks are freed from the start of the heap on, and the hole that they leave stands in front of a smaller one. -/
theorem hole_index_unsorted : ∃ s, Reach Client.Start (fun _ r => r.Fits) Client.Step s ∧ ¬ s.Catalogued := by
  obtain ⟨k3, heap3, hreach, hstate3, hsame3⟩ := three_blocks
  obtain ⟨k4, heap4, hfree4, hsame4, hstate4⟩ := first_freed hstate3 hsame3
  obtain ⟨k5, heap5, hfree5, hsame5, hstate5⟩ := second_freed hstate4 hsame4
  refine ⟨⟨k5, [(KHEAP_DATA + 0x50084, 100)]⟩, .next (.next hreach (i := .free 2) trivial
    ⟨0, Client.call_free rfl hfree4⟩) (i := .free 1) trivial ⟨0, Client.call_free rfl hfree5⟩, ?_⟩
  rintro ⟨heap, ts, hcatalogue⟩
  obtain rfl := Option.some.inj (hstate5.kheap.symm.trans hcatalogue.kheap)
  have hsorted := hcatalogue.sorted
  have htiles := hstate5.represents.tiles
  have hstart5 : heap5.startAddress = KHEAP_DATA := hsame5.startAddress
  rw [hstart5] at htiles
  have hlast : hSize k5.mem (KHEAP_DATA + 0x500F0) = 0x2FF10 := htiles.2.2.1.size
  have hindex : entries k5.mem heap5.index = [KHEAP_DATA, KHEAP_DATA + 0x500F0] := hstate5.represents.index
  dsimp only at hsorted
  rw [hindex] at hsorted
  have hle := List.rel_of_pairwise_cons hsorted (List.mem_singleton_self _)
  rw [htiles.1.size, hlast] at hle
  exact absurd hle (by decide)

end PandaOS

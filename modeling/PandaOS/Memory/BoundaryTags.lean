import PandaOS.Memory.HoleAlloc
import PandaOS.Memory.HeapClient

/-! The tags of the heap over runs of calls that leave its end alone. A heap is tagged if every block begins with
its header and ends with a footer that names it, and no two holes are neighbours. A request that a hole can serve
keeps it tagged, and so does `free` unless a hole lies behind the block: the footer of that hole goes on naming
the header it had. -/
namespace PandaOS
open ByteMemory Word32 Tiling GuardedRun
set_option autoImplicit false
set_option maxHeartbeats 250000

def NoTwoHoles (ts : List Tile) : Prop := ts.IsChain fun t u => t.hole = true → u.hole = false

/-- The heap has the tiles `ts`, all with truthful footers, and the index has exactly its holes. -/
structure TaggedHeap (k : Kernel) (heap : Heap) (ts : List Tile) (l : List ℕ) : Prop where
  kheap : k.kheap = some heap
  represents : Represents k.mem heap heap.endAddress ts l
  tagged : ∀ t ∈ ts, t.tagged = true
  noTwoHoles : NoTwoHoles ts

def Tagged (k : Kernel) : Prop := ∃ heap ts l, TaggedHeap k heap ts l

/-- An unaligned request, or a `free`. -/
inductive HeapCall
  | alloc (size : ℕ)
  | free (p : ℕ)
  deriving DecidableEq, Repr

/-- One call that returns. -/
def HeapCall.Step (k : Kernel) (c : HeapCall) (k' : Kernel) : Prop :=
  match c with
  | .alloc size => ∃ fuel p, PandaOS.alloc fuel size 0 k = .ok (p, k')
  | .free p => PandaOS.free p k = .ok k'

/-- A request for which there is a hole, or a live block that does not reach the end of the heap, merges included. -/
def HeapCall.Inner (k : Kernel) (c : HeapCall) : Prop :=
  ∀ heap ts l, TaggedHeap k heap ts l →
    match c with
    | .alloc size => findSmallestHole (add32 (add32 size sizeofHeader) sizeofFooter) 0 heap k.mem ≠ none
    | .free p => ∃ b t, p = b + sizeofHeader ∧ At Tile.size heap.startAddress ts b t ∧ t.hole = false ∧
        mergedEnd k.mem b ≠ heap.endAddress

/-- The block behind the freed one is not a hole, below the first block nothing is taken for the footer of a hole,
and a new entry finds room in the index. -/
structure FreeKeepsTags (m : Mem) (heap : Heap) (header : ℕ) : Prop where
  right : ¬ RightMerges m (header + hSize m header)
  first : header = heap.startAddress → ¬ LeftMerges m header
  room : ¬ LeftMerges m header → heap.index.size < heap.index.maxSize

/-- The condition on the state before a call. -/
def HeapCall.KeepsTags (k : Kernel) (c : HeapCall) : Prop :=
  match c with
  | .alloc size => size + sizeofHeader + sizeofFooter < 4294967296
  | .free p => ∀ heap, k.kheap = some heap → FreeKeepsTags k.mem heap (p - sizeofHeader)

def HeapCall.Guard (k : Kernel) (c : HeapCall) : Prop := HeapCall.Inner k c ∧ HeapCall.KeepsTags k c

/-- The freed block and the holes next to it became one hole, whose footer names its header. -/
def FreesToOneHole (k k' : Kernel) (p : ℕ) : Prop :=
  ∃ heap heap' pre left t post l l', TaggedHeap k heap (pre ++ left ++ t :: post) l ∧
    p = heap.startAddress + total Tile.size (pre ++ left) + sizeofHeader ∧ (∀ u ∈ left, u.hole = true) ∧
    TaggedHeap k' heap' (pre ++ gap (total Tile.size left + t.size) :: post) l'

variable {k k' : Kernel} {heap heap' : Heap} {ts us pre left post : List Tile} {t u : Tile} {l l' : List ℕ}
  {m : Mem} {a b c p size fuel : ℕ}

/-! ## Holes that are neighbours -/

theorem noTwoHoles_middle : NoTwoHoles (pre ++ t :: post) ↔ NoTwoHoles (pre ++ [t]) ∧ NoTwoHoles (t :: post) :=
  List.isChain_split

theorem noTwoHoles_snoc :
    NoTwoHoles (pre ++ [t]) ↔ NoTwoHoles pre ∧ (t.hole = true → ∀ u ∈ pre.getLast?, u.hole = false) := by
  unfold NoTwoHoles
  rw [List.isChain_append]
  simp only [List.isChain_singleton, true_and, List.head?_cons, Option.mem_some_iff, forall_eq']
  refine and_congr_right fun _ => ⟨fun h ht u hu => ?_, fun h u hu hole => ?_⟩
  · cases hole : u.hole with
    | false => rfl
    | true => exact absurd ht (by rw [h u hu hole]; exact Bool.false_ne_true)
  · cases ht : t.hole with
    | false => rfl
    | true => exact absurd hole (by rw [h ht u hu]; exact Bool.false_ne_true)

theorem noTwoHoles_cons :
    NoTwoHoles (t :: post) ↔ (t.hole = true → ∀ u ∈ post.head?, u.hole = false) ∧ NoTwoHoles post := by
  unfold NoTwoHoles
  rw [List.isChain_cons]
  exact and_congr_left fun _ => ⟨fun h ht u hu => h u hu ht, fun h u hu ht => h ht u hu⟩

/-- The front of a hole becomes a block. -/
theorem NoTwoHoles.carved (h : NoTwoHoles (pre ++ t :: post)) (hole : t.hole = true) (s n : ℕ) :
    NoTwoHoles (pre ++ carved s n ++ post) := by
  obtain ⟨hpre, hpost⟩ := noTwoHoles_middle.mp h
  obtain ⟨hpre, -⟩ := noTwoHoles_snoc.mp hpre
  obtain ⟨hnext, hpost⟩ := noTwoHoles_cons.mp hpost
  unfold PandaOS.carved
  split
  · rw [List.append_assoc]
    exact noTwoHoles_middle.mpr ⟨noTwoHoles_snoc.mpr ⟨hpre, nofun⟩, noTwoHoles_cons.mpr ⟨nofun, hpost⟩⟩
  · rw [List.append_assoc]
    exact noTwoHoles_middle.mpr ⟨noTwoHoles_snoc.mpr ⟨hpre, nofun⟩,
      noTwoHoles_cons.mpr ⟨nofun, noTwoHoles_cons.mpr ⟨fun _ => hnext hole, hpost⟩⟩⟩

/-! ## Requests -/

theorem TaggedHeap.alloc_step (h : TaggedHeap k heap ts l) (hsize : size + 20 < 4294967296)
    (hfind : findSmallestHole (size + 20) 0 heap k.mem ≠ none) (hrun : alloc fuel size 0 k = .ok (p, k')) :
    Tagged k' := by
  cases fuel with
  | zero => cases hrun
  | succ fuel =>
    obtain ⟨i, hi⟩ := Option.ne_none_iff_exists'.mp hfind
    obtain ⟨hlt, hfit, -⟩ := findSmallestHole_some h.represents.index hi
    obtain ⟨pre, t, post, rfl, hole, hget⟩ := h.represents.split (List.getElem_mem hlt)
    have htile := (tiles_middle.mp h.represents.tiles).2.1
    have hroom := size_of_fits hfit (fun hne => absurd rfl hne)
    rw [hget, htile.size] at hroom
    obtain ⟨m', hcut, hrep, -, -⟩ := allocHole_spec h.represents hole hlt hget rfl hroom (Or.inl rfl)
    rw [alloc_succ h.kheap hsize, hi] at hrun
    obtain ⟨-, rfl⟩ := Prod.mk.inj (Except.ok.inj (hcut.symm.trans hrun))
    refine ⟨_, _, _, rfl, hrep, fun u hu => ?_, h.noTwoHoles.carved hole _ _⟩
    rcases List.mem_append.mp hu with hfront | hpost
    · rcases List.mem_append.mp hfront with hpre | hcarved
      · exact h.tagged u (List.mem_append_left _ hpre)
      · exact tagged_carved hcarved
    · exact h.tagged u (List.mem_append_right _ (List.mem_cons_of_mem t hpost))

/-! ## free -/

/-- Below a block that `free` does not merge to the left there is no hole. -/
theorem TaggedHeap.last_live (h : TaggedHeap k heap (pre ++ t :: post) l)
    (hb : b = heap.startAddress + total Tile.size pre) (hleft : ¬ LeftMerges k.mem b) :
    ∀ u ∈ pre.getLast?, u.hole = false := by
  intro u hu
  obtain ⟨pre', rfl⟩ := List.getLast?_eq_some_iff.mp hu
  have hsplit : (pre' ++ [u]) ++ t :: post = pre' ++ u :: (t :: post) := by simp
  have htiles := h.represents.tiles
  rw [hsplit] at htiles
  have hplace : b = heap.startAddress + total Tile.size pre' + u.size := by
    rw [hb, total_append, total_cons, total_nil, Nat.add_zero, Nat.add_assoc]
  rw [hplace, leftMerges_iff (tiles_middle.mp htiles).2.1 (h.tagged u (by simp))] at hleft
  exact Bool.eq_false_iff.mpr hleft

theorem TaggedHeap.next_live (h : TaggedHeap k heap (pre ++ t :: post) l)
    (hb : b = heap.startAddress + total Tile.size pre) (hright : ¬ RightMerges k.mem (b + t.size)) :
    ∀ u ∈ post.head?, u.hole = false := by
  intro u hu
  obtain ⟨post', rfl⟩ := List.head?_eq_some_iff.mp hu
  have htiles := (tiles_middle.mp h.represents.tiles).2.2.1
  rw [← hb] at htiles
  rw [rightMerges_iff htiles] at hright
  exact Bool.eq_false_iff.mpr hright

/-- The block at `b` becomes a hole with the hole below it, if there is one. -/
theorem TaggedHeap.free_step (h : TaggedHeap k heap (pre ++ t :: post) l) (hlive : t.hole = false)
    (hb : b = heap.startAddress + total Tile.size pre) (hkeeps : FreeKeepsTags k.mem heap b)
    (hinner : mergedEnd k.mem b ≠ heap.endAddress) (hrun : free (b + 12) k = .ok k') :
    FreesToOneHole k k' (b + 12) := by
  have hrep := h.represents
  have hsize := (tiles_middle.mp hrep.tiles).2.1.size
  rw [← hb] at hsize
  have hright := hkeeps.right
  rw [mergedEnd, if_neg hright, hsize] at hinner
  rw [hsize] at hright
  have hnext := h.next_live hb hright
  obtain ⟨pre', left, rfl, hleft, -, hholes⟩ := left_case hrep hb
    (left_named hrep (fun u hu => h.tagged u (List.mem_append_left _ hu))
      (fun hnil => by rw [hnil, total_nil, Nat.add_zero] at hb; rw [← hb]; exact hkeeps.first hb) hb)
  have hroom : left = [] → (withoutRight (b + t.size) [] l).length < heap.index.maxSize := by
    rintro rfl
    have hcount := hrep.size_eq
    cases hleft with
    | none _ hnot => exact hcount ▸ hkeeps.room hnot
  have hrep' : Represents k.mem heap heap.endAddress (pre' ++ (left ++ t :: []) ++ post) l := by simpa using hrep
  obtain ⟨m', hfree, hrep1, -, -⟩ :=
    free_inner_spec h.kheap hrep' hlive rfl rfl hleft (.none hright) (by simpa using hinner) hroom
  obtain rfl := Except.ok.inj (hfree.symm.trans hrun)
  have hmerged : mergedTile left [] t = gap (total Tile.size left + t.size) := rfl
  rw [hmerged, List.append_assoc, List.singleton_append] at hrep1
  refine ⟨heap, _, pre', left, t, post, l, _, h, by rw [hb]; rfl, hholes, rfl, hrep1, fun u hu => ?_, ?_⟩
  · rcases List.mem_append.mp hu with hpre | hrest
    · exact h.tagged u (by simp [hpre])
    · rcases List.mem_cons.mp hrest with rfl | hpost
      · rfl
      · exact h.tagged u (by simp [hpost])
  · obtain ⟨hfront, hback⟩ := noTwoHoles_middle.mp h.noTwoHoles
    obtain ⟨-, hpost⟩ := noTwoHoles_cons.mp hback
    refine noTwoHoles_middle.mpr ⟨noTwoHoles_snoc.mpr ?_, noTwoHoles_cons.mpr ⟨fun _ => hnext, hpost⟩⟩
    have hfront := (noTwoHoles_snoc.mp hfront).1
    cases hleft with
    | none hab hnot =>
      rw [List.append_nil] at h hfront
      exact ⟨hfront, fun _ => h.last_live (hab.symm.trans rfl) hnot⟩
    | @merge u _ hole _ _ _ =>
      obtain ⟨hpre, hlast⟩ := noTwoHoles_snoc.mp hfront
      exact ⟨hpre, fun _ => hlast hole⟩

/-! ## A hole behind the block -/

/-- Two descriptions of one memory have the same tiles, but for what they say about footers. -/
theorem TaggedHeap.at_other {hi : ℕ} (h : TaggedHeap k heap us l') (h' : Represents k.mem heap hi ts l)
    (hat : At Tile.size heap.startAddress ts b t) :
    ∃ u, At Tile.size heap.startAddress us b u ∧ u.size = t.size ∧ u.hole = t.hole := by
  obtain ⟨u, hu, hsize⟩ := h'.tiles.at_other h.represents.tiles
    (fun _ _ _ ht hu => hu.size.symm.trans ht.size) (fun _ _ ht => by have := ht.big; omega) hat
  refine ⟨u, hu, hsize, ?_⟩
  have hflag := (h.represents.tiles.at hu).isHole.symm.trans (h'.tiles.at hat).isHole
  cases hole : u.hole <;> cases hole' : t.hole <;> simp [hole, hole'] at hflag ⊢

theorem right_case_hole {hi : ℕ} {r : Tile} (h : Represents m heap hi (pre ++ t :: r :: post) l) (hole : r.hole = true)
    (hc : c = heap.startAddress + total Tile.size pre + t.size) : RightCase m c l [r] := by
  have hrtile := (tiles_middle.mp h.tiles).2.2.1
  rw [← hc] at hrtile
  obtain ⟨right, post', hsplit, hright, htest, -⟩ := right_case h hc nofun
  have hne := htest.mp ((rightMerges_iff hrtile).mpr hole)
  cases hright with
  | none _ => exact absurd rfl hne
  | merge hr hhole hmem =>
    obtain rfl := (List.cons.inj hsplit).1
    exact .merge hr hhole hmem

/-- The entry of the right hole makes room for the one of the merged hole. -/
theorem RightCase.room {hi : ℕ} {r : Tile} (hright : RightCase m c l [r]) (h : Represents m heap hi ts l) :
    (withoutRight c [r] l).length < heap.index.maxSize := by
  have hcount := h.size_eq
  have hcap := h.capacity
  cases hright with
  | merge _ _ hmem =>
    have hless := List.length_erase_of_mem hmem
    have hpos := List.length_pos_of_mem hmem
    show (l.erase c).length < heap.index.maxSize
    omega

/-- The footer of a hole behind the block is not written, and names the header that is no longer there. -/
theorem TaggedHeap.free_stale {r : Tile} (h : TaggedHeap k heap (pre ++ t :: r :: post) l) (hlive : t.hole = false)
    (hole : r.hole = true) (hb : b = heap.startAddress + total Tile.size pre)
    (hfirst : pre = [] → ¬ LeftMerges k.mem heap.startAddress) (hinner : b + t.size + r.size ≠ heap.endAddress)
    (hrun : free (b + 12) k = .ok k') : ¬ Tagged k' := by
  have hrep := h.represents
  have hbig := (tiles_middle.mp hrep.tiles).2.1.big
  have hend := hrep.end_eq
  have happart := hrep.apart
  unfold Outside at happart
  simp only [total_append, total_cons] at hend
  obtain ⟨c, hc⟩ : ∃ c, c = b + t.size := ⟨_, rfl⟩
  have hrtile := (tiles_middle.mp hrep.tiles).2.2.1
  rw [← hb, ← hc] at hrtile
  have hplace : c = heap.startAddress + total Tile.size pre + t.size := by rw [hc, hb]
  have hrbig := hrtile.big
  have hright := right_case_hole hrep hole hplace
  obtain ⟨pre', left, rfl, hleft, -, -⟩ := left_case hrep hb
    (left_named hrep (fun u hu => h.tagged u (List.mem_append_left _ hu)) hfirst hb)
  have hab := hleft.total_eq
  have hrep' : Represents k.mem heap heap.endAddress (pre' ++ (left ++ t :: [r]) ++ post) l := by simpa using hrep
  obtain ⟨m', hfree, hrep1, htouch, -⟩ :=
    free_inner_spec h.kheap hrep' hlive rfl hc hleft hright (by simpa [hc] using hinner)
      (fun _ => hright.room hrep)
  obtain rfl := Except.ok.inj (hfree.symm.trans hrun)
  obtain ⟨a, ha⟩ : ∃ a, a = heap.startAddress + total Tile.size pre' := ⟨_, rfl⟩
  rw [← ha] at hab htouch
  rintro ⟨heap1, us, l1, h1⟩
  obtain rfl := Option.some.inj (h1.kheap.symm.trans (Kernel.withHeap_kheap _ _))
  have hmiddle := at_middle Tile.size heap.startAddress pre' (mergedTile left [r] t) post
  rw [← ha] at hmiddle
  rw [List.append_assoc, List.singleton_append] at hrep1
  obtain ⟨u, hu, hsize, -⟩ := h1.at_other hrep1 hmiddle
  have hnames := ((h1.represents.tiles.at hu).footer (h1.tagged u hu.mem)).2
  have hsame : SameOn k.mem m' c (c + r.size) := htouch.sameOn (by unfold Outside; omega) (Or.inr le_rfl)
  have hstale : fHeader m' (c + r.size - 8) = c := by
    rw [fHeader_congr hsame (by omega) (by omega)]
    exact (hrtile.footer (h.tagged r (by simp))).2
  have hfoot : a + u.size - 8 = c + r.size - 8 := by
    rw [hsize]
    simp only [mergedTile, total_cons, total_nil]
    omega
  rw [hfoot] at hnames
  have hsame' : a = c := hnames.symm.trans hstale
  omega

/-! ## Runs -/

theorem FreesToOneHole.tagged (h : FreesToOneHole k k' p) : Tagged k' := by
  obtain ⟨_, heap', pre, left, t, post, _, l', _, _, _, hstate⟩ := h
  exact ⟨heap', _, l', hstate⟩

theorem Tagged.free_call (h : Tagged k) (hguard : HeapCall.Guard k (.free p)) (hrun : free p k = .ok k') :
    FreesToOneHole k k' p := by
  obtain ⟨heap, ts, l, hstate⟩ := h
  obtain ⟨b, t, rfl, hat, hlive, hinner⟩ := hguard.1 heap ts l hstate
  obtain ⟨pre, post, rfl, hb⟩ := at_iff_split.mp hat
  exact hstate.free_step hlive hb (hguard.2 heap hstate.kheap) hinner hrun

theorem Tagged.step {c : HeapCall} (h : Tagged k) (hguard : HeapCall.Guard k c) (hstep : HeapCall.Step k c k') :
    Tagged k' := by
  cases c with
  | alloc size =>
    obtain ⟨fuel, p, hrun⟩ := hstep
    obtain ⟨heap, ts, l, hstate⟩ := h
    have hsize : size + 20 < 4294967296 := hguard.2
    have hfind := hguard.1 heap ts l hstate
    have hsum : add32 (add32 size sizeofHeader) sizeofFooter = size + 20 := by
      simp only [add32, sizeofHeader, sizeofFooter]
      omega
    dsimp only at hfind
    rw [hsum] at hfind
    exact hstate.alloc_step hsize hfind hrun
  | free p => exact (h.free_call hguard hstep).tagged

/-- In a run from a tagged heap whose calls all meet the condition the heap stays tagged, and `free` makes one hole
of the block and its neighbours. -/
theorem boundary_tags (h : Reach Tagged HeapCall.Guard HeapCall.Step k) :
    Tagged k ∧ ∀ p k', HeapCall.Guard k (.free p) → HeapCall.Step k (.free p) k' → FreesToOneHole k k' p := by
  have htagged : Tagged k := h.invariant (fun _ hk => hk) fun k c k' hk hguard hstep => hk.step hguard hstep
  exact ⟨htagged, fun p k' hguard hrun => htagged.free_call hguard hrun⟩

/-! ## Two heaps -/

theorem HeapState.taggedHeap (h : HeapState k heap ts l) (htagged : ∀ t ∈ ts, t.tagged = true) (hholes : NoTwoHoles ts) :
    TaggedHeap k heap ts l := by
  have hrep := h.represents
  have happart := hrep.apart
  have htop := hrep.top
  have hbound := hrep.bound
  refine ⟨h.kheap, ⟨hrep.tiles, hrep.index, hrep.perm, hrep.lessThan, hrep.capacity, ?_, le_rfl, by omega,
    hrep.indexBound, hrep.start⟩, htagged, hholes⟩
  unfold Outside at happart ⊢
  omega

/-- A request that the one hole of a heap can serve. -/
theorem boundary_tags_request : ∃ k, Reach Tagged HeapCall.Guard HeapCall.Step k ∧ Tagged k ∧
    ∀ p k', HeapCall.Guard k (.free p) → HeapCall.Step k (.free p) k' → FreesToOneHole k k' p := by
  have hstate : HeapState onlyBlock _ ([live 100] ++ [gap (0x80000 - 100)]) [KHEAP_DATA + 100] :=
    heapState_pair (by decide) (by decide)
  have h := hstate.taggedHeap (by simp) (by simp [NoTwoHoles])
  have hb : KHEAP_DATA + 100 = KHEAP_DATA + total Tile.size [live 100] := rfl
  have hfind := find_only_hole hstate hb (by decide : 100 + 20 ≤ (gap (0x80000 - 100)).size)
  obtain ⟨k, heap, hrun, -, -⟩ := alloc_only_hole hstate rfl hb (by decide : 100 + 40 ≤ (gap (0x80000 - 100)).size) 0
  have hguard : HeapCall.Guard onlyBlock (.alloc 100) := by
    have hsize : 100 + sizeofHeader + sizeofFooter < 4294967296 := by decide
    refine ⟨fun heap us l' h' => ?_, hsize⟩
    obtain rfl := Option.some.inj (h.kheap.symm.trans h'.kheap)
    show findSmallestHole 120 0 _ _ ≠ none
    rw [hfind]
    exact nofun
  have hreach : Reach Tagged HeapCall.Guard HeapCall.Step k := .next (.start ⟨_, _, _, h⟩) hguard ⟨1, _, hrun⟩
  exact ⟨k, hreach, boundary_tags hreach⟩

/-- A block, a hole behind it, and a block that ends the heap. -/
def holeBetween : Kernel := layoutKernel [live 0x1000, gap 0x1000, live 0x7E000] [KHEAP_DATA + 0x1000]

theorem heapState_between : HeapState holeBetween (layoutHeap [live 0x1000, gap 0x1000, live 0x7E000] 1)
    [live 0x1000, gap 0x1000, live 0x7E000] [KHEAP_DATA + 0x1000] :=
  heapState_layout (by simp) (List.Perm.refl _) (by decide) (by decide) (by decide) (by decide)

theorem taggedHeap_between : TaggedHeap holeBetween (layoutHeap [live 0x1000, gap 0x1000, live 0x7E000] 1)
    ([] ++ live 0x1000 :: gap 0x1000 :: [live 0x7E000]) [KHEAP_DATA + 0x1000] :=
  heapState_between.taggedHeap (by simp) (by simp [NoTwoHoles])

/-- Freeing the first block is a call inside the heap, and leaves a footer that names no header. -/
theorem boundary_tags_stale : ∃ k, Reach Tagged HeapCall.Inner HeapCall.Step k ∧ ¬ Tagged k := by
  have h := taggedHeap_between
  have hblock : TileAt holeBetween.mem KHEAP_DATA (live 0x1000) := h.represents.tiles.1
  have hhole : TileAt holeBetween.mem (KHEAP_DATA + 0x1000) (gap 0x1000) := h.represents.tiles.2.1
  have hfirst : ¬ LeftMerges holeBetween.mem KHEAP_DATA := heapState_between.first (by decide)
  have hright : RightCase holeBetween.mem (KHEAP_DATA + 0x1000) [KHEAP_DATA + 0x1000] [gap 0x1000] :=
    right_case_hole h.represents rfl rfl
  have hrep : Represents holeBetween.mem (layoutHeap [live 0x1000, gap 0x1000, live 0x7E000] 1) _
      ([] ++ ([] ++ live 0x1000 :: [gap 0x1000]) ++ [live 0x7E000]) [KHEAP_DATA + 0x1000] := h.represents
  obtain ⟨m', hfree, -⟩ := free_inner_spec h.kheap hrep rfl rfl rfl (.none rfl hfirst) hright (by decide)
    (fun _ => hright.room hrep)
  have hmerges : RightMerges holeBetween.mem (KHEAP_DATA + 0x1000) := (rightMerges_iff hhole).mpr rfl
  have hinner : HeapCall.Inner holeBetween (.free (KHEAP_DATA + 12)) := by
    intro heap us l' h'
    obtain rfl := Option.some.inj (h.kheap.symm.trans h'.kheap)
    have hat : At Tile.size KHEAP_DATA [live 0x1000, gap 0x1000, live 0x7E000] KHEAP_DATA (live 0x1000) :=
      Or.inl ⟨rfl, rfl⟩
    obtain ⟨u, hu, -, hlive⟩ := h'.at_other h.represents hat
    refine ⟨KHEAP_DATA, u, rfl, hu, hlive, ?_⟩
    rw [mergedEnd, hblock.size, live_size, if_pos hmerges, hhole.size]
    decide
  exact ⟨_, .next (.start ⟨_, _, _, h⟩) hinner hfree,
    h.free_stale rfl rfl rfl (fun _ => hfirst) (by decide) hfree⟩

end PandaOS

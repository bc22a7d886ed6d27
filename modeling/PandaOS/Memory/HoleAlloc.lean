import PandaOS.Memory.LayoutMemory

/-! An unaligned request that a hole of the index can serve. The block is cut from the front of the
first hole that is large enough; in an index sorted by size that is a smallest one. Nothing outside
the hole and the index changes, and the index stays sorted. -/
namespace PandaOS
open ByteMemory Word32 Tiling
set_option autoImplicit false
set_option maxHeartbeats 250000

/-- The entries are in the order of the sizes of their holes. -/
def SortedBySize (m : Mem) (l : List ℕ) : Prop := l.Pairwise fun a b => hSize m a ≤ hSize m b

/-- The hole that `alloc` chooses for an unaligned request. -/
def Chosen (m : Mem) (heap : Heap) (l : List ℕ) (size b : ℕ) : Prop :=
  ∃ i, findSmallestHole (size + 20) 0 heap m = some i ∧ l[i]? = some b

/-- Every block but the chosen hole has its footer. -/
def TaggedBut (m : Mem) (heap : Heap) (ts : List Tile) (l : List ℕ) (size : ℕ) : Prop :=
  ∀ b t, At Tile.size heap.startAddress ts b t → ¬ Chosen m heap l size b → t.tagged = true

/-- The call returned the payload of a block cut from the front of the hole `t` behind `pre`, a smallest one
of those that are large enough. -/
structure CutsBlock (k k' : Kernel) (heap : Heap) (hi : ℕ) (pre : List Tile) (t : Tile) (post : List Tile)
    (l l' : List ℕ) (size p : ℕ) : Prop where
  hole : t.hole = true
  room : size + 20 ≤ t.size
  smallest : ∀ b ∈ l, size + 20 ≤ hSize k.mem b → t.size ≤ hSize k.mem b
  pointer : p = heap.startAddress + total Tile.size pre + 12
  kernel : k' = (k.withMem k'.mem).withHeap (heap.withCount l'.length)
  represents : Represents k'.mem (heap.withCount l'.length) hi (pre ++ carved t.size (size + 20) ++ post) l'
  tagged : ∀ u ∈ pre ++ carved t.size (size + 20) ++ post, u.tagged = true
  sorted : SortedBySize k'.mem l'
  frame : HeapTouch heap.index k.mem k'.mem (heap.startAddress + total Tile.size pre)
    (heap.startAddress + total Tile.size pre + t.size)

variable {k k' : Kernel} {heap : Heap} {hi : ℕ} {pre post ts : List Tile} {t u : Tile} {l l' : List ℕ}
  {m m' : Mem} {i b s n size fuel : ℕ}

/-! ## The order of the index -/

theorem headerTLessThan_false {a : ℕ} : headerTLessThan m b a = false ↔ hSize m a ≤ hSize m b := by
  rw [headerTLessThan, decide_eq_false_iff_not, Nat.not_lt]

/-- An insertion keeps the order. -/
theorem SortedBySize.insertEntry (h : SortedBySize m l) (item : ℕ) :
    SortedBySize m (insertEntry (headerTLessThan m) item l) := by
  have : Std.Total fun a b => headerTLessThan m b a = false := by
    refine ⟨fun a b => ?_⟩
    rw [headerTLessThan_false, headerTLessThan_false]
    exact Nat.le_total _ _
  have : IsTrans ℕ fun a b => headerTLessThan m b a = false := by
    refine ⟨fun a b c => ?_⟩
    rw [headerTLessThan_false, headerTLessThan_false, headerTLessThan_false]
    exact Nat.le_trans
  have hsorted : l.Pairwise fun a b => headerTLessThan m b a = false :=
    h.imp fun hle => headerTLessThan_false.mpr hle
  exact (hsorted.orderedInsert item l).imp fun hle => headerTLessThan_false.mp hle

theorem SortedBySize.congr (h : SortedBySize m l) (hm : ∀ b ∈ l, hSize m' b = hSize m b) : SortedBySize m' l := by
  refine List.Pairwise.imp_of_mem (fun {a b} ha hb hle => ?_) h
  rw [hm a ha, hm b hb]
  exact hle

/-- In a sorted index the first hole that is large enough is a smallest one. -/
theorem smallest_of_first (hsorted : SortedBySize m l) (hlt : i < l.length)
    (hmin : ∀ j (hj : j < i), fits m n 0 (l.get ⟨j, hj.trans hlt⟩) = false) (hb : b ∈ l) (hroom : n ≤ hSize m b) :
    hSize m l[i] ≤ hSize m b := by
  obtain ⟨j, hj, rfl⟩ := List.getElem_of_mem hb
  rcases Nat.lt_trichotomy j i with hlow | heq | hhigh
  · have hnot := hmin j hlow
    have hfit : fits m n 0 (l.get ⟨j, hlow.trans hlt⟩) = true := decide_eq_true hroom
    rw [hnot] at hfit
    cases hfit
  · subst heq
    exact le_rfl
  · exact List.pairwise_iff_getElem.mp hsorted i j hlt hj hhigh

/-! ## The cut -/

theorem tagged_carved (hu : u ∈ carved s n) : u.tagged = true := by
  unfold carved at hu
  split at hu
  · rw [List.mem_singleton.mp hu]
    rfl
  · rcases List.mem_cons.mp hu with rfl | hgap
    · rfl
    · rw [List.mem_singleton.mp hgap]
      rfl

/-- The tiles around the chosen hole have their footers. -/
theorem tagged_around (h : Represents m heap hi (pre ++ t :: post) l) (htagged : TaggedBut m heap (pre ++ t :: post) l size)
    (hfind : findSmallestHole (size + 20) 0 heap m = some i)
    (hget : l[i]? = some (heap.startAddress + total Tile.size pre)) (hu : u ∈ pre ++ post) : u.tagged = true := by
  have hpos := tiles_pos h.tiles
  obtain ⟨c, hat, hne⟩ : ∃ c, At Tile.size heap.startAddress (pre ++ t :: post) c u ∧
      c ≠ heap.startAddress + total Tile.size pre := by
    rcases List.mem_append.mp hu with hpre | hpost
    · obtain ⟨pre1, pre2, rfl⟩ := List.append_of_mem hpre
      have hupos := hpos u (by simp)
      refine ⟨heap.startAddress + total Tile.size pre1, ?_, ?_⟩
      · rw [List.append_assoc]
        exact at_middle Tile.size heap.startAddress pre1 u (pre2 ++ t :: post)
      · rw [total_append, total_cons]
        omega
    · obtain ⟨post1, post2, rfl⟩ := List.append_of_mem hpost
      have htpos := hpos t (by simp)
      refine ⟨heap.startAddress + total Tile.size (pre ++ t :: post1), ?_, ?_⟩
      · have hmid := at_middle Tile.size heap.startAddress (pre ++ t :: post1) u post2
        rwa [List.append_assoc, List.cons_append] at hmid
      · rw [total_append, total_cons]
        omega
  refine htagged c u hat fun hchosen => hne ?_
  obtain ⟨j, hj, hc⟩ := hchosen
  rw [hfind] at hj
  cases hj
  rw [hget] at hc
  exact (Option.some.inj hc).symm

/-- The entries that stay have the sizes they had, and the order is kept. -/
theorem sorted_carved (h : Represents m heap hi (pre ++ t :: post) l) (hsorted : SortedBySize m l)
    (hlt : i < l.length) (hget : l[i] = heap.startAddress + total Tile.size pre)
    (htouch : HeapTouch heap.index m m' (heap.startAddress + total Tile.size pre)
      (heap.startAddress + total Tile.size pre + t.size)) :
    SortedBySize m' (carvedIndex (headerTLessThan m') i (heap.startAddress + total Tile.size pre) t.size n l) := by
  have hend := h.end_eq
  have htop := h.top
  have hwindow := h.apart
  unfold Outside at hwindow
  rw [total_append, total_cons] at hend
  have hsame : ∀ b ∈ l.eraseIdx i, hSize m' b = hSize m b := by
    intro b hb
    have hbl := List.mem_of_mem_eraseIdx hb
    have hne : b ≠ heap.startAddress + total Tile.size pre := by
      rintro rfl
      rw [← hget] at hb
      have hnodup := (List.getElem_cons_eraseIdx_perm hlt).nodup_iff.mpr h.nodup
      exact (List.nodup_cons.mp hnodup).1 hb
    obtain ⟨u, hat, -⟩ := mem_starts.mp (h.perm.mem_iff.mp hbl)
    have hbig := (h.tiles.at hat).big
    have hbounds := hat.bounds
    rw [total_append, total_cons] at hbounds
    have hmid := at_middle Tile.size heap.startAddress pre t post
    have hapart := hat.disjoint hmid
    have hon : SameOn m m' b (b + u.size) := by
      refine htouch.sameOn ?_ ?_
      · unfold Outside
        omega
      · rcases hapart with hbelow | habove | ⟨heq, -⟩
        · exact Or.inl hbelow
        · exact Or.inr habove
        · exact absurd heq hne
    exact hSize_congr hon le_rfl (by omega)
  have hrest : SortedBySize m' (l.eraseIdx i) :=
    SortedBySize.congr (hsorted.sublist (List.eraseIdx_sublist l i)) hsame
  unfold carvedIndex
  split
  · exact hrest
  · exact hrest.insertEntry _

/-! ## The call -/

/-- An unaligned request for which there is a hole is served from a smallest such hole: the block is its front,
and the rest of it, if it is large enough, is a hole again. -/
theorem alloc_from_hole (fuel : ℕ) (hk : k.kheap = some heap) (h : Represents k.mem heap hi ts l)
    (hsorted : SortedBySize k.mem l) (hsize : size + 20 < 4294967296) (htagged : TaggedBut k.mem heap ts l size)
    (hroom : ∃ b ∈ l, size + 20 ≤ hSize k.mem b) :
    ∃ pre t post p k' l', ts = pre ++ t :: post ∧ alloc (fuel + 1) size 0 k = .ok (p, k') ∧
      CutsBlock k k' heap hi pre t post l l' size p := by
  cases hfind : findSmallestHole (size + 20) 0 heap k.mem with
  | none =>
    obtain ⟨b, hb, hfits⟩ := hroom
    have hnot := findSmallestHole_none h.index hfind b hb
    have hfit : fits k.mem (size + 20) 0 b = true := decide_eq_true hfits
    rw [hnot] at hfit
    cases hfit
  | some i =>
    obtain ⟨hlt, hfit, hmin⟩ := findSmallestHole_some h.index hfind
    obtain ⟨pre, t, post, rfl, hole, hget⟩ := h.split (List.getElem_mem hlt)
    have htile := (tiles_middle.mp h.tiles).2.1
    have hfits := size_of_fits hfit (fun hne => absurd rfl hne)
    have hsmallest : ∀ b ∈ l, size + 20 ≤ hSize k.mem b → t.size ≤ hSize k.mem b := by
      intro b hb hle
      have hfirst := smallest_of_first hsorted hlt hmin hb hle
      rwa [hget, htile.size] at hfirst
    rw [hget, htile.size] at hfits
    have hget? : l[i]? = some (heap.startAddress + total Tile.size pre) := by
      rw [List.getElem?_eq_getElem hlt, hget]
    obtain ⟨m', hcut, hrep, htouch, -⟩ := allocHole_spec h hole hlt hget rfl hfits (Or.inl rfl)
    obtain ⟨l', hl'⟩ : ∃ l', l' = carvedIndex (headerTLessThan m') i (heap.startAddress + total Tile.size pre) t.size
      (size + 20) l := ⟨_, rfl⟩
    rw [← hl'] at hcut hrep
    refine ⟨pre, t, post, _, (k.withMem m').withHeap (heap.withCount l'.length), l', rfl, ?_, hole, hfits, hsmallest,
      rfl, rfl, hrep, fun u hu => ?_, ?_, htouch⟩
    · rw [alloc_succ hk hsize, hfind]
      exact hcut
    · rcases List.mem_append.mp hu with hleft | hpost
      · rcases List.mem_append.mp hleft with hpre | hcarved
        · exact tagged_around h htagged hfind hget? (List.mem_append_left _ hpre)
        · exact tagged_carved hcarved
      · exact tagged_around h htagged hfind hget? (List.mem_append_right _ hpost)
    · rw [hl']
      exact sorted_carved h hsorted hlt hget htouch

/-- A heap with a block and a hole behind it. -/
theorem alloc_from_hole_pair : ∃ pre t post p k' l', [live 0x1000, gap (0x80000 - 0x1000)] = pre ++ t :: post ∧
    alloc 1 100 0 (layoutKernel [live 0x1000, gap (0x80000 - 0x1000)] [KHEAP_DATA + 0x1000]) = .ok (p, k') ∧
    CutsBlock (layoutKernel [live 0x1000, gap (0x80000 - 0x1000)] [KHEAP_DATA + 0x1000]) k'
      (layoutHeap [live 0x1000, gap (0x80000 - 0x1000)] 1) KHEAP_MAX pre t post [KHEAP_DATA + 0x1000] l' 100 p := by
  have h := heapState_pair (n := 0x1000) (by norm_num) (by norm_num)
  have hmid := at_middle Tile.size KHEAP_DATA [live 0x1000] (gap (0x80000 - 0x1000)) []
  have htile := h.represents.tiles.at hmid
  refine alloc_from_hole 0 h.kheap h.represents (List.pairwise_singleton _ _) (by norm_num) (fun b t hat _ => ?_)
    ⟨_, List.mem_cons_self, ?_⟩
  · have hmem := hat.mem
    simp only [List.mem_cons, List.not_mem_nil, or_false] at hmem
    rcases hmem with rfl | rfl <;> rfl
  · have hsize := htile.size
    simp only [total_cons, total_nil, live_size, gap_size, Nat.add_zero] at hsize
    rw [hsize]
    norm_num

end PandaOS

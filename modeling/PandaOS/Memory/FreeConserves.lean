import PandaOS.Memory.TailFree
import PandaOS.Library.Regions

/-! What `free` does to the bytes of the heap. The ranges of the index entries grow by exactly the
freed block, and the other blocks keep their bytes, unless the entry of the new hole goes into a full
index: `insert_ordered_array` does not look at `max_size`, and the word it then stores behind the array
may lie in the first block of the heap. -/
namespace PandaOS
open ByteMemory Word32 Tiling
set_option autoImplicit false
set_option maxHeartbeats 250000

/-! ## Conservation -/

/-- The address lies in the range of an index entry. -/
def InEntries (m : Mem) (index : OrderedArray) (x : ℕ) : Prop :=
  ∃ h ∈ entries m index, h ≤ x ∧ x < h + hSize m h

/-- The ranges of the entries do not overlap and are those of before with the block of `n` bytes at `b` added; no
entry occurs twice; and the other live blocks keep their bytes. -/
structure FreesExactly (k k' : Kernel) (heap heap' : Heap) (ts : List Tile) (b n : ℕ) : Prop where
  kheap : k'.kheap = some heap'
  disjoint : (entries k'.mem heap'.index).Pairwise fun x y => Apart (x, hSize k'.mem x) (y, hSize k'.mem y)
  union : ∀ x, InEntries k'.mem heap'.index x ↔ InEntries k.mem heap.index x ∨ (b ≤ x ∧ x < b + n)
  nodup : (entries k'.mem heap'.index).Nodup
  live : ∀ c u, At Tile.size heap.startAddress ts c u → u.hole = false → c ≠ b → SameOn k.mem k'.mem c (c + u.size)

/-- Where the hole ends that takes in a block that ends at `c` in front of the tiles `post`. -/
def resultEnd (c : ℕ) : List Tile → ℕ
  | [] => c
  | r :: _ => if r.hole then c + r.size else c

/-- The last entry after the insertion of a hole of `n` bytes at `b`. -/
def lastEntry (m : Mem) (l : List ℕ) (b n : ℕ) : ℕ := if ∀ x ∈ l, hSize m x < n then b else l.getLastD b

/-- Stored behind the last slot of the index, that entry changes no byte of a live block but the one at `b`. -/
def SparesBlocks (m : Mem) (heap : Heap) (ts : List Tile) (l : List ℕ) (b n : ℕ) : Prop :=
  ∀ c u, At Tile.size heap.startAddress ts c u → u.hole = false → c ≠ b →
    SameOn m (store32 m (slot heap.index heap.index.maxSize) (lastEntry m l b n)) c (c + u.size)

/-- The index has room for an entry, or a neighbour's entry serves, or the entry that does not fit does no harm. -/
def EntryFits (m : Mem) (heap : Heap) (ts : List Tile) (l : List ℕ) (b n : ℕ) : Prop :=
  heap.index.size < heap.index.maxSize ∨ LeftMerges m b ∨ RightMerges m (b + n) ∨ SparesBlocks m heap ts l b n

variable {k k' : Kernel} {heap heap' : Heap} {hi : ℕ} {pre post left right ts : List Tile} {t u y : Tile}
  {l l' : List ℕ} {a b c n x : ℕ} {m m' : Mem}

/-! ## Entries and tiles -/

/-- The entries cover what the holes cover. -/
theorem inEntries_iff {index : OrderedArray} (hperm : (entries m index).Perm (holes a ts))
    (hsizes : ∀ c u, At Tile.size a ts c u → u.hole = true → hSize m c = u.size) :
    InEntries m index x ↔ Covered Tile.size Tile.hole a ts x := by
  constructor
  · rintro ⟨c, hc, hlow, hhigh⟩
    obtain ⟨u, hat, hole⟩ := mem_starts.mp (hperm.mem_iff.mp hc)
    rw [hsizes c u hat hole] at hhigh
    exact ⟨c, u, hat, hole, hlow, hhigh⟩
  · rintro ⟨c, u, hat, hole, hlow, hhigh⟩
    refine ⟨c, hperm.mem_iff.mpr (mem_starts.mpr ⟨u, hat, hole⟩), hlow, ?_⟩
    rwa [hsizes c u hat hole]

theorem entries_disjoint (hperm : l.Perm (holes a ts)) (hpos : ∀ u ∈ ts, 0 < u.size)
    (hsizes : ∀ c u, At Tile.size a ts c u → u.hole = true → hSize m c = u.size) :
    l.Pairwise fun x y => Apart (x, hSize m x) (y, hSize m y) := by
  have hnodup : l.Nodup := hperm.nodup_iff.mpr (starts_nodup hpos)
  refine hnodup.pairwise_of_forall_ne fun c hc d hd hne => ?_
  obtain ⟨u, hu, holeu⟩ := mem_starts.mp (hperm.mem_iff.mp hc)
  obtain ⟨v, hv, holev⟩ := mem_starts.mp (hperm.mem_iff.mp hd)
  unfold Apart
  dsimp only
  rw [hsizes c u hu holeu, hsizes d v hv holev]
  rcases hu.disjoint hv with hbelow | habove | ⟨heq, -⟩
  · exact Or.inl hbelow
  · exact Or.inr habove
  · exact absurd heq hne

/-- One hole in place of a block and the holes next to it covers what they did and the block. -/
theorem covered_merged (hleft : ∀ u ∈ left, u.hole = true) (hright : ∀ u ∈ right, u.hole = true) (hlive : t.hole = false)
    (hhole : y.hole = true) (hsize : y.size = total Tile.size left + t.size + total Tile.size right)
    (hb : b = a + total Tile.size pre + total Tile.size left) :
    Covered Tile.size Tile.hole a (pre ++ [y] ++ post) x ↔
      Covered Tile.size Tile.hole a (pre ++ (left ++ t :: right) ++ post) x ∨ (b ≤ x ∧ x < b + t.size) := by
  have hblock : left ++ t :: right = left ++ [t] ++ right := by simp
  have hend : a + total Tile.size (pre ++ [y]) = a + total Tile.size (pre ++ (left ++ t :: right)) := by
    simp only [total_append, total_cons, total_nil]
    omega
  have hmid : Covered Tile.size Tile.hole (a + total Tile.size pre) (left ++ t :: right) x ↔
      (a + total Tile.size pre ≤ x ∧ x < b) ∨ (b + t.size ≤ x ∧ x < b + t.size + total Tile.size right) := by
    rw [hblock, covered_append, covered_append, covered_singleton, covered_all hleft, covered_all hright, total_append,
      total_cons, total_nil, hlive, hb]
    simp only [Bool.false_eq_true, false_and, or_false, Nat.add_zero, Nat.add_assoc]
  rw [covered_append, covered_append, covered_append, covered_append, covered_singleton, hmid, hend, hhole]
  constructor
  · rintro ((hpre | ⟨-, hin⟩) | hpost)
    · exact Or.inl (Or.inl (Or.inl hpre))
    · rcases Nat.lt_or_ge x b with hlow | hge
      · exact Or.inl (Or.inl (Or.inr (Or.inl ⟨hin.1, hlow⟩)))
      · rcases Nat.lt_or_ge x (b + t.size) with hlt | hhigh
        · exact Or.inr ⟨hge, hlt⟩
        · exact Or.inl (Or.inl (Or.inr (Or.inr (by omega))))
    · exact Or.inl (Or.inr hpost)
  · rintro (((hpre | hin) | hpost) | hin)
    · exact Or.inl (Or.inl hpre)
    · exact Or.inl (Or.inr ⟨rfl, by omega⟩)
    · exact Or.inr hpost
    · exact Or.inl (Or.inr ⟨rfl, by omega⟩)

/-- A live block other than the freed one lies outside the merged hole. -/
theorem live_outside (hleft : ∀ u ∈ left, u.hole = true) (hright : ∀ u ∈ right, u.hole = true)
    (hb : b = a + total Tile.size pre + total Tile.size left)
    (hat : At Tile.size a (pre ++ (left ++ t :: right) ++ post) c u) (hlive : u.hole = false) (hne : c ≠ b) :
    c + u.size ≤ a + total Tile.size pre ∨ b + t.size + total Tile.size right ≤ c := by
  have hnot : ∀ ts, (∀ v ∈ ts, v.hole = true) → ∀ d, ¬ At Tile.size d ts c u := by
    intro ts hts d hin
    have hole := hts u hin.mem
    rw [hlive] at hole
    cases hole
  rcases at_append.mp hat with hfirst | hpost
  · rcases at_append.mp hfirst with hpre | hmid
    · exact Or.inl hpre.bounds.2
    · rcases at_append.mp hmid with hl | hr
      · exact absurd hl (hnot left hleft _)
      · rcases hr with ⟨heq, -⟩ | hr
        · exact absurd (heq.trans hb.symm) hne
        · exact absurd hr (hnot right hright _)
  · have hlow := hpost.bounds.1
    rw [total_append, total_append, total_cons] at hlow
    exact Or.inr (by omega)

/-! ## The call -/

/-- What is left to show once the layout after the call is known. -/
theorem freesExactly_of (h : Represents k.mem heap hi (pre ++ (left ++ t :: right) ++ post) l)
    (hleft : ∀ u ∈ left, u.hole = true) (hright : ∀ u ∈ right, u.hole = true) (hlive : t.hole = false)
    (hhole : y.hole = true) (hsize : y.size = total Tile.size left + t.size + total Tile.size right)
    (hb : b = heap.startAddress + total Tile.size pre + total Tile.size left)
    (hk' : k'.kheap = some heap')
    (hperm : (entries k'.mem heap'.index).Perm (holes heap.startAddress (pre ++ [y] ++ post)))
    (hsizes : ∀ c u, At Tile.size heap.startAddress (pre ++ [y] ++ post) c u → u.hole = true → hSize k'.mem c = u.size)
    (hsame : ∀ c u, At Tile.size heap.startAddress (pre ++ (left ++ t :: right) ++ post) c u → u.hole = false → c ≠ b →
      SameOn k.mem k'.mem c (c + u.size)) :
    FreesExactly k k' heap heap' (pre ++ (left ++ t :: right) ++ post) b t.size := by
  have hposOld := tiles_pos h.tiles
  have hpos : ∀ u ∈ pre ++ [y] ++ post, 0 < u.size := by
    intro u hu
    have ht := hposOld t (by simp)
    simp only [List.mem_append, List.mem_singleton] at hu
    rcases hu with (hpre | rfl) | hpost
    · exact hposOld u (by simp [hpre])
    · omega
    · exact hposOld u (by simp [hpost])
  have hold : (entries k.mem heap.index).Perm (holes heap.startAddress (pre ++ (left ++ t :: right) ++ post)) := by
    rw [h.index]
    exact h.perm
  refine ⟨hk', entries_disjoint hperm hpos hsizes, fun x => ?_, hperm.nodup_iff.mpr (starts_nodup hpos), hsame⟩
  rw [inEntries_iff hperm hsizes, inEntries_iff hold fun c u hat _ => (h.tiles.at hat).size,
    covered_merged hleft hright hlive hhole hsize hb]

/-- Where the entry fits or a neighbour's serves, `free` conserves. -/
theorem free_conserves (hk : k.kheap = some heap)
    (h : Represents k.mem heap hi (pre ++ (left ++ t :: right) ++ post) l) (hlive : t.hole = false)
    (ha : a = heap.startAddress + total Tile.size pre) (hc : c = b + t.size)
    (hleft : LeftCase k.mem a b left) (hright : RightCase k.mem c l right)
    (hleftHoles : ∀ u ∈ left, u.hole = true) (hrightHoles : ∀ u ∈ right, u.hole = true)
    (hinner : c + total Tile.size right ≠ heap.endAddress)
    (hroom : left = [] → (withoutRight c right l).length < heap.index.maxSize) :
    ∃ k' heap', free (b + 12) k = .ok k' ∧ FreesExactly k k' heap heap' (pre ++ (left ++ t :: right) ++ post) b t.size := by
  obtain ⟨m', hrun, hrep, htouch, -⟩ := free_inner_spec hk h hlive ha hc hleft hright hinner hroom
  have hab := hleft.total_eq
  have hend := h.end_eq
  simp only [total_append, total_cons] at hend
  have htop := h.top
  have hwindow := h.apart
  unfold Outside at hwindow
  refine ⟨_, _, hrun, freesExactly_of h hleftHoles hrightHoles hlive (y := mergedTile left right t) rfl rfl
    (by omega) rfl ?_ ?_ ?_⟩
  · show (entries m' _).Perm _
    rw [hrep.index]
    exact hrep.perm
  · exact fun d u hat _ => (hrep.tiles.at hat).size
  · intro d u hat hu hne
    have hout := live_outside hleftHoles hrightHoles (by omega : b = _) hat hu hne
    have hbounds := hat.bounds
    simp only [total_append, total_cons] at hbounds
    refine htouch.sameOn ?_ (by omega)
    unfold Outside
    omega

/-! ## A full index -/

/-- The holes keep their sizes while the block is marked. -/
theorem hole_size_kept (h : Represents m heap hi (pre ++ t :: post) l) (hlive : t.hole = false)
    (htouch : HeapTouch heap.index m m' (heap.startAddress + total Tile.size pre)
      (heap.startAddress + total Tile.size pre + t.size)) (hx : x ∈ l) : hSize m' x = hSize m x := by
  obtain ⟨u, hat, hole⟩ := mem_starts.mp (h.perm.mem_iff.mp hx)
  have hbig := (h.tiles.at hat).big
  have hbounds := hat.bounds
  have hend := h.end_eq
  have htop := h.top
  have hwindow := h.apart
  unfold Outside at hwindow
  have hon : SameOn m m' x (x + u.size) := by
    refine htouch.sameOn ?_ ?_
    · unfold Outside
      omega
    · rcases hat.disjoint (at_middle Tile.size heap.startAddress pre t post) with hbelow | habove | ⟨-, rfl⟩
      · exact Or.inl hbelow
      · exact Or.inr habove
      · rw [hole] at hlive
        cases hlive
  exact hSize_congr hon le_rfl (by omega)

/-- Without a neighbour to merge with and with a full index, the insertion writes one word behind the array. -/
theorem free_full (hk : k.kheap = some heap) (h : Represents k.mem heap hi (pre ++ t :: post) l)
    (hlive : t.hole = false) (hb : b = heap.startAddress + total Tile.size pre) (hleft : ¬ LeftMerges k.mem b)
    (hright : ¬ RightMerges k.mem (b + t.size)) (hinner : b + t.size ≠ heap.endAddress)
    (hfull : heap.index.maxSize ≤ heap.index.size) :
    ∃ m1 m', free (b + 12) k = .ok ((k.withMem m').withHeap (heap.withCount (l.length + 1))) ∧
      TileAt m1 b (gap t.size) ∧ HeapTouch heap.index k.mem m1 b (b + t.size) ∧
      SameOff m1 m' heap.index.array (slot heap.index heap.index.maxSize + 4) ∧
      entries m' (heap.withCount (l.length + 1)).index = insertEntry (headerTLessThan m1) b l ∧
      load32 m' (slot heap.index heap.index.maxSize) = lastEntry k.mem l b t.size := by
  have hnone : Represents k.mem heap hi (pre ++ ([] ++ t :: []) ++ post) l := by simpa using h
  obtain ⟨m1, hrun, htile, hentries, htouch, -⟩ := free_merge hk hnone hlive hb rfl (.none rfl hleft) (.none hright)
  have hend := h.end_eq
  have hcap := h.capacity
  have hcount := h.size_eq
  have hibound := h.indexBound
  have htop := h.top
  have hbound := h.bound
  rw [total_append, total_cons] at hend
  have hl : withoutRight (b + t.size) [] l = l := rfl
  simp only [total_nil, Nat.zero_add, Nat.add_zero] at htile htouch hrun
  rw [hl] at hentries hrun
  obtain ⟨index, hindex⟩ : ∃ index, index = (heap.withCount l.length).index := ⟨_, rfl⟩
  have hsize : index.size = l.length := by rw [hindex]; rfl
  have harray : index.array = heap.index.array := by rw [hindex]; rfl
  obtain ⟨m', hinsert, hoff, hentries'⟩ := @insertOrderedArray_spec m1 index b _
    (by rw [hindex]; exact h.lessThan) (by omega) (by omega)
  rw [← hindex] at hentries
  rw [hentries] at hentries'
  have hgrown : ({ index with size := index.size + 1 } : OrderedArray) = (heap.withCount (l.length + 1)).index := by
    rw [hsize, hindex]
    rfl
  rw [hgrown] at hinsert hentries'
  refine ⟨m1, m', ?_, htile, htouch, ?_, hentries', ?_⟩
  · rw [hrun, freeFinish, if_neg hinner, ok_bind, List.isEmpty_nil]
    dsimp only
    rw [if_pos rfl, heapOf_eq (Kernel.withHeap_kheap _ _), ok_bind, Kernel.withHeap_mem, Kernel.withMem_mem, ← hindex,
      hinsert]
    rfl
  · refine hoff.mono ?_ ?_
    · rw [slot, harray]
      omega
    · rw [slot, slot, harray]
      omega
  · -- the last slot holds the last entry, whose place depends on the sizes only
    have hsizes : ∀ x ∈ l, (headerTLessThan m1 x b = true ↔ hSize k.mem x < t.size) := by
      intro x hx
      have hblock : hSize m1 b = t.size := htile.size
      rw [hb] at htouch
      rw [headerTLessThan, decide_eq_true_iff, hole_size_kept h hlive htouch hx, hblock]
    have hlast := insertEntry_last (headerTLessThan m1) b l
    have hmax : heap.index.maxSize = l.length := by omega
    have hlt : l.length < (entries m' (heap.withCount (l.length + 1)).index).length := by
      rw [entries_length]
      exact Nat.lt_succ_self _
    rw [← hentries', List.getElem?_eq_getElem hlt, entries_getElem hlt] at hlast
    have hword := Option.some.inj hlast
    have hsame : slot (heap.withCount (l.length + 1)).index l.length = slot heap.index heap.index.maxSize := by
      rw [hmax]
      rfl
    rw [hsame] at hword
    rw [hword, lastEntry]
    exact if_congr (forall₂_congr hsizes) rfl rfl

/-- The word behind a full index matters only where it lies in another live block. -/
theorem free_full_iff (hk : k.kheap = some heap) (h : Represents k.mem heap hi (pre ++ t :: post) l)
    (hlive : t.hole = false) (hb : b = heap.startAddress + total Tile.size pre) (hleft : ¬ LeftMerges k.mem b)
    (hright : ¬ RightMerges k.mem (b + t.size)) (hinner : b + t.size ≠ heap.endAddress)
    (hfull : heap.index.maxSize ≤ heap.index.size) :
    ∃ k', free (b + 12) k = .ok k' ∧
      ((∃ heap', FreesExactly k k' heap heap' (pre ++ t :: post) b t.size) ↔
        SparesBlocks k.mem heap (pre ++ t :: post) l b t.size) := by
  obtain ⟨m1, m', hrun, htile, htouch, hoff, hentries, hword⟩ := free_full hk h hlive hb hleft hright hinner hfull
  have hsplit : pre ++ ([] ++ t :: []) ++ post = pre ++ t :: post := by simp
  have hend := h.end_eq
  have htop := h.top
  have hwindow := h.apart
  unfold Outside at hwindow
  rw [total_append, total_cons] at hend
  have hslot : slot heap.index heap.index.maxSize = heap.index.array + 4*heap.index.maxSize := rfl
  refine ⟨_, hrun, fun hfrees => ?_, fun hspares => ⟨heap.withCount (l.length + 1), ?_⟩⟩
  · obtain ⟨heap', hexact⟩ := hfrees
    intro c u hat hu hne x hl hh
    rcases Nat.lt_or_ge x (slot heap.index heap.index.maxSize) with hbelow | hge
    · exact store32_of_off (Or.inl hbelow)
    · rcases Nat.lt_or_ge x (slot heap.index heap.index.maxSize + 4) with hin | habove
      · exact (store32_of_load32 k.mem hword hge hin).trans (hexact.live c u hat hu hne x hl hh)
      · exact store32_of_off (Or.inr habove)
  · -- the layout while the block is marked, and then the insertion
    have hmarked : Tiles Tile.size (TileAt m1) heap.startAddress (pre ++ [gap t.size] ++ post) heap.endAddress := by
      have hblock : Tiles Tile.size (TileAt k.mem) heap.startAddress (pre ++ [t] ++ post) heap.endAddress := by
        simpa using h.tiles
      refine tiles_replace hblock (htouch.sameOn ?_ ?_) (htouch.sameOn ?_ ?_) ?_
      · unfold Outside
        omega
      · exact Or.inl hb.ge
      · unfold Outside
        simp only [total_cons, total_nil]
        omega
      · exact Or.inr (by simp only [total_cons, total_nil]; omega)
      · rw [← hb]
        refine ⟨htile, ?_⟩
        simp only [Tiles, gap_size, total_cons, total_nil]
        omega
    have hperm : (insertEntry (headerTLessThan m1) b l).Perm (holes heap.startAddress (pre ++ [gap t.size] ++ post)) := by
      have hall := h.perm
      rw [holes, starts_append, starts_cons_of_not hlive] at hall
      have hone : holes (heap.startAddress + total Tile.size pre) [gap t.size] = [b] := by
        rw [hb]
        rfl
      rw [holes_middle, hone, total_cons, total_nil, Nat.add_zero, gap_size]
      refine (insertEntry_perm _ _ _).trans ((hall.cons b).trans ?_)
      simpa using List.perm_middle.symm
    rw [← hsplit]
    refine freesExactly_of (by rw [hsplit]; exact h) (y := gap t.size) (by simp) (by simp) hlive rfl (by simp)
      (by rw [total_nil]; exact hb) rfl ?_ ?_ ?_
    · show (entries m' _).Perm _
      rw [hentries]
      exact hperm
    · intro c u hat _
      have hu := hmarked.at hat
      have hbig := hu.big
      have hbounds := hat.bounds
      simp only [total_append, total_cons, total_nil, gap_size] at hbounds
      have hsame : SameOn m1 m' (c + 8) (c + 12) := hoff.sameOn (by omega)
      have hload : hSize m' c = hSize m1 c := hsame.load32_eq le_rfl le_rfl
      exact hload.trans hu.size
    · rw [hsplit]
      intro c u hat hu hne x hl hh
      have hwhole : At Tile.size heap.startAddress (pre ++ ([] ++ t :: []) ++ post) c u := by rwa [hsplit]
      have hplace : b = heap.startAddress + total Tile.size pre + total Tile.size ([] : List Tile) := hb
      have hout := live_outside (by simp) (by simp) hplace hwhole hu hne
      rw [total_nil] at hout
      have hbounds := hat.bounds
      simp only [total_append, total_cons] at hbounds
      have hmark : m1 x = k.mem x := htouch x (by omega) (by omega)
      show m' x = k.mem x
      rcases Nat.lt_or_ge x (slot heap.index heap.index.maxSize) with hbelow | hge
      · rw [hoff x (by omega), hmark]
      · rcases Nat.lt_or_ge x (slot heap.index heap.index.maxSize + 4) with hin | habove
        · rw [← store32_of_load32 k.mem hword hge hin]
          exact hspares c u hat hu hne x hl hh
        · rw [hoff x (Or.inr habove), hmark]

/-- A block is freed whose hole does not end the heap: `free` loses no memory and leaves the other blocks alone
exactly when the new entry fits. -/
theorem free_conserves_iff (hk : k.kheap = some heap) (h : Represents k.mem heap hi (pre ++ t :: post) l)
    (htagged : ∀ u ∈ pre ++ t :: post, u.tagged = true) (hfirst : fMagic k.mem (heap.startAddress - 8) ≠ HEAP_MAGIC)
    (hlive : t.hole = false) (hb : b = heap.startAddress + total Tile.size pre)
    (hinner : resultEnd (b + t.size) post ≠ heap.endAddress) :
    ∃ k', free (b + sizeofHeader) k = .ok k' ∧
      ((∃ heap', FreesExactly k k' heap heap' (pre ++ t :: post) b t.size) ↔
        EntryFits k.mem heap (pre ++ t :: post) l b t.size) := by
  have hend := h.end_eq
  simp only [total_append, total_cons] at hend
  have hcount := h.size_eq
  have hcap := h.capacity
  obtain ⟨pre', left, rfl, hleft, -, hleftHoles⟩ := left_case h hb
    (left_named h (fun u hu => htagged u (List.mem_append_left _ hu)) (fun _ htest => hfirst htest.1) hb)
  have hpost : post ≠ [] := by
    rintro rfl
    rw [total_nil] at hend
    exact hinner (by rw [resultEnd]; omega)
  obtain ⟨right, post', rfl, hright, htest, hrightHoles⟩ := right_case h (c := b + t.size) (by rw [hb])
    fun hnil => absurd hnil hpost
  have hresult : b + t.size + total Tile.size right ≠ heap.endAddress := by
    cases right with
    | nil =>
      cases hright with
      | none hno =>
        cases post' with
        | nil => exact absurd rfl hpost
        | cons r rest =>
          have hrtile : TileAt k.mem (b + t.size) r := by
            have hat := at_middle Tile.size heap.startAddress (pre' ++ left ++ [t]) r rest
            have hsame : heap.startAddress + total Tile.size (pre' ++ left ++ [t]) = b + t.size := by
              rw [total_append, total_cons, total_nil, hb]
              omega
            rw [hsame] at hat
            exact h.tiles.at (by simpa using hat)
          have hrlive : r.hole = false := by
            rwa [rightMerges_iff hrtile, Bool.not_eq_true] at hno
          rw [List.nil_append, resultEnd, hrlive] at hinner
          rw [total_nil]
          exact hinner
    | cons r rest =>
      cases hright with
      | merge _ hole _ =>
        rw [List.cons_append, resultEnd, hole, if_pos rfl] at hinner
        rw [total_cons, total_nil]
        exact hinner
  have hsplit : pre' ++ (left ++ t :: right) ++ post' = pre' ++ left ++ t :: (right ++ post') := by simp
  by_cases hroom : left = [] → (withoutRight (b + t.size) right l).length < heap.index.maxSize
  · obtain ⟨k', heap', hrun, hexact⟩ := free_conserves hk (by rw [hsplit]; exact h) hlive rfl rfl hleft hright
      hleftHoles hrightHoles hresult hroom
    rw [hsplit] at hexact
    refine ⟨k', hrun, iff_of_true ⟨heap', hexact⟩ ?_⟩
    cases hleft with
    | none _ _ =>
      have hlt := hroom rfl
      cases hright with
      | none _ =>
        have hsame : withoutRight (b + t.size) [] l = l := rfl
        rw [hsame] at hlt
        exact Or.inl (by omega)
      | merge _ _ _ => exact Or.inr (Or.inr (Or.inl (htest.mpr (List.cons_ne_nil _ _))))
    | merge _ _ _ hmerges _ => exact Or.inr (Or.inl hmerges)
  · rw [Classical.not_imp] at hroom
    obtain ⟨rfl, hnot⟩ := hroom
    obtain rfl : right = [] := by
      by_contra hne
      have hmem : b + t.size ∈ l := by
        cases hright with
        | none _ => exact absurd rfl hne
        | merge _ _ hmem => exact hmem
      have hlength := List.length_erase_of_mem hmem
      have hpos := List.length_pos_of_mem hmem
      unfold withoutRight at hnot
      rw [if_neg (by simpa using hne)] at hnot
      omega
    have hsame : withoutRight (b + t.size) [] l = l := rfl
    rw [hsame] at hnot
    have hnoLeft : ¬ LeftMerges k.mem b := by
      cases hleft with
      | none _ hno => exact hno
    have hnoRight : ¬ RightMerges k.mem (b + t.size) := fun hmerges => absurd rfl (htest.mp hmerges)
    obtain ⟨k', hrun, hiff⟩ := free_full_iff hk h hlive hb hnoLeft hnoRight (by simpa using hresult) (by omega)
    refine ⟨k', hrun, hiff.trans ⟨fun hspares => Or.inr (Or.inr (Or.inr hspares)), ?_⟩⟩
    rintro (hlt | hmerges | hmerges | hspares)
    · omega
    · exact absurd hmerges hnoLeft
    · exact absurd hmerges hnoRight
    · exact hspares

/-- Three live blocks and a hole. -/
def threeBlocks : List Tile := [live 0x1000] ++ live 0x1000 :: [live 0x1000, gap 0x7D000]

theorem heapState_three : HeapState (layoutKernel threeBlocks [KHEAP_DATA + 0x3000]) (layoutHeap threeBlocks 1) threeBlocks
    [KHEAP_DATA + 0x3000] := by
  refine heapState_layout ?_ (List.Perm.refl _) (by simp [HEAP_INDEX_SIZE]) ?_ ?_ ?_
  · intro t ht
    simp only [threeBlocks, List.singleton_append, List.mem_cons, List.not_mem_nil, or_false] at ht
    rcases ht with rfl | rfl | rfl | rfl <;> exact ⟨by norm_num, rfl⟩
  all_goals simp only [threeBlocks, List.singleton_append, total_cons, total_nil, live_size, gap_size]
  all_goals decide

theorem free_conserves_iff_three :
    ∃ k', free (KHEAP_DATA + 0x1000 + sizeofHeader) (layoutKernel threeBlocks [KHEAP_DATA + 0x3000]) = .ok k' ∧
      ((∃ heap', FreesExactly (layoutKernel threeBlocks [KHEAP_DATA + 0x3000]) k' (layoutHeap threeBlocks 1) heap'
          ([live 0x1000] ++ live 0x1000 :: [live 0x1000, gap 0x7D000]) (KHEAP_DATA + 0x1000) (live 0x1000).size) ↔
        EntryFits (layoutKernel threeBlocks [KHEAP_DATA + 0x3000]).mem (layoutHeap threeBlocks 1)
          ([live 0x1000] ++ live 0x1000 :: [live 0x1000, gap 0x7D000]) [KHEAP_DATA + 0x3000] (KHEAP_DATA + 0x1000)
          (live 0x1000).size) := by
  have h := heapState_three
  refine free_conserves_iff h.kheap h.represents (fun u hu => ?_) (h.below_start ?_) rfl rfl ?_
  · simp only [List.singleton_append, List.mem_cons, List.not_mem_nil, or_false] at hu
    rcases hu with rfl | rfl | rfl | rfl <;> rfl
  · show KHEAP_START + 4*HEAP_INDEX_SIZE = KHEAP_DATA
    decide
  · show KHEAP_DATA + 0x1000 + 0x1000 ≠ KHEAP_DATA + 0x80000
    decide

/-! ## A heap whose index is full -/

/-- Right above a full index, the first block does not survive. -/
theorem not_sparesBlocks (h : Represents m heap hi (u :: ts) l) (hlive : u.hole = false)
    (hindex : heap.index.array + 4*heap.index.maxSize = heap.startAddress) (hhigh : HEAP_MAGIC < heap.startAddress)
    (hb : heap.startAddress < b) (hbound : b < 4294967296) : ¬ SparesBlocks m heap (u :: ts) l b n := by
  intro hspares
  have hslot : slot heap.index heap.index.maxSize = heap.startAddress := hindex
  obtain ⟨entry, hentry⟩ : ∃ entry, entry = lastEntry m l b n := ⟨_, rfl⟩
  have hrange : heap.startAddress ≤ entry ∧ entry < 4294967296 := by
    have hmem : entry = b ∨ entry ∈ l := by
      rw [hentry, lastEntry]
      split
      · exact Or.inl rfl
      · rw [List.getLastD_eq_getLast?]
        cases hlast : l.getLast? with
        | none => exact Or.inl rfl
        | some x => exact Or.inr (List.mem_of_getLast? hlast)
    rcases hmem with rfl | hmem
    · exact ⟨hb.le, hbound⟩
    · obtain ⟨v, hat, -⟩ := mem_starts.mp (h.perm.mem_iff.mp hmem)
      have hbounds := hat.bounds
      have hbig := (h.tiles.at hat).big
      have hend := h.end_eq
      have htop := h.top
      have hhi := h.bound
      omega
  have hfirst := h.tiles.1
  have hbig := hfirst.big
  have hkept := hspares heap.startAddress u (Or.inl ⟨rfl, rfl⟩) hlive (by omega)
  rw [hslot, ← hentry] at hkept
  have hword : hMagic (store32 m heap.startAddress entry) heap.startAddress = entry := load32_store32_of_lt hrange.2
  rw [hMagic_congr hkept le_rfl (by omega), hfirst.magic] at hword
  omega

/-- Holes of 20 bytes between live blocks of 20 bytes, and a last block that fills the page. -/
def chequered : ℕ → List Tile
  | 0 => [live 4036]
  | n + 1 => gap 20 :: live 20 :: chequered n

theorem total_chequered (n : ℕ) : total Tile.size (chequered n) = 40*n + 4036 := by
  induction n with
  | zero => rfl
  | succ n ih =>
    rw [chequered, total_cons, total_cons, ih, gap_size, live_size]
    omega

theorem holes_chequered (a n : ℕ) : (holes a (chequered n)).length = n := by
  induction n generalizing a with
  | zero => rfl
  | succ n ih =>
    rw [chequered, holes, starts_cons_of (gap_hole 20), starts_cons_of_not (live_hole 20), List.length_cons]
    exact congrArg Nat.succ (ih _)

theorem mem_chequered (n : ℕ) : ∀ u ∈ chequered n, 20 ≤ u.size ∧ u.tagged = true := by
  induction n with
  | zero =>
    intro u hu
    rw [List.mem_singleton.mp hu]
    exact ⟨by simp, rfl⟩
  | succ n ih =>
    intro u hu
    rcases List.mem_cons.mp hu with rfl | hu
    · exact ⟨by simp, rfl⟩
    · rcases List.mem_cons.mp hu with rfl | hu
      · exact ⟨by simp, rfl⟩
      · exact ih u hu

/-- Three live blocks in front. -/
def crowded (rest : List Tile) : List Tile := [live 20] ++ live 20 :: live 20 :: rest

/-- With as many holes behind them as the index has slots, the last entry goes over the header of the first
block. -/
theorem free_crowded (hrest : ∀ u ∈ ts, 20 ≤ u.size ∧ u.tagged = true)
    (hcount : (holes (KHEAP_DATA + 20 + 20 + 20) ts).length = HEAP_INDEX_SIZE)
    (hmax : KHEAP_DATA + (20 + (20 + (20 + total Tile.size ts))) ≤ KHEAP_MAX)
    (hl : l = holes KHEAP_DATA (crowded ts)) :
    ∃ k', free (KHEAP_DATA + 20 + 12) (layoutKernel (crowded ts) l) = .ok k' ∧
      ¬ ∃ heap', FreesExactly (layoutKernel (crowded ts) l) k' (layoutHeap (crowded ts) l.length) heap' (crowded ts)
        (KHEAP_DATA + 20) (live 20).size := by
  have hall : ∀ u ∈ crowded ts, 20 ≤ u.size ∧ u.tagged = true := by
    intro u hu
    simp only [crowded, List.singleton_append, List.mem_cons] at hu
    rcases hu with rfl | rfl | rfl | hu
    · exact ⟨le_rfl, rfl⟩
    · exact ⟨le_rfl, rfl⟩
    · exact ⟨le_rfl, rfl⟩
    · exact hrest u hu
  have hlength : l.length = HEAP_INDEX_SIZE := by
    rw [hl, ← hcount]
    rfl
  have h := represents_layout hall (hl ▸ List.Perm.refl _) hlength.le hmax
  have hsize : (layoutHeap (crowded ts) l.length).index.size = l.length := rfl
  have htop : KHEAP_DATA + 20 + 20 ≠ (layoutHeap (crowded ts) l.length).endAddress := by
    show KHEAP_DATA + 20 + 20 ≠ KHEAP_DATA + (20 + (20 + (20 + total Tile.size ts)))
    omega
  have hleft : ¬ LeftMerges (layoutKernel (crowded ts) l).mem (KHEAP_DATA + 20) := by
    have hfirst : TileAt (layoutKernel (crowded ts) l).mem KHEAP_DATA (live 20) := h.tiles.1
    exact fun htest => Bool.false_ne_true ((leftMerges_iff hfirst rfl).mp htest)
  have hright : ¬ RightMerges (layoutKernel (crowded ts) l).mem (KHEAP_DATA + 20 + 20) := by
    have hthird : TileAt (layoutKernel (crowded ts) l).mem (KHEAP_DATA + 20 + 20) (live 20) := h.tiles.2.2.1
    exact fun htest => Bool.false_ne_true ((rightMerges_iff hthird).mp htest)
  obtain ⟨k', hrun, hiff⟩ := free_full_iff rfl h rfl rfl hleft hright htop (by rw [hsize, hlength]; exact le_rfl)
  have hindex : KHEAP_START + 4*HEAP_INDEX_SIZE = KHEAP_DATA := by decide
  have hmagic : HEAP_MAGIC < KHEAP_DATA := by decide
  have hblock : KHEAP_DATA < KHEAP_DATA + 20 ∧ KHEAP_DATA + 20 < 4294967296 := by decide
  exact ⟨k', hrun, fun hexact => not_sparesBlocks h rfl hindex hmagic hblock.1 hblock.2 (hiff.mp hexact)⟩

theorem free_full_index : ∃ k', free (KHEAP_DATA + 20 + sizeofHeader)
      (layoutKernel (crowded (chequered HEAP_INDEX_SIZE)) (holes KHEAP_DATA (crowded (chequered HEAP_INDEX_SIZE)))) = .ok k' ∧
    ¬ ∃ heap', FreesExactly
      (layoutKernel (crowded (chequered HEAP_INDEX_SIZE)) (holes KHEAP_DATA (crowded (chequered HEAP_INDEX_SIZE)))) k'
      (layoutHeap (crowded (chequered HEAP_INDEX_SIZE)) (holes KHEAP_DATA (crowded (chequered HEAP_INDEX_SIZE))).length)
      heap' (crowded (chequered HEAP_INDEX_SIZE)) (KHEAP_DATA + 20) (live 20).size := by
  refine free_crowded (mem_chequered _) (holes_chequered _ _) ?_ rfl
  rw [total_chequered]
  decide

end PandaOS

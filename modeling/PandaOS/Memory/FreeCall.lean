import PandaOS.Memory.FreeSpec
import PandaOS.Memory.AllocCall

/-! A whole call of `free` on a live block of the kernel heap. `FreeSafe` is the condition on the
state before the call, read off the headers and footers next to the block; `Frees` says what a
returning call has then done. -/
namespace PandaOS
open ByteMemory Word32 Tiling
set_option autoImplicit false
set_option maxHeartbeats 250000

instance (m : Mem) (header : ℕ) : Decidable (LeftMerges m header) :=
  inferInstanceAs (Decidable (_ ∧ _))

instance (m : Mem) (testHeader : ℕ) : Decidable (RightMerges m testHeader) :=
  inferInstanceAs (Decidable (_ ∧ _))

/-- Where the hole begins that `free` makes of the block at `header`. -/
def mergedStart (m : Mem) (header : ℕ) : ℕ :=
  if LeftMerges m header then fHeader m (header - 8) else header

/-- Where it ends, before any contraction. -/
def mergedEnd (m : Mem) (header : ℕ) : ℕ :=
  if RightMerges m (header + hSize m header) then
    header + hSize m header + hSize m (header + hSize m header)
  else header + hSize m header

/-- The footer below the block, if `free` follows it, names a hole of the index that ends at the
block; a hole that ends the heap begins at least 20 bytes below the minimal length; the index has
room. -/
structure FreeSafe (k : Kernel) (heap : Heap) (header : ℕ) : Prop where
  left : LeftMerges k.mem header → fHeader k.mem (header - 8) ∈ entries k.mem heap.index ∧
    fHeader k.mem (header - 8) + hSize k.mem (fHeader k.mem (header - 8)) = header
  tail : mergedEnd k.mem header = heap.endAddress →
    mergedStart k.mem header + 20 ≤ heap.startAddress + HEAP_MIN_SIZE
  room : heap.index.size + 1 < heap.index.maxSize

/-- The block `t` at `b` and the holes `left` and `right` next to it became the hole `x` at `a`. -/
structure Frees (k k' : Kernel) (heap heap' : Heap) (pre left right post : List Tile) (t x : Tile)
    (l : List ℕ) (a b c : ℕ) : Prop where
  start : a = heap.startAddress + total Tile.size pre
  finish : c = b + t.size
  leftCase : LeftCase k.mem a b left
  rightCase : RightCase k.mem c l right
  merged : (c + total Tile.size right ≠ heap.endAddress ∧ x = mergedTile left right t ∧
      heap'.endAddress = heap.endAddress) ∨
    (c + total Tile.size right = heap.endAddress ∧ post = [] ∧
      x = gap (heap.startAddress + HEAP_MIN_SIZE - a) ∧
      heap'.endAddress = heap.startAddress + HEAP_MIN_SIZE)
  state : HeapState k' heap' (pre ++ [x] ++ post) (freedIndex (headerTLessThan k'.mem) a c left right l)
  sameHeap : SameHeap heap heap'
  frame : Frame k k' heap.index heap.index.array heap.maxAddress a (c + total Tile.size right)

variable {k k' : Kernel} {heap heap' : Heap} {hi : ℕ} {pre left right post ts : List Tile} {t u x : Tile}
  {l : List ℕ} {a b c : ℕ} {m : Mem}

/-! ## The neighbours -/

/-- A tile that ends where the tiles `pre` end is the last of them. -/
theorem last_of_end (hpos : ∀ v ∈ pre, 0 < v.size) (hat : At Tile.size a pre b u)
    (hend : b + u.size = a + total Tile.size pre) :
    ∃ pre', pre = pre' ++ [u] ∧ b = a + total Tile.size pre' := by
  obtain ⟨p, q, rfl, rfl⟩ := at_iff_split.mp hat
  cases q with
  | nil => exact ⟨p, rfl, rfl⟩
  | cons v q =>
    have hv := hpos v (by simp)
    simp only [total_append, total_cons] at hend
    omega

/-- Below the end of a tile with its footer, `free` finds that tile, and takes it only if it is a hole. -/
theorem leftMerges_iff (hu : TileAt m a u) (htag : u.tagged = true) : LeftMerges m (a + u.size) ↔ u.hole = true := by
  have hbig := hu.big
  obtain ⟨hmagic, hname⟩ := hu.footer htag
  have hsame : hIsHole (setIsHole m (a + u.size) 1) a = hIsHole m a := load8_store8_of_ne (by omega)
  rw [LeftMerges, hname, hsame, hu.isHole]
  cases u.hole <;> simp [hmagic]

theorem rightMerges_iff (hu : TileAt m c u) : RightMerges m c ↔ u.hole = true := by
  rw [RightMerges, hu.isHole]
  cases u.hole <;> simp [hu.magic]

/-- The footer below a block names the tile before it, and `free` follows it only to a hole. -/
theorem left_named (h : Represents m heap hi (pre ++ t :: post) l) (htagged : ∀ u ∈ pre, u.tagged = true)
    (hfirst : pre = [] → ¬ LeftMerges m heap.startAddress) (hb : b = heap.startAddress + total Tile.size pre)
    (htest : LeftMerges m b) :
    fHeader m (b - 8) ∈ l ∧ fHeader m (b - 8) + hSize m (fHeader m (b - 8)) = b := by
  rcases List.eq_nil_or_concat' pre with rfl | ⟨pre', u, rfl⟩
  · rw [total_nil, Nat.add_zero] at hb
    rw [hb] at htest
    exact absurd htest (hfirst rfl)
  · have hsplit : (pre' ++ [u]) ++ t :: post = pre' ++ u :: (t :: post) := by simp
    have htiles := h.tiles
    rw [hsplit] at htiles
    have hu := (tiles_middle.mp htiles).2.1
    obtain ⟨d, hd⟩ : ∃ d, d = heap.startAddress + total Tile.size pre' := ⟨_, rfl⟩
    rw [← hd] at hu
    have hbig := hu.big
    simp only [total_append, total_cons, total_nil, Nat.add_zero] at hb
    have hplace : b = d + u.size := by omega
    have hutag := htagged u (by simp)
    rw [hplace] at htest ⊢
    have hole : u.hole = true := (leftMerges_iff hu hutag).mp htest
    rw [(hu.footer hutag).2, hu.size]
    refine ⟨h.perm.mem_iff.mpr (mem_starts.mpr ⟨u, ?_, hole⟩), by omega⟩
    rw [hsplit, hd]
    exact at_middle Tile.size heap.startAddress pre' u (t :: post)

theorem left_case (h : Represents m heap hi (pre ++ t :: post) l)
    (hb : b = heap.startAddress + total Tile.size pre)
    (hsafe : LeftMerges m b → fHeader m (b - 8) ∈ l ∧
      fHeader m (b - 8) + hSize m (fHeader m (b - 8)) = b) :
    ∃ pre' left, pre = pre' ++ left ∧
      LeftCase m (heap.startAddress + total Tile.size pre') b left ∧
      mergedStart m b = heap.startAddress + total Tile.size pre' ∧ ∀ u ∈ left, u.hole = true := by
  by_cases htest : LeftMerges m b
  · obtain ⟨hmem, hends⟩ := hsafe htest
    obtain ⟨u, hat, hole⟩ := mem_starts.mp (h.perm.mem_iff.mp hmem)
    have htile := h.tiles.at hat
    rw [htile.size] at hends
    have hbig := htile.big
    have hat' : At Tile.size heap.startAddress pre (fHeader m (b - 8)) u := by
      rcases at_append.mp hat with hpre | hpost
      · exact hpre
      · have := hpost.bounds.1
        omega
    obtain ⟨pre', rfl, hstart⟩ := last_of_end
      (fun v hv => tiles_pos h.tiles v (List.mem_append_left _ hv)) hat' (by omega)
    refine ⟨pre', [u], rfl, ?_, ?_, by simpa using hole⟩
    · rw [← hstart]
      exact .merge htile hole hends htest rfl
    · rw [mergedStart, if_pos htest, hstart]
  · refine ⟨pre, [], by simp, .none hb.symm htest, ?_, by simp⟩
    rw [mergedStart, if_neg htest, hb]

/-- The tile behind the block is what the test for a hole to the right sees; behind the last block
the test must fail. -/
theorem right_case (h : Represents m heap hi (pre ++ t :: post) l)
    (hc : c = heap.startAddress + total Tile.size pre + t.size)
    (hlast : post = [] → ¬ RightMerges m c) :
    ∃ right post', post = right ++ post' ∧ RightCase m c l right ∧
      (RightMerges m c ↔ right ≠ []) ∧ ∀ u ∈ right, u.hole = true := by
  cases post with
  | nil => exact ⟨[], [], rfl, .none (hlast rfl), by simpa using hlast rfl, by simp⟩
  | cons r post =>
    have hsplit : pre ++ t :: r :: post = (pre ++ [t]) ++ r :: post := by simp
    have htiles := h.tiles
    rw [hsplit] at htiles
    have hrtile := (tiles_middle.mp htiles).2.1
    simp only [total_append, total_cons, total_nil, Nat.add_zero, ← Nat.add_assoc] at hrtile
    rw [← hc] at hrtile
    cases hole : r.hole with
    | true =>
      have hmem : c ∈ l := by
        refine h.perm.mem_iff.mpr (mem_starts.mpr ⟨r, ?_, hole⟩)
        rw [hsplit, hc]
        have := at_middle Tile.size heap.startAddress (pre ++ [t]) r post
        simpa [Nat.add_assoc] using this
      have htest : RightMerges m c := (rightMerges_iff hrtile).mpr hole
      exact ⟨[r], post, rfl, .merge hrtile hole hmem, by simpa using htest, by simpa using hole⟩
    | false =>
      have htest : ¬ RightMerges m c := by
        rw [rightMerges_iff hrtile, hole]
        exact Bool.false_ne_true
      exact ⟨[], r :: post, rfl, .none htest, by simpa using htest, by simp⟩

/-! ## The call -/

theorem withoutRight_room (h : Represents m heap hi ts l) (right : List Tile) (c : ℕ)
    (hroom : heap.index.size + 1 < heap.index.maxSize) :
    (withoutRight c right l).length < heap.index.maxSize := by
  have := (withoutRight_sublist c right l).length_le
  have := h.size_eq
  omega

theorem freedIndex_length (lt : ℕ → ℕ → Bool) (a c : ℕ) (left right : List Tile) (l : List ℕ) :
    (freedIndex lt a c left right l).length ≤ l.length + 1 := by
  have hle := (withoutRight_sublist c right l).length_le
  unfold freedIndex
  split
  · rw [(insertEntry_perm _ _ _).length_eq, List.length_cons]
    omega
  · omega

/-- A returning call meets a layout in which the tiles next to the block are named. -/
theorem free_neighbours (h : HeapState k heap (pre ++ t :: post) l) (hlive : t.hole = false)
    (hb : b = heap.startAddress + total Tile.size pre)
    (hleft : LeftMerges k.mem b → fHeader k.mem (b - 8) ∈ entries k.mem heap.index ∧
      fHeader k.mem (b - 8) + hSize k.mem (fHeader k.mem (b - 8)) = b)
    (hrun : free (b + 12) k = .ok k') :
    ∃ pre' left right post', pre = pre' ++ left ∧ post = right ++ post' ∧
      (∀ u ∈ left, u.hole = true) ∧ (∀ u ∈ right, u.hole = true) ∧
      LeftCase k.mem (heap.startAddress + total Tile.size pre') b left ∧
      RightCase k.mem (b + t.size) l right ∧
      mergedStart k.mem b = heap.startAddress + total Tile.size pre' ∧
      mergedEnd k.mem b = b + t.size + total Tile.size right := by
  have hrep := h.represents
  rw [hrep.index] at hleft
  obtain ⟨pre', left, rfl, hcase, hstart, hleftHoles⟩ := left_case hrep hb hleft
  have hlast : post = [] → ¬ RightMerges k.mem (b + t.size) := by
    rintro rfl htest
    have := free_past_end h.kheap (by simpa using hrep) hlive rfl rfl hcase htest
    rw [this] at hrun
    cases hrun
  obtain ⟨right, post', rfl, hright, htest, hrightHoles⟩ := right_case hrep (by rw [hb]) hlast
  have htile := (tiles_middle.mp hrep.tiles).2.1
  rw [← hb] at htile
  refine ⟨pre', left, right, post', rfl, rfl, hleftHoles, hrightHoles, hcase, hright, hstart, ?_⟩
  rw [mergedEnd, htile.size]
  cases hright with
  | none hno => rw [if_neg hno, total_nil, Nat.add_zero]
  | @merge r hrtile _ _ =>
    rw [if_pos (htest.mpr (by simp)), hrtile.size]
    simp

/-- The block does not reach the end of the heap, merges included. -/
theorem free_inner_call (h : HeapState k heap (pre ++ (left ++ t :: right) ++ post) l) (hlive : t.hole = false)
    (ha : a = heap.startAddress + total Tile.size pre) (hc : c = b + t.size)
    (hleft : LeftCase k.mem a b left) (hright : RightCase k.mem c l right)
    (hinner : c + total Tile.size right ≠ heap.endAddress) (hroom : heap.index.size + 1 < heap.index.maxSize) :
    ∃ k' heap', free (b + 12) k = .ok k' ∧
      Frees k k' heap heap' pre left right post t (mergedTile left right t) l a b c := by
  have hrep := h.represents
  have hend := hrep.end_eq
  have hab := hleft.total_eq
  have hbelow := h.below
  have hclean := h.clean
  have hcount := hrep.size_eq
  have htop := hrep.top
  simp only [total_append, total_cons] at hend
  obtain ⟨m1, hfree, hrep1, htouch, hslots⟩ := free_inner_spec h.kheap hrep hlive ha hc hleft hright
    hinner (fun _ => withoutRight_room hrep right _ hroom)
  obtain ⟨n, hn⟩ : ∃ n, n = (freedIndex (headerTLessThan m1) a c left right l).length := ⟨_, rfl⟩
  have hlen := freedIndex_length (headerTLessThan m1) a c left right l
  rw [← hn] at hfree hrep1 hlen
  have hframe := Frame.of_touch heap.index h.paged htouch (heap.withCount n) ⟨le_rfl, by omega⟩ (by omega) (by omega)
  have hstate : HeapState ((k.withMem m1).withHeap (heap.withCount n)) (heap.withCount n)
      (pre ++ [mergedTile left right t] ++ post) (freedIndex (headerTLessThan m1) a c left right l) := by
    refine ⟨rfl, hrep1, hframe.paged h.paged, hbelow, ⟨?_, hclean.above,
      hslots hclean.above hclean.room hclean.slots⟩, h.two, h.startAligned, h.endAligned, h.minimum, h.span, h.top⟩
    simp only [Heap.withCount_size, Heap.withCount_maxSize]
    omega
  exact ⟨_, heap.withCount n, hfree, ha, hc, hleft, hright, Or.inl ⟨hinner, rfl, rfl⟩, hstate,
    ⟨rfl, rfl, rfl, rfl⟩, hframe.mono le_rfl (Nat.le_add_right _ _)⟩

/-- The merged hole ends the heap and begins far enough below the minimal length. -/
theorem free_tail_call (h : HeapState k heap (pre ++ (left ++ t :: right)) l) (hlive : t.hole = false)
    (ha : a = heap.startAddress + total Tile.size pre) (hc : c = b + t.size)
    (hleft : LeftCase k.mem a b left) (hright : RightCase k.mem c l right)
    (hlow : a + 20 ≤ heap.startAddress + HEAP_MIN_SIZE) (hroom : heap.index.size + 1 < heap.index.maxSize) :
    ∃ k' heap', free (b + 12) k = .ok k' ∧
      Frees k k' heap heap' pre left right [] t (gap (heap.startAddress + HEAP_MIN_SIZE - a)) l a b c := by
  have hrep := h.represents
  have hend := hrep.end_eq
  have hab := hleft.total_eq
  have hclean := h.clean
  have hcount := hrep.size_eq
  have hstartAligned := h.startAligned
  simp only [total_append, total_cons] at hend
  have hlast : c + total Tile.size right = heap.endAddress := by omega
  obtain ⟨k1, hfree, hkheap, hrep1, hframe, hslots⟩ := free_tail_spec h.kheap hrep hlive ha hc hleft hright
    (by simp only [HEAP_MIN_SIZE] at *; omega) h.minimum h.paged ⟨le_rfl, h.below⟩
    (fun _ => withoutRight_room hrep right _ hroom)
  obtain ⟨n, hn⟩ : ∃ n, n = (freedIndex (headerTLessThan k1.mem) a c left right l).length := ⟨_, rfl⟩
  have hlen := freedIndex_length (headerTLessThan k1.mem) a c left right l
  rw [← hn] at hkheap hrep1 hlen
  have hstate : HeapState k1 ((heap.withEnd (heap.startAddress + HEAP_MIN_SIZE)).withCount n)
      (pre ++ [gap (heap.startAddress + HEAP_MIN_SIZE - a)])
      (freedIndex (headerTLessThan k1.mem) a c left right l) := by
    refine ⟨hkheap, hrep1, hframe.paged h.paged, h.below, ⟨?_, hclean.above,
      hslots hclean.above hclean.room hclean.slots⟩, h.two, hstartAligned, ?_, le_rfl, h.span, h.top⟩
    · simp only [Heap.withCount_size, Heap.withCount_maxSize, Heap.withEnd_index]
      omega
    · simp only [Heap.withCount_endAddress, Heap.withEnd_endAddress, HEAP_MIN_SIZE]
      omega
  rw [← hlast] at hframe
  rw [← List.append_nil (pre ++ [gap _])] at hstate
  exact ⟨_, _, hfree, ha, hc, hleft, hright, Or.inr ⟨hlast, rfl, rfl, rfl⟩, hstate, ⟨rfl, rfl, rfl, rfl⟩, hframe⟩

theorem free_spec (h : HeapState k heap (pre ++ t :: post) l) (hlive : t.hole = false)
    (hb : b = heap.startAddress + total Tile.size pre) (hsafe : FreeSafe k heap b)
    (hrun : free (b + 12) k = .ok k') :
    ∃ heap' pre' left right post' x, pre = pre' ++ left ∧ post = right ++ post' ∧
      (∀ u ∈ left, u.hole = true) ∧ (∀ u ∈ right, u.hole = true) ∧
      Frees k k' heap heap' pre' left right post' t x l (heap.startAddress + total Tile.size pre') b
        (b + t.size) := by
  obtain ⟨hsafeLeft, hsafeTail, hroom⟩ := hsafe
  obtain ⟨pre', left, right, post', rfl, rfl, hleftHoles, hrightHoles, hleft, hright, hstart, hmergedEnd⟩ :=
    free_neighbours h hlive hb hsafeLeft hrun
  rw [hmergedEnd, hstart] at hsafeTail
  have hsplit : pre' ++ left ++ t :: (right ++ post') = pre' ++ (left ++ t :: right) ++ post' := by simp
  rw [hsplit] at h
  by_cases hinner : b + t.size + total Tile.size right = heap.endAddress
  · -- the hole ends the heap, so nothing is behind it
    have hend := h.represents.end_eq
    have hab := hleft.total_eq
    simp only [total_append, total_cons] at hend
    have hpost : post' = [] := by
      cases post' with
      | nil => rfl
      | cons v post' =>
        have hv := tiles_pos h.represents.tiles v (by simp)
        simp only [total_cons] at hend
        omega
    subst hpost
    rw [List.append_nil] at h
    obtain ⟨k1, heap', hfree, hfrees⟩ := free_tail_call h hlive rfl rfl hleft hright (hsafeTail hinner) hroom
    obtain rfl := Except.ok.inj (hfree.symm.trans hrun)
    exact ⟨heap', pre', left, right, [], _, rfl, rfl, hleftHoles, hrightHoles, hfrees⟩
  · obtain ⟨k1, heap', hfree, hfrees⟩ := free_inner_call h hlive rfl rfl hleft hright hinner hroom
    obtain rfl := Except.ok.inj (hfree.symm.trans hrun)
    exact ⟨heap', pre', left, right, post', _, rfl, rfl, hleftHoles, hrightHoles, hfrees⟩

end PandaOS

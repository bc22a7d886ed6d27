import PandaOS.Memory.HeapClient
import PandaOS.Library.Regions

/-! Safety of the clients of the kernel heap. The payloads of the live blocks are apart, inside the heap and
off every header and footer, and no call writes into one that stays live. A call can break this only from
the states that `AllocSafe` and `FreeSafe` leave out. -/
namespace PandaOS
open ByteMemory Word32 Tiling GuardedRun
set_option autoImplicit false
set_option maxHeartbeats 250000

/-- A client of the fresh kernel heap that has not called it yet. -/
def Client.Start (s : Client) : Prop :=
  s.blocks = [] ∧ ∃ k fuel supervisor readonly, k.kheap = none ∧ Paged k KHEAP_START KHEAP_MAX ∧
    createKernelHeap fuel supervisor readonly k = .ok s.kernel

/-- One call that returns. -/
def Client.Step (s : Client) (r : Request) (s' : Client) : Prop := ∃ fuel, s.call fuel r = .ok s'

/-- The length of the block is a 32-bit number. -/
def Request.Fits : Request → Prop
  | .alloc size _ => size + 20 < 4294967296
  | .free _ => True

/-- The condition on the heap before a call. -/
def Client.Guard (s : Client) (r : Request) : Prop :=
  ∀ heap ts l, HeapState s.kernel heap ts l →
    match r with
    | .alloc size pageAlign => AllocSafe s.kernel heap ts l size pageAlign
    | .free i => ∀ p, s.blocks[i]? = some p → FreeSafe s.kernel heap (p.1 - sizeofHeader)

structure Client.Safe (s : Client) : Prop where
  disjoint : s.blocks.Pairwise Apart
  inside : ∃ heap ts, s.kernel.kheap = some heap ∧
    Tiles Tile.size (TileAt s.kernel.mem) heap.startAddress ts heap.endAddress ∧
    ∀ p ∈ s.blocks, heap.startAddress ≤ p.1 ∧ p.1 + p.2 ≤ heap.endAddress ∧
      ∀ a t, At Tile.size heap.startAddress ts a t →
        Apart p (a, sizeofHeader) ∧ Apart p (a + t.size - sizeofFooter, sizeofFooter)

/-- The payloads that stay live have their bytes. -/
def Client.Spares (s s' : Client) : Prop :=
  ∀ p ∈ s.blocks, p ∈ s'.blocks → SameOn s.kernel.mem s'.kernel.mem p.1 (p.1 + p.2)

/-- The invariant of the runs. -/
def Client.InOrder (s : Client) : Prop :=
  ∃ heap ts l, HeapState s.kernel heap ts l ∧ Owns s.blocks heap.startAddress ts

variable {k k' : Kernel} {heap heap' : Heap} {ts pre old left right post : List Tile} {t x : Tile}
  {l l0 : List ℕ} {blocks : List (ℕ × ℕ)} {a b c i n p s size start fuel : ℕ}

/-! ## Payloads of tiles -/

/-- A payload touches no header and no footer. -/
theorem Owns.off_tags {q : ℕ × ℕ} (h : Owns blocks start ts) (hq : q ∈ blocks) (hbig : 20 ≤ t.size)
    (hat : At Tile.size start ts a t) : Apart q (a, 12) ∧ Apart q (a + t.size - 8, 8) := by
  obtain ⟨d, u, hqd, hatu, -, hsize⟩ := h.tile q hq
  unfold Apart
  dsimp only
  rcases hatu.disjoint hat with hlow | hhigh | ⟨rfl, rfl⟩ <;> omega

theorem Owns.disjoint (h : Owns blocks start ts) : blocks.Pairwise Apart := by
  refine List.Pairwise.imp_of_mem (fun {p q} hp hq hne => ?_) h.distinct
  obtain ⟨a, t, hpa, hat, -, hp20⟩ := h.tile p hp
  obtain ⟨d, u, hqd, hatu, -, hq20⟩ := h.tile q hq
  unfold Apart
  rcases hat.disjoint hatu with hlow | hhigh | ⟨rfl, -⟩ <;> omega

theorem Client.InOrder.safe {s : Client} (h : s.InOrder) : s.Safe := by
  obtain ⟨heap, ts, l, hstate, howns⟩ := h
  have hend := hstate.represents.end_eq
  refine ⟨howns.disjoint, heap, ts, hstate.kheap, hstate.represents.tiles, fun p hp => ?_⟩
  obtain ⟨a, t, hpa, hat, -, hsize⟩ := howns.tile p hp
  have hbounds := hat.bounds
  exact ⟨by omega, by omega, fun d u hatu => howns.off_tags hp (hstate.represents.tiles.at hatu).big hatu⟩

/-! ## Calls -/

/-- The first tile of a cut is the block. -/
theorem carved_front (hn : n ≤ s) : ∃ t rest, carved s n = t :: rest ∧ t.hole = false ∧ n ≤ t.size := by
  unfold carved
  split_ifs
  · exact ⟨live s, [], rfl, rfl, hn⟩
  · exact ⟨live n, [gap (s - n)], rfl, rfl, le_rfl⟩

/-- Writes outside a payload that lies inside the heap. -/
theorem Frame.payload {q : ℕ × ℕ} (hframe : Frame k k' heap.index heap.index.array heap.maxAddress a c)
    (h : HeapState k heap ts l) (hlow : heap.startAddress ≤ q.1) (hhigh : q.1 + q.2 ≤ heap.endAddress)
    (hout : q.1 + q.2 ≤ a ∨ c ≤ q.1) : SameOn k.mem k'.mem q.1 (q.1 + q.2) := by
  have hbelow := h.below
  have htop := h.represents.top
  refine hframe.sameOn (by omega) (by omega) ?_ hout
  unfold Outside
  omega

theorem Allocates.sameLength (h : Allocates k k' heap heap' ts pre old post l l0 s i n p) :
    post = [] ∨ total Tile.size (carved s n) = total Tile.size old := by
  rcases h.place with ⟨-, hs, -⟩ | hpost
  · exact Or.inr ((total_carved h.room).trans hs)
  · exact Or.inl hpost

/-- The new block is one more tile of the client. -/
theorem Allocates.owns (h : Allocates k k' heap heap' ts pre old post l l0 s i (size + 20) p)
    (howns : Owns blocks heap.startAddress ts) :
    Owns ((p, size) :: blocks) heap'.startAddress (pre ++ carved s (size + 20) ++ post) := by
  rw [h.tiles] at howns
  have hroom := h.room
  have htotal := h.sameLength
  rw [total_carved hroom] at htotal
  have hold : ∀ q ∈ blocks, ∀ a t, q.1 = a + 12 →
      At Tile.size (heap.startAddress + total Tile.size pre) old a t → t.hole = true :=
    fun q _ a t _ hat => h.holes t hat.mem
  have hkept := howns.replace hold h.sameLength
  rw [h.sameHeap.startAddress]
  obtain ⟨t, rest, hcarved, hlive, hsize⟩ := carved_front hroom
  refine ⟨fun q hq => ?_, List.pairwise_cons.mpr ⟨fun q hq => ?_, hkept.distinct⟩⟩
  · rcases List.mem_cons.mp hq with rfl | hq
    · refine ⟨heap.startAddress + total Tile.size pre, t, h.pointer, ?_, hlive, hsize⟩
      rw [hcarved, List.append_assoc]
      exact at_middle Tile.size heap.startAddress pre t (rest ++ post)
    · exact hkept.tile q hq
  · have hout := (howns.outside hold hq).2.2
    have hpointer := h.pointer
    dsimp only
    rcases hout with hlow | ⟨hne, hhigh⟩
    · omega
    · have := htotal.resolve_left hne
      omega

theorem Allocates.spares (h : Allocates k k' heap heap' ts pre old post l l0 s i n p) (hstate : HeapState k heap ts l)
    (howns : Owns blocks heap.startAddress ts) {q : ℕ × ℕ} (hq : q ∈ blocks) :
    SameOn k.mem k'.mem q.1 (q.1 + q.2) := by
  have hend := hstate.represents.end_eq
  have htotal := h.sameLength
  rw [total_carved h.room] at htotal
  rw [h.tiles] at howns hend
  obtain ⟨hlow, hhigh, hout⟩ := howns.outside (fun q _ a t _ hat => h.holes t hat.mem) hq
  refine h.frame.payload hstate hlow (by omega) ?_
  rcases hout with hbelow | ⟨hne, habove⟩
  · exact Or.inl hbelow
  · have := htotal.resolve_left hne
    exact Or.inr (by omega)

theorem Frees.sameLength (h : Frees k k' heap heap' pre left right post t x l a b c) :
    post = [] ∨ total Tile.size [x] = total Tile.size (left ++ t :: right) := by
  rcases h.merged with ⟨-, hx, -⟩ | ⟨-, hpost, -⟩
  · right
    rw [hx]
    simp only [mergedTile, total_append, total_cons, total_nil]
    omega
  · exact Or.inl hpost

/-- Of the tiles that `free` replaces only the freed one is a block, and the client keeps no pointer to it. -/
theorem Frees.holes_else (h : Frees k k' heap heap' pre left right post t x l a b c)
    (hleft : ∀ u ∈ left, u.hole = true) (hright : ∀ u ∈ right, u.hole = true) (hne : ∀ q ∈ blocks, q.1 ≠ b + 12) :
    ∀ q ∈ blocks, ∀ d u, q.1 = d + 12 →
      At Tile.size (heap.startAddress + total Tile.size pre) (left ++ t :: right) d u → u.hole = true := by
  intro q hq d u hqd hat
  rw [← h.start] at hat
  rcases at_append.mp hat with hin | ⟨hd, -⟩ | hin
  · exact hleft u hin.mem
  · rw [h.leftCase.total_eq] at hd
    have := hne q hq
    omega
  · exact hright u hin.mem

/-- The blocks that were not freed are tiles still. -/
theorem Frees.owns (h : Frees k k' heap heap' pre left right post t x l a b c)
    (hleft : ∀ u ∈ left, u.hole = true) (hright : ∀ u ∈ right, u.hole = true)
    (howns : Owns blocks heap.startAddress (pre ++ (left ++ t :: right) ++ post))
    (hne : ∀ q ∈ blocks, q.1 ≠ b + 12) : Owns blocks heap'.startAddress (pre ++ [x] ++ post) := by
  rw [h.sameHeap.startAddress]
  exact howns.replace (h.holes_else hleft hright hne) h.sameLength

theorem Frees.spares (h : Frees k k' heap heap' pre left right post t x l a b c)
    (hstate : HeapState k heap (pre ++ (left ++ t :: right) ++ post) l)
    (hleft : ∀ u ∈ left, u.hole = true) (hright : ∀ u ∈ right, u.hole = true)
    (howns : Owns blocks heap.startAddress (pre ++ (left ++ t :: right) ++ post))
    (hne : ∀ q ∈ blocks, q.1 ≠ b + 12) {q : ℕ × ℕ} (hq : q ∈ blocks) :
    SameOn k.mem k'.mem q.1 (q.1 + q.2) := by
  have hend := hstate.represents.end_eq
  have hab := h.leftCase.total_eq
  have hc := h.finish
  have ha := h.start
  obtain ⟨hlow, hhigh, hout⟩ := howns.outside (h.holes_else hleft hright hne) hq
  refine h.frame.payload hstate hlow (by omega) ?_
  simp only [total_append, total_cons] at hout
  omega

/-- A pointer of the client is a live tile that `free` finds. -/
theorem Client.free_call {s s' : Client} (hstate : HeapState s.kernel heap ts l)
    (howns : Owns s.blocks heap.startAddress ts)
    (hsafe : ∀ q, s.blocks[i]? = some q → FreeSafe s.kernel heap (q.1 - sizeofHeader))
    (hrun : s.call fuel (.free i) = .ok s') :
    ∃ heap' pre left right post t x a b, ts = pre ++ (left ++ t :: right) ++ post ∧ t.hole = false ∧
      (∀ u ∈ left, u.hole = true) ∧ (∀ u ∈ right, u.hole = true) ∧ s'.blocks = s.blocks.eraseIdx i ∧
      (∀ q ∈ s'.blocks, q.1 ≠ b + 12) ∧ s.blocks[i]?.map Prod.fst = some (b + 12) ∧
      Frees s.kernel s'.kernel heap heap' pre left right post t x l a b (b + t.size) := by
  obtain ⟨q, k', hi, hfree, rfl⟩ := Client.of_call_free hrun
  obtain ⟨b, t, hqb, hat, hlive, -⟩ := howns.tile q (List.mem_of_getElem? hi)
  obtain ⟨pre, post, rfl, hb⟩ := at_iff_split.mp hat
  have hblock : q.1 - sizeofHeader = b := by
    rw [hqb]
    exact Nat.add_sub_cancel b 12
  have hsafe' := hsafe q hi
  rw [hblock] at hsafe'
  rw [hqb] at hfree
  obtain ⟨heap', pre', left, right, post', x, rfl, rfl, hleft, hright, hfrees⟩ :=
    free_spec hstate hlive hb hsafe' hfree
  refine ⟨heap', pre', left, right, post', t, x, _, b, by simp, hlive, hleft, hright, rfl, fun q' hq' => ?_, ?_, hfrees⟩
  · rw [← hqb]
    exact (howns.ne_of_erased hi hq').symm
  · rw [hi, ← hqb]
    rfl

theorem Client.alloc_step {s s' : Client} {pageAlign : ℕ} (hstate : HeapState s.kernel heap ts l)
    (howns : Owns s.blocks heap.startAddress ts) (hsafe : AllocSafe s.kernel heap ts l size pageAlign)
    (hrun : s.call fuel (.alloc size pageAlign) = .ok s') : s'.InOrder ∧ s.Spares s' := by
  obtain ⟨p, k', halloc, rfl⟩ := Client.of_call_alloc hrun
  obtain ⟨heap', pre, old, post, l0, s1, i, hall⟩ := alloc_spec hstate hsafe halloc
  exact ⟨⟨heap', _, _, hall.state, hall.owns howns⟩, fun q hq _ => hall.spares hstate howns hq⟩

theorem Client.free_step {s s' : Client} (hstate : HeapState s.kernel heap ts l)
    (howns : Owns s.blocks heap.startAddress ts)
    (hsafe : ∀ q, s.blocks[i]? = some q → FreeSafe s.kernel heap (q.1 - sizeofHeader))
    (hrun : s.call fuel (.free i) = .ok s') : s'.InOrder ∧ s.Spares s' := by
  obtain ⟨heap', pre, left, right, post, t, x, a, b, rfl, -, hleft, hright, hblocks, hne, -, hfrees⟩ :=
    Client.free_call hstate howns hsafe hrun
  have hrest := howns.eraseIdx i
  rw [← hblocks] at hrest
  exact ⟨⟨heap', _, _, hfrees.state, hfrees.owns hleft hright hrest hne⟩,
    fun q _ hq => hfrees.spares hstate hleft hright hrest hne hq⟩

/-! ## Runs -/

theorem Client.Start.inOrder {s : Client} (h : s.Start) : s.InOrder := by
  obtain ⟨hblocks, k, fuel, supervisor, readonly, hk, hpaged, hfresh⟩ := h
  refine ⟨freshHeap supervisor readonly, [freshHole], [KHEAP_DATA], heapState_fresh hk hpaged hfresh, ?_⟩
  rw [hblocks]
  exact Owns.nil _ _

theorem Client.InOrder.step {s s' : Client} {r : Request} (h : s.InOrder) (hguard : s.Guard r) (hstep : s.Step r s') :
    s'.InOrder ∧ s.Spares s' := by
  obtain ⟨heap, ts, l, hstate, howns⟩ := h
  obtain ⟨fuel, hrun⟩ := hstep
  have hsafe := hguard heap ts l hstate
  cases r with
  | alloc size pageAlign => exact Client.alloc_step hstate howns hsafe hrun
  | free i => exact Client.free_step hstate howns hsafe hrun

/-- In every run from the fresh heap whose calls all meet the condition, the client is safe and stays so. -/
theorem heap_client_safe {s : Client} (h : Reach Client.Start Client.Guard Client.Step s) :
    s.Safe ∧ ∀ r s', s.Guard r → s.Step r s' → s.Spares s' := by
  have horder : s.InOrder := h.invariant (fun s hs => hs.inOrder) fun s r s' hs hguard hstep => (hs.step hguard hstep).1
  exact ⟨horder.safe, fun r s' hguard hstep => (horder.step hguard hstep).2⟩

theorem client_start : ∃ k, Client.Start ⟨k, []⟩ ∧ HeapState k (freshHeap 1 0) ([] ++ [freshHole]) [KHEAP_DATA] := by
  obtain ⟨m, hfresh, -⟩ := createKernelHeap_returns 0 1 0 (rfl : heaplessKernel.kheap = none)
  exact ⟨_, ⟨rfl, heaplessKernel, 0, 1, 0, rfl, heaplessKernel_paged, hfresh⟩,
    heapState_fresh rfl heaplessKernel_paged hfresh⟩

/-- A request that the one hole of the heap can serve meets the condition. -/
theorem guard_only_hole {s : Client} {t : Tile} (h : HeapState s.kernel heap (pre ++ [t]) [b])
    (hb : b = heap.startAddress + total Tile.size pre) (hroom : size + 20 ≤ t.size) : s.Guard (.alloc size 0) := by
  intro heap' ts l h'
  obtain rfl : heap = heap' := Option.some.inj (h.kheap.symm.trans h'.kheap)
  have hend := h.represents.end_eq
  rw [total_append, total_cons, total_nil] at hend
  have htop := h.represents.top
  have hbound := h.represents.bound
  refine ⟨by omega, fun hne => absurd rfl hne, fun _ _ hne => absurd rfl hne, fun hnone => ?_⟩
  rw [find_only_hole h hb hroom] at hnone
  cases hnone

theorem heap_client_safe_one_block : ∃ s, s.blocks = [(KHEAP_DATA + 12, 8)] ∧
    Reach Client.Start Client.Guard Client.Step s ∧ s.Safe ∧ ∀ r s', s.Guard r → s.Step r s' → s.Spares s' := by
  obtain ⟨k0, hstart, hstate0⟩ := client_start
  have hroom : 8 + 40 ≤ freshHole.size := by decide
  obtain ⟨k1, heap1, hcall1, -, -⟩ := alloc_only_hole hstate0 rfl rfl hroom 0
  have hguard : Client.Guard ⟨k0, []⟩ (.alloc 8 0) :=
    guard_only_hole (s := ⟨k0, []⟩) hstate0 rfl ((Nat.le_add_right 28 20).trans hroom)
  have hreach : Reach Client.Start Client.Guard Client.Step ⟨k1, [(KHEAP_DATA + 12, 8)]⟩ :=
    .next (.start hstart) hguard ⟨1, Client.call_alloc hcall1⟩
  exact ⟨⟨k1, [(KHEAP_DATA + 12, 8)]⟩, rfl, hreach, heap_client_safe hreach⟩

/-- Two blocks above the minimal length; freeing the second cuts the heap off inside the first. -/
theorem client_unsafe : ∃ s, Reach Client.Start (fun _ r => r.Fits) Client.Step s ∧ ¬ s.Safe := by
  obtain ⟨k0, hstart, hstate0⟩ := client_start
  have hroom0 : 0x70FEC + 40 ≤ freshHole.size := by decide
  obtain ⟨k1, heap1, hcall1, hstate1, hsame1⟩ := alloc_only_hole hstate0 rfl rfl hroom0 0
  have hroom1 : 0xFEC + 40 ≤ (gap (freshHole.size - (0x70FEC + 20))).size := by decide
  have hplace1 : KHEAP_DATA + (0x70FEC + 20) =
      heap1.startAddress + total Tile.size ([] ++ [live (0x70FEC + 20)]) := by
    rw [hsame1.startAddress]
    rfl
  obtain ⟨k2, heap2, hcall2, hstate2, hsame2⟩ := alloc_only_hole hstate1 rfl hplace1 hroom1 0
  have hsame := hsame1.trans hsame2
  have hstart2 : heap2.startAddress = KHEAP_DATA := hsame.startAddress
  have hindex2 : heap2.index.array + 4*heap2.index.maxSize = heap2.startAddress := by
    rw [hsame.array, hsame.maxSize, hsame.startAddress]
    decide
  obtain ⟨g, hg⟩ : ∃ g, g = (gap (freshHole.size - (0x70FEC + 20))).size - (0xFEC + 20) := ⟨_, rfl⟩
  rw [← hg] at hstate2
  obtain ⟨b, hb⟩ : ∃ b, b = heap2.startAddress + total Tile.size [live (0x70FEC + 20)] := ⟨_, rfl⟩
  have hplace2 : KHEAP_DATA + (0x70FEC + 20) = b := by
    rw [hb, hstart2]
    rfl
  rw [hplace2] at hstate2 hcall2
  have hstate : HeapState k2 heap2 ([live (0x70FEC + 20)] ++ ([] ++ live (0xFEC + 20) :: [gap g]))
      [b + (live (0xFEC + 20)).size] := hstate2
  have hrep := hstate.represents
  have hlive : ∀ u ∈ [live (0x70FEC + 20)], u.hole = false := by simp
  have hleft : ¬ LeftMerges k2.mem b := not_leftMerges hrep hlive (hstate.first hindex2) hb
  have htiles := (tiles_middle.mp hrep.tiles).2.2
  rw [← hb] at htiles
  have hright : RightCase k2.mem (b + (live (0xFEC + 20)).size) [b + (live (0xFEC + 20)).size] [gap g] :=
    .merge htiles.1 rfl (List.mem_singleton_self _)
  have hoffset : b - heap2.startAddress = 0x71000 := by
    rw [hb, Nat.add_sub_cancel_left]
    rfl
  have hhigh : HEAP_MIN_SIZE < b - heap2.startAddress + 20 := by
    rw [hoffset]
    decide
  obtain ⟨k3, heap3, hcall3, hkheap3, hend3, -⟩ :=
    free_high hstate rfl hb rfl (.none rfl hleft) hright hhigh
  have hcut : contractedSize 0x71000 = 0x70000 := by decide
  rw [hoffset, hstart2, hcut] at hend3
  refine ⟨⟨k3, [(KHEAP_DATA + 12, 0x70FEC)]⟩, .next (.next (.next (.start hstart) (i := .alloc 0x70FEC 0) ?_
    ⟨1, Client.call_alloc hcall1⟩) (i := .alloc 0xFEC 0) ?_ ⟨1, Client.call_alloc hcall2⟩) (i := .free 0) trivial
    ⟨0, Client.call_free rfl hcall3⟩, ?_⟩
  · show 0x70FEC + 20 < 4294967296
    decide
  · show 0xFEC + 20 < 4294967296
    decide
  · intro hsafe
    obtain ⟨heap, ts, hkheap, -, hinside⟩ := hsafe.inside
    obtain rfl : heap3 = heap := Option.some.inj (hkheap3.symm.trans hkheap)
    have htop := (hinside _ List.mem_cons_self).2.1
    rw [hend3] at htop
    exact absurd htop (by decide)

end PandaOS

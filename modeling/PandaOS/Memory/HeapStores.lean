import PandaOS.Memory.HeapSafety

/-! Clients of the kernel heap that use their blocks. A store to a live block touches no header, no footer and no entry
of the index, so the heap stays in order, and what was stored stays there until the block is freed or the byte is
written again. -/
namespace PandaOS
open ByteMemory Word32 Tiling GuardedRun
set_option autoImplicit false
set_option maxHeartbeats 250000

/-- A client with what it has stored in its blocks: the byte at each address that it wrote. -/
structure Writer where
  client : Client
  contents : ℕ → Option UInt8

/-- A call of the heap, or a store to byte `x` of the block in place `i`. -/
inductive HeapUse
  | call (r : Request)
  | store (i x : ℕ) (v : UInt8)

/-- The address lies in a block that is live before and after a call. -/
def StaysLive (s s' : Client) (a : ℕ) : Prop := ∃ p ∈ s.blocks, p ∈ s'.blocks ∧ p.1 ≤ a ∧ a < p.1 + p.2

instance (s s' : Client) (a : ℕ) : Decidable (StaysLive s s' a) := inferInstanceAs (Decidable (∃ p ∈ s.blocks, _))

def Client.store (s : Client) (a : ℕ) (v : UInt8) : Client :=
  { s with kernel := s.kernel.withMem (store8 s.kernel.mem a v.toNat) }

/-- What is known of a block is forgotten when it is freed, and nothing is known of a new one. -/
inductive Writer.Step : Writer → HeapUse → Writer → Prop
  | call {s : Writer} {r : Request} {c : Client} : s.client.Step r c →
      Step s (.call r) ⟨c, fun a => if StaysLive s.client c a then s.contents a else none⟩
  | store {s : Writer} {i x : ℕ} {v : UInt8} {p : ℕ × ℕ} : s.client.blocks[i]? = some p → x < p.2 →
      Step s (.store i x v) ⟨s.client.store (p.1 + x) v, Function.update s.contents (p.1 + x) (some v)⟩

def Writer.Start (s : Writer) : Prop := s.client.Start ∧ ∀ a, s.contents a = none

/-- The condition on the heap before a call; a store has none. -/
def Writer.Guard (s : Writer) : HeapUse → Prop
  | .call r => s.client.Guard r
  | .store _ _ _ => True

/-- The blocks hold what was stored in them. -/
def Writer.Holds (s : Writer) : Prop :=
  ∀ a v, s.contents a = some v → (∃ p ∈ s.client.blocks, p.1 ≤ a ∧ a < p.1 + p.2) ∧ s.client.kernel.mem a = v

variable {m m' : Mem} {k : Kernel} {heap : Heap} {ts : List Tile} {t : Tile} {l : List ℕ} {blocks : List (ℕ × ℕ)}
  {p : ℕ × ℕ} {a x : ℕ} {s s' : Writer} {u : HeapUse}

/-! ## A store to a block -/

/-- A tile is known by its header and its footer. -/
theorem TileAt.of_tags (h : TileAt m a t) (hheader : SameOn m m' a (a + 12))
    (hfooter : SameOn m m' (a + t.size - 8) (a + t.size)) : TileAt m' a t := by
  have hbig := h.big
  refine ⟨?_, ?_, ?_, hbig, fun ht => ?_, h.liveTagged⟩
  · rw [hMagic_congr hheader le_rfl (by omega), h.magic]
  · rw [hIsHole_congr hheader le_rfl (by omega), h.isHole]
  · rw [hSize_congr hheader le_rfl le_rfl, h.size]
  · rw [fMagic_congr hfooter le_rfl (by omega), fHeader_congr hfooter le_rfl (by omega)]
    exact h.footer ht

/-- Stores to the payload of a live block leave the heap in order. -/
theorem HeapState.payload (h : HeapState k heap ts l) (howns : Owns blocks heap.startAddress ts) (hp : p ∈ blocks)
    (hoff : SameOff k.mem m' p.1 (p.1 + p.2)) : HeapState (k.withMem m') heap ts l := by
  have hrep := h.represents
  have hend := hrep.end_eq
  have htop := hrep.top
  have hbelow := h.below
  obtain ⟨b, t, hpb, hat, -, hsize⟩ := howns.tile p hp
  have hbounds := hat.bounds
  have hindex : SameOn k.mem m' heap.index.array (heap.index.array + 4 * heap.index.maxSize) :=
    hoff.sameOn (Or.inl (by omega))
  refine { h with represents := ?_, paged := ?_, clean := ?_ }
  · have htiles : Tiles Tile.size (TileAt m') heap.startAddress ts heap.endAddress := by
      refine hrep.tiles.imp_at fun c u hatu hu => ?_
      have hapart := howns.off_tags hp hu.big hatu
      unfold Apart at hapart
      dsimp only at hapart
      have hbig := hu.big
      exact hu.of_tags (hoff.sameOn (by omega)) (hoff.sameOn (by omega))
    have hcapacity := hrep.capacity
    have hentries : entries m' heap.index = entries k.mem heap.index := entries_congr (hindex.mono le_rfl (by omega))
    exact { hrep with tiles := htiles, index := hentries.trans hrep.index }
  · exact h.paged.store (hoff.mono (by omega) (by omega))
  · refine { h.clean with slots := fun i hi => ?_ }
    rw [Kernel.withMem_mem, hindex.load32_eq (by unfold slot; omega) (by unfold slot; omega)]
    exact h.clean.slots i hi

/-- The heap of a client is in order after a store to one of its blocks. -/
theorem Client.InOrder.store {s : Client} (h : s.InOrder) (hp : p ∈ s.blocks) (hx : x < p.2) (v : UInt8) :
    (s.store (p.1 + x) v).InOrder := by
  obtain ⟨heap, ts, l, hstate, howns⟩ := h
  have hoff : SameOff s.kernel.mem (store8 s.kernel.mem (p.1 + x) v.toNat) p.1 (p.1 + p.2) :=
    sameOff_store8 (by omega) (by omega)
  exact ⟨heap, ts, l, hstate.payload howns hp hoff, howns⟩

/-! ## Runs -/

theorem Writer.Step.keeps (h : s.client.InOrder) (hholds : s.Holds) (hguard : s.Guard u) (hstep : Writer.Step s u s') :
    s'.client.InOrder ∧ s'.Holds := by
  cases hstep with
  | call hcall =>
    obtain ⟨horder, hspares⟩ := h.step hguard hcall
    refine ⟨horder, fun a v hv => ?_⟩
    dsimp only at hv ⊢
    split at hv
    · next hlive =>
      obtain ⟨p, hp, hp', hl, hh⟩ := hlive
      refine ⟨⟨p, hp', hl, hh⟩, ?_⟩
      rw [hspares p hp hp' a hl hh]
      exact (hholds a v hv).2
    · cases hv
  | @store i x v p hi hx =>
    have hp := List.mem_of_getElem? hi
    refine ⟨h.store hp hx v, fun a w hw => ?_⟩
    dsimp only [Client.store] at hw ⊢
    rw [Kernel.withMem_mem]
    by_cases ha : a = p.1 + x
    · rw [ha, Function.update_self, Option.some.injEq] at hw
      refine ⟨⟨p, hp, by omega, by omega⟩, ?_⟩
      rw [ha, store8, if_pos rfl, UInt8.ofNat_toNat, hw]
    · rw [Function.update_of_ne ha] at hw
      rw [store8_of_ne ha]
      exact hholds a w hw

/-- In every run from the fresh heap whose calls all meet the condition, whatever the client stores in its blocks in
between, the blocks are safe and hold what was stored in them. -/
theorem heap_contents (h : Reach Writer.Start Writer.Guard Writer.Step s) : s.client.Safe ∧ s.Holds := by
  have hinv : s.client.InOrder ∧ s.Holds := by
    refine @Reach.invariant _ _ _ _ _ (fun s => s.client.InOrder ∧ s.Holds) _ h (fun s hs => ?_) fun s u s' hs hguard hstep => ?_
    · refine ⟨hs.1.inOrder, fun a v hv => ?_⟩
      rw [hs.2 a] at hv
      cases hv
    · exact Writer.Step.keeps hs.1 hs.2 hguard hstep
  exact ⟨hinv.1.safe, hinv.2⟩

/-- Two blocks with a byte in each, the first written before the second was there. -/
theorem heap_contents_two : ∃ s : Writer, s.client.blocks = [(KHEAP_DATA + 40, 8), (KHEAP_DATA + 12, 8)] ∧
    s.client.Safe ∧ s.client.kernel.mem (KHEAP_DATA + 14) = 0xAB ∧ s.client.kernel.mem (KHEAP_DATA + 40) = 0xCD := by
  obtain ⟨k0, hstart, hstate0⟩ := client_start
  have hroom0 : 8 + 40 ≤ freshHole.size := by decide
  obtain ⟨k1, heap1, hcall1, hstate1, hsame1⟩ := alloc_only_hole hstate0 rfl rfl hroom0 0
  have hguard0 : Client.Guard ⟨k0, []⟩ (.alloc 8 0) := guard_only_hole (s := ⟨k0, []⟩) hstate0 rfl (by decide)
  obtain ⟨s0, hs0⟩ : ∃ x, x = Writer.mk ⟨k0, []⟩ fun _ => none := ⟨_, rfl⟩
  obtain ⟨c1, hc1⟩ : ∃ x, x = Client.mk k1 [(KHEAP_DATA + 12, 8)] := ⟨_, rfl⟩
  have hreach0 : Reach Writer.Start Writer.Guard Writer.Step s0 := by
    rw [hs0]
    exact .start ⟨hstart, fun _ => rfl⟩
  have hstep1 : s0.client.Step (.alloc 8 0) c1 := by
    rw [hs0, hc1]
    exact ⟨1, Client.call_alloc hcall1⟩
  have hreach1 := hreach0.next (i := .call (.alloc 8 0)) (by rw [hs0]; exact hguard0) (.call hstep1)
  have hreach2 := hreach1.next (i := .store 0 2 0xAB) (by trivial)
    (.store (p := (KHEAP_DATA + 12, 8)) (by rw [hc1]; rfl) (by norm_num))
  -- the second block, with the byte in the first one
  have howns1 : Owns c1.blocks heap1.startAddress ([] ++ [live (8 + 20)] ++ [gap (freshHole.size - (8 + 20))]) := by
    rw [hc1, hsame1.startAddress]
    refine ⟨fun q hq => ?_, List.pairwise_singleton _ _⟩
    rw [List.mem_singleton.mp hq]
    exact ⟨KHEAP_DATA, live (8 + 20), rfl, Or.inl ⟨rfl, rfl⟩, rfl, le_rfl⟩
  have hoff : SameOff k1.mem (store8 k1.mem (KHEAP_DATA + 12 + 2) (0xAB : UInt8).toNat) (KHEAP_DATA + 12)
      (KHEAP_DATA + 12 + 8) := sameOff_store8 (by omega) (by omega)
  have hmember : (KHEAP_DATA + 12, 8) ∈ c1.blocks := by
    rw [hc1]
    exact List.mem_cons_self
  have hstate2 := hstate1.payload howns1 hmember hoff
  have hplace : KHEAP_DATA + (8 + 20) = heap1.startAddress + total Tile.size ([] ++ [live (8 + 20)]) := by
    rw [hsame1.startAddress]
    rfl
  have hroom2 : 8 + 40 ≤ (gap (freshHole.size - (8 + 20))).size := by decide
  obtain ⟨k3, heap3, hcall3, -, -⟩ := alloc_only_hole hstate2 rfl hplace hroom2 0
  obtain ⟨c2, hc2⟩ : ∃ x, x = c1.store (KHEAP_DATA + 12 + 2) 0xAB := ⟨_, rfl⟩
  obtain ⟨c3, hc3⟩ : ∃ x, x = Client.mk k3 [(KHEAP_DATA + 40, 8), (KHEAP_DATA + 12, 8)] := ⟨_, rfl⟩
  have hguard2 : c2.Guard (.alloc 8 0) := by
    rw [hc2, hc1]
    exact guard_only_hole (s := ⟨_, _⟩) hstate2 hplace (by decide)
  have hstep3 : c2.Step (.alloc 8 0) c3 := by
    rw [hc2, hc1, hc3]
    exact ⟨1, Client.call_alloc hcall3⟩
  rw [← hc2] at hreach2
  have hreach3 := hreach2.next (i := .call (.alloc 8 0)) (by exact hguard2) (.call hstep3)
  have hreach4 := hreach3.next (i := .store 0 0 0xCD) (by trivial)
    (.store (p := (KHEAP_DATA + 40, 8)) (by rw [hc3]; rfl) (by norm_num))
  obtain ⟨hsafe, hholds⟩ := heap_contents hreach4
  have hlive : StaysLive c2 c3 (KHEAP_DATA + 14) := by
    refine ⟨(KHEAP_DATA + 12, 8), ?_, ?_, by dsimp only; omega, by dsimp only; omega⟩
    · rw [hc2]
      exact hmember
    · rw [hc3]
      simp
  refine ⟨_, ?_, hsafe, (hholds (KHEAP_DATA + 14) 0xAB ?_).2, (hholds (KHEAP_DATA + 40) 0xCD ?_).2⟩
  · rw [hc3]
    rfl
  · dsimp only
    rw [Function.update_of_ne (by omega), if_pos hlive, Function.update_self]
  · dsimp only
    exact Function.update_self ..

end PandaOS

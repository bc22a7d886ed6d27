import PandaOS.Memory.TailFree
import PandaOS.Memory.GrowingAlloc
import PandaOS.Memory.Contraction
import PandaOS.Library.GuardedRun

/-! The calls of a heap client. The client keeps the pointers it has been given and not yet freed,
with the sizes it asked for, the newest first. `Owns` says that they are payloads of live tiles. -/
namespace PandaOS
open ByteMemory Word32 Tiling
set_option autoImplicit false
set_option maxHeartbeats 250000

/-- A call: `alloc`, or `free` of the live pointer in place `i`. -/
inductive Request
  | alloc (size pageAlign : ℕ)
  | free (i : ℕ)
  deriving DecidableEq, Repr

structure Client where
  kernel : Kernel
  blocks : List (ℕ × ℕ)

def Client.call (fuel : ℕ) (s : Client) : Request → Result Client
  | .alloc size pageAlign => do
    let (p, k) ← alloc fuel size pageAlign s.kernel
    return ⟨k, (p, size) :: s.blocks⟩
  | .free i =>
    match s.blocks[i]? with
    | none => .error (.undefined "not a live pointer")
    | some (p, _) => do
      let k ← free p s.kernel
      return ⟨k, s.blocks.eraseIdx i⟩

def Client.run (fuel : ℕ) (s : Client) (requests : List Request) : Result Client :=
  requests.foldlM (Client.call fuel) s

variable {s s' : Client} {k k' : Kernel} {heap : Heap} {pre post old mid ts : List Tile} {t : Tile} {l : List ℕ}
  {fuel b hi start size : ℕ} {m : Mem} {r : Request} {rs : List Request} {blocks : List (ℕ × ℕ)} {p q : ℕ × ℕ}

theorem Client.run_cons : s.run fuel (r :: rs) = s.call fuel r >>= fun s' => s'.run fuel rs := List.foldlM_cons

theorem Client.call_alloc {size pageAlign p : ℕ} (h : alloc fuel size pageAlign s.kernel = .ok (p, k)) :
    s.call fuel (.alloc size pageAlign) = .ok ⟨k, (p, size) :: s.blocks⟩ := by
  simp only [Client.call, h, ok_bind]
  rfl

theorem Client.call_free {i p size : ℕ} (hi : s.blocks[i]? = some (p, size)) (h : free p s.kernel = .ok k) :
    s.call fuel (.free i) = .ok ⟨k, s.blocks.eraseIdx i⟩ := by
  simp only [Client.call, hi, h, ok_bind]
  rfl

theorem Client.of_call_alloc {size pageAlign : ℕ} (h : s.call fuel (.alloc size pageAlign) = .ok s') :
    ∃ p k', alloc fuel size pageAlign s.kernel = .ok (p, k') ∧ s' = ⟨k', (p, size) :: s.blocks⟩ := by
  obtain ⟨⟨p, k'⟩, halloc, hret⟩ := bind_eq_ok.mp h
  cases hret
  exact ⟨p, k', halloc, rfl⟩

theorem Client.of_call_free {i : ℕ} (h : s.call fuel (.free i) = .ok s') :
    ∃ p k', s.blocks[i]? = some p ∧ free p.1 s.kernel = .ok k' ∧ s' = ⟨k', s.blocks.eraseIdx i⟩ := by
  cases hi : s.blocks[i]? with
  | none =>
    simp only [Client.call, hi] at h
    cases h
  | some p =>
    simp only [Client.call, hi] at h
    obtain ⟨k', hfree, hret⟩ := bind_eq_ok.mp h
    cases hret
    exact ⟨p, k', rfl, hfree, rfl⟩

/-! ## What a client owns -/

/-- Each pointer is the payload of a live tile with room for the size asked for, and none occurs twice. -/
structure Owns (blocks : List (ℕ × ℕ)) (start : ℕ) (ts : List Tile) : Prop where
  tile : ∀ p ∈ blocks, ∃ a t, p.1 = a + 12 ∧ At Tile.size start ts a t ∧ t.hole = false ∧ p.2 + 20 ≤ t.size
  distinct : blocks.Pairwise fun p q => p.1 ≠ q.1

theorem Owns.nil (start : ℕ) (ts : List Tile) : Owns [] start ts := ⟨nofun, List.Pairwise.nil⟩

theorem Owns.eraseIdx (h : Owns blocks start ts) (i : ℕ) : Owns (blocks.eraseIdx i) start ts :=
  ⟨fun p hp => h.tile p (List.mem_of_mem_eraseIdx hp), h.distinct.sublist (List.eraseIdx_sublist blocks i)⟩

/-- The pointer in place `i` is none of the others. -/
theorem Owns.ne_of_erased {i : ℕ} (h : Owns blocks start ts) (hi : blocks[i]? = some p) (hq : q ∈ blocks.eraseIdx i) :
    p.1 ≠ q.1 := by
  obtain ⟨hlt, rfl⟩ := List.getElem?_eq_some_iff.mp hi
  have hperm := List.getElem_cons_eraseIdx_perm hlt
  have hall := (hperm.pairwise_iff (R := fun p q => p.1 ≠ q.1) fun hne => Ne.symm hne).mpr h.distinct
  exact (List.pairwise_cons.mp hall).1 q hq

/-- The tiles between `pre` and `post` are exchanged, and none of the old ones is a block of the client. -/
theorem Owns.replace (h : Owns blocks start (pre ++ old ++ post))
    (hold : ∀ p ∈ blocks, ∀ a t, p.1 = a + 12 → At Tile.size (start + total Tile.size pre) old a t → t.hole = true)
    (htotal : post = [] ∨ total Tile.size mid = total Tile.size old) : Owns blocks start (pre ++ mid ++ post) := by
  refine ⟨fun p hp => ?_, h.distinct⟩
  obtain ⟨a, t, hpa, hat, hlive, hsize⟩ := h.tile p hp
  have hnot : ¬ At Tile.size (start + total Tile.size pre) old a t := by
    intro hin
    have hhole := hold p hp a t hpa hin
    rw [hlive] at hhole
    cases hhole
  exact ⟨a, t, hpa, (hat.replace hnot htotal).1, hlive, hsize⟩

/-- Then the payloads lie outside the exchanged stretch. -/
theorem Owns.outside (h : Owns blocks start (pre ++ old ++ post))
    (hold : ∀ p ∈ blocks, ∀ a t, p.1 = a + 12 → At Tile.size (start + total Tile.size pre) old a t → t.hole = true)
    (hp : p ∈ blocks) : start ≤ p.1 ∧ p.1 + p.2 ≤ start + total Tile.size (pre ++ old ++ post) ∧
      (p.1 + p.2 ≤ start + total Tile.size pre ∨
        (post ≠ [] ∧ start + total Tile.size pre + total Tile.size old ≤ p.1)) := by
  obtain ⟨a, t, hpa, hat, hlive, hsize⟩ := h.tile p hp
  have hbounds := hat.bounds
  have hnot : ¬ At Tile.size (start + total Tile.size pre) old a t := by
    intro hin
    have hhole := hold p hp a t hpa hin
    rw [hlive] at hhole
    cases hhole
  refine ⟨by omega, by omega, ?_⟩
  rcases (hat.replace hnot (Or.inr rfl)).2 with hlow | ⟨hne, hhigh⟩
  · exact Or.inl (by omega)
  · exact Or.inr ⟨hne, by omega⟩

/-! ## A heap with one hole -/

/-- While the heap has one hole, at its end, an unaligned request that leaves room for a hole behind it is cut
from the front of that hole. -/
theorem find_only_hole (h : HeapState k heap (pre ++ [t]) [b]) (hb : b = heap.startAddress + total Tile.size pre)
    (hroom : size + 20 ≤ t.size) : findSmallestHole (size + 20) 0 heap k.mem = some 0 := by
  have htile := (tiles_middle.mp h.represents.tiles).2.1
  rw [← hb] at htile
  have hfit : fits k.mem (size + 20) 0 b = true := by
    rw [fits, if_neg (lt_irrefl 0), htile.size, decide_eq_true_eq]
    exact hroom
  rw [findSmallestHole_eq h.represents.index, List.findIdx?_cons, hfit]
  rfl

theorem alloc_only_hole (h : HeapState k heap (pre ++ [t]) [b]) (hole : t.hole = true)
    (hb : b = heap.startAddress + total Tile.size pre) (hroom : size + 40 ≤ t.size) (fuel : ℕ) :
    ∃ k' heap', alloc (fuel + 1) size 0 k = .ok (b + 12, k') ∧
      HeapState k' heap' (pre ++ [live (size + 20)] ++ [gap (t.size - (size + 20))]) [b + (size + 20)] ∧
      SameHeap heap heap' := by
  have hend := h.represents.end_eq
  rw [total_append, total_cons, total_nil] at hend
  have htop := h.represents.top
  have hbound := h.represents.bound
  have hone : 0 < heap.index.size := by
    rw [h.represents.size_eq]
    exact Nat.one_pos
  have hreturns : ∃ p k', allocHole size (size + 20) 0 0 heap k = .ok (p, k') :=
    allocHole_returns 0 h.represents.lessThan hone
  obtain ⟨p, k', hrun⟩ := hreturns
  have hlt : 0 < [b].length := Nat.one_pos
  obtain ⟨heap', hall⟩ := allocHole_call h hole hlt hb (by omega) (Or.inl rfl) hrun
  have hsmall : ¬ t.size - (size + 20) < 20 := by omega
  have hstate := hall.state
  rw [carved, if_neg hsmall, carvedIndex, if_neg hsmall, ← hb] at hstate
  have hentry : insertEntry (headerTLessThan k'.mem) (b + (size + 20)) ([b].eraseIdx 0) = [b + (size + 20)] := rfl
  have htiles : pre ++ [live (size + 20), gap (t.size - (size + 20))] ++ [] =
      pre ++ [live (size + 20)] ++ [gap (t.size - (size + 20))] := by simp
  rw [hentry, htiles] at hstate
  have hpointer := hall.pointer
  rw [← hb] at hpointer
  refine ⟨k', heap', ?_, hstate, hall.sameHeap⟩
  rw [alloc_succ h.kheap (by omega), find_only_hole h hb (by omega), ← hpointer]
  exact hrun

/-- Below a block with nothing but live blocks in front `free` finds no hole. -/
theorem not_leftMerges (h : Represents m heap hi (pre ++ t :: post) l) (hlive : ∀ u ∈ pre, u.hole = false)
    (hfirst : ¬ LeftMerges m heap.startAddress) (hb : b = heap.startAddress + total Tile.size pre) :
    ¬ LeftMerges m b := by
  rcases List.eq_nil_or_concat' pre with rfl | ⟨pre', u, rfl⟩
  · rw [hb, total_nil, Nat.add_zero]
    exact hfirst
  · have hsplit : (pre' ++ [u]) ++ t :: post = pre' ++ u :: (t :: post) := by simp
    have htiles := h.tiles
    rw [hsplit] at htiles
    have hu := (tiles_middle.mp htiles).2.1
    have hulive : u.hole = false := hlive u (by simp)
    have hplace : b = heap.startAddress + total Tile.size pre' + u.size := by
      rw [hb, total_append, total_cons, total_nil, Nat.add_zero, Nat.add_assoc]
    rw [hplace, leftMerges_iff hu (hu.liveTagged hulive), hulive]
    exact Bool.false_ne_true

/-! ## A kernel without a heap -/

/-- A kernel before its heap is made, with one page table for the 4 MB from the heap's start. -/
def heaplessKernel : Kernel := { tableKernel (longHeap 0) with kheap := none }

theorem heaplessKernel_paged : Paged heaplessKernel KHEAP_START KHEAP_MAX := by
  have h := tableKernel_paged (longHeap 0) 0xFFFF000
  exact ⟨h.frameCount, h.null, h.bitmap, h.directory, h.bitmapDirectory, h.tables⟩

end PandaOS

import PandaOS.Memory.AlignedAlloc
import PandaOS.Memory.IndexedHoles

/-! How large the block is that `alloc` returns. The size of the request and of the two tags is added up
in 32 bits: what fits the heap cannot wrap, and what wraps is served as the small request it wraps to. -/
namespace PandaOS
open ByteMemory Word32 Tiling
set_option autoImplicit false
set_option maxHeartbeats 250000

/-- The heap stays where it is and under its maximum. -/
def KeepsHeap (k k' : Kernel) : Prop :=
  ∀ heap, k.kheap = some heap → heap.endAddress ≤ heap.maxAddress → ∃ heap', k'.kheap = some heap' ∧
    heap'.startAddress = heap.startAddress ∧ heap'.maxAddress = heap.maxAddress ∧
    heap'.endAddress ≤ heap.maxAddress

variable {k k' k1 k2 : Kernel} {heap heap' : Heap} {ts : List Tile} {l : List ℕ} {index index' : OrderedArray}
  {b s i n e size newSize pageAlign p fuel sz : ℕ} {m m' : Mem} {ap : KmallocAp} {q : ℕ × ℕ}

/-! ## The heap_t along a run -/

theorem KeepsHeap.refl (k : Kernel) : KeepsHeap k k := fun heap hk hle => ⟨heap, hk, rfl, rfl, hle⟩

theorem KeepsHeap.trans (h : KeepsHeap k k1) (h' : KeepsHeap k1 k2) : KeepsHeap k k2 := by
  intro heap hk hle
  obtain ⟨heap1, hk1, hstart1, hmax1, hle1⟩ := h heap hk hle
  obtain ⟨heap2, hk2, hstart2, hmax2, hle2⟩ := h' heap1 hk1 (hmax1 ▸ hle1)
  exact ⟨heap2, hk2, hstart2.trans hstart1, hmax2.trans hmax1, hmax1 ▸ hle2⟩

theorem KeepsHeap.of_kheap (h : k'.kheap = k.kheap) : KeepsHeap k k' :=
  fun heap hk hle => ⟨heap, h.trans hk, rfl, rfl, hle⟩

theorem KeepsHeap.of_heap (hk : k.kheap = some heap) (hk' : k'.kheap = some heap')
    (hstart : heap'.startAddress = heap.startAddress) (hmax : heap'.maxAddress = heap.maxAddress)
    (hend : heap'.endAddress = heap.endAddress ∨ heap'.endAddress ≤ heap.maxAddress) : KeepsHeap k k' := by
  intro heap0 hk0 hle
  obtain rfl := Option.some.inj (hk.symm.trans hk0)
  exact ⟨heap', hk', hstart, hmax, by omega⟩

theorem allocFrame_keeps {page isKernel isWriteable : ℕ} (hrun : allocFrame page isKernel isWriteable k = .ok k') :
    KeepsHeap k k' := by
  apply KeepsHeap.of_kheap
  rcases allocFrame_cases hrun with ⟨-, rfl⟩ | ⟨-, f, -, rfl⟩
  · rfl
  · rfl

theorem heapOf_ok (h : heapOf k = .ok heap) : k.kheap = some heap := by
  unfold heapOf at h
  cases hk : k.kheap with
  | none =>
    rw [hk] at h
    cases h
  | some heap1 =>
    rw [hk] at h
    rw [Except.ok.inj h]

theorem getPage_keeps {a make dir : ℕ} (hap : ∀ sz k q k', ap sz k = .ok (q, k') → KeepsHeap k k')
    (hrun : getPage ap a make dir k = .ok (p, k')) : KeepsHeap k k' := by
  unfold getPage at hrun
  dsimp only at hrun
  split_ifs at hrun
  · cases hrun
    exact KeepsHeap.refl _
  · obtain ⟨⟨⟨table, tmp⟩, k1⟩, htable, hrest⟩ := bind_eq_ok.mp hrun
    cases hrest
    apply (hap _ _ _ _ htable).trans (KeepsHeap.of_kheap _)
    simp only [Kernel.withMem_kheap]
  · cases hrun
    exact KeepsHeap.refl _

theorem expandLoop_keeps (hap : ∀ sz k q k', ap sz k = .ok (q, k') → KeepsHeap k k')
    (hrun : expandLoop ap newSize n i k = .ok k') : KeepsHeap k k' := by
  induction n generalizing i k with
  | zero =>
    cases hrun
    exact KeepsHeap.refl _
  | succ n ih =>
    rw [expandLoop] at hrun
    split_ifs at hrun
    · obtain ⟨heap, -, hrun⟩ := bind_eq_ok.mp hrun
      obtain ⟨⟨page, k1⟩, hpage, hrun⟩ := bind_eq_ok.mp hrun
      obtain ⟨k2, halloc, hrest⟩ := bind_eq_ok.mp hrun
      exact ((getPage_keeps hap hpage).trans (allocFrame_keeps halloc)).trans (ih hrest)
    · cases hrun
      exact KeepsHeap.refl _

/-- `expand` moves the end, to where its ASSERT has compared it with the maximum. -/
theorem expand_keeps (hap : ∀ sz k q k', ap sz k = .ok (q, k') → KeepsHeap k k')
    (hrun : expand ap newSize k = .ok k') : KeepsHeap k k' := by
  intro heap hk hle
  unfold expand at hrun
  rw [heapOf_eq hk, ok_bind, assert_bind_eq_ok, assert_bind_eq_ok] at hrun
  obtain ⟨-, hmax, hrun⟩ := hrun
  obtain ⟨k1, hloop, hrun⟩ := bind_eq_ok.mp hrun
  obtain ⟨heap1, hk1, hfinal⟩ := bind_eq_ok.mp hrun
  cases hfinal
  obtain ⟨heap2, hk2, hstart, hmax2, -⟩ := expandLoop_keeps hap hloop heap hk hle
  obtain rfl := Option.some.inj (hk2.symm.trans (heapOf_ok hk1))
  rw [decide_eq_true_eq] at hmax
  refine ⟨_, rfl, hstart, hmax2, ?_⟩
  simp only [hstart]
  exact hmax

theorem addLastHole_keeps (hrun : addLastHole e n k = .ok k') : KeepsHeap k k' := by
  unfold addLastHole at hrun
  obtain ⟨heap, hk, hrun⟩ := bind_eq_ok.mp hrun
  obtain ⟨⟨index, m⟩, -, hrest⟩ := bind_eq_ok.mp hrun
  cases hrest
  exact KeepsHeap.of_heap (heapOf_ok hk) rfl rfl rfl (Or.inl rfl)

theorem growHole_keeps (hrun : growHole i n k = .ok k') : KeepsHeap k k' := by
  unfold growHole at hrun
  obtain ⟨heap, -, hrun⟩ := bind_eq_ok.mp hrun
  obtain ⟨header, -, hrest⟩ := bind_eq_ok.mp hrun
  cases hrest
  exact KeepsHeap.of_kheap rfl

theorem allocGrow_keeps (hap : ∀ sz k q k', ap sz k = .ok (q, k') → KeepsHeap k k')
    (hrun : allocGrow ap n k = .ok k') : KeepsHeap k k' := by
  unfold allocGrow at hrun
  obtain ⟨heap, -, hrun⟩ := bind_eq_ok.mp hrun
  obtain ⟨k1, hexpand, hrun⟩ := bind_eq_ok.mp hrun
  obtain ⟨heap1, -, hrun⟩ := bind_eq_ok.mp hrun
  dsimp only at hrun
  split at hrun
  · exact (expand_keeps hap hexpand).trans (addLastHole_keeps hrun)
  · exact (expand_keeps hap hexpand).trans (growHole_keeps hrun)

theorem allocHole_keeps (hk : k.kheap = some heap) (hrun : allocHole size n pageAlign i heap k = .ok (p, k')) :
    KeepsHeap k k' := by
  unfold allocHole at hrun
  obtain ⟨pos, -, hrun⟩ := bind_eq_ok.mp hrun
  obtain ⟨⟨index, m⟩, -, hrest⟩ := bind_eq_ok.mp hrun
  cases hrest
  exact KeepsHeap.of_heap hk rfl rfl rfl (Or.inl rfl)

theorem kmallocInt_keeps {alloc' : ℕ → ℕ → Kernel → Result (ℕ × Kernel)} {align : ℕ} {phys : Bool}
    (halloc : ∀ size pageAlign k p k', alloc' size pageAlign k = .ok (p, k') → KeepsHeap k k')
    (hrun : kmallocInt alloc' sz align phys k = .ok (q, k')) : KeepsHeap k k' := by
  unfold kmallocInt at hrun
  split at hrun
  · obtain ⟨⟨addr, k1⟩, hblock, hrun⟩ := bind_eq_ok.mp hrun
    have hkeeps := halloc _ _ _ _ _ hblock
    dsimp only at hrun
    split at hrun
    · obtain ⟨⟨page, k2⟩, hfind, hrest⟩ := bind_eq_ok.mp hrun
      cases hrest
      exact hkeeps.trans (getPage_keeps (fun _ _ _ _ herror => by cases herror) hfind)
    · cases hrun
      exact hkeeps
  · cases hrun
    exact KeepsHeap.of_kheap rfl

/-- A run of `alloc`, nested calls included, by induction on the fuel. -/
theorem alloc_keeps (hrun : alloc fuel size pageAlign k = .ok (p, k')) : KeepsHeap k k' := by
  induction fuel generalizing size pageAlign k p k' with
  | zero => cases hrun
  | succ fuel ih =>
    have hap : ∀ sz k q k', kmallocInt (alloc fuel) sz 1 true k = .ok (q, k') → KeepsHeap k k' :=
      fun sz k q k' => kmallocInt_keeps fun _ _ _ _ _ => ih
    rw [alloc] at hrun
    obtain ⟨heap, hk, hrun⟩ := bind_eq_ok.mp hrun
    dsimp only at hrun
    split at hrun
    · obtain ⟨k1, hgrow, hrest⟩ := bind_eq_ok.mp hrun
      exact (allocGrow_keeps hap hgrow).trans (ih hrest)
    · exact allocHole_keeps (heapOf_ok hk) hrun

theorem kmallocAp_keeps (hrun : kmallocAp fuel sz k = .ok (q, k')) : KeepsHeap k k' :=
  kmallocInt_keeps (fun _ _ _ _ _ => alloc_keeps) hrun

end PandaOS

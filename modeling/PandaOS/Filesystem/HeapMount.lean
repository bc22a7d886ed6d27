import PandaOS.Filesystem.Sessions
import PandaOS.Memory.BootTranslation
import PandaOS.Memory.StackGrants

/-! `initialise_initrd` on the kernel heap, where `kernel_main` calls it: the three blocks are the first three of the
heap, one behind the other, and what lies below the heap stays as it is. -/
namespace PandaOS
open ByteMemory Word32 Tiling
set_option autoImplicit false
set_option maxHeartbeats 250000

/-- What lies below the heap has not changed, nor has the heap's free part from `q` on. -/
structure Behind (q : ℕ) (m m' : Mem) : Prop where
  low : ∀ x < KHEAP_START, m' x = m x
  free : ∀ x, q ≤ x → x < KHEAP_DATA + HEAP_MIN_SIZE - 8 → m' x = m x

variable {k k' : Kernel} {heap : Heap} {t : Tile} {blocks keep : List (ℕ × ℕ)} {m m' m'' : Mem} {st : Statics}
  {name : List UInt8} {q q' lit size b : ℕ}

theorem Behind.trans (h : Behind q m m') (h' : Behind q' m' m'') (hq : q ≤ q') : Behind q' m m'' := by
  refine ⟨fun x hx => (h'.low x hx).trans (h.low x hx), fun x hl hh => ?_⟩
  rw [h'.free x hl hh, h.free x (by omega) hh]

theorem StackTouch.behind (h : StackTouch b size m m') (hb : KHEAP_DATA ≤ b) (hend : b + size + 12 ≤ KHEAP_DATA + HEAP_MIN_SIZE - 8) :
    Behind (b + size + 32) m m' := by
  have hstart : KHEAP_START + 4*HEAP_INDEX_SIZE = KHEAP_DATA := rfl
  have hdata : KHEAP_DATA = KHEAP_START + 0x80000 := rfl
  have hmin : HEAP_MIN_SIZE = 0x70000 := rfl
  have hlast : KHEAP_START + KHEAP_INITIAL_SIZE = KHEAP_START + 0x100000 := rfl
  refine ⟨fun x hx => h x (Or.inl hx) (by omega) (by omega) (by omega), fun x hl hh => ?_⟩
  exact h x (by omega) (by omega) (by omega) (by omega)

theorem Behind.string (h : Behind q m m') (hs : CString m lit name) (hlow : lit + (name.length + 1) ≤ KHEAP_START) :
    CString m' lit name := by
  have hsame : SameOn m m' lit (lit + (name.length + 1)) := fun x _ hx => h.low x (by omega)
  exact hs.congr hsame le_rfl (by omega)

/-- The next block of the stack is apart from the blocks before it and from what lies below the heap. -/
theorem StackState.grant (h : StackState ⟨k, blocks⟩ heap t) (fuel size : ℕ)
    (hfits : footprint (size :: blocks.map Prod.snd) + 20 ≤ HEAP_MIN_SIZE)
    (hkeep : ∀ r ∈ keep, r.1 + r.2 ≤ KHEAP_START ∨ r ∈ blocks) (hb : b = KHEAP_DATA + footprint (blocks.map Prod.snd)) :
    ∃ k' heap' t', Grant (PandaOS.kmalloc (fuel + 1)) keep size k (b + 12) k' ∧
      StackState ⟨k', (b + 12, size) :: blocks⟩ heap' t' ∧ (∃ heap', k' = (k.withMem k'.mem).withHeap heap') ∧
      Behind (b + size + 32) k.mem k'.mem ∧ SameOn k.mem k'.mem (b + 12) (b + 12 + size) := by
  have hmin : HEAP_MIN_SIZE = 0x70000 := rfl
  have hdata : KHEAP_DATA = 0xC0080000 := rfl
  have hstart : KHEAP_START + 4*HEAP_INDEX_SIZE = KHEAP_DATA := rfl
  have hlast : KHEAP_START + KHEAP_INITIAL_SIZE = KHEAP_DATA + 0x80000 := rfl
  obtain ⟨k', heap', t', hrun, hstate', hfields, htouch⟩ := h.kmalloc fuel size hfits
  rw [← hb] at hrun hstate' htouch
  have hpointers : StackPointers KHEAP_DATA blocks := h.pointers
  rw [footprint_cons] at hfits
  have hbehind := htouch.behind (by omega) (by omega)
  refine ⟨k', heap', t', ⟨hrun, by omega, by omega, fun r hr => ?_, fun r hr => ?_⟩, hstate', hfields, hbehind,
    fun x hl hh => htouch x (Or.inr (by omega)) (Or.inr hl) (Or.inl hh) (Or.inl (by omega))⟩
  · unfold Apart
    dsimp only
    rcases hkeep r hr with hlow | hblock
    · omega
    · have hbelow := hpointers.below hblock
      omega
  · rcases hkeep r hr with hlow | hblock
    · exact fun x _ hx => hbehind.low x (by omega)
    · have hbelow := hpointers.below hblock
      refine fun x hl hh => htouch x (Or.inr ?_) (Or.inl ?_) (Or.inl ?_) (Or.inl ?_)
      all_goals omega

/-- A block for a node is handed out, and the node is made a directory. -/
theorem StackState.directory (st : Statics) (h : StackState ⟨k, blocks⟩ heap t) (fuel : ℕ)
    (hfits : footprint (sizeofFsNode :: blocks.map Prod.snd) + 20 ≤ HEAP_MIN_SIZE)
    (hkeep : ∀ r ∈ keep, r.1 + r.2 ≤ KHEAP_START ∨ r ∈ blocks) (hb : b = KHEAP_DATA + footprint (blocks.map Prod.snd))
    (hlit : CString k.mem lit name) (hne : name ≠ []) (hn : name.length ≤ 63) (hlow : lit + (name.length + 1) ≤ KHEAP_START) :
    ∃ k1 k2 heap' t', Grant (PandaOS.kmalloc (fuel + 1)) keep sizeofFsNode k (b + 12) k1 ∧
      makeDirectory st (b + 12) lit k1 = .ok k2 ∧ StackState ⟨k2, (b + 12, sizeofFsNode) :: blocks⟩ heap' t' ∧
      (∃ heap', k2 = (k.withMem k2.mem).withHeap heap') ∧ Behind (b + sizeofFsNode + 32) k.mem k2.mem := by
  have hstart : KHEAP_START + 4*HEAP_INDEX_SIZE = KHEAP_DATA := rfl
  obtain ⟨k1, heap1, t1, hgrant, hstate1, ⟨heap', hfields⟩, hbehind, -⟩ := h.grant fuel sizeofFsNode hfits hkeep hb
  have hlit1 : CString k1.mem lit name := hbehind.string hlit (by omega)
  have hapart : Apart (b + 12, sizeofFsNode) (lit, name.length + 1) := Or.inr (by dsimp only; omega)
  obtain ⟨m2, hmake, -, hoff, -⟩ := makeDirectory_spec st hlit1 hne hn hapart
  refine ⟨k1, k1.withMem m2, heap1, t1, hgrant, hmake, hstate1.write List.mem_cons_self hoff, ⟨heap', ?_⟩, ?_⟩
  · rw [hfields]
    rfl
  · refine ⟨fun x hx => ?_, fun x hl hh => ?_⟩
    · show m2 x = k.mem x
      rw [hoff x (Or.inl (by omega)), hbehind.low x hx]
    · show m2 x = k.mem x
      rw [hoff x (Or.inr (by omega)), hbehind.free x hl hh]

/-- On a heap without blocks `initialise_initrd` gets the first three. -/
theorem served_of_stack (fuel n : ℕ) (h : StackState ⟨k, []⟩ heap t) (hn : n ≤ 63)
    (hkeep : ∀ r ∈ keep, r.1 + r.2 ≤ KHEAP_START) (hJ : CString k.mem st.strJ nameJ) (hDev : CString k.mem st.strDev nameDev)
    (hlow : st.strJ + 2 ≤ KHEAP_START ∧ st.strDev + 4 ≤ KHEAP_START) :
    ∃ kdev k' heap' t', Served (PandaOS.kmalloc (fuel + 1)) st keep n k (KHEAP_DATA + 12) (KHEAP_DATA + 216)
        (KHEAP_DATA + 420) kdev k' ∧
      StackState ⟨k', [(KHEAP_DATA + 420, sizeofFsNode * n), (KHEAP_DATA + 216, sizeofFsNode), (KHEAP_DATA + 12, sizeofFsNode)]⟩
        heap' t' ∧
      (∃ heap', k' = (k.withMem k'.mem).withHeap heap') ∧ (∀ x < KHEAP_START, k'.mem x = k.mem x) ∧
      ∀ x, KHEAP_DATA + 420 ≤ x → x < KHEAP_DATA + 420 + sizeofFsNode * n → k'.mem x = k.mem x := by
  have hsize : sizeofFsNode = 184 := rfl
  have hmin : HEAP_MIN_SIZE = 0x70000 := rfl
  have hlengths : nameJ.length = 1 ∧ nameDev.length = 3 := ⟨rfl, rfl⟩
  have hlast : KHEAP_START + KHEAP_INITIAL_SIZE = KHEAP_DATA + 0x80000 := rfl
  have hkeep1 : ∀ r ∈ keep, r.1 + r.2 ≤ KHEAP_START ∨ r ∈ ([] : List (ℕ × ℕ)) := fun r hr => Or.inl (hkeep r hr)
  have hempty : footprint (([] : List (ℕ × ℕ)).map Prod.snd) = 0 := rfl
  obtain ⟨k1, k2, heap2, t2, hgrant1, hmake1, hstate2, ⟨heap2', hfields2⟩, hbehind2⟩ := h.directory st fuel (by decide) hkeep1
    (by rw [hempty]) hJ (by decide) (by decide) (by omega)
  have hone : footprint ([(KHEAP_DATA + 0 + 12, sizeofFsNode)].map Prod.snd) = 204 := rfl
  have hkeep2 : ∀ r ∈ (KHEAP_DATA + 0 + 12, sizeofFsNode) :: keep,
      r.1 + r.2 ≤ KHEAP_START ∨ r ∈ [(KHEAP_DATA + 0 + 12, sizeofFsNode)] := by
    intro r hr
    rcases List.mem_cons.mp hr with rfl | hr
    · exact Or.inr List.mem_cons_self
    · exact Or.inl (hkeep r hr)
  have hDev2 : CString k2.mem st.strDev nameDev := hbehind2.string hDev (by omega)
  obtain ⟨k3, k4, heap4, t4, hgrant2, hmake2, hstate4, ⟨heap4', hfields4⟩, hbehind4⟩ := hstate2.directory st fuel
    (by decide) hkeep2 (by rw [hone]) hDev2 (by decide) (by decide) (by omega)
  have htwo : footprint ([(KHEAP_DATA + 204 + 12, sizeofFsNode), (KHEAP_DATA + 0 + 12, sizeofFsNode)].map Prod.snd) = 408 := rfl
  have hkeep4 : ∀ r ∈ (KHEAP_DATA + 204 + 12, sizeofFsNode) :: (KHEAP_DATA + 0 + 12, sizeofFsNode) :: keep,
      r.1 + r.2 ≤ KHEAP_START ∨ r ∈ [(KHEAP_DATA + 204 + 12, sizeofFsNode), (KHEAP_DATA + 0 + 12, sizeofFsNode)] := by
    intro r hr
    rcases List.mem_cons.mp hr with rfl | hr
    · exact Or.inr List.mem_cons_self
    · rcases hkeep2 r hr with hlow | hmem
      · exact Or.inl hlow
      · exact Or.inr (List.mem_cons_of_mem _ hmem)
  have hfits : footprint (sizeofFsNode * n :: [(KHEAP_DATA + 204 + 12, sizeofFsNode),
      (KHEAP_DATA + 0 + 12, sizeofFsNode)].map Prod.snd) + 20 ≤ HEAP_MIN_SIZE := by
    rw [footprint_cons, htwo, hsize]
    omega
  obtain ⟨k', heap', t', hgrant3, hstate', ⟨heap5, hfields'⟩, hbehind', hpayload⟩ := hstate4.grant fuel (sizeofFsNode * n) hfits hkeep4
    (by rw [htwo])
  have hbehind : Behind (KHEAP_DATA + 408 + sizeofFsNode * n + 32) k.mem k'.mem :=
    (hbehind2.trans hbehind4 (by omega)).trans hbehind' (by omega)
  refine ⟨k3, k', heap', t', ⟨k1, k2, k4, hgrant1, hmake1, hgrant2, hmake2, hgrant3⟩, hstate', ⟨heap5, ?_⟩, hbehind.low, ?_⟩
  · rw [hfields', hfields4, hfields2]
    rfl
  · have hfree := hbehind2.trans hbehind4 (by omega)
    have hroom : KHEAP_DATA + 420 + 184 * n ≤ KHEAP_DATA + HEAP_MIN_SIZE - 8 := by omega
    intro x hl hh
    rw [hpayload x hl hh]
    rw [hsize] at hh
    exact hfree.free x hl (by omega)
/-! ## After initialise_paging -/

theorem Booted.congr {image : List UInt8} {location : ℕ} (h : Booted m st location image)
    (hm : ∀ r ∈ kept st location image.length, SameOn m m' r.1 (r.1 + r.2)) : Booted m' st location image := by
  have himage := hm (location, image.length) List.mem_cons_self
  have hJ := hm (st.strJ, 2) (by simp [kept])
  have hDev := hm (st.strDev, 4) (by simp [kept])
  exact ⟨h.bytes.congr himage le_rfl le_rfl, h.span, h.strJ.congr hJ le_rfl (Nat.lt_succ_self _),
    h.strDev.congr hDev le_rfl (Nat.lt_succ_self _), h.apart⟩

/-- The globals of `initrd.c` when the three blocks are the first of the heap. -/
def heapMounted (location n : ℕ) : Initrd := mountedAs location (KHEAP_DATA + 12) (KHEAP_DATA + 216) (KHEAP_DATA + 420) n

/-- What the file system holds lies in the heap, or was there before. -/
theorem holding_heapMounted {r : ℕ × ℕ} {location n : ℕ} (hr : r ∈ holding st (heapMounted location n) location size) :
    KHEAP_DATA ≤ r.1 ∨ r ∈ kept st location size := by
  unfold holding heapMounted mountedAs at hr
  simp only [List.mem_cons, List.not_mem_nil, or_false] at hr
  rcases hr with rfl | rfl | rfl | rfl | rfl
  · exact Or.inl (Nat.le_add_right _ _)
  · exact Or.inl (Nat.le_add_right _ _)
  · exact Or.inl (Nat.le_add_right _ _)
  · exact Or.inr (by simp [kept])
  · exact Or.inr (by simp [kept])

/-- With the image below `placement_address` and a heap of zeros, the files are mounted on the fresh heap. -/
theorem PagedBoot.mounts {k0 : Kernel} {files : List InputFile} {image : List UInt8} {location fuel : ℕ}
    (h : PagedBoot k0 k (fuel + 1)) (hpad : k0.placementAddress + 512 ≤ pageUp (k0.placementAddress + 128))
    (hend : identityEnd k0.placementAddress ≤ 0x300000) (hcount : files.length ≤ 63)
    (hnames : ∀ f ∈ files, f.name ≠ [] ∧ f.name.length ≤ 63 ∧ 0 ∉ f.name) (hat : ∀ m, BytesAt m location image → ImageAt m location files)
    (hlength : image.length = imageSize files) (hbooted : Booted k0.mem st location image)
    (hlow : ∀ r ∈ kept st location image.length, r.1 + r.2 ≤ k0.placementAddress)
    (hclear : ∀ x, KHEAP_DATA + 12 ≤ x → x < KHEAP_START + KHEAP_INITIAL_SIZE → k0.mem x = 0) :
    ∃ k' m', initialiseInitrd (PandaOS.kmalloc (fuel + 1)) st location k =
        .ok ((KHEAP_DATA + 12, heapMounted location files.length), k'.withMem m') ∧
      (∃ heap', k' = (k.withMem k'.mem).withHeap heap') ∧
      Serves m' st (heapMounted location files.length) location image.length (headersFrom (tableSize + 4) files) (volumeOf files) ∧
      ∀ r, Apart r (location, image.length) → r.1 + r.2 ≤ KHEAP_START → SameOn k.mem m' r.1 (r.1 + r.2) := by
  have hstart : KHEAP_START = 0xC0000000 := rfl
  have hdata : KHEAP_DATA = KHEAP_START + 0x80000 := rfl
  have hlast : KHEAP_START + KHEAP_INITIAL_SIZE = KHEAP_START + 0x100000 := rfl
  have hspan : pageUp (k0.placementAddress + 128) + 0x6000 = identityEnd k0.placementAddress := rfl
  have hsize : sizeofFsNode = 184 := rfl
  have himage := hlow (location, image.length) List.mem_cons_self
  have hsizeImage : 4 ≤ imageSize files := by
    unfold imageSize
    omega
  obtain ⟨k1, hkheap, hcreate, hpaged⟩ := h.paged hpad (by dsimp only at himage; omega) hend
  have hstack := stackState_fresh hkheap hpaged hcreate
  have hsame : ∀ r ∈ kept st location image.length, SameOn k0.mem k.mem r.1 (r.1 + r.2) := by
    intro r hr x _ hx
    have hr' := hlow r hr
    exact h.off x (by omega) (by omega)
  have hbooted' := hbooted.congr hsame
  have hJ := hlow (st.strJ, 2) (by simp [kept])
  have hDev := hlow (st.strDev, 4) (by simp [kept])
  obtain ⟨kdev, k', heap', t', hserved, hstack', hfields, hbelow, hnodes⟩ := served_of_stack fuel files.length hstack hcount
    (fun r hr => by have := hlow r hr; omega) hbooted'.strJ hbooted'.strDev (by dsimp only at hJ hDev; omega)
  have hends : NamesEnd k'.mem (KHEAP_DATA + 420) files := by
    intro i f hf
    obtain ⟨hi, -⟩ := List.getElem?_eq_some_iff.mp hf
    obtain ⟨-, hshort, -⟩ := hnames f (List.mem_of_getElem? hf)
    rw [hsize] at hnodes ⊢
    rw [hnodes _ (by omega) (by omega), h.off _ (by omega) (by omega), hclear _ (by omega) (by omega)]
  obtain ⟨m', hrun, hserves, hrest⟩ := initialise_serves hcount hnames (hat k.mem hbooted'.bytes) hlength hbooted' hserved hends
  have hbehind : KHEAP_START ≤ KHEAP_DATA + 420 := by decide
  have hapart : ∀ r : ℕ × ℕ, r.1 + r.2 ≤ KHEAP_START → Apart (KHEAP_DATA + 420, sizeofFsNode * files.length) r :=
    fun r hr => Or.inr (hr.trans hbehind)
  refine ⟨k', m', hrun, hfields, hserves, fun r himageApart hr => ?_⟩
  have hbelow' : SameOn k.mem k'.mem r.1 (r.1 + r.2) := fun x _ hx => hbelow x (by omega)
  exact hbelow'.trans (hrest r himageApart (hapart r hr))

end PandaOS

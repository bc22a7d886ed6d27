import PandaOS.Memory.BootMapping
import PandaOS.Library.Regions

/-! The allocator before the heap exists: the four kinds of `kmalloc`, in any order, bump the placement
address, and an aligned one first brings it up to a page boundary. -/
namespace PandaOS
open ByteMemory Word32
set_option autoImplicit false
set_option maxHeartbeats 250000

def kmallocP (fuel sz : ℕ) (k : Kernel) : Result ((ℕ × ℕ) × Kernel) := kmallocInt (alloc fuel) sz 0 true k

/-- Which of the four functions is called. -/
inductive KmallocVariant
  | kmalloc
  | kmallocA
  | kmallocP
  | kmallocAp
  deriving DecidableEq, Repr

def KmallocVariant.align : KmallocVariant → ℕ
  | .kmalloc => 0
  | .kmallocA => 1
  | .kmallocP => 0
  | .kmallocAp => 1

/-- The call, with the physical address where one is reported. -/
def KmallocVariant.call (fuel sz : ℕ) (k : Kernel) : KmallocVariant → Result ((ℕ × Option ℕ) × Kernel)
  | .kmalloc => do
    let (a, k) ← PandaOS.kmalloc fuel sz k
    return ((a, none), k)
  | .kmallocA => do
    let (a, k) ← PandaOS.kmallocA fuel sz k
    return ((a, none), k)
  | .kmallocP => do
    let ((a, phys), k) ← PandaOS.kmallocP fuel sz k
    return ((a, some phys), k)
  | .kmallocAp => do
    let ((a, phys), k) ← PandaOS.kmallocAp fuel sz k
    return ((a, some phys), k)

/-- What a call was asked for and returned, and where the placement address was before it. -/
structure Placement where
  request : KmallocVariant
  size : ℕ
  before : ℕ
  address : ℕ
  phys : Option ℕ

def Placement.region (p : Placement) : ℕ × ℕ := (p.address, p.size)

def earlyRun (fuel : ℕ) : List (KmallocVariant × ℕ) → Kernel → Result (List Placement × Kernel)
  | [], k => .ok ([], k)
  | (f, sz) :: rs, k => do
    let ((a, phys), k') ← f.call fuel sz k
    let (ps, k'') ← earlyRun fuel rs k'
    return (⟨f, sz, k.placementAddress, a, phys⟩ :: ps, k'')

/-- The running total with the padding, as it is without a wrap. -/
def earlyTotal (placement : ℕ) (rs : List (KmallocVariant × ℕ)) : ℕ :=
  rs.foldl (fun a r => (if r.1.align = 1 then pageUp a else a) + r.2) placement

/-- The memory that a run handed out between `lo` and `hi`. -/
structure EarlyLayout (lo hi : ℕ) (ps : List Placement) : Prop where
  disjoint : ps.Pairwise fun p q => Apart p.region q.region
  inside : ∀ p ∈ ps, lo ≤ p.address ∧ p.address + p.size ≤ hi
  aligned : ∀ p ∈ ps, p.request.align = 1 → p.address % 0x1000 = 0
  padding : ∀ p ∈ ps, p.before ≤ p.address ∧ p.address < p.before + 0x1000
  physical : ∀ p ∈ ps, ∀ a ∈ p.phys, a = p.address

variable {k k' : Kernel} {f : KmallocVariant} {a b lo hi sz fuel : ℕ} {rs : List (KmallocVariant × ℕ)} {ps : List Placement} {p : Placement}

theorem pageUp_bounds (a : ℕ) : a ≤ pageUp a ∧ pageUp a < a + 0x1000 ∧ pageUp a % 0x1000 = 0 := by
  unfold pageUp
  omega

/-- One call. -/
theorem KmallocVariant.call_of_none (f : KmallocVariant) (fuel : ℕ) (hk : k.kheap = none)
    (ha : (if f.align = 1 then pageUp k.placementAddress else k.placementAddress) = a) (hlt : a + sz < 4294967296) :
    ∃ phys, f.call fuel sz k = .ok ((a, phys), k.withPlacement (a + sz)) ∧ ∀ b ∈ phys, b = a := by
  have hnext : add32 a sz = a + sz := add32_of_lt hlt
  cases f with
  | kmalloc =>
    have hsame : k.placementAddress = a := ha
    refine ⟨none, ?_, nofun⟩
    rw [KmallocVariant.call, kmalloc_of_none fuel hk, hsame, hnext]
    rfl
  | kmallocA =>
    refine ⟨none, ?_, nofun⟩
    rw [KmallocVariant.call, PandaOS.kmallocA, kmallocInt_aligned hk ha hlt]
    rfl
  | kmallocP =>
    refine ⟨some a, ?_, fun b hb => (Option.mem_some.mp hb).symm⟩
    have hsame : k.placementAddress = a := ha
    have hplace : (if 0 = 1 ∧ k.placementAddress &&& 0x00000FFF ≠ 0 then
        add32 (k.placementAddress &&& 0xFFFFF000) PAGE_SIZE else k.placementAddress) = a := by
      rw [if_neg (by omega), hsame]
    rw [KmallocVariant.call, PandaOS.kmallocP, kmallocInt_of_none hk hplace, hnext]
    rfl
  | kmallocAp =>
    refine ⟨some a, ?_, fun b hb => (Option.mem_some.mp hb).symm⟩
    rw [KmallocVariant.call, PandaOS.kmallocAp, kmallocInt_aligned hk ha hlt]
    rfl

theorem earlyTotal_cons (placement : ℕ) (f : KmallocVariant) (sz : ℕ) (rs : List (KmallocVariant × ℕ)) :
    earlyTotal placement ((f, sz) :: rs) =
      earlyTotal ((if f.align = 1 then pageUp placement else placement) + sz) rs := rfl

theorem earlyTotal_ge (placement : ℕ) (rs : List (KmallocVariant × ℕ)) : placement ≤ earlyTotal placement rs := by
  induction rs generalizing placement with
  | nil => exact le_rfl
  | cons r rs ih =>
    obtain ⟨f, sz⟩ := r
    rw [earlyTotal_cons]
    refine le_trans ?_ (ih _)
    have := pageUp_bounds placement
    split <;> omega

theorem earlyLayout_nil (a : ℕ) : EarlyLayout a a [] := ⟨List.Pairwise.nil, nofun, nofun, nofun, nofun⟩

/-- A placement below the rest of a layout. -/
theorem EarlyLayout.cons (h : EarlyLayout b hi ps) (hb : p.address + p.size = b) (hhi : b ≤ hi)
    (hlo : lo ≤ p.before) (hpad : p.before ≤ p.address ∧ p.address < p.before + 0x1000)
    (halign : p.request.align = 1 → p.address % 0x1000 = 0) (hphys : ∀ a ∈ p.phys, a = p.address) :
    EarlyLayout lo hi (p :: ps) := by
  refine ⟨List.pairwise_cons.mpr ⟨fun q hq => Or.inl ?_, h.disjoint⟩, ?_, ?_, ?_, ?_⟩
  · have := (h.inside q hq).1
    exact hb.trans_le this
  · intro q hq
    rcases List.mem_cons.mp hq with rfl | hin
    · exact ⟨hlo.trans hpad.1, hb.trans_le hhi⟩
    · have := h.inside q hin
      omega
  · intro q hq
    rcases List.mem_cons.mp hq with rfl | hin
    · exact halign
    · exact h.aligned q hin
  · intro q hq
    rcases List.mem_cons.mp hq with rfl | hin
    · exact hpad
    · exact h.padding q hin
  · intro q hq
    rcases List.mem_cons.mp hq with rfl | hin
    · exact hphys
    · exact h.physical q hin

/-- While there is no heap, calls whose total does not wrap all return, and hand out memory that does not
overlap, from the initial placement address up to the final one. -/
theorem early_alloc (fuel : ℕ) (hk : k.kheap = none) (htotal : earlyTotal k.placementAddress rs < 4294967296) :
    ∃ ps k', earlyRun fuel rs k = .ok (ps, k') ∧ ps.map (fun p => (p.request, p.size)) = rs ∧
      k' = k.withPlacement (earlyTotal k.placementAddress rs) ∧
      EarlyLayout k.placementAddress k'.placementAddress ps := by
  induction rs generalizing k with
  | nil => exact ⟨[], k, rfl, rfl, rfl, earlyLayout_nil _⟩
  | cons r rs ih =>
    obtain ⟨f, sz⟩ := r
    obtain ⟨a, ha⟩ : ∃ a, a = if f.align = 1 then pageUp k.placementAddress else k.placementAddress := ⟨_, rfl⟩
    rw [earlyTotal_cons, ← ha] at htotal
    have hge := earlyTotal_ge (a + sz) rs
    obtain ⟨phys, hcall, hphys⟩ := f.call_of_none fuel hk ha.symm (by omega : a + sz < 4294967296)
    obtain ⟨ps, k', hrun, hmap, hk', hlayout⟩ := ih (k := k.withPlacement (a + sz)) hk htotal
    have hbounds := pageUp_bounds k.placementAddress
    refine ⟨⟨f, sz, k.placementAddress, a, phys⟩ :: ps, k', ?_, ?_, ?_, ?_⟩
    · rw [earlyRun, hcall, ok_bind]
      dsimp only
      rw [hrun, ok_bind]
      rfl
    · rw [List.map_cons, hmap]
    · rw [hk', earlyTotal_cons, ← ha]
      rfl
    · have hend : k'.placementAddress = earlyTotal (a + sz) rs := by
        rw [hk']
        rfl
      refine hlayout.cons rfl (by rw [hend]; exact hge) le_rfl ?_ (fun halign => ?_) hphys
      · dsimp only
        split at ha <;> omega
      · dsimp only at halign ⊢
        rw [ha, if_pos halign]
        exact hbounds.2.2

/-- The three requests of `initialise_paging` behind an initrd that ends inside a page. -/
def pagingRequests : List (KmallocVariant × ℕ) := [(.kmalloc, 128), (.kmallocA, 8196), (.kmallocAp, 4096)]

theorem early_alloc_paging : ∃ ps k', earlyRun 0 pagingRequests loadedKernel = .ok (ps, k') ∧
    ps.map (fun p => (p.request, p.size)) = pagingRequests ∧
    k' = loadedKernel.withPlacement (earlyTotal loadedKernel.placementAddress pagingRequests) ∧
    EarlyLayout loadedKernel.placementAddress k'.placementAddress ps :=
  have htotal : earlyTotal loadedKernel.placementAddress pagingRequests < 4294967296 := by decide
  early_alloc 0 rfl htotal

end PandaOS

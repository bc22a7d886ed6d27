import PandaOS.Library.GuardedRun
import PandaOS.Memory.Frames

/-! Which page owns which frame. A run calls `alloc_frame` and `free_frame` on the entries of a
fixed set of pages, from zeroed entries and a zeroed bitmap. The law is that present pages own
distinct frames and the bitmap marks exactly the owned ones. It is kept by allocations to pages
without a frame. It is broken as soon as the page that was given frame 0 is allocated again, since
frame number 0 also stands for "no frame", and by every release of an owned frame. -/
namespace PandaOS.FrameOwnership
open ByteMemory GuardedRun
set_option autoImplicit false
set_option maxHeartbeats 250000

inductive Op
  | alloc (page isKernel isWriteable : ℕ)
  | free (page : ℕ)

def Op.page : Op → ℕ
  | .alloc page _ _ => page
  | .free page => page

def perform (k : Kernel) : Op → Result Kernel
  | .alloc page isKernel isWriteable => allocFrame page isKernel isWriteable k
  | .free page => .ok (freeFrame page k)

/-- A call on one of the pages, returning. -/
def Step (pages : Set ℕ) (k : Kernel) (op : Op) (k' : Kernel) : Prop :=
  op.page ∈ pages ∧ perform k op = .ok k'

/-- The entries are distinct words outside the bitmap. -/
structure Layout (pages : Set ℕ) (k : Kernel) : Prop where
  count : k.frameCount = 4096
  bitmap : ∀ p ∈ pages, BitmapApart k p
  apart : ∀ p ∈ pages, ∀ q ∈ pages, p ≠ q → p + 4 ≤ q ∨ q + 4 ≤ p

structure Start (pages : Set ℕ) (k : Kernel) : Prop extends Layout pages k where
  entriesZero : ∀ p ∈ pages, load32 k.mem p = 0
  bitmapZero : ∀ f < 4096, frameUsed k f = false

/-- Page `p` is present and has frame `f`. -/
def Holds (k : Kernel) (p f : ℕ) : Prop :=
  (loadPage k.mem p).present = 1 ∧ (loadPage k.mem p).frame = f

/-- The map from present pages to frames is injective and its image is what the bitmap marks. -/
structure Owned (pages : Set ℕ) (k : Kernel) : Prop where
  injective : ∀ p ∈ pages, ∀ q ∈ pages, ∀ f, Holds k p f → Holds k q f → p = q
  inBitmap : ∀ p ∈ pages, ∀ f, Holds k p f → f < 4096
  exact : ∀ f < 4096, frameUsed k f = true ↔ ∃ p ∈ pages, Holds k p f

/-- The page is not present afterwards and exactly its frame has become free. -/
structure Releases (k k' : Kernel) (p : ℕ) : Prop where
  notPresent : (loadPage k'.mem p).present = 0
  bits : ∀ f < 4096, frameUsed k' f = true ↔ frameUsed k f = true ∧ ¬ Holds k p f

def FrameLaw (pages : Set ℕ) (guard : Kernel → Op → Prop) : Prop :=
  ∀ k, Reach (Start pages) guard (Step pages) k →
    Owned pages k ∧ ∀ p ∈ pages, guard k (.free p) → Releases k (freeFrame p k) p

/-- Nobody gives the page holding frame 0 a frame again, and nobody releases a held frame. -/
def KeepsFrames (k : Kernel) : Op → Prop
  | .alloc page _ _ => ¬ Holds k page 0
  | .free page => (loadPage k.mem page).present ≠ 1

variable {pages : Set ℕ} {k k' : Kernel} {p q f page isKernel isWriteable : ℕ}

/-! ## One step -/

/-- The pages other than the one a call is about keep their entries. -/
theorem loadPage_alloc_of_ne (hlay : Layout pages k) (hp : page ∈ pages) (hq : q ∈ pages)
    (hne : q ≠ page) (hf : firstFrame k = some f)
    (hk : k' = k.withMem (storePage (setFrame (f * 0x1000 % 4294967296) k).mem page
      ((loadPage (setFrame (f * 0x1000 % 4294967296) k).mem page).allocated isKernel isWriteable f))) :
    loadPage k'.mem q = loadPage k.mem q := by
  obtain ⟨_, _, _, _, hrest⟩ := allocated_spec hlay.count.le hf (hlay.bitmap page hp) hk
  have hsame : SameOn k.mem k'.mem q (q+4) := by
    intro x hl hh
    have h1 := hlay.apart q hq page hp hne
    have h2 := hlay.bitmap q hq
    unfold BitmapApart at h2
    exact hrest x (by omega) (by omega)
  rw [loadPage, hsame.load32_eq le_rfl le_rfl, loadPage]

theorem layout_step {op : Op} (hlay : Layout pages k) (hs : Step pages k op k') : Layout pages k' := by
  obtain ⟨_, hrun⟩ := hs
  have hfields : k'.frameCount = k.frameCount ∧ k'.frames = k.frames := by
    cases op with
    | alloc page isKernel isWriteable =>
      rcases allocFrame_cases hrun with ⟨_, rfl⟩ | ⟨_, f, _, rfl⟩
      · exact ⟨rfl, rfl⟩
      · exact ⟨rfl, rfl⟩
    | free page =>
      cases hrun
      unfold freeFrame
      dsimp only
      split <;> exact ⟨rfl, rfl⟩
  refine ⟨hfields.1.trans hlay.count, ?_, hlay.apart⟩
  intro p hp
  have := hlay.bitmap p hp
  unfold BitmapApart at this ⊢
  rwa [hfields.2]

/-- An allocation to a page without a frame gives it a frame nobody owns. -/
theorem owned_alloc (hlay : Layout pages k) (hown : Owned pages k) (hp : page ∈ pages)
    (hguard : ¬ Holds k page 0) (hrun : allocFrame page isKernel isWriteable k = .ok k') :
    Owned pages k' := by
  rcases allocFrame_cases hrun with ⟨_, rfl⟩ | ⟨hzero, f, hf, hk⟩
  · exact hown
  obtain ⟨hlt, hfree, hentry, hbits, _⟩ := allocated_spec hlay.count.le hf (hlay.bitmap page hp) hk
  have hself : ∀ g, Holds k' page g ↔ g = f := by
    intro g
    unfold Holds
    rw [hentry]
    simp only [Page.allocated, true_and]
    exact eq_comm
  have hother : ∀ q ∈ pages, q ≠ page → ∀ g, Holds k' q g ↔ Holds k q g := by
    intro q hq hne g
    unfold Holds
    rw [loadPage_alloc_of_ne hlay hp hq hne hf hk]
  have hnone : ∀ g, ¬ Holds k page g := fun g hg => hguard ⟨hg.1, hzero⟩
  have hfresh : ∀ q ∈ pages, ¬ Holds k q f := by
    intro q hq hqf
    have := (hown.exact f hlt).mpr ⟨q, hq, hqf⟩
    rw [hfree] at this
    cases this
  constructor
  · intro q hq r hr g hqg hrg
    by_cases hqp : q = page <;> by_cases hrp : r = page
    · rw [hqp, hrp]
    · subst hqp
      rw [(hself g).mp hqg, hother r hr hrp] at hrg
      exact absurd hrg (hfresh r hr)
    · subst hrp
      rw [(hself g).mp hrg, hother q hq hqp] at hqg
      exact absurd hqg (hfresh q hq)
    · exact hown.injective q hq r hr g ((hother q hq hqp g).mp hqg) ((hother r hr hrp g).mp hrg)
  · intro q hq g hqg
    by_cases hqp : q = page
    · subst hqp
      rw [(hself g).mp hqg]
      exact hlt
    · exact hown.inBitmap q hq g ((hother q hq hqp g).mp hqg)
  · intro g hg
    rw [hbits g hg, Bool.or_eq_true, decide_eq_true_eq, hown.exact g hg]
    constructor
    · rintro (rfl | ⟨q, hq, hqg⟩)
      · exact ⟨page, hp, (hself g).mpr rfl⟩
      · have hqp : q ≠ page := by
          rintro rfl
          exact hnone g hqg
        exact ⟨q, hq, (hother q hq hqp g).mpr hqg⟩
    · rintro ⟨q, hq, hqg⟩
      by_cases hqp : q = page
      · subst hqp
        exact Or.inl ((hself g).mp hqg)
      · exact Or.inr ⟨q, hq, (hother q hq hqp g).mp hqg⟩

/-! ## Runs -/

theorem start_owned (h : Start pages k) : Owned pages k := by
  have hnone : ∀ p ∈ pages, ∀ f, ¬ Holds k p f := by
    rintro p hp f ⟨hpresent, _⟩
    rw [loadPage, h.entriesZero p hp] at hpresent
    cases hpresent
  constructor
  · exact fun p hp _ _ f hpf _ => absurd hpf (hnone p hp f)
  · exact fun p hp f hpf => absurd hpf (hnone p hp f)
  · intro f hf
    rw [h.bitmapZero f hf]
    constructor
    · intro hfalse
      cases hfalse
    · rintro ⟨p, hp, hpf⟩
      exact absurd hpf (hnone p hp f)

/-- A page that is not present has no frame, so `free_frame` on it returns at once. -/
structure Inv (pages : Set ℕ) (k : Kernel) : Prop where
  layout : Layout pages k
  owned : Owned pages k
  absent : ∀ p ∈ pages, (loadPage k.mem p).present ≠ 1 → (loadPage k.mem p).frame = 0

theorem inv_step {op : Op} (h : Inv pages k) (hguard : KeepsFrames k op) (hs : Step pages k op k') :
    Inv pages k' := by
  have hlay := layout_step h.layout hs
  obtain ⟨hp, hrun⟩ := hs
  cases op with
  | alloc page isKernel isWriteable =>
    refine ⟨hlay, owned_alloc h.layout h.owned hp hguard hrun, ?_⟩
    rcases allocFrame_cases hrun with ⟨_, rfl⟩ | ⟨_, f, hf, hk⟩
    · exact h.absent
    · intro q hq hne
      obtain ⟨_, _, hentry, _, _⟩ :=
        allocated_spec h.layout.count.le hf (h.layout.bitmap page hp) hk
      by_cases hqp : q = page
      · subst hqp
        rw [hentry] at hne
        exact absurd rfl hne
      · rw [loadPage_alloc_of_ne h.layout hp hq hqp hf hk] at hne ⊢
        exact h.absent q hq hne
  | free page =>
    cases hrun
    rw [freeFrame_of_zero (h.absent page hp hguard)]
    exact h

theorem frame_ownership_iff_released (h : Inv pages k) (hp : page ∈ pages) :
    Releases k (freeFrame page k) page ↔ (loadPage k.mem page).present ≠ 1 := by
  constructor
  · intro hrel hpresent
    have hstay : (loadPage (freeFrame page k).mem page).present = 1 := by
      by_cases hzero : (loadPage k.mem page).frame = 0
      · rwa [freeFrame_of_zero hzero]
      · rw [(freeFrame_of_ne_zero hzero (h.layout.bitmap page hp)).1]
        exact hpresent
    rw [hrel.notPresent] at hstay
    cases hstay
  · intro habsent
    have hlt := (loadPage_fits k.mem page).present
    rw [freeFrame_of_zero (h.absent page hp habsent)]
    exact ⟨by omega, fun f _ => ⟨fun hu => ⟨hu, fun hf => habsent hf.1⟩, And.left⟩⟩

/-- In every run that respects `KeepsFrames` the bitmap and the page entries agree. -/
theorem frame_law (pages : Set ℕ) : FrameLaw pages KeepsFrames := by
  intro k hreach
  have hinv : Inv pages k := hreach.invariant
    (fun k hstart => ⟨hstart.toLayout, start_owned hstart, fun p hp _ => by
      rw [loadPage, hstart.entriesZero p hp]
      rfl⟩)
    (fun _ _ _ h hg hs => inv_step h hg hs)
  exact ⟨hinv.owned, fun p hp hg => (frame_ownership_iff_released hinv hp).mpr hg⟩

/-- The condition is exact for allocations too: allocating the page that holds frame 0 again
leaves a marked frame that no page owns. -/
theorem alloc_frame_zero_breaks (h : Inv pages k) (hp : page ∈ pages) (hzero : Holds k page 0)
    (hrun : allocFrame page isKernel isWriteable k = .ok k') : ¬ Owned pages k' := by
  intro hown
  rcases allocFrame_cases hrun with ⟨hne, _⟩ | ⟨_, f, hf, hk⟩
  · exact hne hzero.2
  obtain ⟨_, hfree, hentry, hbits, _⟩ :=
    allocated_spec h.layout.count.le hf (h.layout.bitmap page hp) hk
  have hused : frameUsed k 0 = true := (h.owned.exact 0 (by norm_num)).mpr ⟨page, hp, hzero⟩
  have hused' : frameUsed k' 0 = true := by
    rw [hbits 0 (by norm_num), hused, Bool.or_true]
  obtain ⟨q, hq, hq0⟩ := (hown.exact 0 (by norm_num)).mp hused'
  by_cases hqp : q = page
  · subst hqp
    have hf0 : f = 0 := by
      have := hq0.2
      rw [hentry] at this
      exact this
    rw [hf0, hused] at hfree
    cases hfree
  · have hq0' : Holds k q 0 := by
      unfold Holds at hq0 ⊢
      rwa [loadPage_alloc_of_ne h.layout hp hq hqp hf hk] at hq0
    exact hqp (h.owned.injective q hq page hp 0 hq0' hzero)

/-! ## A run that breaks the law -/

/-- An empty machine: the bitmap at 8192, no heap, nothing stored yet. -/
def blank : Kernel where
  mem := fun _ => 0
  phys := fun _ => 0
  placementAddress := 0
  kheap := none
  kernelDirectory := 0
  currentDirectory := 0
  frames := 8192
  frameCount := 4096
  cr3 := 0
  pagingEnabled := false

def twoPages : Set ℕ := {4096, 4100}

theorem start_blank : Start twoPages blank where
  count := rfl
  bitmap := by
    rintro p (rfl | rfl) <;> left <;> decide
  apart := by
    rintro p (rfl | rfl) q (rfl | rfl) hne <;> first | exact absurd rfl hne | decide
  entriesZero := fun _ _ => rfl
  bitmapZero := fun f _ => Nat.zero_testBit _

/-- Both pages get a frame, then the second is freed. -/
def shareFrameZero : List Op := [.alloc 4096 0 1, .alloc 4100 0 1, .free 4100]

theorem shareFrameZero_final :
    ((shareFrameZero.foldlM perform blank).map fun k =>
      (loadPage k.mem 4096, loadPage k.mem 4100)) =
    .ok (⟨1, 1, 1, 0, 0, 0, 0⟩, ⟨1, 1, 1, 0, 0, 0, 0⟩) := by
  decide +kernel

/-- After `alloc p; alloc q; free q` both pages are present and both have frame 0. -/
theorem frame_law_fails : ¬ ∀ pages, FrameLaw pages (fun _ _ => True) := by
  intro hlaw
  have hfinal := shareFrameZero_final
  cases hrun : shareFrameZero.foldlM perform blank with
  | error e =>
    rw [hrun] at hfinal
    cases hfinal
  | ok k =>
    rw [hrun] at hfinal
    simp only [Except.map, Except.ok.injEq, Prod.mk.injEq] at hfinal
    have hreach : Reach (Start twoPages) (fun _ _ => True) (Step twoPages) k := by
      refine (Reach.start start_blank).foldlM (f := perform) ?_ hrun
      intro s op s' hop hs
      refine ⟨trivial, ?_, hs⟩
      simp only [shareFrameZero, List.mem_cons, List.not_mem_nil, or_false] at hop
      rcases hop with rfl | rfl | rfl <;> simp [twoPages, Op.page]
    have hinj := ((hlaw twoPages) k hreach).1.injective
    have heq : (4096 : ℕ) = 4100 :=
      hinj 4096 (by simp [twoPages]) 4100 (by simp [twoPages]) 0
        (by simp [Holds, hfinal.1]) (by simp [Holds, hfinal.2])
    norm_num at heq

end PandaOS.FrameOwnership

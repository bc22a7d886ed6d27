import PandaOS.Utils.Mem

/-! The frame bitmap and the page entries of `paging.c`. A page entry is one word of bit fields;
the bitmap is an array of words at `frames`. `frameUsed` reads one bit of it, and each function is
characterised by what it does to that predicate and which bytes it leaves alone. -/
namespace PandaOS
open ByteMemory Word32
set_option autoImplicit false
set_option maxHeartbeats 250000

/-! ## Page entries -/

/-- `page_t`. -/
structure Page where
  present : ℕ
  rw : ℕ
  user : ℕ
  accessed : ℕ
  dirty : ℕ
  unused : ℕ
  frame : ℕ
  deriving DecidableEq, Repr

def Page.ofWord (w : ℕ) : Page where
  present := w % 2
  rw := w / 2 % 2
  user := w / 4 % 2
  accessed := w / 8 % 2
  dirty := w / 16 % 2
  unused := w / 32 % 128
  frame := w / 4096

/-- Each field keeps the low bits that fit its width. -/
def Page.toWord (p : Page) : ℕ :=
  p.present % 2 + 2 * (p.rw % 2) + 4 * (p.user % 2) + 8 * (p.accessed % 2) + 16 * (p.dirty % 2) +
    32 * (p.unused % 128) + 4096 * (p.frame % 1048576)

def loadPage (m : Mem) (page : ℕ) : Page := Page.ofWord (load32 m page)

def storePage (m : Mem) (page : ℕ) (p : Page) : Mem := store32 m page p.toWord

/-! ## The functions -/

/-- `frames[idx]` -/
def frameWord (k : Kernel) (idx : ℕ) : ℕ := k.frames + 4*idx

def indexFromBit (a : ℕ) : ℕ := a / (8*4)

def offsetFromBit (a : ℕ) : ℕ := a % (8*4)

def setFrame (frameAddr : ℕ) (k : Kernel) : Kernel :=
  let frame := frameAddr / 0x1000
  let word := frameWord k (indexFromBit frame)
  k.withMem (store32 k.mem word (load32 k.mem word ||| 0x1 <<< offsetFromBit frame))

def clearFrame (frameAddr : ℕ) (k : Kernel) : Kernel :=
  let frame := frameAddr / 0x1000
  let word := frameWord k (indexFromBit frame)
  k.withMem (store32 k.mem word
    (load32 k.mem word &&& (0xFFFFFFFF ^^^ 0x1 <<< offsetFromBit frame)))

/-- The inner loop of `first_frame` over one word, with `n` values of `j` left. -/
def firstBit (word : ℕ) : ℕ → ℕ → Option ℕ
  | 0, _ => none
  | n + 1, j => if word &&& 0x1 <<< j = 0 then some j else firstBit word n (j + 1)

/-- The outer loop of `first_frame`, with `n` words left. -/
def firstFrameFrom (k : Kernel) : ℕ → ℕ → Option ℕ
  | 0, _ => none
  | n + 1, i =>
    if load32 k.mem (frameWord k i) ≠ 0xFFFFFFFF then
      match firstBit (load32 k.mem (frameWord k i)) 32 0 with
      | some j => some (i*4*8 + j)
      | none => firstFrameFrom k n (i + 1)
    else firstFrameFrom k n (i + 1)

/-- `none` where the C function reaches its closing brace: it has no `return` there. -/
def firstFrame (k : Kernel) : Option ℕ := firstFrameFrom k (indexFromBit k.frameCount) 0

/-- The entry after the four assignments of `alloc_frame`. -/
def Page.allocated (p : Page) (isKernel isWriteable frame : ℕ) : Page :=
  { p with
    present := 1
    rw := if isWriteable ≠ 0 then 1 else 0
    user := if isKernel ≠ 0 then 0 else 1
    frame := frame }

def allocFrame (page isKernel isWriteable : ℕ) (k : Kernel) : Result Kernel :=
  if (loadPage k.mem page).frame ≠ 0 then .ok k
  else
    match firstFrame k with
    | none => .error (.undefined "first_frame has no return value")
    | some frameAddress =>
      if frameAddress = 0xFFFFFFFF then .error (.panic "No free frames!")
      else
        let k := setFrame (frameAddress * 0x1000 % 4294967296) k
        .ok (k.withMem (storePage k.mem page
          ((loadPage k.mem page).allocated isKernel isWriteable frameAddress)))

def freeFrame (page : ℕ) (k : Kernel) : Kernel :=
  let frame := (loadPage k.mem page).frame
  if frame = 0 then k
  else
    let k := clearFrame frame k
    k.withMem (storePage k.mem page { loadPage k.mem page with frame := 0x0 })

/-- The bit that `test_frame` reads, by frame number. -/
def frameUsed (k : Kernel) (frame : ℕ) : Bool :=
  (load32 k.mem (frameWord k (indexFromBit frame))).testBit (offsetFromBit frame)

variable {k k' : Kernel} {m : Mem} {page f g i j n w : ℕ} {p : Page}

/-! ## Page entries as words -/

theorem Page.toWord_lt (p : Page) : p.toWord < 4294967296 := by
  unfold Page.toWord
  omega

/-- Every field fits its width. -/
structure Page.Fits (p : Page) : Prop where
  present : p.present < 2
  rw : p.rw < 2
  user : p.user < 2
  accessed : p.accessed < 2
  dirty : p.dirty < 2
  unused : p.unused < 128
  frame : p.frame < 1048576

theorem loadPage_fits (m : Mem) (page : ℕ) : (loadPage m page).Fits := by
  have := load32_lt m page
  constructor <;> simp only [loadPage, Page.ofWord] <;> omega

theorem Page.ofWord_toWord (h : p.Fits) : Page.ofWord p.toWord = p := by
  obtain ⟨h1, h2, h3, h4, h5, h6, h7⟩ := h
  cases p
  simp only [Page.ofWord, Page.toWord, Page.mk.injEq] at *
  omega

theorem loadPage_storePage_self (m : Mem) (page : ℕ) (h : p.Fits) :
    loadPage (storePage m page p) page = p := by
  rw [loadPage, storePage, load32_store32_of_lt p.toWord_lt, Page.ofWord_toWord h]

theorem Page.allocated_fits {isKernel isWriteable : ℕ} (h : p.Fits) (hf : f < 1048576) :
    (p.allocated isKernel isWriteable f).Fits where
  present := by simp [Page.allocated]
  rw := by simp only [Page.allocated]; split <;> omega
  user := by simp only [Page.allocated]; split <;> omega
  accessed := h.accessed
  dirty := h.dirty
  unused := h.unused
  frame := hf

/-! ## Bits of a word -/

theorem load32_testBit_lt (h : (load32 m w).testBit i = true) : i < 32 := by
  by_contra hi
  have hpow : 2 ^ 32 ≤ 2 ^ i := Nat.pow_le_pow_right (by norm_num) (by omega)
  have := Nat.testBit_lt_two_pow ((load32_lt m w).trans_le hpow)
  rw [h] at this
  cases this

theorem firstBit_spec (h : firstBit w n j = some i) :
    j ≤ i ∧ i < j + n ∧ w.testBit i = false ∧ ∀ b, j ≤ b → b < i → w.testBit b = true := by
  induction n generalizing j with
  | zero => cases h
  | succ n ih =>
    have hbit : w &&& 0x1 <<< j = 0 ↔ w.testBit j = false := by
      rw [Nat.shiftLeft_eq, one_mul, Nat.and_two_pow]
      cases w.testBit j <;> simp
    rw [firstBit] at h
    split_ifs at h with hz
    · cases h
      exact ⟨le_rfl, by omega, hbit.mp hz, fun b h1 h2 => absurd h2 (by omega)⟩
    · obtain ⟨h1, h2, h3, h4⟩ := ih h
      refine ⟨by omega, by omega, h3, ?_⟩
      intro b hb hbi
      by_cases hbj : b = j
      · subst hbj
        simpa using fun hf => hz (hbit.mpr hf)
      · exact h4 b (by omega) hbi

theorem firstBit_none (h : firstBit w n j = none) (hb : j ≤ i) (hi : i < j + n) :
    w.testBit i = true := by
  induction n generalizing j with
  | zero => omega
  | succ n ih =>
    rw [firstBit] at h
    split_ifs at h with hz
    by_cases hij : i = j
    · subst hij
      rw [Nat.shiftLeft_eq, one_mul, Nat.and_two_pow] at hz
      by_contra hf
      simp [hf] at hz
    · exact ih h (by omega) (by omega)

theorem testBit_full (h : i < 32) : Nat.testBit 0xFFFFFFFF i = true := by
  have : (0xFFFFFFFF : ℕ) = 2 ^ 32 - 1 := by norm_num
  rw [this, Nat.testBit_two_pow_sub_one]
  simpa using h

/-! ## first_frame -/

theorem firstFrameFrom_spec (h : firstFrameFrom k n i = some f) :
    f < 32 * (i + n) ∧ frameUsed k f = false ∧
      ∀ g, 32*i ≤ g → g < f → frameUsed k g = true := by
  induction n generalizing i with
  | zero => cases h
  | succ n ih =>
    -- a word passed over is full, whichever of the two tests passed it over
    have hskip : (∀ b < 32, (load32 k.mem (frameWord k i)).testBit b = true) →
        firstFrameFrom k n (i+1) = some f → f < 32 * (i + (n+1)) ∧ frameUsed k f = false ∧
          ∀ g, 32*i ≤ g → g < f → frameUsed k g = true := by
      intro hfull hrec
      obtain ⟨h1, h2, h3⟩ := ih hrec
      refine ⟨by omega, h2, ?_⟩
      intro g hg hgf
      by_cases hnext : 32*(i+1) ≤ g
      · exact h3 g hnext hgf
      · have hidx : indexFromBit g = i := by unfold indexFromBit; omega
        rw [frameUsed, hidx]
        exact hfull _ (Nat.mod_lt _ (by norm_num))
    rw [firstFrameFrom] at h
    split_ifs at h with hne
    · split at h
      · next j hj =>
        cases h
        obtain ⟨_, hlt, hclear, hset⟩ := firstBit_spec hj
        have hidx : indexFromBit (i*4*8 + j) = i := by unfold indexFromBit; omega
        have hoff : offsetFromBit (i*4*8 + j) = j := by unfold offsetFromBit; omega
        refine ⟨by omega, by rw [frameUsed, hidx, hoff]; exact hclear, ?_⟩
        intro g hg hgf
        have hgi : indexFromBit g = i := by unfold indexFromBit; omega
        rw [frameUsed, hgi]
        exact hset _ (by omega) (by unfold offsetFromBit; omega)
      · next hj => exact hskip (fun b hb => firstBit_none hj (by omega) (by omega)) h
    · refine hskip (fun b hb => ?_) h
      have hfull : load32 k.mem (frameWord k i) = 0xFFFFFFFF := not_not.mp hne
      rw [hfull]
      exact testBit_full hb

theorem firstFrameFrom_none (h : firstFrameFrom k n i = none) (hl : 32*i ≤ g)
    (hg : g < 32 * (i + n)) : frameUsed k g = true := by
  induction n generalizing i with
  | zero => omega
  | succ n ih =>
    have hword : firstFrameFrom k n (i+1) = none ∧
        ∀ b < 32, (load32 k.mem (frameWord k i)).testBit b = true := by
      rw [firstFrameFrom] at h
      split_ifs at h with hne
      · split at h
        · cases h
        · next hj => exact ⟨h, fun b hb => firstBit_none hj (by omega) (by omega)⟩
      · have hfull : load32 k.mem (frameWord k i) = 0xFFFFFFFF := not_not.mp hne
        refine ⟨h, fun b hb => ?_⟩
        rw [hfull]
        exact testBit_full hb
    by_cases hnext : 32*(i+1) ≤ g
    · exact ih hword.1 hnext (by omega)
    · have hidx : indexFromBit g = i := by unfold indexFromBit; omega
      rw [frameUsed, hidx]
      exact hword.2 _ (Nat.mod_lt _ (by norm_num))

theorem firstFrame_spec (h : firstFrame k = some f) :
    f < 32 * (k.frameCount / 32) ∧ frameUsed k f = false ∧ ∀ g < f, frameUsed k g = true := by
  obtain ⟨h1, h2, h3⟩ := firstFrameFrom_spec h
  exact ⟨by simpa [indexFromBit] using h1, h2, fun g hg => h3 g (by omega) hg⟩

theorem firstFrame_none (h : firstFrame k = none) (hg : g < 32 * (k.frameCount / 32)) :
    frameUsed k g = true :=
  firstFrameFrom_none h (by omega) (by simpa [indexFromBit] using hg)

/-! ## set_frame and clear_frame -/

theorem frameWord_withMem (k : Kernel) (m : Mem) (i : ℕ) :
    frameWord (k.withMem m) i = frameWord k i := rfl

/-- A store to one word of the bitmap leaves the bits of the other words. -/
theorem frameUsed_store_of_ne {v : ℕ} (h : indexFromBit g ≠ i) :
    frameUsed (k.withMem (store32 k.mem (frameWord k i) v)) g = frameUsed k g := by
  have hne : frameWord k (indexFromBit g) + 4 ≤ frameWord k i ∨
      frameWord k i + 4 ≤ frameWord k (indexFromBit g) := by
    simp only [frameWord]
    omega
  simp only [frameUsed, frameWord_withMem, Kernel.withMem_mem]
  rw [load32_store32_of_off hne]

theorem frame_eq_iff (f g : ℕ) :
    g = f ↔ indexFromBit g = indexFromBit f ∧ offsetFromBit g = offsetFromBit f := by
  simp only [indexFromBit, offsetFromBit]
  omega

theorem frameUsed_setFrame (a : ℕ) (k : Kernel) (g : ℕ) :
    frameUsed (setFrame a k) g = (decide (g = a / 0x1000) || frameUsed k g) := by
  obtain ⟨f, hf⟩ : ∃ f, f = a / 0x1000 := ⟨_, rfl⟩
  rw [setFrame, ← hf]
  by_cases hidx : indexFromBit g = indexFromBit f
  · have hoff : offsetFromBit f < 32 := Nat.mod_lt _ (by norm_num)
    have hlt : load32 k.mem (frameWord k (indexFromBit f)) ||| 0x1 <<< offsetFromBit f < 2 ^ 32 := by
      apply Nat.or_lt_two_pow (load32_lt _ _)
      rw [Nat.one_shiftLeft]
      exact Nat.pow_lt_pow_right (by norm_num) hoff
    simp only [frameUsed, frameWord_withMem, Kernel.withMem_mem, hidx]
    rw [load32_store32_of_lt hlt, Nat.testBit_or, Nat.one_shiftLeft, Nat.testBit_two_pow, Bool.or_comm]
    congr 1
    have := frame_eq_iff f g
    by_cases he : g = f
    · simp [he]
    · have hne : ¬ offsetFromBit f = offsetFromBit g := fun h => he (this.mpr ⟨hidx, h.symm⟩)
      simp [he, hne]
  · have hne : g ≠ f := fun h => hidx (by rw [h])
    rw [frameUsed_store_of_ne hidx]
    simp [hne]

theorem frameUsed_clearFrame (a : ℕ) (k : Kernel) (g : ℕ) :
    frameUsed (clearFrame a k) g = (frameUsed k g && decide (g ≠ a / 0x1000)) := by
  obtain ⟨f, hf⟩ : ∃ f, f = a / 0x1000 := ⟨_, rfl⟩
  rw [clearFrame, ← hf]
  by_cases hidx : indexFromBit g = indexFromBit f
  · have hlt : load32 k.mem (frameWord k (indexFromBit f)) &&&
        (0xFFFFFFFF ^^^ 0x1 <<< offsetFromBit f) < 4294967296 :=
      Nat.lt_of_le_of_lt Nat.and_le_left (load32_lt _ _)
    have hoff : offsetFromBit g < 32 := Nat.mod_lt _ (by norm_num)
    simp only [frameUsed, frameWord_withMem, Kernel.withMem_mem, hidx]
    rw [load32_store32_of_lt hlt, Nat.testBit_and, Nat.testBit_xor, testBit_full hoff,
      Nat.one_shiftLeft, Nat.testBit_two_pow]
    congr 1
    have := frame_eq_iff f g
    by_cases he : g = f
    · simp [he]
    · have hne : ¬ offsetFromBit f = offsetFromBit g := fun h => he (this.mpr ⟨hidx, h.symm⟩)
      simp [he, hne]
  · have hne : g ≠ f := fun h => hidx (by rw [h])
    rw [frameUsed_store_of_ne hidx]
    simp [hne]

/-- The bytes of the bitmap word that holds a frame's bit. -/
theorem sameOff_setFrame (a : ℕ) (k : Kernel) :
    SameOff k.mem (setFrame a k).mem (frameWord k (indexFromBit (a / 0x1000)))
      (frameWord k (indexFromBit (a / 0x1000)) + 4) := sameOff_store32 le_rfl le_rfl

theorem sameOff_clearFrame (a : ℕ) (k : Kernel) :
    SameOff k.mem (clearFrame a k).mem (frameWord k (indexFromBit (a / 0x1000)))
      (frameWord k (indexFromBit (a / 0x1000)) + 4) := sameOff_store32 le_rfl le_rfl

theorem frameUsed_congr {m : Mem} (h : SameOn k.mem m k.frames (k.frames + 512)) (hg : g < 4096) :
    frameUsed (k.withMem m) g = frameUsed k g := by
  simp only [frameUsed, frameWord_withMem, Kernel.withMem_mem]
  rw [h.load32_eq (by simp only [frameWord]; omega) (by simp only [frameWord, indexFromBit]; omega)]

/-! ## alloc_frame and free_frame -/

/-- A page without a frame gets the first free one. -/
theorem allocFrame_some (hpage : (loadPage k.mem page).frame = 0) (hfirst : firstFrame k = some f) (hmax : f ≠ 0xFFFFFFFF)
    (isKernel isWriteable : ℕ) : allocFrame page isKernel isWriteable k =
      .ok (k.withMem (storePage (setFrame (f * 0x1000 % 4294967296) k).mem page
        ((loadPage (setFrame (f * 0x1000 % 4294967296) k).mem page).allocated isKernel isWriteable f))) := by
  unfold allocFrame
  rw [if_neg (not_not.mpr hpage), hfirst]
  dsimp only
  rw [if_neg hmax]
  rfl

/-- What a returning `alloc_frame` did: nothing, or the first free frame to the page. -/
theorem allocFrame_cases {isKernel isWriteable : ℕ} (h : allocFrame page isKernel isWriteable k = .ok k') :
    ((loadPage k.mem page).frame ≠ 0 ∧ k' = k) ∨
    ((loadPage k.mem page).frame = 0 ∧ ∃ f, firstFrame k = some f ∧
      k' = k.withMem (storePage (setFrame (f * 0x1000 % 4294967296) k).mem page
        ((loadPage (setFrame (f * 0x1000 % 4294967296) k).mem page).allocated isKernel isWriteable f))) := by
  unfold allocFrame at h
  by_cases hframe : (loadPage k.mem page).frame ≠ 0
  · rw [if_pos hframe] at h
    cases h
    exact Or.inl ⟨hframe, rfl⟩
  · rw [if_neg hframe] at h
    cases hf : firstFrame k with
    | none =>
      rw [hf] at h
      cases h
    | some f =>
      rw [hf] at h
      dsimp only at h
      by_cases hmax : f = 0xFFFFFFFF
      · rw [if_pos hmax] at h
        cases h
      · rw [if_neg hmax] at h
        cases h
        exact Or.inr ⟨not_not.mp hframe, f, rfl, rfl⟩

/-- The page entry and the bitmap are different memory. -/
def BitmapApart (k : Kernel) (page : ℕ) : Prop := page + 4 ≤ k.frames ∨ k.frames + 512 ≤ page

/-- The second case of `allocFrame_cases`, read back through the bitmap and the page. -/
theorem allocated_spec {isKernel isWriteable : ℕ} (hcount : k.frameCount ≤ 4096)
    (hf : firstFrame k = some f) (hapart : BitmapApart k page)
    (hk : k' = k.withMem (storePage (setFrame (f * 0x1000 % 4294967296) k).mem page
      ((loadPage (setFrame (f * 0x1000 % 4294967296) k).mem page).allocated isKernel isWriteable f))) :
    f < 4096 ∧ frameUsed k f = false ∧
    loadPage k'.mem page = (loadPage k.mem page).allocated isKernel isWriteable f ∧
    (∀ g < 4096, frameUsed k' g = (decide (g = f) || frameUsed k g)) ∧
    (∀ x, (x < page ∨ page + 4 ≤ x) → (x < k.frames ∨ k.frames + 512 ≤ x) →
      k'.mem x = k.mem x) := by
  obtain ⟨hlt, hfree, _⟩ := firstFrame_spec hf
  have hf4 : f < 4096 := by omega
  have hdiv : f * 0x1000 % 4294967296 / 0x1000 = f := by omega
  have hset := sameOff_setFrame (f * 0x1000 % 4294967296) k
  rw [hdiv] at hset
  have hword : k.frames ≤ frameWord k (indexFromBit f) ∧
      frameWord k (indexFromBit f) + 4 ≤ k.frames + 512 := by
    simp only [frameWord, indexFromBit]
    omega
  have hpage : load32 (setFrame (f * 0x1000 % 4294967296) k).mem page = load32 k.mem page :=
    hset.load32_eq (by unfold BitmapApart at hapart; omega)
  subst hk
  refine ⟨hf4, hfree, ?_, ?_, ?_⟩
  · have hsame : loadPage (setFrame (f * 0x1000 % 4294967296) k).mem page = loadPage k.mem page := by
      rw [loadPage, hpage, loadPage]
    rw [Kernel.withMem_mem, hsame]
    exact loadPage_storePage_self _ _ (Page.allocated_fits (loadPage_fits _ _) (by omega))
  · intro g hg
    have hstore : SameOn (setFrame (f * 0x1000 % 4294967296) k).mem
        (storePage (setFrame (f * 0x1000 % 4294967296) k).mem page
          ((loadPage (setFrame (f * 0x1000 % 4294967296) k).mem page).allocated isKernel isWriteable f))
        k.frames (k.frames + 512) :=
      (sameOff_store32 le_rfl le_rfl).sameOn (by unfold BitmapApart at hapart; omega)
    have := frameUsed_congr (k := setFrame (f * 0x1000 % 4294967296) k) hstore hg
    rw [frameUsed_setFrame, hdiv] at this
    exact this
  · intro x hxp hxf
    exact ((sameOff_store32 le_rfl le_rfl : SameOff _ (storePage _ page _) page (page + 4)) x hxp).trans
      (hset x (by omega))

theorem freeFrame_of_zero (h : (loadPage k.mem page).frame = 0) : freeFrame page k = k := by
  simp [freeFrame, h]

/-- `free_frame` hands the frame number to `clear_frame`, which takes an address: the bit cleared
is the one of frame `frame / 0x1000`. Only the frame field of the page is cleared. -/
theorem freeFrame_of_ne_zero (h : (loadPage k.mem page).frame ≠ 0) (hapart : BitmapApart k page) :
    loadPage (freeFrame page k).mem page = { loadPage k.mem page with frame := 0 } ∧
    ∀ g < 4096, frameUsed (freeFrame page k) g =
      (frameUsed k g && decide (g ≠ (loadPage k.mem page).frame / 0x1000)) := by
  have hfits := loadPage_fits k.mem page
  have hclear := sameOff_clearFrame (loadPage k.mem page).frame k
  have hword : k.frames ≤ frameWord k (indexFromBit ((loadPage k.mem page).frame / 0x1000)) ∧
      frameWord k (indexFromBit ((loadPage k.mem page).frame / 0x1000)) + 4 ≤ k.frames + 512 := by
    have := hfits.frame
    simp only [frameWord, indexFromBit]
    omega
  have hsame : loadPage (clearFrame (loadPage k.mem page).frame k).mem page = loadPage k.mem page := by
    rw [loadPage, hclear.load32_eq (by unfold BitmapApart at hapart; omega), loadPage]
  have hfree : freeFrame page k = (clearFrame (loadPage k.mem page).frame k).withMem
      (storePage (clearFrame (loadPage k.mem page).frame k).mem page
        { loadPage k.mem page with frame := 0 }) := by
    simp only [freeFrame, if_neg h, hsame]
  rw [hfree]
  constructor
  · exact loadPage_storePage_self _ _ ⟨hfits.1, hfits.2, hfits.3, hfits.4, hfits.5, hfits.6, by norm_num⟩
  · intro g hg
    have hstore : SameOn (clearFrame (loadPage k.mem page).frame k).mem
        (storePage (clearFrame (loadPage k.mem page).frame k).mem page
          { loadPage k.mem page with frame := 0 }) k.frames (k.frames + 512) :=
      (sameOff_store32 le_rfl le_rfl).sameOn (by unfold BitmapApart at hapart; omega)
    have := frameUsed_congr (k := clearFrame (loadPage k.mem page).frame k) hstore hg
    rwa [frameUsed_clearFrame] at this

/-- `free_frame` writes only the page and the bitmap. -/
theorem freeFrame_writes (h : (loadPage k.mem page).frame ≠ 0) :
    freeFrame page k = k.withMem (freeFrame page k).mem ∧
    ∀ x, (x < page ∨ page + 4 ≤ x) → (x < k.frames ∨ k.frames + 512 ≤ x) →
      (freeFrame page k).mem x = k.mem x := by
  have hclear := sameOff_clearFrame (loadPage k.mem page).frame k
  have hword : k.frames ≤ frameWord k (indexFromBit ((loadPage k.mem page).frame / 0x1000)) ∧
      frameWord k (indexFromBit ((loadPage k.mem page).frame / 0x1000)) + 4 ≤ k.frames + 512 := by
    have := (loadPage_fits k.mem page).frame
    simp only [frameWord, indexFromBit]
    omega
  have hfree : freeFrame page k = (clearFrame (loadPage k.mem page).frame k).withMem
      (storePage (clearFrame (loadPage k.mem page).frame k).mem page
        { loadPage (clearFrame (loadPage k.mem page).frame k).mem page with frame := 0 }) := by
    simp only [freeFrame, if_neg h]
  refine ⟨by rw [hfree]; rfl, ?_⟩
  intro x hxp hxf
  rw [hfree]
  exact ((sameOff_store32 le_rfl le_rfl : SameOff _ (storePage _ page _) page (page + 4)) x hxp).trans
    (hclear x (by omega))

end PandaOS

import PandaOS.Memory.HeapEnd
import PandaOS.Utils.Strings

/-! `move_stack`. The used part of the old stack is copied to the same distance from the top of the new one,
and every word of the new stack that points between the old stack pointer and the old top is moved along. A
chain of saved frame pointers then runs through the copy as it ran through the original. -/
namespace PandaOS
open ByteMemory Word32
set_option autoImplicit false
set_option maxHeartbeats 250000

/-! ## The function -/

/-- `for (i = new_stack_start; i >= new_stack_start-size; i -= 0x1000) alloc_frame(...)` with `n` rounds left. -/
def mapStack (kmallocAp : KmallocAp) (low : ℕ) : ℕ → ℕ → Kernel → Result Kernel
  | 0, _, _ => .error .outOfFuel
  | n + 1, i, k =>
    if i ≥ low then do
      let (page, k) ← getPage kmallocAp i 1 k.currentDirectory k
      let k ← allocFrame page 0 1 k
      mapStack kmallocAp low n (sub32 i 0x1000) k
    else .ok k

/-- `for (i = new_stack_start; i > new_stack_start-size; i -= 4)` with `n` rounds left. -/
def relocateWords (oldStackPointer initialEsp offset low : ℕ) : ℕ → ℕ → Mem → Result Mem
  | 0, _, _ => .error .outOfFuel
  | n + 1, i, m =>
    if i > low then
      let tmp := load32 m i
      let m := if oldStackPointer < tmp ∧ tmp < initialEsp then store32 m i (add32 tmp offset) else m
      relocateWords oldStackPointer initialEsp offset low n (sub32 i 4) m
    else .ok m

/-- The new stack and base pointer, from the old ones in `esp` and `ebp`. -/
def moveStack (kmallocAp : KmallocAp) (newStackStart size initialEsp esp ebp : ℕ) (k : Kernel) :
    Result ((ℕ × ℕ) × Kernel) := do
  let low := sub32 newStackStart size
  let k ← mapStack kmallocAp low (newStackStart / 0x1000 + 1) newStackStart k
  let offset := sub32 newStackStart initialEsp
  let newStackPointer := add32 esp offset
  let newBasePointer := add32 ebp offset
  let m := memcpy k.mem newStackPointer esp (sub32 initialEsp esp)
  let m ← relocateWords esp initialEsp offset low (newStackStart / 4 + 1) newStackStart m
  return ((newStackPointer, newBasePointer), k.withMem m)

/-! ## What the new stack holds -/

/-- The place in the new stack at the same distance from the top. -/
def shifted (initialEsp newStackStart w : ℕ) : ℕ := newStackStart - (initialEsp - w)

/-- `w` points into the old stack, strictly between its stack pointer and its top. -/
def InOldStack (esp initialEsp w : ℕ) : Prop := esp < w ∧ w < initialEsp

instance (esp initialEsp w : ℕ) : Decidable (InOldStack esp initialEsp w) := inferInstanceAs (Decidable (_ ∧ _))

def movedWord (esp initialEsp newStackStart w : ℕ) : ℕ :=
  if InOldStack esp initialEsp w then shifted initialEsp newStackStart w else w

/-- The frame pointer saved in the `n`-th frame from `ebp`. -/
def savedFrame (m : Mem) (ebp : ℕ) : ℕ → ℕ
  | 0 => ebp
  | n + 1 => load32 m (savedFrame m ebp n)

/-- The first `n + 1` frames from `ebp` are words of the old stack. -/
def FramesInside (m : Mem) (esp initialEsp ebp n : ℕ) : Prop :=
  ∀ i ≤ n, InOldStack esp initialEsp (savedFrame m ebp i) ∧ 4 ∣ savedFrame m ebp i

/-- `m` holds the old stack, `m'` the new one. -/
structure StackMoved (m m' : Mem) (esp initialEsp newStackStart newEsp : ℕ) : Prop where
  words : ∀ a, newEsp ≤ a → a < newStackStart → 4 ∣ a →
    load32 m' a = movedWord esp initialEsp newStackStart (load32 m (initialEsp - (newStackStart - a)))
  frames : ∀ ebp n, FramesInside m esp initialEsp ebp n → ∀ i ≤ n,
    savedFrame m' (shifted initialEsp newStackStart ebp) i = shifted initialEsp newStackStart (savedFrame m ebp i)
  outer : ∀ ebp n, FramesInside m esp initialEsp ebp n → ¬ InOldStack esp initialEsp (savedFrame m ebp (n+1)) →
    savedFrame m' (shifted initialEsp newStackStart ebp) (n+1) = savedFrame m ebp (n+1)

variable {m m' : Mem} {k k1 : Kernel} {kmallocAp : KmallocAp}
  {dest src len x a i n low esp ebp initialEsp newStackStart size offset : ℕ}

/-! ## The copy and the scan -/

theorem memcpy_at (hapart : dest + len ≤ src ∨ src + len ≤ dest) (hl : dest ≤ x) (hh : x < dest + len) :
    memcpy m dest src len x = m (src + (x - dest)) := by
  induction len generalizing m dest src with
  | zero => omega
  | succ len ih =>
    rw [memcpy]
    by_cases hx : x = dest
    · subst hx
      rw [sameOff_memcpy _ _ _ _ x (by omega), Nat.sub_self, Nat.add_zero]
      simp [store8, load8]
    · rw [ih (by omega) (by omega) (by omega), store8_of_ne (by omega)]
      congr 1
      omega

theorem load32_memcpy (hapart : dest + len ≤ src ∨ src + len ≤ dest) (hl : dest ≤ a) (hh : a + 4 ≤ dest + len) :
    load32 (memcpy m dest src len) a = load32 m (src + (a - dest)) := by
  have hbyte : ∀ j < 4, memcpy m dest src len (a + j) = m (src + (a - dest) + j) := by
    intro j hj
    rw [memcpy_at hapart (by omega) (by omega)]
    congr 1
    omega
  unfold load32 load8
  rw [hbyte 1 (by norm_num), hbyte 2 (by norm_num), hbyte 3 (by norm_num), ← Nat.add_zero a, hbyte 0 (by norm_num)]
  rfl

/-- The scan treats each word above `low` once, from the top down. -/
theorem relocateWords_spec (esp initialEsp offset : ℕ) (hlow : 4 ≤ low) (hi : i < 4294967296) (hn : i < 4*n) :
    ∃ m', relocateWords esp initialEsp offset low n i m = .ok m' ∧
      (∀ x, x ≤ low ∨ i + 4 ≤ x → m' x = m x) ∧
      ∀ a, low < a → a ≤ i → a % 4 = i % 4 → load32 m' a =
        if InOldStack esp initialEsp (load32 m a) then add32 (load32 m a) offset else load32 m a := by
  induction n generalizing i m with
  | zero => omega
  | succ n ih =>
    rw [relocateWords]
    by_cases hlt : i > low
    · rw [if_pos hlt]
      have hsub : sub32 i 4 = i - 4 := sub32_of_le (by omega) hi
      obtain ⟨m1, hm1⟩ : ∃ m1, m1 = if esp < load32 m i ∧ load32 m i < initialEsp
          then store32 m i (add32 (load32 m i) offset) else m := ⟨_, rfl⟩
      have hoff : SameOff m m1 i (i + 4) := by
        rw [hm1]
        split
        · exact sameOff_store32 le_rfl le_rfl
        · exact SameOff.refl _ _ _
      have hword : load32 m1 i =
          if InOldStack esp initialEsp (load32 m i) then add32 (load32 m i) offset else load32 m i := by
        by_cases hin : esp < load32 m i ∧ load32 m i < initialEsp
        · rw [hm1, if_pos hin, load32_store32_of_lt (add32_lt _ _)]
          exact (if_pos hin).symm
        · rw [hm1, if_neg hin]
          exact (if_neg hin).symm
      obtain ⟨m', hrun, hsame, hscan⟩ := ih (m := m1) (i := i - 4) (by omega) (by omega)
      dsimp only
      rw [← hm1, hsub]
      refine ⟨m', hrun, fun x hx => ?_, fun a ha hai hmod => ?_⟩
      · rw [hsame x (by omega), hoff x (by omega)]
      · by_cases hat : a = i
        · subst hat
          rw [← hword]
          have htop : SameOn m1 m' a (a + 4) := fun x h1 h2 => hsame x (by omega)
          exact htop.load32_eq le_rfl le_rfl
        · rw [hscan a ha (by omega) (by omega), hoff.load32_eq (by omega)]
    · rw [if_neg hlt]
      exact ⟨m, rfl, fun _ _ => rfl, fun a ha hai => by omega⟩

/-! ## The chain -/

theorem shifted_add (hw : InOldStack esp initialEsp a) (hinit : initialEsp < 4294967296)
    (hstart : newStackStart < 4294967296) (hroom : initialEsp - esp < newStackStart) :
    add32 a (sub32 newStackStart initialEsp) = shifted initialEsp newStackStart a := by
  obtain ⟨h1, h2⟩ := hw
  unfold shifted add32
  rcases Nat.lt_or_ge newStackStart initialEsp with hlt | hge
  · rw [sub32_of_lt hlt hinit]
    omega
  · rw [sub32_of_le hge hstart]
    omega

theorem StackMoved.of_words (hinit : 4 ∣ initialEsp) (hstart : 4 ∣ newStackStart)
    (hroom : initialEsp - esp < newStackStart)
    (hwords : ∀ a, shifted initialEsp newStackStart esp ≤ a → a < newStackStart → 4 ∣ a →
      load32 m' a = movedWord esp initialEsp newStackStart (load32 m (initialEsp - (newStackStart - a)))) :
    StackMoved m m' esp initialEsp newStackStart (shifted initialEsp newStackStart esp) := by
  -- one frame: the word of the copy is the saved pointer, moved
  have hframe : ∀ b, InOldStack esp initialEsp b → 4 ∣ b →
      load32 m' (shifted initialEsp newStackStart b) = movedWord esp initialEsp newStackStart (load32 m b) := by
    rintro b ⟨h1, h2⟩ h4
    have hback : initialEsp - (newStackStart - shifted initialEsp newStackStart b) = b := by
      unfold shifted
      omega
    rw [hwords _ (by unfold shifted; omega) (by unfold shifted; omega) (by unfold shifted; omega), hback]
  have hframes : ∀ ebp n, FramesInside m esp initialEsp ebp n → ∀ i ≤ n,
      savedFrame m' (shifted initialEsp newStackStart ebp) i =
        shifted initialEsp newStackStart (savedFrame m ebp i) := by
    intro ebp n hinside i hi
    induction i with
    | zero => rfl
    | succ i ih =>
      obtain ⟨hb, h4⟩ := hinside i (by omega)
      obtain ⟨hnext, -⟩ := hinside (i+1) hi
      rw [savedFrame, ih (by omega), hframe _ hb h4]
      exact if_pos hnext
  refine ⟨hwords, hframes, fun ebp n hinside hout => ?_⟩
  obtain ⟨hb, h4⟩ := hinside n le_rfl
  rw [savedFrame, hframes ebp n hinside n le_rfl, hframe _ hb h4]
  exact if_neg hout

/-! ## The mapping loop -/

/-- The kernel with the current directory for its own. -/
def Kernel.inCurrent (k : Kernel) : Kernel := { k with kernelDirectory := k.currentDirectory }

/-- Where the tables of the new stack are there, mapping it leaves alone what lies apart from them, from the
bitmap and from the directory. -/
theorem mapStack_keeps (hpaged : Paged k.inCurrent esp initialEsp)
    (htables : TablesPresent k.inCurrent low (i + 1)) (hi : i < 4294967296) (hlow : 0x1000 ≤ low)
    (hrun : mapStack kmallocAp low n i k = .ok k1) : PageTouch k.inCurrent k1.inCurrent esp initialEsp := by
  induction n generalizing i k with
  | zero => cases hrun
  | succ n ih =>
    rw [mapStack] at hrun
    split_ifs at hrun with hge
    · have hpresent := htables i hge (by omega)
      obtain ⟨page, hpage⟩ : ∃ page, page =
          pagesSlot (load32 k.mem (tablesSlot k.currentDirectory (tableIndex i))) (pageIndex i) := ⟨_, rfl⟩
      have hget : getPage kmallocAp i 1 k.currentDirectory k = .ok (page, k) := by
        rw [hpage]
        exact getPage_of_table hpresent
      have hisPage : IsPage k.inCurrent page :=
        Or.inr ⟨_, tableIndex_lt hi, _, pageIndex_lt i, hpresent, hpage⟩
      rw [hget, ok_bind] at hrun
      obtain ⟨k2, halloc, hrest⟩ := bind_eq_ok.mp hrun
      have htouch : PageTouch k.inCurrent k2.inCurrent esp initialEsp := by
        rcases allocFrame_cases halloc with ⟨-, rfl⟩ | ⟨-, f, hf, hk2⟩
        · exact PageTouch.refl _ _ _
        · have hcount : k.frameCount ≤ 4096 := hpaged.frameCount
          have hapart : BitmapApart k page := (hpaged.apart hisPage).2.2
          obtain ⟨_, _, _, _, hwrites⟩ := allocated_spec hcount hf hapart hk2
          have hfields : k2.inCurrent = k.inCurrent.withMem k2.mem := by
            rw [hk2]
            rfl
          rw [hfields]
          exact touch_of_writes hpaged hisPage hwrites
      have hsub : sub32 i 0x1000 = i - 0x1000 := sub32_of_le (by omega) hi
      rw [hsub] at hrest
      have htables' : TablesPresent k2.inCurrent low (i + 1) := htables.touch htouch (by omega)
      exact htouch.trans (ih (hpaged.touch htouch) (fun x hl hh => htables' x hl (by omega)) (by omega) hrest)
    · cases hrun
      exact PageTouch.refl _ _ _

/-- A new stack whose pages all have their frames. -/
theorem mapStack_mapped (hmapped : ∀ x, low ≤ x → x ≤ i → ∃ page,
      getPage kmallocAp x 1 k.currentDirectory k = .ok (page, k) ∧ (loadPage k.mem page).frame ≠ 0)
    (hlow : 0x1000 ≤ low) (hi : i < 4294967296) (hn : i < 0x1000*n) : mapStack kmallocAp low n i k = .ok k := by
  induction n generalizing i with
  | zero => omega
  | succ n ih =>
    rw [mapStack]
    split_ifs with hge
    · obtain ⟨page, hget, hframe⟩ := hmapped i hge le_rfl
      have hsub : sub32 i 0x1000 = i - 0x1000 := sub32_of_le (by omega) hi
      rw [hget, ok_bind, hsub]
      dsimp only
      rw [allocFrame, if_pos hframe, ok_bind]
      exact ih (fun x hl hh => hmapped x hl (by omega)) (by omega) (by omega)
    · rfl

/-! ## The whole function -/

/-- Once the new stack is mapped, the used part of the old one is there at the same distance from the top, and
so is every chain of frame pointers through it. If the mapping left the old stack alone, it is the stack of
the caller; so it is where the new stack has its tables and the paging structures are elsewhere. -/
theorem move_stack_moved (hesp : 4 ∣ esp) (hinit : 4 ∣ initialEsp) (hstart : 4 ∣ newStackStart)
    (hle : esp ≤ initialEsp) (hinit32 : initialEsp < 4294967296) (hstart32 : newStackStart < 4294967296)
    (hsize : initialEsp - esp < size) (hlow : size + 0x1000 ≤ newStackStart)
    (hapart : initialEsp ≤ newStackStart - size ∨ newStackStart ≤ esp)
    (hmap : mapStack kmallocAp (newStackStart - size) (newStackStart / 0x1000 + 1) newStackStart k = .ok k1)
    (ebp : ℕ) : ∃ newEsp newEbp k',
      moveStack kmallocAp newStackStart size initialEsp esp ebp k = .ok ((newEsp, newEbp), k') ∧
      newEsp = shifted initialEsp newStackStart esp ∧
      (InOldStack esp initialEsp ebp → newEbp = shifted initialEsp newStackStart ebp) ∧
      StackMoved k1.mem k'.mem esp initialEsp newStackStart newEsp ∧
      (SameOn k.mem k1.mem esp initialEsp → StackMoved k.mem k'.mem esp initialEsp newStackStart newEsp) ∧
      (Paged k.inCurrent esp initialEsp → TablesPresent k.inCurrent (newStackStart - size) (newStackStart + 1) →
        SameOn k.mem k1.mem esp initialEsp) := by
  obtain ⟨newEsp, hnewEsp⟩ : ∃ p, p = shifted initialEsp newStackStart esp := ⟨_, rfl⟩
  have hplace : newEsp + (initialEsp - esp) = newStackStart ∧ newStackStart - size < newEsp := by
    rw [hnewEsp]
    unfold shifted
    omega
  obtain ⟨offset, hoffset⟩ : ∃ offset, offset = sub32 newStackStart initialEsp := ⟨_, rfl⟩
  have hadd : add32 esp offset = newEsp := by
    rw [hoffset, hnewEsp]
    unfold shifted add32
    rcases Nat.lt_or_ge newStackStart initialEsp with hlt | hge
    · rw [sub32_of_lt hlt hinit32]
      omega
    · rw [sub32_of_le hge hstart32]
      omega
  obtain ⟨m1, hm1⟩ : ∃ m1, m1 = memcpy k1.mem newEsp esp (initialEsp - esp) := ⟨_, rfl⟩
  have hcopy : ∀ a, newEsp ≤ a → a < newStackStart → 4 ∣ a →
      load32 m1 a = load32 k1.mem (initialEsp - (newStackStart - a)) := by
    intro a hl hh h4
    have hsrc : esp + (a - newEsp) = initialEsp - (newStackStart - a) := by omega
    rw [hm1, load32_memcpy (by omega) hl (by omega), hsrc]
  obtain ⟨m2, hscan, -, hrelocated⟩ := relocateWords_spec (m := m1) (n := newStackStart / 4 + 1) esp initialEsp offset
    (show 4 ≤ newStackStart - size by omega) hstart32 (by omega)
  have hwords : ∀ a, newEsp ≤ a → a < newStackStart → 4 ∣ a → load32 m2 a =
      movedWord esp initialEsp newStackStart (load32 k1.mem (initialEsp - (newStackStart - a))) := by
    intro a hl hh h4
    rw [hrelocated a (by omega) (by omega) (by omega), hcopy a hl hh h4, movedWord]
    split
    · next hin =>
      rw [hoffset]
      exact shifted_add hin hinit32 hstart32 (by omega)
    · rfl
  refine ⟨newEsp, add32 ebp offset, k1.withMem m2, ?_, hnewEsp, fun hin => ?_, ?_, fun hsame => ?_,
    fun hpaged htables => (mapStack_keeps hpaged htables hstart32 (by omega) hmap).window⟩
  · have hsub : sub32 newStackStart size = newStackStart - size := sub32_of_le (by omega) hstart32
    have hlen : sub32 initialEsp esp = initialEsp - esp := sub32_of_le hle hinit32
    rw [moveStack, hsub, hmap, ok_bind, ← hoffset, hlen]
    dsimp only
    rw [hadd, ← hm1, hscan]
    rfl
  · rw [hoffset]
    exact shifted_add hin hinit32 hstart32 (by omega)
  · rw [hnewEsp] at hwords ⊢
    exact .of_words hinit hstart (by omega) hwords
  · rw [hnewEsp] at hwords hplace ⊢
    refine .of_words hinit hstart (by omega) fun a hl hh h4 => ?_
    rw [← hsame.load32_eq (by omega) (by omega)]
    exact hwords a hl hh h4

/-- A kernel with a table at 0x5000 whose entries all have frames, and a stack of two frames up to 0x20040. -/
def stackKernel : Kernel where
  mem := store32 (store32 (fun x => if 0x5000 ≤ x ∧ x < 0x6000 then 255 else 0) 0x1000 0x5000) 0x20010 0x20020
  phys := fun _ => 0
  placementAddress := 0x300000
  kheap := none
  kernelDirectory := 0x1000
  currentDirectory := 0x1000
  frames := 0x4000
  frameCount := 4096
  cr3 := 0x1000
  pagingEnabled := true

theorem stackKernel_entry (hl : 0x5000 ≤ a) (hh : a + 4 ≤ 0x6000) : load32 stackKernel.mem a = 0xFFFFFFFF := by
  have hbyte : ∀ x, 0x5000 ≤ x → x < 0x6000 → stackKernel.mem x = 255 := by
    intro x h1 h2
    have hstored : stackKernel.mem x = store32 (store32 (fun x => if 0x5000 ≤ x ∧ x < 0x6000 then 255 else 0) 0x1000
      0x5000) 0x20010 0x20020 x := rfl
    rw [hstored, store32_of_off (by omega), store32_of_off (by omega)]
    exact if_pos ⟨h1, h2⟩
  unfold load32 load8
  rw [hbyte a hl (by omega), hbyte (a+1) (by omega) (by omega), hbyte (a+2) (by omega) (by omega),
    hbyte (a+3) (by omega) (by omega)]
  rfl

/-- Its stack goes to the 0x1000 bytes below 0x8000, and the frame of the caller is found there. -/
theorem move_stack_moved_two : ∃ newEsp newEbp k',
    moveStack (PandaOS.kmallocAp 1) 0x8000 0x1000 0x20040 0x20000 0x20010 stackKernel = .ok ((newEsp, newEbp), k') ∧
    newEsp = 0x7FC0 ∧ newEbp = 0x7FD0 ∧ savedFrame k'.mem newEbp 1 = 0x7FE0 ∧ savedFrame k'.mem newEbp 2 = 0 := by
  have htable : load32 stackKernel.mem 0x1000 = 0x5000 := by decide
  have hmapped : ∀ x, 0x8000 - 0x1000 ≤ x → x ≤ 0x8000 → ∃ page,
      getPage (PandaOS.kmallocAp 1) x 1 0x1000 stackKernel = .ok (page, stackKernel) ∧
        (loadPage stackKernel.mem page).frame ≠ 0 := by
    intro x hl hh
    have hindex : tablesSlot 0x1000 (tableIndex x) = 0x1000 := by
      unfold tablesSlot tableIndex
      omega
    have hpresent : load32 stackKernel.mem (tablesSlot 0x1000 (tableIndex x)) ≠ 0 := by
      rw [hindex, htable]
      decide
    have hin : pageIndex x < 1024 := pageIndex_lt x
    refine ⟨_, getPage_of_table hpresent, ?_⟩
    rw [hindex, htable, loadPage, stackKernel_entry (by unfold pagesSlot; omega) (by unfold pagesSlot; omega)]
    decide
  have hmap : mapStack (PandaOS.kmallocAp 1) (0x8000 - 0x1000) (0x8000 / 0x1000 + 1) 0x8000 stackKernel =
      .ok stackKernel := mapStack_mapped hmapped (by norm_num) (by norm_num) (by norm_num)
  obtain ⟨newEsp, newEbp, k', hrun, hesp, hebp, hmoved, -⟩ := move_stack_moved (show 4 ∣ 0x20000 by norm_num)
    (show 4 ∣ 0x20040 by norm_num) (show 4 ∣ 0x8000 by norm_num) (by norm_num) (by norm_num) (by norm_num)
    (show 0x20040 - 0x20000 < 0x1000 by norm_num) (by norm_num) (Or.inr (by norm_num)) hmap 0x20010
  have hinside : FramesInside stackKernel.mem 0x20000 0x20040 0x20010 1 := by
    unfold FramesInside
    decide
  have hout : ¬ InOldStack 0x20000 0x20040 (savedFrame stackKernel.mem 0x20010 2) := by decide
  have hnew : newEbp = 0x7FD0 := hebp (by decide)
  refine ⟨newEsp, newEbp, k', hrun, hesp, hnew, ?_, ?_⟩
  · rw [hnew]
    have hframe := hmoved.frames 0x20010 1 hinside 1 le_rfl
    have hold : savedFrame stackKernel.mem 0x20010 1 = 0x20020 := by decide
    rw [hold] at hframe
    exact hframe
  · rw [hnew]
    have houter := hmoved.outer 0x20010 1 hinside hout
    have hold : savedFrame stackKernel.mem 0x20010 2 = 0 := by decide
    rw [hold] at houter
    exact houter

end PandaOS

import PandaOS.Library.ByteStrings
import PandaOS.Memory.ClonedEntries
import PandaOS.Memory.FrameSearch

/-! Frames that are allocated and filled with copies. A copy goes to a frame that was free, so it destroys
neither a frame in use nor an earlier copy, and copies made one after another add up. -/
namespace PandaOS
open ByteMemory Word32
set_option autoImplicit false
set_option maxHeartbeats 250000

/-! ## copy_page_physical -/

section Words
variable {m : Mem} {a b c n x : ℕ}

/-- The bytes of a word that is stored elsewhere. -/
theorem store32_load32 (m : Mem) (hx : x < 4) : store32 m c (load32 m b) (c + x) = m (b + x) := by
  have hshift : load32 (fun y => m (b + (y - c))) c = load32 m b := by
    refine load32_shift fun y _ => ?_
    rw [Nat.add_sub_cancel_left]
  rw [store32_of_load32 m hshift (Nat.le_add_right c x) (by omega), Nat.add_sub_cancel_left]

theorem copyWords_off (n : ℕ) (m : Mem) (hc : c + 4*n ≤ 4294967296) : SameOff m (copyWords n b c m) c (c + 4*n) := by
  induction n generalizing b c m with
  | zero => exact SameOff.refl _ _ _
  | succ n ih =>
    have hfirst : SameOff m (store32 m c (load32 m b)) c (c + 4) := sameOff_store32 le_rfl le_rfl
    rw [copyWords]
    rcases Nat.eq_zero_or_pos n with rfl | hpos
    · exact hfirst
    · rw [add32_of_lt (by omega : c + 4 < 4294967296)]
      exact (hfirst.mono le_rfl (by omega)).trans ((ih _ (by omega)).mono (by omega) (by omega))

/-- The loop copies `n` words, between regions that do not overlap. -/
theorem copyWords_spec (n : ℕ) (m : Mem) (hb : b + 4*n ≤ 4294967296) (hc : c + 4*n ≤ 4294967296)
    (hd : b + 4*n ≤ c ∨ c + 4*n ≤ b) :
    (∀ x < 4*n, copyWords n b c m (c + x) = m (b + x)) ∧ SameOff m (copyWords n b c m) c (c + 4*n) := by
  refine ⟨?_, copyWords_off n m hc⟩
  induction n generalizing b c m with
  | zero => exact fun x hx => by omega
  | succ n ih =>
    obtain ⟨m1, hm1⟩ : ∃ m1, m1 = store32 m c (load32 m b) := ⟨_, rfl⟩
    have hoff1 : SameOff m m1 c (c + 4) := by
      rw [hm1]
      exact sameOff_store32 le_rfl le_rfl
    have hfirst : ∀ x < 4, m1 (c + x) = m (b + x) := by
      intro x hx
      rw [hm1]
      exact store32_load32 m hx
    intro x hx
    rw [copyWords, ← hm1]
    rcases Nat.eq_zero_or_pos n with rfl | hpos
    · exact hfirst x (by omega)
    · rw [add32_of_lt (by omega : b + 4 < 4294967296), add32_of_lt (by omega : c + 4 < 4294967296)]
      by_cases hx4 : x < 4
      · rw [copyWords_off n m1 (by omega) (c + x) (by omega), hfirst x hx4]
      · obtain ⟨y, rfl⟩ : ∃ y, x = 4 + y := ⟨x - 4, by omega⟩
        rw [← Nat.add_assoc, ih m1 (by omega) (by omega) (by omega) y (by omega), hoff1 (b + 4 + y) (by omega), Nat.add_assoc]

end Words

/-! ## Copies of frames -/

/-- The frame is in use, as far as the bitmap reaches. -/
def Held (k : Kernel) (f : ℕ) : Prop := f < 4096 → frameUsed k f = true

/-- For each of the pages a frame that was free in `k` has been taken, and it has the contents of the page's
source. No other frame has changed. -/
structure FramesCopied {ι : Type} (k k' : Kernel) (pages : List ι) (source new : ι → ℕ) : Prop where
  fresh : ∀ p ∈ pages, new p < 4096 ∧ frameUsed k (new p) = false
  distinct : (pages.map new).Nodup
  used : ∀ g < 4096, frameUsed k' g = (decide (g ∈ pages.map new) || frameUsed k g)
  contents : ∀ p ∈ pages, ∀ x < 4096, k'.phys (new p * 4096 + x) = k.phys (source p * 4096 + x)
  rest : ∀ f ∉ pages.map new, ∀ x < 4096, k'.phys (f * 4096 + x) = k.phys (f * 4096 + x)

section Copies
variable {ι κ : Type} {k k' k1 k2 : Kernel} {pages pages' : List ι} {source new source' new' : ι → ℕ} {f : ℕ}

theorem FramesCopied.nil (k : Kernel) (source new : ι → ℕ) : FramesCopied k k [] source new :=
  ⟨nofun, List.nodup_nil, fun _ _ => by simp, nofun, fun _ _ _ _ => rfl⟩

/-- A frame in use is none of the new ones. -/
theorem FramesCopied.not_new (h : FramesCopied k k' pages source new) (hf : Held k f) : f ∉ pages.map new := by
  intro hmem
  obtain ⟨p, hp, rfl⟩ := List.mem_map.mp hmem
  obtain ⟨hlt, hfree⟩ := h.fresh p hp
  rw [hf hlt] at hfree
  cases hfree

theorem FramesCopied.held (h : FramesCopied k k' pages source new) (hf : Held k f) : Held k' f := by
  intro hlt
  rw [h.used f hlt, hf hlt, Bool.or_true]

/-- The contents of a frame in use stay. -/
theorem FramesCopied.keeps (h : FramesCopied k k' pages source new) (hf : Held k f) :
    ∀ x < 4096, k'.phys (f * 4096 + x) = k.phys (f * 4096 + x) :=
  h.rest f (h.not_new hf)

/-- What does not change the bitmap or physical memory does not matter before the copies. -/
theorem FramesCopied.of_same (h : FramesCopied k1 k' pages source new) (hused : ∀ g < 4096, frameUsed k1 g = frameUsed k g)
    (hphys : k1.phys = k.phys) : FramesCopied k k' pages source new := by
  refine ⟨fun p hp => ?_, h.distinct, fun g hg => ?_, ?_, ?_⟩
  · obtain ⟨hlt, hfree⟩ := h.fresh p hp
    exact ⟨hlt, (hused _ hlt).symm.trans hfree⟩
  · rw [h.used g hg, hused g hg]
  · rw [← hphys]
    exact h.contents
  · rw [← hphys]
    exact h.rest

/-- And neither does it behind them. -/
theorem FramesCopied.to_same (h : FramesCopied k k1 pages source new) (hused : ∀ g < 4096, frameUsed k' g = frameUsed k1 g)
    (hphys : k'.phys = k1.phys) : FramesCopied k k' pages source new := by
  refine ⟨h.fresh, h.distinct, fun g hg => ?_, ?_, ?_⟩
  · rw [hused g hg, h.used g hg]
  · rw [hphys]
    exact h.contents
  · rw [hphys]
    exact h.rest

theorem FramesCopied.congr (h : FramesCopied k k' pages source new) (hsource : ∀ p ∈ pages, source' p = source p)
    (hnew : ∀ p ∈ pages, new' p = new p) : FramesCopied k k' pages source' new' := by
  have hmap : pages.map new' = pages.map new := List.map_congr_left hnew
  refine ⟨fun p hp => ?_, ?_, fun g hg => ?_, fun p hp => ?_, fun f hf => ?_⟩
  · rw [hnew p hp]
    exact h.fresh p hp
  · rw [hmap]
    exact h.distinct
  · rw [hmap]
    exact h.used g hg
  · rw [hnew p hp, hsource p hp]
    exact h.contents p hp
  · rw [hmap] at hf
    exact h.rest f hf

/-- The pages under other names. -/
theorem FramesCopied.rename {source' new' : κ → ℕ} (h : FramesCopied k k' pages source new) (name : ι → κ)
    (hsource : ∀ p ∈ pages, source' (name p) = source p) (hnew : ∀ p ∈ pages, new' (name p) = new p) :
    FramesCopied k k' (pages.map name) source' new' := by
  have hmap : (pages.map name).map new' = pages.map new := by
    rw [List.map_map]
    exact List.map_congr_left hnew
  refine ⟨fun q hq => ?_, ?_, fun g hg => ?_, fun q hq => ?_, fun f hf => ?_⟩
  · obtain ⟨p, hp, rfl⟩ := List.mem_map.mp hq
    rw [hnew p hp]
    exact h.fresh p hp
  · rw [hmap]
    exact h.distinct
  · rw [hmap]
    exact h.used g hg
  · obtain ⟨p, hp, rfl⟩ := List.mem_map.mp hq
    rw [hnew p hp, hsource p hp]
    exact h.contents p hp
  · rw [hmap] at hf
    exact h.rest f hf

/-- Copies behind copies: the later sources must have been in use before. -/
theorem FramesCopied.append (h : FramesCopied k k1 pages source new) (h' : FramesCopied k1 k2 pages' source new)
    (hheld : ∀ p ∈ pages', Held k (source p)) : FramesCopied k k2 (pages ++ pages') source new := by
  -- the frames of the first copies are in use when the second are made
  have hlater : ∀ p ∈ pages, Held k1 (new p) := by
    intro p hp hlt
    rw [h.used _ hlt, decide_eq_true (List.mem_map_of_mem hp), Bool.true_or]
  have hbefore : ∀ p ∈ pages', new p < 4096 ∧ frameUsed k (new p) = false := by
    intro p hp
    obtain ⟨hlt, hfree⟩ := h'.fresh p hp
    rw [h.used _ hlt, Bool.or_eq_false_iff] at hfree
    exact ⟨hlt, hfree.2⟩
  refine ⟨fun p hp => ?_, ?_, fun g hg => ?_, fun p hp x hx => ?_, fun f hf x hx => ?_⟩
  · rcases List.mem_append.mp hp with hp | hp
    · exact h.fresh p hp
    · exact hbefore p hp
  · rw [List.map_append, List.nodup_append']
    refine ⟨h.distinct, h'.distinct, fun f hf hf' => ?_⟩
    obtain ⟨p, hp, rfl⟩ := List.mem_map.mp hf
    exact h'.not_new (hlater p hp) hf'
  · rw [h'.used g hg, h.used g hg, List.map_append, ← Bool.or_assoc, Bool.or_comm (decide _), ← Bool.decide_or]
    simp only [List.mem_append]
  · rcases List.mem_append.mp hp with hp | hp
    · rw [h'.keeps (hlater p hp) x hx, h.contents p hp x hx]
    · rw [h'.contents p hp x hx, h.keeps (hheld p hp) x hx]
  · rw [List.map_append, List.mem_append, not_or] at hf
    rw [h'.rest f hf.2 x hx, h.rest f hf.1 x hx]

end Copies

/-! ## How many frames are free -/

section Free
variable {ι : Type} {k k' : Kernel} {pages : List ι} {source new : ι → ℕ} {g : ℕ}

theorem mem_freeFrames (hcount : k.frameCount = 4096) : g ∈ freeFrames k ↔ g < 4096 ∧ frameUsed k g = false := by
  simp [freeFrames, hcount]

/-- Each copy takes one. -/
theorem FramesCopied.count (h : FramesCopied k k' pages source new) (hcount : k.frameCount = 4096)
    (hcount' : k'.frameCount = 4096) : (freeFrames k).card = pages.length + (freeFrames k').card := by
  have hdisjoint : Disjoint (pages.map new).toFinset (freeFrames k') := by
    rw [Finset.disjoint_left]
    intro g hg hfree
    obtain ⟨hlt, hnot⟩ := (mem_freeFrames hcount').mp hfree
    rw [h.used g hlt, decide_eq_true (List.mem_toFinset.mp hg), Bool.true_or] at hnot
    cases hnot
  have hunion : freeFrames k = (pages.map new).toFinset ∪ freeFrames k' := by
    ext g
    rw [Finset.mem_union, List.mem_toFinset, mem_freeFrames hcount, mem_freeFrames hcount']
    constructor
    · rintro ⟨hlt, hfree⟩
      rw [h.used g hlt, hfree, Bool.or_false, decide_eq_false_iff_not]
      exact (em (g ∈ pages.map new)).imp_right fun hnew => ⟨hlt, hnew⟩
    · rintro (hnew | ⟨hlt, hfree⟩)
      · obtain ⟨p, hp, rfl⟩ := List.mem_map.mp hnew
        exact h.fresh p hp
      · rw [h.used g hlt, Bool.or_eq_false_iff] at hfree
        exact ⟨hlt, hfree.2⟩
  rw [hunion, Finset.card_union_of_disjoint hdisjoint, List.toFinset_card_of_nodup h.distinct, List.length_map]

end Free

end PandaOS

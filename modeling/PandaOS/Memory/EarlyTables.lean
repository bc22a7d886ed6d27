import PandaOS.Memory.EarlyAlloc
import PandaOS.Library.GuardedRun

/-! `get_page` while the placement allocator serves it, on a directory that was zero at first. A page entry
is found in two levels: the table of the 4 MiB region and the place in the table. Tables are made on
request, each on its own page above the directory, and nothing that exists is changed. -/
namespace PandaOS
open ByteMemory Word32 GuardedRun
set_option autoImplicit false
set_option maxHeartbeats 250000

/-- The kernel, and the regions that were requested with `make` so far. -/
structure Lookup where
  kernel : Kernel
  requested : List ℕ

def Lookup.call (fuel dir : ℕ) (s : Lookup) (address : BitVec 32) (make : ℕ) : Result (ℕ × Lookup) := do
  let (page, k) ← getPage (kmallocAp fuel) address.toNat make dir s.kernel
  return (page, ⟨k, if make ≠ 0 then tableIndex address.toNat :: s.requested else s.requested⟩)

/-- `dir->tables[t]` -/
def Lookup.table (s : Lookup) (dir t : ℕ) : ℕ := load32 s.kernel.mem (tablesSlot dir t)

/-- A cleared directory below the placement address, before any call. -/
structure ClearedDirectory (dir : ℕ) (s : Lookup) : Prop where
  kheap : s.kernel.kheap = none
  below : dir + sizeofPageDirectory ≤ s.kernel.placementAddress
  zero : ∀ t < 1024, s.table dir t = 0
  requested : s.requested = []

/-- The placement address does not wrap in this call. -/
def NoWrap (dir : ℕ) (s : Lookup) (r : BitVec 32 × ℕ) : Prop :=
  s.table dir (tableIndex r.1.toNat) = 0 → r.2 ≠ 0 →
    pageUp s.kernel.placementAddress + sizeofPageTable < 4294967296

def LookupStep (dir : ℕ) (s : Lookup) (r : BitVec 32 × ℕ) (s' : Lookup) : Prop :=
  ∃ fuel page, s.call fuel dir r.1 r.2 = .ok (page, s')

/-- The tables of `s`, what `tables_physical` says of them, and their entries are the same in `s'`. -/
def KeepsTables (dir : ℕ) (s s' : Lookup) : Prop :=
  ∀ t < 1024, s.table dir t ≠ 0 → s'.table dir t = s.table dir t ∧
    load32 s'.kernel.mem (tablesPhysicalSlot dir t) = load32 s.kernel.mem (tablesPhysicalSlot dir t) ∧
    ∀ j < 1024, load32 s'.kernel.mem (pagesSlot (s.table dir t) j) = load32 s.kernel.mem (pagesSlot (s.table dir t) j)

/-- The directory as a lookup structure, in one state of a run. -/
structure StableLookup (dir : ℕ) (s : Lookup) : Prop where
  made : ∀ fuel a, NoWrap dir s (a, 1) → ∃ page s1, s.call fuel dir a 1 = .ok (page, s1) ∧ page ≠ 0 ∧
    ∀ s2, Reach (· = s1) (NoWrap dir) (LookupStep dir) s2 →
      ∀ fuel b make q s3, NoWrap dir s2 (b, make) → s2.call fuel dir b make = .ok (q, s3) →
        (q = page ↔ a.toNat / 0x1000 = b.toNat / 0x1000)
  fresh : ∀ fuel a make page s1, NoWrap dir s (a, make) → s.call fuel dir a make = .ok (page, s1) →
    s.table dir (tableIndex a.toNat) = 0 → make ≠ 0 →
      ∀ j < 1024, load32 s1.kernel.mem (pagesSlot (s1.table dir (tableIndex a.toNat)) j) = 0
  kept : ∀ fuel a make page s1, NoWrap dir s (a, make) → s.call fuel dir a make = .ok (page, s1) →
    KeepsTables dir s s1
  probe : ∀ fuel b, ∃ q, s.call fuel dir b 0 = .ok (q, s) ∧ (q = 0 ↔ tableIndex b.toNat ∉ s.requested)
  aligned : ∀ t < 1024, s.table dir t ≠ 0 → s.table dir t % 0x1000 = 0
  disjoint : ∀ t < 1024, ∀ u < 1024, t ≠ u → s.table dir t ≠ 0 → s.table dir u ≠ 0 →
    Apart (s.table dir t, sizeofPageTable) (s.table dir u, sizeofPageTable)

/-- The invariant of the runs. -/
structure TablesPlaced (dir : ℕ) (s : Lookup) : Prop where
  kheap : s.kernel.kheap = none
  below : dir + 8196 ≤ s.kernel.placementAddress
  requested : ∀ t < 1024, s.table dir t ≠ 0 ↔ t ∈ s.requested
  placed : ∀ t < 1024, s.table dir t ≠ 0 → s.table dir t % 4096 = 0 ∧ dir + 8196 ≤ s.table dir t ∧
    s.table dir t + 4096 ≤ s.kernel.placementAddress
  disjoint : ∀ t < 1024, ∀ u < 1024, t ≠ u → s.table dir t ≠ 0 → s.table dir u ≠ 0 →
    Apart (s.table dir t, 4096) (s.table dir u, 4096)

variable {dir fuel make page t q : ℕ} {s s' s1 s2 s3 : Lookup} {a b : BitVec 32}

theorem KeepsTables.refl (dir : ℕ) (s : Lookup) : KeepsTables dir s s := fun _ _ _ => ⟨rfl, rfl, fun _ _ => rfl⟩

theorem KeepsTables.trans (h : KeepsTables dir s s1) (h' : KeepsTables dir s1 s2) : KeepsTables dir s s2 := by
  intro t ht hne
  obtain ⟨htable, hphys, hentries⟩ := h t ht hne
  have hne1 : s1.table dir t ≠ 0 := by rwa [htable]
  obtain ⟨htable', hphys', hentries'⟩ := h' t ht hne1
  rw [htable] at htable' hentries'
  exact ⟨htable', hphys'.trans hphys, fun j hj => (hentries' j hj).trans (hentries j hj)⟩

theorem ClearedDirectory.placed (h : ClearedDirectory dir s) : TablesPlaced dir s := by
  refine ⟨h.kheap, h.below, fun t ht => ?_, fun t ht hne => absurd (h.zero t ht) hne,
    fun t ht u _ _ hne => absurd (h.zero t ht) hne⟩
  rw [h.requested, h.zero t ht]
  simp

/-! ## One call -/

/-- A call that finds the table. -/
theorem Lookup.call_of_table (fuel make : ℕ) (h : s.table dir (tableIndex a.toNat) ≠ 0) :
    s.call fuel dir a make = .ok (pagesSlot (s.table dir (tableIndex a.toNat)) (pageIndex a.toNat),
      ⟨s.kernel, if make ≠ 0 then tableIndex a.toNat :: s.requested else s.requested⟩) := by
  rw [Lookup.call, getPage_of_table h]
  rfl

/-- A call that finds no table and may not make one. -/
theorem Lookup.call_missing (fuel : ℕ) (h : s.table dir (tableIndex a.toNat) = 0) :
    s.call fuel dir a 0 = .ok (0, s) := by
  have hslot : load32 s.kernel.mem (tablesSlot dir (tableIndex a.toNat)) = 0 := h
  rw [Lookup.call, getPage]
  dsimp only
  rw [if_neg (not_not.mpr hslot), if_neg (by decide)]
  rfl

/-- What a call leaves: the tables that were there, and that of the address if it was to be made. -/
structure Found (dir : ℕ) (s s' : Lookup) (a : BitVec 32) (make page : ℕ) : Prop where
  placed : TablesPlaced dir s'
  keeps : KeepsTables dir s s'
  missing : s'.table dir (tableIndex a.toNat) = 0 ↔ s.table dir (tableIndex a.toNat) = 0 ∧ make = 0
  page : page = if s'.table dir (tableIndex a.toNat) = 0 then 0
    else pagesSlot (s'.table dir (tableIndex a.toNat)) (pageIndex a.toNat)
  fresh : s.table dir (tableIndex a.toNat) = 0 → make ≠ 0 →
    ∀ j < 1024, load32 s'.kernel.mem (pagesSlot (s'.table dir (tableIndex a.toNat)) j) = 0

theorem TablesPlaced.call_table (h : TablesPlaced dir s) (fuel make : ℕ) (hne : s.table dir (tableIndex a.toNat) ≠ 0) :
    ∃ page s', s.call fuel dir a make = .ok (page, s') ∧ Found dir s s' a make page := by
  have ht := tableIndex_lt a.isLt
  refine ⟨_, _, Lookup.call_of_table fuel make hne, ⟨h.kheap, h.below, fun t ht => ?_, h.placed, h.disjoint⟩,
    KeepsTables.refl dir s, ?_, (if_neg hne).symm, fun hzero => absurd hzero hne⟩
  · have hmem : tableIndex a.toNat ∈ s.requested := (h.requested _ (tableIndex_lt a.isLt)).mp hne
    have hreq : t ∈ (if make ≠ 0 then tableIndex a.toNat :: s.requested else s.requested) ↔ t ∈ s.requested := by
      split
      · rw [List.mem_cons, or_iff_right_iff_imp]
        rintro rfl
        exact hmem
      · exact Iff.rfl
    rw [hreq]
    exact h.requested t ht
  · exact iff_of_false hne fun hzero => hne hzero.1

theorem getPage_make {ap : KmallocAp} {i : ℕ} {k : Kernel} (h : make ≠ 0) :
    getPage ap i make dir k = getPage ap i 1 dir k := by
  unfold getPage
  dsimp only
  rw [if_pos h, if_pos Nat.one_ne_zero]

/-- A table was made for slot `t` at `e`: everything but the two slots of the directory and the new page stays. -/
structure TableMade (dir t e : ℕ) (s s' : Lookup) : Prop where
  free : s.table dir t = 0
  fits : dir + 8196 ≤ e ∧ s.kernel.placementAddress ≤ e ∧ e % 4096 = 0
  kheap : s'.kernel.kheap = none
  placement : s'.kernel.placementAddress = e + 4096
  requested : s'.requested = t :: s.requested
  slot : s'.table dir t = e
  same : ∀ lo hi, (hi ≤ tablesSlot dir t ∨ tablesSlot dir t + 4 ≤ lo) →
    (hi ≤ tablesPhysicalSlot dir t ∨ tablesPhysicalSlot dir t + 4 ≤ lo) → (hi ≤ e ∨ e + 4096 ≤ lo) →
    SameOn s.kernel.mem s'.kernel.mem lo hi

theorem TableMade.other {e u : ℕ} (h : TableMade dir t e s s') (ht : t < 1024) (hu : u < 1024) (hne : u ≠ t) :
    s'.table dir u = s.table dir u := by
  have hfits := h.fits
  exact (h.same (tablesSlot dir u) (tablesSlot dir u + 4) (by unfold tablesSlot; omega)
    (by unfold tablesSlot tablesPhysicalSlot; omega) (by unfold tablesSlot; omega)).load32_eq le_rfl le_rfl

/-- A table that is there now is the new one, or was there. -/
theorem TableMade.exists_cases {e u : ℕ} (h : TableMade dir t e s s') (ht : t < 1024) (hu : u < 1024)
    (hne : s'.table dir u ≠ 0) : u = t ∨ (u ≠ t ∧ s.table dir u ≠ 0) := by
  by_cases hut : u = t
  · exact Or.inl hut
  · rw [h.other ht hu hut] at hne
    exact Or.inr ⟨hut, hne⟩

theorem TableMade.placed {e : ℕ} (h : TableMade dir t e s s') (hs : TablesPlaced dir s) (ht : t < 1024) :
    TablesPlaced dir s' := by
  have hfits := h.fits
  refine ⟨h.kheap, ?_, fun u hu => ?_, fun u hu hne => ?_, fun u hu v hv huv hneu hnev => ?_⟩
  · rw [h.placement]
    omega
  · rw [h.requested, List.mem_cons]
    by_cases hut : u = t
    · rw [hut, h.slot]
      exact iff_of_true (by omega) (Or.inl rfl)
    · rw [h.other ht hu hut, hs.requested u hu]
      exact ⟨Or.inr, fun hor => hor.resolve_left hut⟩
  · rw [h.placement]
    cases h.exists_cases ht hu hne with
    | inl heq =>
      rw [heq, h.slot]
      omega
    | inr hold =>
      rw [h.other ht hu hold.1]
      have := hs.placed u hu hold.2
      omega
  · rcases h.exists_cases ht hu hneu with rfl | ⟨hut, hexists⟩
    · have hvt := (h.exists_cases ht hv hnev).resolve_left huv.symm
      rw [h.slot, h.other ht hv hvt.1]
      have := hs.placed v hv hvt.2
      exact Or.inr (by dsimp only; omega)
    · rw [h.other ht hu hut]
      rcases h.exists_cases ht hv hnev with rfl | ⟨hvt, hexistsv⟩
      · rw [h.slot]
        have := hs.placed u hu hexists
        exact Or.inl (by dsimp only; omega)
      · rw [h.other ht hv hvt]
        exact hs.disjoint u hu v hv huv hexists hexistsv

theorem TableMade.keeps {e : ℕ} (h : TableMade dir t e s s') (hs : TablesPlaced dir s) (ht : t < 1024) :
    KeepsTables dir s s' := by
  intro u hu hexists
  have hfits := h.fits
  have hut : u ≠ t := by
    rintro rfl
    exact hexists h.free
  have hbounds := hs.placed u hu hexists
  refine ⟨h.other ht hu hut, ?_, fun j hj => ?_⟩
  · exact (h.same (tablesPhysicalSlot dir u) (tablesPhysicalSlot dir u + 4)
      (by unfold tablesSlot tablesPhysicalSlot; omega) (by unfold tablesPhysicalSlot; omega)
      (by unfold tablesPhysicalSlot; omega)).load32_eq le_rfl le_rfl
  · exact (h.same (pagesSlot (s.table dir u) j) (pagesSlot (s.table dir u) j + 4)
      (by unfold tablesSlot pagesSlot; omega) (by unfold tablesPhysicalSlot pagesSlot; omega)
      (by unfold pagesSlot; omega)).load32_eq le_rfl le_rfl

theorem TablesPlaced.call_new (h : TablesPlaced dir s) (fuel : ℕ) (hzero : s.table dir (tableIndex a.toNat) = 0)
    (hmake : make ≠ 0) (hwrap : pageUp s.kernel.placementAddress + 4096 < 4294967296) :
    ∃ page s', s.call fuel dir a make = .ok (page, s') ∧ Found dir s s' a make page := by
  have ht := tableIndex_lt a.isLt
  obtain ⟨t, htdef⟩ : ∃ t, t = tableIndex a.toNat := ⟨_, rfl⟩
  obtain ⟨e, he⟩ : ∃ e, e = pageUp s.kernel.placementAddress := ⟨_, rfl⟩
  have hup := pageUp_bounds s.kernel.placementAddress
  rw [← he] at hup hwrap
  have hbelow := h.below
  obtain ⟨m, hrun, hslot, hclear, hframe⟩ :=
    getPage_fresh fuel h.kheap he.symm hwrap hzero (by omega : dir + 8196 ≤ e) a.isLt
  rw [← htdef] at hzero ht hslot hframe
  obtain ⟨s', hs'⟩ : ∃ s' : Lookup, s' = ⟨(s.kernel.withPlacement (e + 4096)).withMem m, t :: s.requested⟩ := ⟨_, rfl⟩
  have hmem : s'.kernel.mem = m := by
    rw [hs']
    rfl
  have hmade : TableMade dir t e s s' := by
    refine ⟨hzero, by omega, ?_, ?_, ?_, ?_, fun lo hi h1 h2 h3 x hl hh => ?_⟩
    · rw [hs']
      exact h.kheap
    · rw [hs']
      rfl
    · rw [hs']
    · rw [Lookup.table, hmem, hslot]
    · rw [hmem]
      exact hframe x (by omega) (by omega) (by omega)
  have hne : e ≠ 0 := by omega
  refine ⟨pagesSlot e (pageIndex a.toNat), s', ?_, hmade.placed h ht, hmade.keeps h ht, ?_, ?_, fun _ _ => ?_⟩
  · rw [Lookup.call, getPage_make hmake, hrun, hs', if_pos hmake, ← htdef]
    rfl
  · rw [← htdef, hmade.slot]
    exact iff_of_false hne fun hboth => hmake hboth.2
  · rw [← htdef, hmade.slot, if_neg hne]
  · rw [← htdef, hmade.slot, hmem]
    exact hclear

/-- Every call returns. -/
theorem TablesPlaced.call (h : TablesPlaced dir s) (fuel : ℕ) (hwrap : NoWrap dir s (a, make)) :
    ∃ page s', s.call fuel dir a make = .ok (page, s') ∧ Found dir s s' a make page := by
  by_cases hzero : s.table dir (tableIndex a.toNat) = 0
  · by_cases hmake : make = 0
    · subst hmake
      exact ⟨0, s, Lookup.call_missing fuel hzero, h, KeepsTables.refl dir s, by simp [hzero], (if_pos hzero).symm,
        fun _ hne => absurd rfl hne⟩
    · exact h.call_new fuel hzero hmake (hwrap hzero hmake)
  · exact h.call_table fuel make hzero

/-! ## Runs -/

theorem Found.missing_iff (h : Found dir s s' a make page) : page = 0 ↔ s'.table dir (tableIndex a.toNat) = 0 := by
  have ht := tableIndex_lt a.isLt
  rw [h.page]
  split
  · next hzero => simp [hzero]
  · next hne =>
    have := h.placed.placed _ ht hne
    exact iff_of_false (by unfold pagesSlot; omega) hne

theorem TablesPlaced.later (h : TablesPlaced dir s) (hreach : Reach (· = s) (NoWrap dir) (LookupStep dir) s') :
    TablesPlaced dir s' ∧ KeepsTables dir s s' := by
  induction hreach with
  | start heq =>
    rw [heq]
    exact ⟨h, KeepsTables.refl dir s⟩
  | next _ hguard hstep ih =>
    obtain ⟨fuel, page, hcall⟩ := hstep
    obtain ⟨page', s3, hcall', hfound⟩ := ih.1.call fuel hguard
    rw [hcall] at hcall'
    cases hcall'
    exact ⟨hfound.placed, ih.2.trans hfound.keeps⟩

/-- Entries of tables that do not overlap are the same only in one place of one table. -/
theorem TablesPlaced.entry_inj (h : TablesPlaced dir s) (hta : s.table dir (tableIndex a.toNat) ≠ 0)
    (htb : s.table dir (tableIndex b.toNat) ≠ 0) :
    pagesSlot (s.table dir (tableIndex b.toNat)) (pageIndex b.toNat) =
        pagesSlot (s.table dir (tableIndex a.toNat)) (pageIndex a.toNat) ↔ a.toNat / 0x1000 = b.toNat / 0x1000 := by
  have hja := pageIndex_lt a.toNat
  have hjb := pageIndex_lt b.toNat
  have hsplit : a.toNat / 0x1000 = b.toNat / 0x1000 ↔
      tableIndex a.toNat = tableIndex b.toNat ∧ pageIndex a.toNat = pageIndex b.toNat := by
    unfold tableIndex pageIndex
    omega
  rw [hsplit]
  constructor
  · intro heq
    have hsame : tableIndex a.toNat = tableIndex b.toNat := by
      by_contra hne
      have hapart := h.disjoint _ (tableIndex_lt a.isLt) _ (tableIndex_lt b.isLt) hne hta htb
      unfold Apart at hapart
      unfold pagesSlot at heq
      dsimp only at hapart
      omega
    refine ⟨hsame, ?_⟩
    rw [hsame] at heq
    unfold pagesSlot at heq
    omega
  · rintro ⟨hsame, hplace⟩
    rw [hsame, hplace]

theorem TablesPlaced.made (h : TablesPlaced dir s) (fuel : ℕ) (hwrap : NoWrap dir s (a, 1)) :
    ∃ page s1, s.call fuel dir a 1 = .ok (page, s1) ∧ page ≠ 0 ∧
      ∀ s2, Reach (· = s1) (NoWrap dir) (LookupStep dir) s2 →
        ∀ fuel b make q s3, NoWrap dir s2 (b, make) → s2.call fuel dir b make = .ok (q, s3) →
          (q = page ↔ a.toNat / 0x1000 = b.toNat / 0x1000) := by
  obtain ⟨page, s1, hcall, hfound⟩ := h.call fuel hwrap
  have hta : s1.table dir (tableIndex a.toNat) ≠ 0 := fun hzero => Nat.one_ne_zero (hfound.missing.mp hzero).2
  have hpage : page ≠ 0 := fun hzero => hta (hfound.missing_iff.mp hzero)
  refine ⟨page, s1, hcall, hpage, fun s2 hreach fuel b make q s3 hwrap2 hcall2 => ?_⟩
  obtain ⟨hplaced2, hkeeps2⟩ := hfound.placed.later hreach
  obtain ⟨q', s3', hcall', hfound3⟩ := hplaced2.call fuel hwrap2
  rw [hcall2] at hcall'
  cases hcall'
  have hsame := ((hkeeps2.trans hfound3.keeps) _ (tableIndex_lt a.isLt) hta).1
  have hta3 : s3.table dir (tableIndex a.toNat) ≠ 0 := by rwa [hsame]
  have hpage3 : page = pagesSlot (s3.table dir (tableIndex a.toNat)) (pageIndex a.toNat) := by
    rw [hsame, hfound.page, if_neg hta]
  by_cases htb : s3.table dir (tableIndex b.toNat) = 0
  · have hq : q = 0 := hfound3.missing_iff.mpr htb
    rw [hq]
    refine iff_of_false (fun heq => hpage heq.symm) fun heq => hta3 ?_
    have htable : tableIndex a.toNat = tableIndex b.toNat := by
      unfold tableIndex
      rw [heq]
    rw [htable]
    exact htb
  · rw [hfound3.page, if_neg htb, hpage3]
    exact hfound3.placed.entry_inj hta3 htb

theorem TablesPlaced.probe (h : TablesPlaced dir s) (fuel : ℕ) (b : BitVec 32) :
    ∃ q, s.call fuel dir b 0 = .ok (q, s) ∧ (q = 0 ↔ tableIndex b.toNat ∉ s.requested) := by
  have ht := tableIndex_lt b.isLt
  by_cases hzero : s.table dir (tableIndex b.toNat) = 0
  · refine ⟨0, Lookup.call_missing fuel hzero, iff_of_true rfl fun hmem => ?_⟩
    exact (h.requested _ ht).mpr hmem hzero
  · refine ⟨_, Lookup.call_of_table fuel 0 hzero, iff_of_false ?_ (not_not.mpr ((h.requested _ ht).mp hzero))⟩
    have := h.placed _ ht hzero
    unfold pagesSlot
    omega

/-- In every state that calls of `get_page` reach from a cleared directory, the lookup is stable and injective. -/
theorem stable_lookup (h : Reach (ClearedDirectory dir) (NoWrap dir) (LookupStep dir) s) : StableLookup dir s := by
  have hplaced : TablesPlaced dir s := by
    refine h.invariant (fun s hs => hs.placed) fun s1 r s2 hs1 hguard hstep => ?_
    obtain ⟨fuel, page, hcall⟩ := hstep
    obtain ⟨page', s3, hcall', hfound⟩ := hs1.call fuel hguard
    rw [hcall] at hcall'
    cases hcall'
    exact hfound.placed
  refine ⟨fun fuel a hwrap => hplaced.made fuel hwrap, fun fuel a make page s1 hwrap hcall hzero hmake => ?_,
    fun fuel a make page s1 hwrap hcall => ?_, fun fuel b => hplaced.probe fuel b,
    fun t ht hne => (hplaced.placed t ht hne).1, hplaced.disjoint⟩
  · obtain ⟨page', s2, hcall', hfound⟩ := hplaced.call fuel hwrap
    rw [hcall] at hcall'
    cases hcall'
    exact hfound.fresh hzero hmake
  · obtain ⟨page', s2, hcall', hfound⟩ := hplaced.call fuel hwrap
    rw [hcall] at hcall'
    cases hcall'
    exact hfound.keeps

/-- After the table of the kernel heap has been made. -/
theorem stable_lookup_heap_table : ∃ s, s.requested = [768] ∧
    Reach (ClearedDirectory 0x100000) (NoWrap 0x100000) (LookupStep 0x100000) s ∧ StableLookup 0x100000 s := by
  have hstart : ClearedDirectory 0x100000 ⟨loadedKernel, []⟩ :=
    ⟨rfl, by decide, fun t _ => rfl, rfl⟩
  have hwrap : NoWrap 0x100000 ⟨loadedKernel, []⟩ (0xC0000000#32, 1) := by
    intro _ _
    show pageUp 0x10C100 + 4096 < 4294967296
    decide
  obtain ⟨page, s, hcall, -⟩ := hstart.placed.call 0 hwrap
  have hreach : Reach (ClearedDirectory 0x100000) (NoWrap 0x100000) (LookupStep 0x100000) s :=
    .next (.start hstart) hwrap ⟨0, page, hcall⟩
  refine ⟨s, ?_, hreach, stable_lookup hreach⟩
  obtain ⟨⟨q, k⟩, -, hret⟩ := bind_eq_ok.mp hcall
  cases hret
  rfl

end PandaOS

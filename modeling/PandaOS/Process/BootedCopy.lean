import PandaOS.Memory.BootTranslation
import PandaOS.Process.CopyPage

/-! `copy_page_physical` after the boot: its stack is in the memory that `initialise_paging` maps onto itself, and the
directory and its two tables are what the processor reads. -/
namespace PandaOS
open Assembly ByteMemory PageWalk Word32
set_option autoImplicit false
set_option maxHeartbeats 250000

/-- A call with the stack in the memory that is mapped onto itself, up to `last`. The two pages, the directory `d` with its
two tables and what is pushed are apart from each other. -/
structure BootCall (d last : ℕ) (c : Assembly.Cpu) (src dest : ℕ) : Prop where
  paging : c.paging = true
  words : c.eflags < 4294967296 ∧ c.cr0 < 4294967296 ∧ c.reg .ebx < 4294967296
  stack : 8 ≤ c.reg .esp ∧ c.reg .esp + 12 ≤ last ∧ c.reg .esp % 4 = 0
  arguments : load32 c.mem (c.reg .esp + 4) = src ∧ load32 c.mem (c.reg .esp + 8) = dest
  pages : src + 4096 ≤ 4294967296 ∧ dest + 4096 ≤ 4294967296 ∧ Apart (src, 4096) (dest, 4096)
  pushes : Apart (c.reg .esp - 8, 8) (src, 4096) ∧ Apart (c.reg .esp - 8, 12) (dest, 4096)
  tables : Apart (d, 0x5000) (c.reg .esp - 8, 8) ∧ Apart (d, 0x5000) (dest, 4096)

variable {f : Flags} {c c' : Assembly.Cpu} {src dest d j n : ℕ} {k k' : Kernel} {m : Mem}

/-- The two words that the processor reads for an address of the low memory. -/
theorem BootDirectory.slots {v : ℕ} (h : BootDirectory m d j 256) (hv : v < 0x400000) :
    directorySlot (tablesPhysicalSlot d 0) v = d + 0x1000 ∧
      tableSlot (load32 m (directorySlot (tablesPhysicalSlot d 0) v)) v = d + 0x4000 + 4*(v / 4096) := by
  have haligned := h.coherent.aligned
  have hslot : directorySlot (tablesPhysicalSlot d 0) v = d + 0x1000 := by
    unfold directorySlot tablesPhysicalSlot
    rw [base_of_dvd (by omega)]
    omega
  refine ⟨hslot, ?_⟩
  by_cases hzero : d + 0x4000 = 0
  · omega
  · have hentry : load32 m (d + 0x1000) = d + 0x4000 + 7 := by
      have hphysical := h.coherent.physical 0 (by norm_num)
      rw [h.lowTable, if_neg hzero, or_flags (by omega)] at hphysical
      exact hphysical
    rw [hslot, hentry, tableSlot, base_add (by omega) (by norm_num), Nat.mod_eq_of_lt (by omega)]

theorem BootCall.call (k : Kernel) (h : BootCall d (j * 4096) c src dest) (hd : BootDirectory c.mem d j 256) (hj : j ≤ 768)
    (hcr3 : c.cr3 = tablesPhysicalSlot d 0) : CopyCall c src dest (load32 c.mem (c.reg .esp)) fun i => c.reg .esp - 8 + 4*i := by
  obtain ⟨hlow, hhigh, haligned⟩ := h.stack
  obtain ⟨htables, htablesDest⟩ := h.tables
  obtain ⟨-, hpush⟩ := h.pushes
  obtain ⟨hsrc, hdest⟩ := h.arguments
  unfold Apart at htables htablesDest hpush
  dsimp only at htables htablesDest hpush
  refine ⟨h.paging, h.words, ⟨hlow, by omega, haligned⟩, fun i hi => ?_, fun i hi r hr => ?_, fun i hi i' hi' hne => ?_,
    fun i hi => ?_, h.pages.2.1, ?_⟩
  · have hwalk := BootDirectory.walk_eq (k := { k with mem := c.mem }) hd (by omega)
      (by omega : c.reg .esp - 8 + 4*i < 4294967296)
    rw [hcr3, hwalk, bootMapping, if_pos (by omega)]
    rfl
  · have hv : c.reg .esp - 8 + 4*i < 0x400000 := by omega
    obtain ⟨hslot, htable⟩ := hd.slots hv
    rw [hcr3, htable, hslot]
    unfold Apart
    rcases List.mem_cons.mp hr with rfl | hr
    · dsimp only
      omega
    · rcases List.mem_cons.mp hr with rfl | hr
      · dsimp only
        omega
      · rw [List.mem_singleton.mp hr]
        dsimp only
        omega
  · unfold Apart
    dsimp only
    omega
  · unfold Apart
    dsimp only
    omega
  · have harg : ∀ i, 2 ≤ i → c.reg .esp - 8 + 4*i = c.reg .esp + 4*(i - 2) := fun i hi => by omega
    rw [harg 2 le_rfl, harg 3 (by norm_num), harg 4 (by norm_num)]
    exact ⟨rfl, hsrc, hdest⟩

/-- After `initialise_paging`, as long as the directory and its two tables are left alone, `copy_page_physical` copies the
page for every such call and returns. Nothing but the copy and the pushed words is written, and every address is mapped as
before. -/
theorem copy_page_physical_booted (hf : Lawful f) (hk : k.kheap = none) (hend : identityEnd k.placementAddress ≤ 0x300000)
    (hfuel : 0x300 < n) : ∃ k', initialisePaging n k = .ok k' ∧ ∀ c src dest,
      BootCall (pageUp (k.placementAddress + 128)) (identityEnd k.placementAddress) c src dest → c.cr3 = k'.cr3 →
      SameOn k'.mem c.mem (pageUp (k.placementAddress + 128)) (pageUp (k.placementAddress + 128) + 0x5000) →
      ∃ c', Runs f copyPagePhysicalCode ⟨.line 0, c⟩ ⟨.address (load32 c.mem (c.reg .esp)), c'⟩ ∧
        c'.reg .esp = add32 (c.reg .esp) 4 ∧ c'.reg .ebx = c.reg .ebx ∧ c'.eflags = c.eflags ∧ c'.cr0 = c.cr0 ∧ c'.cr3 = c.cr3 ∧
          (∀ x < 4096, c'.mem (dest + x) = c.mem (src + x)) ∧
          (∀ x, (x < dest ∨ dest + 4096 ≤ x) → (x < c.reg .esp - 8 ∨ c.reg .esp ≤ x) → c'.mem x = c.mem x) ∧
          ∀ v < 4294967296, walk c'.mem c'.cr3 v = bootMapping (identityEnd k.placementAddress) v := by
  obtain ⟨k', hrun, hbooted⟩ := initialisePaging_booted hk hend hfuel
  refine ⟨k', hrun, fun c src dest h hcr3 hsame => ?_⟩
  obtain ⟨d, hd⟩ : ∃ d, d = pageUp (k.placementAddress + 128) := ⟨_, rfl⟩
  obtain ⟨j, hj⟩ : ∃ j, j = identityEnd k.placementAddress / 4096 := ⟨_, rfl⟩
  have hlast : identityEnd k.placementAddress = j * 4096 := by
    rw [hj]
    exact (identityEnd_dvd k.placementAddress).symm
  have hdirectory := hbooted.directory
  have hroot := hcr3.trans hbooted.cr3
  rw [← hd, ← hj] at hdirectory
  rw [← hd] at h hsame hroot
  rw [hlast] at h ⊢ hend
  have hbefore := hdirectory.congr hsame
  obtain ⟨hlow, hhigh, -⟩ := h.stack
  obtain ⟨htables, htablesDest⟩ := h.tables
  obtain ⟨hpushSrc, -⟩ := h.pushes
  obtain ⟨hsrc, hdest, hpages⟩ := h.pages
  obtain ⟨c', hcopy, hesp, hebx, heflags, hcr0, hcr3', hafter⟩ := (h.call k hbefore (by omega) hroot).returns hf
  obtain ⟨hwords, hoff⟩ := copyWords_spec 1024 (pushedMem c fun i => c.reg .esp - 8 + 4*i) (by omega) (by omega) hpages
  rw [← hafter] at hwords hoff
  have hpushed : SameOff c.mem (pushedMem c fun i => c.reg .esp - 8 + 4*i) (c.reg .esp - 8) (c.reg .esp) := by
    refine (sameOff_store32 ?_ ?_).trans (sameOff_store32 ?_ ?_)
    all_goals dsimp only
    all_goals omega
  have hrest : ∀ x, (x < dest ∨ dest + 4096 ≤ x) → (x < c.reg .esp - 8 ∨ c.reg .esp ≤ x) → c'.mem x = c.mem x :=
    fun x hpage hstack => (hoff x hpage).trans (hpushed x hstack)
  refine ⟨c', hcopy, hesp, hebx, heflags, hcr0, hcr3', fun x hx => ?_, hrest, fun v hv => ?_⟩
  · rw [hwords x (by omega)]
    unfold Apart at hpushSrc
    exact hpushed (src + x) (by omega)
  · have hkept : SameOn c.mem c'.mem d (d + 0x5000) := by
      intro x hl hh
      unfold Apart at htables htablesDest
      exact hrest x (by omega) (by omega)
    rw [hcr3', hroot]
    exact BootDirectory.walk_eq (k := { k with mem := c'.mem }) (hbefore.congr hkept) (by omega) hv

/-- Right after the boot of `loadedKernel`, with the stack at `0x5010`. -/
def bootedCpu (k : Kernel) : Assembly.Cpu :=
  ⟨fun r => if r = .esp then 0x5010 else 0, 0x202, 0x80000011, k.cr3,
    store32 (store32 (store32 k.mem 0x5010 0x100234) 0x5014 0x6000) 0x5018 0x7000⟩

theorem bootedCpu_off (k : Kernel) : SameOff k.mem (bootedCpu k).mem 0x5010 0x501C := by
  refine (sameOff_store32 ?_ ?_).trans ((sameOff_store32 ?_ ?_).trans (sameOff_store32 ?_ ?_))
  all_goals norm_num

theorem bootedCpu_call (k : Kernel) : BootCall 0x10D000 0x113000 (bootedCpu k) 0x6000 0x7000 := by
  have hpaging : (0x80000011 : ℕ).testBit 31 = true := by decide
  have hesp : (bootedCpu k).reg .esp = 0x5010 := rfl
  have hebx : (bootedCpu k).reg .ebx = 0 := rfl
  have heflags : (bootedCpu k).eflags = 0x202 := rfl
  have hcr0 : (bootedCpu k).cr0 = 0x80000011 := rfl
  refine ⟨hpaging, ⟨by omega, by omega, by omega⟩, ⟨by omega, by omega, by omega⟩, ⟨?_, ?_⟩, ⟨by norm_num, by norm_num, ?_⟩,
    ⟨?_, ?_⟩, ?_, ?_⟩
  · show load32 (bootedCpu k).mem 0x5014 = _
    rw [bootedCpu, load32_store32_of_off (by norm_num), load32_store32_of_lt (by norm_num)]
  · show load32 (bootedCpu k).mem 0x5018 = _
    rw [bootedCpu, load32_store32_of_lt (by norm_num)]
  all_goals unfold Apart
  all_goals dsimp only
  all_goals omega

theorem copy_page_physical_booted_page : ∃ k', initialisePaging 0x301 loadedKernel = .ok k' ∧
    ∃ c', Runs plainFlags copyPagePhysicalCode ⟨.line 0, bootedCpu k'⟩ ⟨.address 0x100234, c'⟩ ∧
      ∀ x < 4096, c'.mem (0x7000 + x) = k'.mem (0x6000 + x) := by
  obtain ⟨k', hrun, hcall⟩ := copy_page_physical_booted (k := loadedKernel) (n := 0x301) plainFlags_lawful rfl (by decide) (by norm_num)
  have hoff := bootedCpu_off k'
  have hret : load32 (bootedCpu k').mem ((bootedCpu k').reg .esp) = 0x100234 := by
    show load32 (bootedCpu k').mem 0x5010 = _
    rw [bootedCpu, load32_store32_of_off (by norm_num), load32_store32_of_off (by norm_num),
      load32_store32_of_lt (by norm_num)]
  obtain ⟨c', hcopy, -, -, -, -, -, hpage, -⟩ := hcall (bootedCpu k') 0x6000 0x7000 (bootedCpu_call k') rfl
    (hoff.sameOn (Or.inr (by decide)))
  rw [hret] at hcopy
  refine ⟨k', hrun, c', hcopy, fun x hx => ?_⟩
  rw [hpage x hx]
  exact hoff (0x6000 + x) (by omega)

end PandaOS

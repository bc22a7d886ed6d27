import PandaOS.Filesystem.HeapMount
import PandaOS.Interrupts.Isr
import PandaOS.Kernel.PrintFilesystem

/-! `kernel_main`: from what the boot loader leaves to the report of the files on the screen. Interrupts stay away while
it runs. -/
namespace PandaOS
open ByteMemory Descriptors Interrupts PageWalk Pic8259 Word32
set_option autoImplicit false
set_option maxHeartbeats 250000

/-! ## The functions -/

/-- What `kernel_main` works on. -/
structure Computer where
  kernel : Kernel
  pics : Pair
  gdtr : TableRegister
  idtr : TableRegister
  monitor : Monitor
  enabled : Bool
  initialEsp : ℕ
  fsRoot : ℕ
  initrd : Initrd

/-- Addresses that the linker gives: the tables, what `initrd.c` refers to, two handlers, and the array of
`print_filesystem_contents` on the stack. -/
structure KernelImage where
  layout : Layout
  statics : Statics
  pageFault : BitVec 32
  keyboardHandler : BitVec 32
  buf : ℕ

/-- The offsets of `mods_count` and `mods_addr` in `struct multiboot`. -/
def multibootModsCount : ℕ := 20
def multibootModsAddr : ℕ := 24

def createFilesystem (mbootPtr : ℕ) (k : Kernel) : Result (ℕ × Kernel) := do
  assert (load32 k.mem (mbootPtr + multibootModsCount) > 0) "mboot_ptr->mods_count > 0"
  let initrdLocation := load32 k.mem (load32 k.mem (mbootPtr + multibootModsAddr))
  let initrdEnd := load32 k.mem (add32 (load32 k.mem (mbootPtr + multibootModsAddr)) 4)
  return (initrdLocation, { k with placementAddress := initrdEnd })

/-- `initialise_paging` with its call of `register_interrupt_handler`. -/
def KernelImage.initialisePaging (i : KernelImage) (fuel : ℕ) (k : Kernel) : Result Kernel := do
  let k ← mapPages fuel k
  let k := k.withMem (registerInterruptHandler i.layout 14 i.pageFault k.mem)
  let k := switchPageDirectory k.kernelDirectory k
  createKernelHeap fuel 0 0 k

def KernelImage.installKeyboardDriver (i : KernelImage) (m : Mem) : Mem :=
  registerInterruptHandler i.layout 33 i.keyboardHandler m

def KernelImage.kernelMain (i : KernelImage) (mbootPtr initialStack fuel : ℕ) (s : Computer) : Result Computer := do
  let s := { s with initialEsp := initialStack }
  let p ← initDescriptorTables i.layout ⟨s.kernel.mem, s.pics, s.gdtr, s.idtr⟩
  let s := { s with kernel := s.kernel.withMem p.mem, pics := p.pics, gdtr := p.gdtr, idtr := p.idtr }
  let s := { s with monitor := monitorClear s.monitor }
  let (initrdLocation, k) ← createFilesystem mbootPtr s.kernel
  let k ← i.initialisePaging fuel k
  let ((root, fs), k) ← initialiseInitrd (kmalloc fuel) i.statics initrdLocation k
  let k := k.withMem (i.installKeyboardDriver k.mem)
  let s := { s with kernel := k, fsRoot := root, initrd := fs, enabled := true }
  let m ← monitorWriteString (ascii "Welcome to Josue's Panda OS\n") s.monitor
  let m ← monitorWriteString (ascii "\n==========================\n") m
  let c ← printFilesystemContents (initrdCode i.statics s.initrd) s.fsRoot i.buf fuel ⟨s.kernel.mem, m⟩
  return { s with kernel := s.kernel.withMem c.mem, monitor := c.monitor, enabled := true }

/-! ## Before and after -/

/-- The memory that the kernel's own tables and data take, beside the image of `size` bytes at `location`. -/
def KernelImage.regions (i : KernelImage) (location size : ℕ) : List (ℕ × ℕ) :=
  (i.buf, 256) :: i.layout.areas ++ kept i.statics location size

/-- What the boot loader leaves: the kernel, and the image in a module that ends at `last`, with room for the bitmap of the
frames behind it. -/
structure LoadedAt (i : KernelImage) (image : List UInt8) (mbootPtr location last : ℕ) (s : Computer) : Prop where
  linked : i.layout.Linked
  booted : Booted s.kernel.mem i.statics location image
  apart : (i.regions location image.length).Pairwise Apart
  below : ∀ r ∈ i.regions location image.length, r.1 + r.2 ≤ last
  modules : ∃ table, 0 < load32 s.kernel.mem (mbootPtr + multibootModsCount) ∧
    load32 s.kernel.mem (mbootPtr + multibootModsAddr) = table ∧ table + 8 ≤ 4294967296 ∧
    load32 s.kernel.mem table = location ∧ load32 s.kernel.mem (table + 4) = last ∧
    ∀ r ∈ i.layout.areas, Apart (mbootPtr + multibootModsCount, 8) r ∧ Apart (table, 8) r
  pad : last + 512 ≤ pageUp (last + 128)
  room : identityEnd last ≤ 0x300000
  heapless : s.kernel.kheap = none
  clear : ∀ x, KHEAP_DATA + 12 ≤ x → x < KHEAP_START + KHEAP_INITIAL_SIZE → s.kernel.mem x = 0
  idle : s.pics.master.Idle ∧ s.pics.slave.Idle

/-- What `kernel_main` writes. -/
def mainText (v : Volume) : List (BitVec 8) :=
  ascii "Welcome to Josue's Panda OS\n" ++ (ascii "\n==========================\n" ++ v.contentsText)

/-- The handlers that are registered. -/
def KernelImage.handler (i : KernelImage) (n : ℕ) : ℕ :=
  if n = 33 then i.keyboardHandler.toNat else if n = 14 then i.pageFault.toNat else 0

/-- What `kernel_main` leaves for these files. -/
structure Running (i : KernelImage) (files : List InputFile) (last : ℕ) (s : Computer) : Prop where
  screen : OnScreen s.monitor (Terminal.empty.write (mainText (volumeOf files)))
  serves : ∃ location size headers, Serves s.kernel.mem i.statics s.initrd location size headers (volumeOf files)
  root : s.fsRoot = s.initrd.initrdRoot
  paged : s.kernel.pagingEnabled = true
  translation : ∀ v < 4294967296, walk s.kernel.mem s.kernel.cr3 v = bootMapping (identityEnd last) v
  segments : ∀ n rpl, rpl < 4 → segmentAt s.kernel.mem s.gdtr (n * 8 + rpl) = kernelSegments n
  gates : ∀ v, gateAt s.kernel.mem s.idtr v = i.layout.gate v
  handlers : ∀ n < 256, handlerAt i.layout s.kernel.mem n = i.handler n
  controllers : Programmed s.pics ∧ s.pics.master.Idle ∧ s.pics.slave.Idle
  enabled : s.enabled = true

variable {i : KernelImage} {k k' k0 : Kernel} {s s' : Computer} {files : List InputFile} {image : List UInt8} {m m' : Mem}
  {mbootPtr initialStack location last fuel size n : ℕ}

/-! ## The parts -/

theorem KernelImage.initialisePaging_booted (hk : k.kheap = none) (hend : identityEnd k.placementAddress ≤ 0x300000)
    (hfuel : 0x300 < fuel) (hlow : i.layout.interruptHandlers + 1024 ≤ k.placementAddress) :
    ∃ k', i.initialisePaging fuel k = .ok k' ∧
      PagedBoot (k.withMem (registerInterruptHandler i.layout 14 i.pageFault k.mem)) k' fuel := by
  obtain ⟨k1, hrun, hmapped⟩ := mapPages_mapped hk hend hfuel
  have hregistered : MappedPages (k.withMem (registerInterruptHandler i.layout 14 i.pageFault k.mem))
      (k1.withMem (registerInterruptHandler i.layout 14 i.pageFault k1.mem)) :=
    hmapped.store (by have h14 : (14 : BitVec 8).toNat = 14 := rfl; omega)
  obtain ⟨k', hcreate, hbooted⟩ := hregistered.booted fuel hend
  refine ⟨k', ?_, hbooted⟩
  rw [KernelImage.initialisePaging, hrun, ok_bind]
  exact hcreate

theorem handlerAt_congr (l : Layout) (hm : SameOn m m' l.interruptHandlers (l.interruptHandlers + 1024)) (hn : n < 256) :
    handlerAt l m' n = handlerAt l m n := hm.load32_eq (by omega) (by omega)

/-- What the processor and the stubs find, when only the two handlers have been registered in the tables. -/
theorem tables_kept {p : Platform} {pageFault keyboardHandler : BitVec 32} {l : Layout} (hl : l.Linked) (hinstalled : Installed l p)
    (hbefore : ∀ r ∈ l.areas, SameOn (registerInterruptHandler l 14 pageFault p.mem) m r.1 (r.1 + r.2))
    (hafter : ∀ r ∈ l.areas, SameOn (registerInterruptHandler l 33 keyboardHandler m) m' r.1 (r.1 + r.2)) :
    (∀ n rpl, rpl < 4 → segmentAt m' p.gdtr (n * 8 + rpl) = kernelSegments n) ∧ (∀ v, gateAt m' p.idtr v = l.gate v) ∧
      ∀ n < 256, handlerAt l m' n = if n = 33 then keyboardHandler.toNat else if n = 14 then pageFault.toNat else 0 := by
  have hapart := hl.apart
  simp only [Layout.areas, List.pairwise_cons, List.mem_cons, List.not_mem_nil, forall_eq_or_imp, Apart] at hapart
  obtain ⟨⟨-, -, -, hgh, -⟩, -, ⟨-, hih, -⟩, -, -⟩ := hapart
  -- the two tables are apart from the handlers
  have hkeep : ∀ r ∈ l.areas, Apart r (l.interruptHandlers, 1024) → SameOn p.mem m' r.1 (r.1 + r.2) := by
    intro r hr hhandlers
    exact ((hhandlers.symm.sameOn (sameOff_register l 14 pageFault p.mem)).trans (hbefore r hr)).trans
      ((hhandlers.symm.sameOn (sameOff_register l 33 keyboardHandler m)).trans (hafter r hr))
  refine ⟨fun n rpl hrpl => ?_, fun v => ?_, fun n hn => ?_⟩
  · have hgdt := hkeep (l.gdtEntries, 40) (by simp [Layout.areas]) hgh
    rw [← hinstalled.segments n rpl hrpl]
    refine segmentAt_congr ?_
    rw [hinstalled.gdtr]
    exact hgdt
  · have hidt := hkeep (l.idtEntries, 2048) (by simp [Layout.areas]) hih
    rw [← hinstalled.gates v]
    refine gateAt_congr ?_
    rw [hinstalled.idtr]
    exact hidt
  · have harea : (l.interruptHandlers, 1024) ∈ l.areas := by simp [Layout.areas]
    have h33 : (33 : BitVec 8).toNat = 33 := rfl
    have h14 : (14 : BitVec 8).toNat = 14 := rfl
    rw [handlerAt_congr l (hafter _ harea) hn]
    by_cases hkeyboard : n = 33
    · rw [if_pos hkeyboard, hkeyboard, ← h33]
      exact handlerAt_register_self l 33 keyboardHandler m
    · rw [if_neg hkeyboard, handlerAt_register_ne l keyboardHandler m (by omega), handlerAt_congr l (hbefore _ harea) hn]
      by_cases hfault : n = 14
      · rw [if_pos hfault, hfault, ← h14]
        exact handlerAt_register_self l 14 pageFault p.mem
      · rw [if_neg hfault, handlerAt_register_ne l pageFault p.mem (by omega)]
        exact hinstalled.handlers n hn

theorem LoadedAt.tables_apart (h : LoadedAt i image mbootPtr location last s) :
    ∀ r ∈ i.layout.areas, ∀ q ∈ kept i.statics location image.length, Apart r q := by
  have hpair := h.apart
  unfold KernelImage.regions at hpair
  exact fun r hr q hq => (List.pairwise_append.mp hpair).2.2 r (List.mem_cons_of_mem _ hr) q hq

theorem LoadedAt.buf_apart (h : LoadedAt i image mbootPtr location last s) :
    (∀ r ∈ i.layout.areas, Apart (i.buf, 256) r) ∧ ∀ q ∈ kept i.statics location image.length, Apart (i.buf, 256) q := by
  have hpair := h.apart
  unfold KernelImage.regions at hpair
  rw [List.cons_append, List.pairwise_cons] at hpair
  exact ⟨fun r hr => hpair.1 r (List.mem_append_left _ hr), fun q hq => hpair.1 q (List.mem_append_right _ hq)⟩

/-- `init_descriptor_tables` leaves the information of the boot loader alone. -/
theorem LoadedAt.createFilesystem (h : LoadedAt i image mbootPtr location last s)
    (hm : ∀ x, (∀ r ∈ i.layout.areas, x < r.1 ∨ r.1 + r.2 ≤ x) → m x = s.kernel.mem x) :
    PandaOS.createFilesystem mbootPtr (s.kernel.withMem m) =
      .ok (location, { s.kernel.withMem m with placementAddress := last }) := by
  obtain ⟨table, hcount, htable, hbound, hlocation, hlast, hapart⟩ := h.modules
  have hsame : ∀ p, (∀ r ∈ i.layout.areas, Apart (p, 8) r) → SameOn s.kernel.mem m p (p + 8) := by
    intro p hp x hl hh
    refine hm x fun r hr => ?_
    have hpr := hp r hr
    unfold Apart at hpr
    dsimp only at hpr
    omega
  have hinfo := hsame _ fun r hr => (hapart r hr).1
  have hmodule := hsame _ fun r hr => (hapart r hr).2
  have hoffsets : mbootPtr + multibootModsAddr = mbootPtr + multibootModsCount + 4 := rfl
  have hcount' : load32 m (mbootPtr + multibootModsCount) = load32 s.kernel.mem (mbootPtr + multibootModsCount) :=
    hinfo.load32_eq le_rfl (by omega)
  have htable' : load32 m (mbootPtr + multibootModsAddr) = table := by
    rw [hinfo.load32_eq (by omega) (by omega), htable]
  have hlocation' : load32 m table = location := by rw [hmodule.load32_eq le_rfl (by omega), hlocation]
  have hlast' : load32 m (table + 4) = last := by rw [hmodule.load32_eq (by omega) (by omega), hlast]
  unfold PandaOS.createFilesystem
  rw [Kernel.withMem_mem, hcount', htable', hlocation', add32_of_lt (by omega), hlast', assert, decide_eq_true hcount]
  rfl

/-! ## The whole run -/

/-- The state when paging is on: `p` has the tables, and `k` came out of `initialise_paging`, which found `k0` with the
handler for page faults registered. -/
structure Prepared (i : KernelImage) (image : List UInt8) (location last fuel : ℕ) (p : Platform) (k0 k : Kernel) : Prop where
  installed : Installed i.layout p
  idle : p.pics.master.Idle ∧ p.pics.slave.Idle
  paged : PagedBoot k0 k fuel
  placement : k0.placementAddress = last
  registered : k0.mem = registerInterruptHandler i.layout 14 i.pageFault p.mem
  booted : Booted k0.mem i.statics location image
  clear : ∀ x, KHEAP_DATA + 12 ≤ x → x < KHEAP_START + KHEAP_INITIAL_SIZE → k0.mem x = 0

theorem LoadedAt.areas_below (h : LoadedAt i image mbootPtr location last s) : ∀ r ∈ i.layout.areas, r.1 + r.2 ≤ last :=
  fun r hr => h.below r (by simp [KernelImage.regions, hr])

theorem LoadedAt.kept_below (h : LoadedAt i image mbootPtr location last s) :
    ∀ r ∈ kept i.statics location image.length, r.1 + r.2 ≤ last :=
  fun r hr => h.below r (by simp [KernelImage.regions, hr])

theorem Layout.handlers_area (l : Layout) : (l.interruptHandlers, 1024) ∈ l.areas := by simp [Layout.areas]

/-- Up to the end of `initialise_paging`. -/
theorem LoadedAt.prepares (h : LoadedAt i image mbootPtr location last s) (hfuel : 0x300 < fuel) :
    ∃ p k1 k0 k2, initDescriptorTables i.layout ⟨s.kernel.mem, s.pics, s.gdtr, s.idtr⟩ = .ok p ∧
      PandaOS.createFilesystem mbootPtr (s.kernel.withMem p.mem) = .ok (location, k1) ∧
      i.initialisePaging fuel k1 = .ok k2 ∧ Prepared i image location last fuel p k0 k2 := by
  have hroom := h.room
  have hspan : pageUp (last + 128) + 0x6000 = identityEnd last := rfl
  have hpad := h.pad
  have hdata : KHEAP_DATA = 0xC0080000 := rfl
  have hareas := h.areas_below
  have hhandlers := Layout.handlers_area i.layout
  obtain ⟨p, htables, hinstalled, hidle, hmem⟩ := descriptor_tables_returns (p := ⟨s.kernel.mem, s.pics, s.gdtr, s.idtr⟩)
    h.linked h.idle
  dsimp only at hmem
  have hcreate := h.createFilesystem hmem
  obtain ⟨k1, hk1⟩ : ∃ x : Kernel, x = { s.kernel.withMem p.mem with placementAddress := last } := ⟨_, rfl⟩
  rw [← hk1] at hcreate
  have hplacement : k1.placementAddress = last := by rw [hk1]
  have hmem1 : k1.mem = p.mem := by rw [hk1]; rfl
  have hheapless : k1.kheap = none := by rw [hk1]; exact h.heapless
  obtain ⟨k2, hpaging, hbooted⟩ := KernelImage.initialisePaging_booted (i := i) hheapless (by rw [hplacement]; exact hroom)
    hfuel (by rw [hplacement]; exact hareas _ hhandlers)
  obtain ⟨k0, hk0⟩ : ∃ x, x = k1.withMem (registerInterruptHandler i.layout 14 i.pageFault k1.mem) := ⟨_, rfl⟩
  rw [← hk0] at hbooted
  have hplacement0 : k0.placementAddress = last := by rw [hk0]; exact hplacement
  have hmem0 : k0.mem = registerInterruptHandler i.layout 14 i.pageFault p.mem := by rw [hk0, Kernel.withMem_mem, hmem1]
  have hoff0 := sameOff_register i.layout 14 i.pageFault p.mem
  rw [← hmem0] at hoff0
  have hsame0 : ∀ x, (∀ r ∈ i.layout.areas, x < r.1 ∨ r.1 + r.2 ≤ x) → k0.mem x = s.kernel.mem x :=
    fun x hx => (hoff0 x (hx _ hhandlers)).trans (hmem x hx)
  refine ⟨p, k1, k0, k2, htables, hcreate, hpaging, hinstalled, hidle, hbooted, hplacement0, hmem0, ?_, fun x hl hh => ?_⟩
  · refine h.booted.congr fun r hr x hl hh => hsame0 x fun q hq => ?_
    have hapart := h.tables_apart q hq r hr
    unfold Apart at hapart
    omega
  · rw [hsame0 x fun r hr => Or.inr (by have := hareas r hr; omega)]
    exact h.clear x hl hh

/-- The image of the files, wherever the boot loader has put it, is reported on the screen. -/
theorem LoadedAt.runs (h : LoadedAt i image mbootPtr location last s) (initialStack : ℕ) (hfuel : 0x300 < fuel)
    (hcount : files.length ≤ 63) (hnames : ∀ f ∈ files, f.name ≠ [] ∧ f.name.length ≤ 63 ∧ 0 ∉ f.name)
    (hat : ∀ m, BytesAt m location image → ImageAt m location files) (hlength : image.length = imageSize files) :
    ∃ s', i.kernelMain mbootPtr initialStack fuel s = .ok s' ∧ Running i files last s' := by
  obtain ⟨fuel, rfl⟩ : ∃ x, fuel = x + 1 := ⟨fuel - 1, by omega⟩
  have hstart : KHEAP_START = 0xC0000000 := rfl
  have hdata : KHEAP_START ≤ KHEAP_DATA := by decide
  have hspan : pageUp (last + 128) + 0x6000 = identityEnd last := rfl
  have hroom := h.room
  have hpad := h.pad
  have hareas := h.areas_below
  have hkept := h.kept_below
  have hhandlers := Layout.handlers_area i.layout
  have himage : (location, image.length) ∈ kept i.statics location image.length := List.mem_cons_self
  obtain ⟨p, k1, k0, k2, htables, hcreate, hpaging, hprepared⟩ := h.prepares hfuel
  have hplacement := hprepared.placement
  have hpaged := hprepared.paged
  -- the file system
  obtain ⟨k3, m3, hmount, ⟨heap', hfields⟩, hserves, hrest⟩ := hpaged.mounts (by rw [hplacement]; exact hpad)
    (by rw [hplacement]; exact hroom) hcount hnames hat hlength hprepared.booted (by rw [hplacement]; exact hkept) hprepared.clear
  obtain ⟨fs, hfs⟩ : ∃ x, x = heapMounted location files.length := ⟨_, rfl⟩
  have hbefore : ∀ r ∈ i.layout.areas, SameOn k0.mem m3 r.1 (r.1 + r.2) := by
    intro r hr
    have hlow := hareas r hr
    have hsame : SameOn k0.mem k2.mem r.1 (r.1 + r.2) := fun x _ hx => hpaged.off x (by omega) (by omega)
    exact hsame.trans (hrest r (h.tables_apart r hr _ himage) (by omega))
  -- what the file system holds is apart from what is written later
  have hapart : ∀ q : ℕ × ℕ, q.1 + q.2 ≤ last → (∀ r ∈ kept i.statics location image.length, Apart q r) →
      ∀ r ∈ holding i.statics fs location image.length, Apart q r := by
    intro q hq hqkept r hr
    rw [hfs] at hr
    rcases holding_heapMounted hr with hheap | hmem
    · exact Or.inl (by omega)
    · exact hqkept r hmem
  rw [← hfs] at hmount hserves
  have hserves4 := hserves.keeps (Keeps.of_off (hapart _ (hareas _ hhandlers) (h.tables_apart _ hhandlers))
    (sameOff_register i.layout 33 i.keyboardHandler m3))
  have hbuf := hapart (i.buf, 256) (h.below _ List.mem_cons_self) h.buf_apart.2
  -- the report
  obtain ⟨m5, hwelcome, hprints5⟩ := monitorWriteString_printer (zeroFree_ascii (s := "Welcome to Josue's Panda OS\n") rfl)
    (monitorClear s.monitor)
  obtain ⟨m6, hline, hprints6⟩ := monitorWriteString_printer (zeroFree_ascii (s := "\n==========================\n") rfl) m5
  have hfiles : (volumeOf files).length + 1 < fuel + 1 := by
    rw [volumeOf, List.length_map]
    omega
  have hroot : fs.initrdRoot = KHEAP_DATA + 12 := by rw [hfs]; rfl
  obtain ⟨c, hreport, hreports⟩ := hserves4.printFilesystem (s := ⟨i.installKeyboardDriver m3, m6⟩) hfiles (by omega) hbuf
  rw [hroot] at hreport
  refine ⟨⟨k3.withMem c.mem, p.pics, p.gdtr, p.idtr, c.monitor, true, initialStack, KHEAP_DATA + 12, fs⟩, ?_, ?_⟩
  · unfold KernelImage.kernelMain
    dsimp only
    rw [htables, ok_bind, hcreate, ok_bind]
    dsimp only
    rw [hpaging, ok_bind, hmount, ok_bind]
    dsimp only
    rw [hwelcome, ok_bind, hline, ok_bind]
    dsimp only [Kernel.withMem_mem]
    rw [hreport, ok_bind]
    rfl
  have hafter : ∀ r ∈ i.layout.areas, SameOn (i.installKeyboardDriver m3) c.mem r.1 (r.1 + r.2) := by
    have hareasKeep : Keeps i.layout.areas (i.installKeyboardDriver m3) c.mem :=
      hreports.keeps (fun r hr => (h.tables_apart r hr (i.statics.dirent, 132) (by simp [kept])).symm) h.buf_apart.1
    exact hareasKeep
  rw [hprepared.registered] at hbefore
  obtain ⟨hsegments, hgates, hregistered⟩ := tables_kept h.linked hprepared.installed hbefore hafter
  have hsameFields : k3.cr3 = k2.cr3 ∧ k3.pagingEnabled = k2.pagingEnabled :=
    ⟨(congrArg Kernel.cr3 hfields).trans rfl, (congrArg Kernel.pagingEnabled hfields).trans rfl⟩
  have hdirectory := hpaged.directory
  have hcr3 := hpaged.cr3
  rw [hplacement] at hdirectory hcr3
  have hkeepDirectory : SameOn k2.mem c.mem (pageUp (last + 128)) (pageUp (last + 128) + 0x5000) := by
    have himageLow := hkept _ himage
    have hdirent := hkept (i.statics.dirent, 132) (by simp [kept])
    have hbufLow := h.below (i.buf, 256) List.mem_cons_self
    have hhandlersLow := hareas _ hhandlers
    dsimp only at himageLow hdirent hbufLow hhandlersLow
    have hmounted := hrest (pageUp (last + 128), 0x5000) (Or.inr (by dsimp only; omega)) (by dsimp only; omega)
    have hinstalled33 := sameOff_register i.layout 33 i.keyboardHandler m3
    intro x hl hh
    rw [hreports.rest x (by omega) (by omega)]
    exact (hinstalled33 x (by omega)).trans (hmounted x hl hh)
  refine ⟨?_, ⟨_, _, _, hserves4.keeps (hreports.keeps hserves4.dirent_apart hbuf)⟩, hroot.symm, ?_, fun v hv => ?_, hsegments, hgates,
    hregistered, ⟨hprepared.installed.controllers, hprepared.idle⟩, rfl⟩
  · exact ((hprints5.trans (hprints6.trans hreports.prints)).shown _ (monitorClear_onScreen s.monitor)).1
  · exact hsameFields.2.trans hpaged.enabled
  · have hdvd := identityEnd_dvd last
    have hwalk := (hdirectory.congr hkeepDirectory).walk_eq (k := k3.withMem c.mem) (by omega) hv
    rw [hdvd] at hwalk
    show walk c.mem k3.cr3 v = _
    rw [hsameFields.1, hcr3]
    exact hwalk

/-- The tables, the strings and the array below 64 kB, where the image is. -/
def lowKernel : KernelImage := ⟨sampleLayout, lowStatics, 0x101000, 0x102000, 0x2000⟩

/-- With the information of the boot loader at `0x3000`: one module, which ends at 1 MB. -/
def bootMem (m : Mem) : Mem :=
  store32 (store32 (store32 (store32 m 0x3000 1) 0x3004 0x3010) 0x3010 0x10000) 0x3014 0x100000

def coldComputer (image : List UInt8) : Computer :=
  ⟨(loadedImage image).withMem (bootMem (loadedImage image).mem), ⟨coldChip, coldChip⟩, ⟨0, 0⟩, ⟨0, 0⟩, loadedMonitor, false, 0, 0,
    ⟨0, 0, 0, 0, 0⟩⟩

theorem sameOff_bootMem (m : Mem) : SameOff m (bootMem m) 0x3000 0x3018 :=
  (sameOff_store32 (by norm_num) (by norm_num)).trans ((sameOff_store32 (by norm_num) (by norm_num)).trans
    ((sameOff_store32 (by norm_num) (by norm_num)).trans (sameOff_store32 (by norm_num) (by norm_num))))

theorem load32_bootMem (m : Mem) : load32 (bootMem m) 0x3000 = 1 ∧ load32 (bootMem m) 0x3004 = 0x3010 ∧
    load32 (bootMem m) 0x3010 = 0x10000 ∧ load32 (bootMem m) 0x3014 = 0x100000 := by
  unfold bootMem
  refine ⟨?_, ?_, ?_, load32_store32_of_lt (by norm_num)⟩
  · rw [load32_store32_of_off (by norm_num), load32_store32_of_off (by norm_num), load32_store32_of_off (by norm_num)]
    exact load32_store32_of_lt (by norm_num)
  · rw [load32_store32_of_off (by norm_num), load32_store32_of_off (by norm_num)]
    exact load32_store32_of_lt (by norm_num)
  · rw [load32_store32_of_off (by norm_num)]
    exact load32_store32_of_lt (by norm_num)

theorem loadedAt_coldComputer (hlength : image.length < 0xF0000) :
    LoadedAt lowKernel image 0x2FEC 0x10000 0x100000 (coldComputer image) := by
  have hbooted := booted_loadedImage hlength
  have hboot := sameOff_bootMem (loadedImage image).mem
  obtain ⟨hcount, htable, hlocation, hlast⟩ := load32_bootMem (loadedImage image).mem
  have hregions : ∀ r ∈ kept lowStatics 0x10000 image.length, SameOn (loadedImage image).mem (bootMem (loadedImage image).mem) r.1
      (r.1 + r.2) := by
    intro r hr
    refine hboot.sameOn ?_
    unfold kept lowStatics at hr
    simp only [List.mem_cons, List.not_mem_nil, or_false] at hr
    rcases hr with rfl | rfl | rfl | rfl <;> (dsimp only; omega)
  refine ⟨sampleLayout_linked, hbooted.congr hregions, ?_, ?_, ⟨0x3010, ?_, ?_, by norm_num, ?_, ?_, ?_⟩, by decide, by decide, rfl, ?_,
    ⟨fun _ => rfl, fun _ => rfl⟩⟩
  · unfold KernelImage.regions kept Layout.areas lowKernel lowStatics sampleLayout Apart
    simp only [List.cons_append, List.nil_append, List.pairwise_cons, List.mem_cons, List.not_mem_nil, or_false, forall_eq_or_imp,
      forall_eq, List.Pairwise.nil, false_imp_iff, implies_true, and_true]
    omega
  · unfold KernelImage.regions kept Layout.areas lowKernel lowStatics sampleLayout
    simp only [List.cons_append, List.nil_append, List.mem_cons, List.not_mem_nil, or_false, forall_eq_or_imp, forall_eq]
    omega
  · exact hcount.symm ▸ Nat.one_pos
  · exact htable
  · exact hlocation
  · exact hlast
  · unfold Layout.areas lowKernel sampleLayout Apart
    simp only [List.mem_cons, List.not_mem_nil, or_false, forall_eq_or_imp, forall_eq]
    decide
  · intro x hl hh
    have hdata : KHEAP_DATA = 0xC0080000 := rfl
    have hlengths : (nameDev ++ [0]).length = 4 ∧ (nameJ ++ [0]).length = 2 := ⟨rfl, rfl⟩
    have himage := sameOff_writeBytes stringsMem 0x10000 image x (Or.inr (by omega))
    have hDev := sameOff_writeBytes jMem 0x110 (nameDev ++ [0]) x (Or.inr (by omega))
    have hJ := sameOff_writeBytes (fun _ => 0) 0x100 (nameJ ++ [0]) x (Or.inr (by omega))
    exact (hboot x (Or.inr (by omega))).trans (himage.trans (hDev.trans hJ))

end PandaOS

import PandaOS.Filesystem.Volume
import PandaOS.Library.GuardedRun

/-! Runs of the mounted file system. Its callers may use any node in any order, and write whatever they like to the
rest of the memory between two calls; every answer is the one the volume of the packed files gives. -/
namespace PandaOS
open ByteMemory Word32 GuardedRun
set_option autoImplicit false
set_option maxHeartbeats 250000

/-- A call, or stores of the callers to memory that is not the file system's. -/
inductive Use
  | call (c : FsCall)
  | own

/-- What is asked of a use in the state before it. -/
def Use.Fits (v : Volume) (l : List (ℕ × ℕ)) (m : Mem) : Use → Prop
  | .call c => c.Fits v l m
  | .own => True

/-- The volume of the files that were packed. -/
def volumeOf (files : List InputFile) : Volume := files.map fun f => ⟨f.name, f.contents⟩

/-- Behind the characters of each name the block of the nodes held a 0 when `kmalloc` returned it. -/
def NamesEnd (m : Mem) (nodes : ℕ) (files : List InputFile) : Prop :=
  ∀ i f, files[i]? = some f → m (nodes + sizeofFsNode * i + f.name.length) = 0

variable {m m0 : Mem} {st : Statics} {fs : Initrd} {headers : List FileHeader} {v : Volume} {code : Driver}
  {files : List InputFile} {kmalloc : Kmalloc} {k k' kdev : Kernel} {image : List UInt8}
  {location size root dev nodes : ℕ}

/-- What `initialise_initrd` leaves serves the files that were packed. -/
theorem initialise_serves (hcount : files.length ≤ 63)
    (hnames : ∀ f ∈ files, f.name ≠ [] ∧ f.name.length ≤ 63 ∧ 0 ∉ f.name) (himage : ImageAt k.mem location files)
    (hlength : image.length = imageSize files) (hbooted : Booted k.mem st location image)
    (hserved : Served kmalloc st (kept st location image.length) files.length k root dev nodes kdev k')
    (hends : NamesEnd k'.mem nodes files) :
    ∃ m', initialiseInitrd kmalloc st location k =
        .ok ((root, mountedAs location root dev nodes files.length), k'.withMem m') ∧
      Serves m' st (mountedAs location root dev nodes files.length) location image.length
        (headersFrom (tableSize + 4) files) (volumeOf files) ∧
      ∀ r, Apart r (location, image.length) → Apart (nodes, sizeofFsNode * files.length) r →
        SameOn k'.mem m' r.1 (r.1 + r.2) := by
  have hloaded := loaded_of_imageAt hcount hnames himage hlength hbooted
  obtain ⟨headers, hheaders⟩ : ∃ x, x = headersFrom (tableSize + 4) files := ⟨_, rfl⟩
  have hlengths : headers.length = files.length := by rw [hheaders, length_headersFrom]
  rw [← hheaders] at hloaded ⊢
  rw [← hlengths] at hserved ⊢
  obtain ⟨m', hrun, hmounted, hsame, -⟩ := initialise_mounts hloaded hserved
  have hremains := initialise_remains hloaded hserved hrun
  obtain ⟨fs, hfs⟩ : ∃ x, x = mountedAs location root dev nodes headers.length := ⟨_, rfl⟩
  have hnode : ∀ i, fs.rootNode i = nodes + sizeofFsNode * i := by
    intro i
    rw [hfs]
    rfl
  rw [← hfs] at hrun hmounted hremains ⊢
  have htable : tableSize = 4864 := rfl
  have hpacked : ∀ (i : ℕ) (w : VolumeFile), (volumeOf files)[i]? = some w →
      ∃ f, files[i]? = some f ∧ w = VolumeFile.mk f.name f.contents := by
    intro i w hw
    unfold volumeOf at hw
    rw [List.getElem?_map] at hw
    obtain ⟨f, hf, rfl⟩ := Option.map_eq_some_iff.mp hw
    exact ⟨f, hf, rfl⟩
  have hrest := hremains.rest
  rw [hfs] at hrest
  refine ⟨m', hrun, ⟨hmounted, ?_, fun h hh => (hloaded.named h hh).2, hloaded.table, hbooted.span, hremains.root,
    hremains.dev, fun i hi => (hremains.nodes i _ (List.getElem?_eq_getElem hi)).unset, ?_, ?_, ?_⟩, hrest⟩
  · rw [hlengths, volumeOf, List.length_map]
  · intro i w hw
    obtain ⟨f, hf, rfl⟩ := hpacked i w hw
    obtain ⟨h, hh, hname, -⟩ := headersFrom_getElem (tableSize + 4) hf
    rw [← hheaders] at hh
    obtain ⟨hne, hshort, hzero⟩ := hnames f (List.mem_of_getElem? hf)
    have hmask : nodeMask = 128 := rfl
    refine ⟨cstring_of_bytesAt ?_ ?_ hzero, hne, by dsimp only; omega⟩
    · rw [← hname]
      exact (hmounted.mounted i h hh).node.name
    · rw [← hname, (hremains.nodes i h hh).tail _ le_rfl (by rw [hname]; omega), hname, hnode]
      exact hends i f hf
  · intro i w h hw hh
    obtain ⟨f, hf, rfl⟩ := hpacked i w hw
    obtain ⟨h', hh', -, hcontentsLength⟩ := headersFrom_getElem (tableSize + 4) hf
    obtain ⟨-, hlow, hhigh⟩ := contents_at (tableSize + 4) himage.contents hf hh'
    rw [← hheaders, hh] at hh'
    cases hh'
    refine ⟨hcontentsLength, ?_⟩
    rw [hcontentsLength, hlength, imageSize]
    omega
  · intro i w h hw hh
    obtain ⟨f, hf, rfl⟩ := hpacked i w hw
    obtain ⟨h', hh', -, hcontentsLength⟩ := headersFrom_getElem (tableSize + 4) hf
    obtain ⟨hbytes, hlow, hhigh⟩ := contents_at (tableSize + 4) himage.contents hf hh'
    rw [← hheaders, hh] at hh'
    cases hh'
    refine hbytes.congr hsame ?_ ?_
    · have hat : headerAt location headers.length = location + 4 + 76 * headers.length := rfl
      omega
    · rw [hlength, imageSize]
      omega

/-- Before the heap exists a call of `kmalloc` changes no memory. -/
theorem kmalloc_same {fuel sz p : ℕ} (hk : k.kheap = none) (hrun : PandaOS.kmalloc fuel sz k = .ok (p, k')) :
    k'.mem = k.mem ∧ k'.kheap = none := by
  rw [kmalloc_of_none fuel hk] at hrun
  cases hrun
  exact ⟨rfl, hk⟩

/-- Behind the block for `dev` the three calls leave what the second one left. -/
theorem Served.behind {fuel : ℕ} (hserved : Served (PandaOS.kmalloc fuel) st (kept st location size) headers.length k
    root dev nodes kdev k') (h : Loaded k.mem st location size headers) (hk : k.kheap = none) :
    ∀ x, dev + sizeofFsNode ≤ x → k'.mem x = kdev.mem x := by
  obtain ⟨k1, k2, k3, hgrant1, hmake1, hgrant2, hmake2, hgrant3⟩ := hserved
  have hJ : (st.strJ, 2) ∈ kept st location size := by simp [kept]
  have hDev : (st.strDev, 4) ∈ kept st location size := by simp [kept]
  obtain ⟨m2, hrun2, -, hsame2, -⟩ := hgrant1.makeDirectory_spec hJ h.strJ (by decide) (by decide)
  rw [hrun2] at hmake1
  cases hmake1
  have hheap1 := (kmalloc_same hk hgrant1.run).2
  have hheap2 : kdev.kheap = none := (kmalloc_same (k := k1.withMem m2) hheap1 hgrant2.run).2
  have hstring : CString kdev.mem st.strDev nameDev := (h.congr hsame2).strDev.congr
    (hgrant2.same _ (List.mem_cons_of_mem _ hDev)) le_rfl (Nat.lt_succ_self _)
  obtain ⟨m4, hrun4, -, hoff4, -⟩ := makeDirectory_spec st hstring (by decide) (by decide)
    (hgrant2.apart _ (List.mem_cons_of_mem _ hDev))
  rw [hrun4] at hmake2
  cases hmake2
  have hmem3 := (kmalloc_same (k := kdev.withMem m4) hheap2 hgrant3.run).1
  intro x hx
  rw [hmem3]
  exact hoff4 x (Or.inr hx)

end PandaOS

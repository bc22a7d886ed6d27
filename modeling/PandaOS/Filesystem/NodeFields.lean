import PandaOS.Filesystem.Mounting

/-! The rest of what `initialise_initrd` leaves in a node: the function pointers that it clears, and behind the
characters of the name whatever the block held when `kmalloc` returned it. -/
namespace PandaOS
open ByteMemory Word32
set_option autoImplicit false
set_option maxHeartbeats 250000

/-- These fields of the node are 0. -/
def Unset (m : Mem) (node : ℕ) (fields : List ℕ) : Prop := ∀ o ∈ fields, load32 m (node + o) = 0

/-- The pointers that are cleared in the node of a directory. -/
def directoryUnset : List ℕ := [nodeRead, nodeWrite, nodeOpen, nodeClose]

/-- The pointers that are cleared in the node of a file and that are looked at through it. -/
def fileUnset : List ℕ := [nodeWrite, nodeOpen, nodeClose]

/-- A file's node as one round leaves it, on memory that was `m0`. -/
structure NodeRest (m0 m : Mem) (node : ℕ) (f : FileHeader) : Prop where
  unset : Unset m node fileUnset
  tail : ∀ x, node + f.name.length ≤ x → x < node + nodeMask → m x = m0 x

/-- What the loop finds from file `i` on. -/
structure Unmounted (m : Mem) (fs : Initrd) (location : ℕ) (files : List FileHeader) (i : ℕ) : Prop where
  fileHeaders : fs.fileHeaders = location + sizeofInitrdHeader
  count : load32 m location = files.length
  headers : ∀ j f, i ≤ j → files[j]? = some f → CString m (fs.fileHeader j + fileName) f.name ∧
    load32 m (fs.fileHeader j + fileOffset) = f.offset ∧ load32 m (fs.fileHeader j + fileLength) = f.length
  named : ∀ f ∈ files, f.name ≠ [] ∧ f.name.length ≤ 63
  apart : Apart (fs.rootNodes, sizeofFsNode * files.length)
    (location, sizeofInitrdHeader + sizeofFileHeader * files.length)

variable {m m' m0 : Mem} {st : Statics} {fs : Initrd} {kmalloc : Kmalloc} {k k' kdev : Kernel}
  {files : List FileHeader} {f : FileHeader} {l : List ℕ}
  {location size root dev nodes node header i n lit : ℕ}

theorem Unset.congr (h : Unset m node l) (hl : ∀ o ∈ l, o + 4 ≤ sizeofFsNode)
    (hm : SameOn m m' node (node + sizeofFsNode)) : Unset m' node l := by
  intro o ho
  have hfit := hl o ho
  rw [hm.load32_eq (by omega) (by omega), h o ho]

theorem NodeRest.congr (h : NodeRest m0 m node f) (hm : SameOn m m' node (node + sizeofFsNode)) :
    NodeRest m0 m' node f := by
  have hsize : nodeMask ≤ sizeofFsNode := by decide
  refine ⟨h.unset.congr (by decide) hm, fun x hl hh => ?_⟩
  rw [hm x (by omega) (by omega), h.tail x hl hh]

/-! ## One node -/

theorem makeDirectory_unset (hrun : makeDirectory st node lit k = .ok k') : Unset k'.mem node directoryUnset := by
  obtain ⟨m1, -, hrest⟩ := bind_eq_ok.mp hrun
  cases hrest
  have hfields : FieldsApart (offsets (directoryFields st)) := by
    rw [offsets_directoryFields, FieldsApart]
    decide
  intro o ho
  refine load32_storeFields hfields ?_ (by norm_num)
  unfold directoryUnset at ho
  simp only [List.mem_cons, List.not_mem_nil, or_false] at ho
  rcases ho with rfl | rfl | rfl | rfl <;> simp [directoryFields]

theorem offsets_fileFields_only (st : Statics) (i n : ℕ) :
    offsets (fileFields st i n) = [148, 144, 140, 156, 160, 172, 176, 164, 168, 152] := rfl

/-- One round clears the pointers, and of the name it writes only the characters. -/
theorem makeFile_rest (hrun : makeFile st location header node i m = .ok m')
    (hname : CString m (header + fileName) f.name) (hne : f.name ≠ []) (hn : f.name.length ≤ 63)
    (hapart : Apart (node, sizeofFsNode) (header, sizeofFileHeader)) : NodeRest m m' node f := by
  have hsizes : sizeofFsNode = 184 ∧ sizeofFileHeader = 76 ∧ nodeMask = 128 := ⟨rfl, rfl, rfl⟩
  have hfile : fileName = 1 ∧ fileOffset = 68 := ⟨rfl, rfl⟩
  obtain ⟨hsize1, hsize2, hsize3⟩ := hsizes
  obtain ⟨hfile1, hfile2⟩ := hfile
  unfold Apart at hapart
  dsimp only at hapart
  obtain ⟨m1, hm1⟩ : ∃ x, x = store32 m (header + fileOffset) (add32 (load32 m (header + fileOffset)) location) :=
    ⟨_, rfl⟩
  have hoff1 : SameOff m m1 (header + 68) (header + 72) := by
    rw [hm1]
    exact sameOff_store32 (by omega) (by omega)
  have hname1 : CString m1 (header + fileName) f.name :=
    hname.congr (hoff1.sameOn (Or.inl le_rfl)) le_rfl (by omega)
  have hd : node + f.name.length ≤ header + fileName ∨ header + fileName + f.name.length < node := by omega
  obtain ⟨m2, hcopy, -, hoff2⟩ := strcpy_spec hname1 hne (by unfold ADDRESS_SPACE; omega) hd
  rw [makeFile] at hrun
  dsimp only at hrun
  rw [← hm1, hcopy, ok_bind] at hrun
  cases hrun
  obtain ⟨m3, hm3⟩ : ∃ x, x = storeFields m2 node ownerFields := ⟨_, rfl⟩
  rw [← hm3]
  obtain ⟨length, hlength⟩ : ∃ x, x = load32 m3 (header + fileLength) := ⟨_, rfl⟩
  rw [← hlength]
  have hfields : FieldsApart (offsets (fileFields st i length)) := by
    rw [offsets_fileFields_only, FieldsApart]
    decide
  refine ⟨fun o ho => load32_storeFields hfields ?_ (by norm_num), fun x hl hh => ?_⟩
  · unfold fileUnset at ho
    simp only [List.mem_cons, List.not_mem_nil, or_false] at ho
    rcases ho with rfl | rfl | rfl <;> simp [fileFields]
  · have hoff3 : SameOff m2 m3 (node + 128) (node + 184) := by
      rw [hm3]
      exact sameOff_storeFields (by decide)
    have hoff4 : SameOff m3 (storeFields m3 node (fileFields st i length)) (node + 128) (node + 184) := by
      refine sameOff_storeFields ?_
      rw [offsets_fileFields_only]
      decide
    rw [hoff4 x (by omega), hoff3 x (by omega), hoff2 x (by omega), hoff1 x (by omega)]

/-! ## The loop -/

/-- One round: the node of file `i` is made, and the files behind it are as they were. -/
theorem Unmounted.round (h : Unmounted m fs location files i) (hf : files[i]? = some f) :
    ∃ m', makeFile st location (fs.fileHeader i) (fs.rootNode i) i m = .ok m' ∧
      NodeRest m m' (fs.rootNode i) f ∧ Unmounted m' fs location files (i + 1) ∧
      ∀ x, fs.rootNode (i + 1) ≤ x → x < fs.rootNode files.length → m' x = m x := by
  obtain ⟨hsize1, hsize2, hsize3⟩ : sizeofFsNode = 184 ∧ sizeofFileHeader = 76 ∧ sizeofInitrdHeader = 4 :=
    ⟨rfl, rfl, rfl⟩
  obtain ⟨hfile1, hfile2, hfile3⟩ : fileName = 1 ∧ fileOffset = 68 ∧ fileLength = 72 := ⟨rfl, rfl, rfl⟩
  obtain ⟨hlt, -⟩ := List.getElem?_eq_some_iff.mp hf
  have hbound : files.length < 4294967296 := h.count ▸ load32_lt m location
  have hheader : ∀ j, fs.fileHeader j = location + 4 + 76*j := by
    intro j
    rw [Initrd.fileHeader, h.fileHeaders, hsize3, hsize2]
  have hnode : ∀ j, fs.rootNode j = fs.rootNodes + 184*j := fun j => rfl
  have hregions := h.apart
  unfold Apart at hregions
  dsimp only at hregions
  rw [hsize1, hsize2, hsize3] at hregions
  obtain ⟨hname, hoffset, hlength⟩ := h.headers i f le_rfl hf
  obtain ⟨hne, hshort⟩ := h.named f (List.mem_of_getElem? hf)
  have hapart : Apart (fs.rootNode i, sizeofFsNode) (fs.fileHeader i, sizeofFileHeader) := by
    unfold Apart
    dsimp only
    rw [hheader, hnode]
    omega
  obtain ⟨m1, hrun, -, -, -, hframe⟩ := makeFile_spec st location i hname hne hshort hoffset hlength
    (by omega) hapart
  have hrest := makeFile_rest hrun hname hne hshort hapart
  rw [hheader, hnode] at hframe
  refine ⟨m1, hrun, hrest, ⟨h.fileHeaders, ?_, fun j g hj hg => ?_, h.named, h.apart⟩, fun x hl hh => ?_⟩
  · have hsame : SameOn m m1 location (location + 4) := fun x hl hh => hframe x (by omega) (by omega)
    rw [hsame.load32_eq le_rfl le_rfl, h.count]
  · obtain ⟨hjlt, -⟩ := List.getElem?_eq_some_iff.mp hg
    obtain ⟨hname', hoffset', hlength'⟩ := h.headers j g (by omega) hg
    obtain ⟨-, hshort'⟩ := h.named g (List.mem_of_getElem? hg)
    have hsame : SameOn m m1 (fs.fileHeader j) (fs.fileHeader j + 76) := by
      rw [hheader]
      exact fun x hl hh => hframe x (by omega) (by omega)
    refine ⟨hname'.congr hsame (by omega) (by omega), ?_, ?_⟩
    · rw [hsame.load32_eq (by omega) (by omega), hoffset']
    · rw [hsame.load32_eq (by omega) (by omega), hlength']
  · rw [hnode] at hl hh
    exact hframe x (by omega) (by omega)

/-- The loop from file `i` on, with `d` files left: every node has its rest. -/
theorem filesLoop_rest (d : ℕ) (hd : i + d = files.length) (h : Unmounted m fs location files i)
    (hrun : filesLoop st fs location n i m = .ok m') (hn : d < n) :
    ∀ j f, i ≤ j → files[j]? = some f → NodeRest m m' (fs.rootNode j) f := by
  induction d generalizing i m n with
  | zero =>
    intro j f hj hf
    obtain ⟨hlt, -⟩ := List.getElem?_eq_some_iff.mp hf
    omega
  | succ d ih =>
    obtain ⟨n, rfl⟩ : ∃ x, n = x + 1 := ⟨n - 1, by omega⟩
    have hlt : i < files.length := by omega
    obtain ⟨f, hf⟩ : ∃ f, files[i]? = some f := ⟨_, List.getElem?_eq_getElem hlt⟩
    obtain ⟨m1, hrun1, hrest1, h1, hbehind1⟩ :
        ∃ m1, makeFile st location (fs.fileHeader i) (fs.rootNode i) i m = .ok m1 ∧ _ := h.round hf
    rw [filesLoop, if_pos (by rw [h.count]; exact hlt), hrun1, ok_bind] at hrun
    have hsize : sizeofFsNode = 184 := rfl
    have hmask : nodeMask = 128 := rfl
    have hnode : ∀ j, fs.rootNode j = fs.rootNodes + 184*j := fun j => rfl
    intro j g hj hg
    obtain ⟨hjlt, -⟩ := List.getElem?_eq_some_iff.mp hg
    rcases Nat.eq_or_lt_of_le hj with rfl | hgt
    · rw [hf] at hg
      cases hg
      -- the later rounds leave this node alone
      obtain ⟨m2, hrun2, -, hframe2⟩ := filesLoop_spec st d (by omega) (by omega : d < n) h1.fileHeaders h1.count
        h1.headers h1.named h1.apart
      rw [hrun] at hrun2
      cases hrun2
      have hapart := h.apart
      have hheader : ∀ j, fs.fileHeader j = location + 4 + 76*j := by
        intro j
        rw [Initrd.fileHeader, h.fileHeaders]
        rfl
      obtain ⟨hsize2, hsize3⟩ : sizeofFileHeader = 76 ∧ sizeofInitrdHeader = 4 := ⟨rfl, rfl⟩
      unfold Apart at hapart
      dsimp only at hapart
      rw [hsize, hsize2, hsize3] at hapart
      refine hrest1.congr fun x hl hh => hframe2 x ?_ ?_
      · rw [hheader, hheader]
        rw [hnode] at hl hh
        omega
      · rw [hnode] at hl hh ⊢
        omega
    · have hrest := ih (by omega) h1 hrun (by omega) j g hgt hg
      refine ⟨hrest.unset, fun x hl hh => ?_⟩
      rw [hrest.tail x hl hh]
      rw [hnode] at hl hh
      refine hbehind1 x ?_ ?_
      · rw [hnode]
        omega
      · rw [hnode]
        omega

/-! ## The whole function -/

/-- Beside what `initialise_mounts` says: the cleared pointers of every node, the ends of the names, and that the loop
writes only to the image and the nodes of the files. -/
structure Remains (k' : Kernel) (m : Mem) (fs : Initrd) (location size : ℕ) (files : List FileHeader) : Prop where
  root : Unset m fs.initrdRoot directoryUnset
  dev : Unset m fs.initrdDev directoryUnset
  nodes : ∀ i f, files[i]? = some f → NodeRest k'.mem m (fs.rootNode i) f
  rest : ∀ r, Apart r (location, size) → Apart (fs.rootNodes, sizeofFsNode * files.length) r → SameOn k'.mem m r.1 (r.1 + r.2)

theorem initialise_remains (h : Loaded k.mem st location size files)
    (hserved : Served kmalloc st (kept st location size) files.length k root dev nodes kdev k')
    {m' : Mem} (hrun : initialiseInitrd kmalloc st location k =
      .ok ((root, mountedAs location root dev nodes files.length), k'.withMem m')) :
    Remains k' m' (mountedAs location root dev nodes files.length) location size files := by
  obtain ⟨k1, k2, k3, hgrant1, hmake1, hgrant2, hmake2, hgrant3⟩ := hserved
  have himage : (location, size) ∈ kept st location size := List.mem_cons_self
  have hJ : (st.strJ, 2) ∈ kept st location size := by simp [kept]
  have hDev : (st.strDev, 4) ∈ kept st location size := by simp [kept]
  have hroot2 := makeDirectory_unset hmake1
  have hdev4 := makeDirectory_unset hmake2
  obtain ⟨m2, hrun2, -, hsame2, -⟩ := hgrant1.makeDirectory_spec hJ h.strJ (by decide) (by decide)
  have hmake1' := hmake1
  rw [hrun2] at hmake1'
  cases hmake1'
  obtain ⟨m4, hrun4, -, hsame4, -⟩ := hgrant2.makeDirectory_spec (List.mem_cons_of_mem _ hDev)
    (h.congr hsame2).strDev (by decide) (by decide)
  have hmake2' := hmake2
  rw [hrun4] at hmake2'
  cases hmake2'
  have hkept4 : ∀ r ∈ kept st location size, SameOn k.mem m4 r.1 (r.1 + r.2) :=
    fun r hr => (hsame2 r hr).trans (hsame4 r (List.mem_cons_of_mem _ hr))
  have hload4 := h.congr hkept4
  have hload5 : Loaded k'.mem st location size files := hload4.congr fun r hr =>
    hgrant3.same r (List.mem_cons_of_mem _ (List.mem_cons_of_mem _ hr))
  have hroot5 : Unset k'.mem root directoryUnset :=
    (hroot2.congr (by decide) (hsame4 _ List.mem_cons_self)).congr (by decide)
      (hgrant3.same _ (List.mem_cons_of_mem _ List.mem_cons_self))
  have hdev5 : Unset k'.mem dev directoryUnset := hdev4.congr (by decide) (hgrant3.same _ List.mem_cons_self)
  obtain ⟨fs, hfs⟩ : ∃ x, x = mountedAs location root dev nodes files.length := ⟨_, rfl⟩
  have hnodes := hgrant3.apart _ (List.mem_cons_of_mem _ (List.mem_cons_of_mem _ himage))
  obtain ⟨m6, hloop, -, hframe, -⟩ : ∃ m6, filesLoop st (mountedAs location root dev nodes files.length) location
      ADDRESS_SPACE 0 k'.mem = .ok m6 ∧ _ := filesLoop_mounts hload5 hnodes
  have hrootSame := hframe (root, sizeofFsNode) (hgrant1.apart _ himage)
    (hgrant3.apart _ (List.mem_cons_of_mem _ List.mem_cons_self))
  have hdevSame := hframe (dev, sizeofFsNode) (hgrant2.apart _ (List.mem_cons_of_mem _ himage))
    (hgrant3.apart _ List.mem_cons_self)
  -- the function runs this loop on what the third call of `kmalloc` left
  have hm6 : m' = m6 := by
    have hbytes : sizeofFsNode * load32 m4 location % 4294967296 = sizeofFsNode * files.length := by
      have hnonnull := hgrant3.nonnull
      have hfits := hgrant3.fits
      rw [hload4.count]
      apply Nat.mod_eq_of_lt
      omega
    rw [initialiseInitrd, hgrant1.run, ok_bind] at hrun
    dsimp only at hrun
    rw [hrun2, ok_bind, hgrant2.run, ok_bind] at hrun
    dsimp only at hrun
    rw [hrun4, ok_bind, Kernel.withMem_mem, hbytes, hgrant3.run, ok_bind] at hrun
    dsimp only at hrun
    rw [hload5.count] at hrun
    unfold mountedAs at hloop
    rw [hloop, ok_bind] at hrun
    exact (congrArg (fun r : Result ((ℕ × Initrd) × Kernel) => (r.toOption.map fun p => p.2.mem).getD m6) hrun).symm
  rw [hm6]
  have hstart : Unmounted k'.mem (mountedAs location root dev nodes files.length) location files 0 := by
    refine ⟨rfl, hload5.count, fun j f _ hf => hload5.headers j f hf, hload5.named, ?_⟩
    have htable := hload5.table
    unfold Apart at hnodes ⊢
    dsimp only [mountedAs] at hnodes ⊢
    omega
  have hfuel : files.length < ADDRESS_SPACE := by
    have hlt := load32_lt k'.mem location
    rw [hload5.count] at hlt
    exact hlt
  exact ⟨hroot5.congr (by decide) hrootSame, hdev5.congr (by decide) hdevSame,
    fun i f hf => filesLoop_rest files.length (Nat.zero_add _) hstart hloop hfuel i f (Nat.zero_le _) hf, hframe⟩

end PandaOS

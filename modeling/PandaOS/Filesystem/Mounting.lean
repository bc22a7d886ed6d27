import PandaOS.Filesystem.Initrd

/-! What `initialise_initrd` leaves: a node for the root, one for `dev`, and one for each file of the
image, with the offsets in the image relocated. The blocks that `kmalloc` hands out are apart from
the image, the strings and one another, and their earlier contents are arbitrary. -/
namespace PandaOS
open ByteMemory Word32
set_option autoImplicit false
set_option maxHeartbeats 250000

/-! ## Grants -/

/-- `kmalloc(sz)` returns `p`, which is apart from the regions of `keep`, and changes nothing there. -/
structure Grant (kmalloc : Kmalloc) (keep : List (ℕ × ℕ)) (sz : ℕ) (k : Kernel) (p : ℕ) (k' : Kernel) : Prop where
  run : kmalloc sz k = .ok (p, k')
  nonnull : p ≠ 0
  fits : p + sz ≤ 4294967296
  apart : ∀ r ∈ keep, Apart (p, sz) r
  same : ∀ r ∈ keep, SameOn k.mem k'.mem r.1 (r.1 + r.2)

/-- The three calls that `initialise_initrd` makes for `n` files; `kdev` is the kernel when the block
for `dev` has been handed out. -/
def Served (kmalloc : Kmalloc) (st : Statics) (keep : List (ℕ × ℕ)) (n : ℕ) (k : Kernel)
    (root dev nodes : ℕ) (kdev k' : Kernel) : Prop :=
  ∃ k1 k2 k3, Grant kmalloc keep sizeofFsNode k root k1 ∧ makeDirectory st root st.strJ k1 = .ok k2 ∧
    Grant kmalloc ((root, sizeofFsNode) :: keep) sizeofFsNode k2 dev kdev ∧
    makeDirectory st dev st.strDev kdev = .ok k3 ∧
    Grant kmalloc ((dev, sizeofFsNode) :: (root, sizeofFsNode) :: keep) (sizeofFsNode * n) k3 nodes k'

/-! ## The image -/

/-- What the header of a file in the image says. -/
structure FileHeader where
  name : List UInt8
  offset : ℕ
  length : ℕ

/-- `&file_headers[i]` for an image at `location`. -/
def headerAt (location i : ℕ) : ℕ := location + sizeofInitrdHeader + sizeofFileHeader*i

def nameJ : List UInt8 := [0x4A]

def nameDev : List UInt8 := [0x64, 0x65, 0x76]

/-- The regions that must stay as they are: the image, the two strings, and the static `dirent`. -/
def kept (st : Statics) (location size : ℕ) : List (ℕ × ℕ) :=
  [(location, size), (st.strJ, 2), (st.strDev, 4), (st.dirent, 132)]

/-- An image of `size` bytes with these headers is in memory at `location`. -/
structure Loaded (m : Mem) (st : Statics) (location size : ℕ) (files : List FileHeader) : Prop where
  count : load32 m location = files.length
  headers : ∀ i f, files[i]? = some f → CString m (headerAt location i + fileName) f.name ∧
    load32 m (headerAt location i + fileOffset) = f.offset ∧
    load32 m (headerAt location i + fileLength) = f.length
  named : ∀ f ∈ files, f.name ≠ [] ∧ f.name.length ≤ 63
  table : sizeofInitrdHeader + sizeofFileHeader * files.length ≤ size
  span : location + size ≤ 4294967296
  strJ : CString m st.strJ nameJ
  strDev : CString m st.strDev nameDev
  apart : (kept st location size).Pairwise Apart

/-! ## The nodes -/

structure DirectoryNode (m : Mem) (st : Statics) (node : ℕ) (name : List UInt8) : Prop where
  name : BytesAt m node name
  mask : load32 m (node + nodeMask) = 0
  flags : load32 m (node + nodeFlags) = FS_DIRECTORY
  inode : load32 m (node + nodeInode) = 0
  readdir : load32 m (node + nodeReaddir) = st.initrdReaddir
  finddir : load32 m (node + nodeFinddir) = st.initrdFinddir

structure FileNode (m : Mem) (st : Statics) (node i : ℕ) (f : FileHeader) : Prop where
  name : BytesAt m node f.name
  mask : load32 m (node + nodeMask) = 0
  flags : load32 m (node + nodeFlags) = FS_FILE
  inode : load32 m (node + nodeInode) = i
  length : load32 m (node + nodeLength) = f.length
  read : load32 m (node + nodeRead) = st.initrdRead

variable {m m' : Mem} {st : Statics} {fs : Initrd} {kmalloc : Kmalloc} {keep : List (ℕ × ℕ)}
  {k k' kdev : Kernel} {files : List FileHeader} {f : FileHeader} {name : List UInt8}
  {location size root dev nodes node header i n : ℕ}

theorem DirectoryNode.congr (h : DirectoryNode m st node name) (hn : name.length ≤ sizeofFsNode)
    (hm : SameOn m m' node (node + sizeofFsNode)) : DirectoryNode m' st node name := by
  have hfield : ∀ o, o + 4 ≤ sizeofFsNode → load32 m' (node + o) = load32 m (node + o) :=
    fun o ho => hm.load32_eq (by omega) (by omega)
  refine ⟨h.name.congr hm le_rfl (by omega), ?_, ?_, ?_, ?_, ?_⟩
  · rw [hfield _ (by decide), h.mask]
  · rw [hfield _ (by decide), h.flags]
  · rw [hfield _ (by decide), h.inode]
  · rw [hfield _ (by decide), h.readdir]
  · rw [hfield _ (by decide), h.finddir]

theorem FileNode.congr (h : FileNode m st node i f) (hn : f.name.length ≤ sizeofFsNode)
    (hm : SameOn m m' node (node + sizeofFsNode)) : FileNode m' st node i f := by
  have hfield : ∀ o, o + 4 ≤ sizeofFsNode → load32 m' (node + o) = load32 m (node + o) :=
    fun o ho => hm.load32_eq (by omega) (by omega)
  refine ⟨h.name.congr hm le_rfl (by omega), ?_, ?_, ?_, ?_, ?_⟩
  · rw [hfield _ (by decide), h.mask]
  · rw [hfield _ (by decide), h.flags]
  · rw [hfield _ (by decide), h.inode]
  · rw [hfield _ (by decide), h.length]
  · rw [hfield _ (by decide), h.read]

theorem offsets_directoryFields (st : Statics) : offsets (directoryFields st) =
    [148, 144, 136, 132, 128, 140, 156, 160, 164, 168, 172, 176, 180, 152] := rfl

theorem offsets_fileFields (st : Statics) (i n : ℕ) : offsets (ownerFields ++ fileFields st i n) =
    [136, 132, 128, 148, 144, 140, 156, 160, 172, 176, 164, 168, 152] := rfl

/-- `makeDirectory` writes only the node, and of its name only the characters. -/
theorem makeDirectory_spec (st : Statics) {lit : ℕ} (hlit : CString k.mem lit name) (hne : name ≠ []) (hn : name.length ≤ 63)
    (hapart : Apart (node, sizeofFsNode) (lit, name.length + 1)) :
    ∃ m', makeDirectory st node lit k = .ok (k.withMem m') ∧ DirectoryNode m' st node name ∧
      SameOff k.mem m' node (node + sizeofFsNode) ∧
      ∀ x, node + name.length ≤ x → x < node + nodeMask → m' x = k.mem x := by
  have hsize : sizeofFsNode = 184 := rfl
  have hmask : nodeMask = 128 := rfl
  unfold Apart at hapart
  dsimp only at hapart
  have hd : node + name.length ≤ lit ∨ lit + name.length < node := by omega
  obtain ⟨m1, hcopy, hbytes, hoff1⟩ := strcpy_spec hlit hne (by unfold ADDRESS_SPACE; omega) hd
  obtain ⟨m2, hm2⟩ : ∃ x, x = storeFields m1 node (directoryFields st) := ⟨_, rfl⟩
  have hoff2 : SameOff m1 m2 (node + nodeMask) (node + sizeofFsNode) := by
    rw [hm2]
    refine sameOff_storeFields ?_
    rw [offsets_directoryFields]
    decide
  have hfields : FieldsApart (offsets (directoryFields st)) := by
    rw [offsets_directoryFields, FieldsApart]
    decide
  have hfield : ∀ o v, (o, v) ∈ directoryFields st → v < 4294967296 → load32 m2 (node + o) = v := by
    intro o v hmem hv
    rw [hm2]
    exact load32_storeFields hfields hmem hv
  refine ⟨m2, ?_, ⟨?_, ?_, ?_, ?_, ?_, ?_⟩, ?_, ?_⟩
  · rw [makeDirectory, hcopy, ok_bind, ← hm2]
    rfl
  · exact hbytes.congr (hoff2.sameOn (Or.inl (by omega : node + name.length ≤ _))) le_rfl le_rfl
  · exact hfield _ _ (by simp [directoryFields]) (by norm_num)
  · exact hfield _ _ (by simp [directoryFields]) (by decide)
  · exact hfield _ _ (by simp [directoryFields]) (by norm_num)
  · exact hfield _ _ (by simp [directoryFields]) st.readdir_pos.2
  · exact hfield _ _ (by simp [directoryFields]) st.finddir_pos.2
  · exact (hoff1.mono le_rfl (by omega)).trans (hoff2.mono (by omega) le_rfl)
  · intro x hl hh
    rw [hoff2 x (by omega), hoff1 x (by omega)]

/-! ## The loop over the files -/

/-- One round: the node, the relocated offset, and nothing else. -/
theorem makeFile_spec (st : Statics) (location i : ℕ) (hname : CString m (header + fileName) f.name) (hne : f.name ≠ [])
    (hn : f.name.length ≤ 63) (hoffset : load32 m (header + fileOffset) = f.offset)
    (hlength : load32 m (header + fileLength) = f.length) (hi : i < 4294967296)
    (hapart : Apart (node, sizeofFsNode) (header, sizeofFileHeader)) :
    ∃ m', makeFile st location header node i m = .ok m' ∧ FileNode m' st node i f ∧
      load32 m' (header + fileOffset) = add32 f.offset location ∧
      load32 m' (header + fileLength) = f.length ∧
      ∀ x, (x < header + fileOffset ∨ header + fileLength ≤ x) → (x < node ∨ node + sizeofFsNode ≤ x) →
        m' x = m x := by
  have hsize : sizeofFsNode = 184 := rfl
  have hheader : sizeofFileHeader = 76 := rfl
  have hmask : nodeMask = 128 := rfl
  have hfile : fileName = 1 ∧ fileOffset = 68 ∧ fileLength = 72 := ⟨rfl, rfl, rfl⟩
  obtain ⟨hfile1, hfile2, hfile3⟩ := hfile
  unfold Apart at hapart
  dsimp only at hapart
  obtain ⟨m1, hm1⟩ : ∃ x, x = store32 m (header + fileOffset) (add32 f.offset location) := ⟨_, rfl⟩
  have hoff1 : SameOff m m1 (header + fileOffset) (header + fileLength) := by
    rw [hm1]
    exact sameOff_store32 le_rfl (by omega)
  have hname1 : CString m1 (header + fileName) f.name :=
    hname.congr (hoff1.sameOn (Or.inl le_rfl)) le_rfl (by omega)
  have hd : node + f.name.length ≤ header + fileName ∨ header + fileName + f.name.length < node := by omega
  obtain ⟨m2, hcopy, hbytes, hoff2⟩ := strcpy_spec hname1 hne (by unfold ADDRESS_SPACE; omega) hd
  have hoff2' : SameOff m1 m2 node (node + nodeMask) := hoff2.mono le_rfl (by omega)
  obtain ⟨m3, hm3⟩ : ∃ x, x = storeFields m2 node (ownerFields ++ fileFields st i f.length) := ⟨_, rfl⟩
  have hoff3 : SameOff m2 m3 (node + nodeMask) (node + sizeofFsNode) := by
    rw [hm3]
    refine sameOff_storeFields ?_
    rw [offsets_fileFields]
    decide
  have hread : load32 (storeFields m2 node ownerFields) (header + fileLength) = f.length := by
    have howner : SameOff m2 (storeFields m2 node ownerFields) (node + nodeMask) (node + sizeofFsNode) :=
      sameOff_storeFields (by decide)
    rw [howner.load32_eq (by omega), hoff2'.load32_eq (by omega), hoff1.load32_eq (by omega), hlength]
  have hfields : FieldsApart (offsets (ownerFields ++ fileFields st i f.length)) := by
    rw [offsets_fileFields, FieldsApart]
    decide
  have hfield : ∀ o v, (o, v) ∈ ownerFields ++ fileFields st i f.length → v < 4294967296 →
      load32 m3 (node + o) = v := by
    intro o v hmem hv
    rw [hm3]
    exact load32_storeFields hfields hmem hv
  refine ⟨m3, ?_, ⟨?_, ?_, ?_, ?_, ?_, ?_⟩, ?_, ?_, ?_⟩
  · rw [makeFile, hoffset]
    dsimp only
    rw [← hm1, hcopy, ok_bind, hread, storeFields_append, ← hm3]
    rfl
  · exact hbytes.congr (hoff3.sameOn (Or.inl (by omega : node + f.name.length ≤ _))) le_rfl le_rfl
  · exact hfield _ _ (by simp [ownerFields]) (by norm_num)
  · exact hfield _ _ (by simp [fileFields]) (by decide)
  · exact hfield _ _ (by simp [fileFields]) hi
  · exact hfield _ _ (by simp [fileFields]) (hlength ▸ load32_lt _ _)
  · exact hfield _ _ (by simp [fileFields]) st.read_pos.2
  · rw [hoff3.load32_eq (by omega), hoff2'.load32_eq (by omega), hm1]
    exact load32_store32_of_lt (add32_lt _ _)
  · rw [hoff3.load32_eq (by omega), hoff2'.load32_eq (by omega), hoff1.load32_eq (by omega), hlength]
  · intro x hx hnode
    rw [hoff3 x (by omega), hoff2' x (by omega), hoff1 x hx]

/-- A file is mounted: its header is relocated and its node made. -/
structure FileMounted (m : Mem) (st : Statics) (fs : Initrd) (location i : ℕ) (f : FileHeader) : Prop where
  offset : load32 m (fs.fileHeader i + fileOffset) = add32 f.offset location
  length : load32 m (fs.fileHeader i + fileLength) = f.length
  node : FileNode m st (fs.rootNode i) i f

theorem FileMounted.congr (h : FileMounted m st fs location i f) (hn : f.name.length ≤ 63)
    (hheader : SameOn m m' (fs.fileHeader i + fileOffset) (fs.fileHeader (i + 1)))
    (hnode : SameOn m m' (fs.rootNode i) (fs.rootNode (i + 1))) : FileMounted m' st fs location i f := by
  have hnext : fs.fileHeader (i + 1) = fs.fileHeader i + 76 ∧ fs.rootNode (i + 1) = fs.rootNode i + 184 := by
    unfold Initrd.fileHeader Initrd.rootNode sizeofFileHeader sizeofFsNode
    omega
  have hfile : fileOffset = 68 ∧ fileLength = 72 := ⟨rfl, rfl⟩
  obtain ⟨hfile2, hfile3⟩ := hfile
  refine ⟨?_, ?_, h.node.congr (hn.trans (by decide)) (hnode.mono le_rfl (by rw [hnext.2]; rfl))⟩
  · rw [hheader.load32_eq le_rfl (by omega), h.offset]
  · rw [hheader.load32_eq (by omega) (by omega), h.length]

/-- The loop from file `i` on, with `d` files left. -/
theorem filesLoop_spec (st : Statics) (d : ℕ) (hd : i + d = files.length) (hn : d < n)
    (hfs : fs.fileHeaders = location + sizeofInitrdHeader) (hcount : load32 m location = files.length)
    (hheaders : ∀ j f, i ≤ j → files[j]? = some f → CString m (fs.fileHeader j + fileName) f.name ∧
      load32 m (fs.fileHeader j + fileOffset) = f.offset ∧ load32 m (fs.fileHeader j + fileLength) = f.length)
    (hnamed : ∀ f ∈ files, f.name ≠ [] ∧ f.name.length ≤ 63)
    (hapart : Apart (fs.rootNodes, sizeofFsNode * files.length)
      (location, sizeofInitrdHeader + sizeofFileHeader * files.length)) :
    ∃ m', filesLoop st fs location n i m = .ok m' ∧
      (∀ j f, i ≤ j → files[j]? = some f → FileMounted m' st fs location j f) ∧
      ∀ x, (x < fs.fileHeader i + fileOffset ∨ fs.fileHeader files.length ≤ x) →
        (x < fs.rootNode i ∨ fs.rootNode files.length ≤ x) → m' x = m x := by
  have hsizes : sizeofFsNode = 184 ∧ sizeofFileHeader = 76 ∧ sizeofInitrdHeader = 4 := ⟨rfl, rfl, rfl⟩
  have hfile : fileName = 1 ∧ fileOffset = 68 ∧ fileLength = 72 := ⟨rfl, rfl, rfl⟩
  obtain ⟨hsize1, hsize2, hsize3⟩ := hsizes
  obtain ⟨hfile1, hfile2, hfile3⟩ := hfile
  have hbound : files.length < 4294967296 := hcount ▸ load32_lt m location
  have hheader : ∀ j, fs.fileHeader j = location + 4 + 76*j := by
    intro j
    rw [Initrd.fileHeader, hfs, hsize3, hsize2]
  have hnode : ∀ j, fs.rootNode j = fs.rootNodes + 184*j := fun j => rfl
  unfold Apart at hapart
  dsimp only at hapart
  rw [hsize1, hsize2, hsize3] at hapart
  induction d generalizing i m n with
  | zero =>
    obtain ⟨n, rfl⟩ : ∃ x, n = x + 1 := ⟨n - 1, by omega⟩
    refine ⟨m, by rw [filesLoop, if_neg (by omega)], fun j f hj hf => ?_, fun x _ _ => rfl⟩
    obtain ⟨hlt, -⟩ := List.getElem?_eq_some_iff.mp hf
    omega
  | succ d ih =>
    obtain ⟨n, rfl⟩ : ∃ x, n = x + 1 := ⟨n - 1, by omega⟩
    have hlt : i < files.length := by omega
    obtain ⟨f, hf⟩ : ∃ f, files[i]? = some f := ⟨_, List.getElem?_eq_getElem hlt⟩
    obtain ⟨hname, hoffset, hlength⟩ := hheaders i f le_rfl hf
    obtain ⟨hne, hshort⟩ := hnamed f (List.mem_of_getElem? hf)
    have hapart1 : Apart (fs.rootNode i, sizeofFsNode) (fs.fileHeader i, sizeofFileHeader) := by
      unfold Apart
      dsimp only
      rw [hheader, hnode]
      omega
    obtain ⟨m1, hrun1, hnode1, hoffset1, hlength1, hrest1⟩ := makeFile_spec st location i hname hne hshort
      hoffset hlength (by omega) hapart1
    rw [hheader, hnode] at hrest1
    have hcount1 : load32 m1 location = files.length := by
      have hsame : SameOn m m1 location (location + 4) :=
        fun x hl hh => hrest1 x (by omega) (by omega)
      rw [hsame.load32_eq le_rfl le_rfl, hcount]
    have hheaders1 : ∀ j f, i + 1 ≤ j → files[j]? = some f → CString m1 (fs.fileHeader j + fileName) f.name ∧
        load32 m1 (fs.fileHeader j + fileOffset) = f.offset ∧
        load32 m1 (fs.fileHeader j + fileLength) = f.length := by
      intro j g hj hg
      obtain ⟨hjlt, -⟩ := List.getElem?_eq_some_iff.mp hg
      obtain ⟨hname', hoffset', hlength'⟩ := hheaders j g (by omega) hg
      obtain ⟨-, hshort'⟩ := hnamed g (List.mem_of_getElem? hg)
      have hsame : SameOn m m1 (fs.fileHeader j) (fs.fileHeader j + 76) := by
        rw [hheader]
        exact fun x hl hh => hrest1 x (by omega) (by omega)
      refine ⟨hname'.congr hsame (by omega) (by omega), ?_, ?_⟩
      · rw [hsame.load32_eq (by omega) (by omega), hoffset']
      · rw [hsame.load32_eq (by omega) (by omega), hlength']
    obtain ⟨m2, hrun2, hmounted2, hrest2⟩ := ih (by omega) (by omega : d < n) hcount1 hheaders1
    rw [hheader, hheader, hnode, hnode] at hrest2
    refine ⟨m2, ?_, ?_, ?_⟩
    · rw [filesLoop, if_pos (by omega), hrun1, ok_bind, hrun2]
    · intro j g hj hg
      rcases Nat.eq_or_lt_of_le hj with heq | hgt
      · rw [← heq] at hg ⊢
        rw [hf] at hg
        cases hg
        have hmounted1 : FileMounted m1 st fs location i f := ⟨hoffset1, hlength1, hnode1⟩
        have hsame : SameOn m1 m2 (fs.fileHeader i + fileOffset) (fs.fileHeader (i + 1)) := by
          rw [hheader, hheader]
          exact fun x hl hh => hrest2 x (by omega) (by omega)
        have hsame' : SameOn m1 m2 (fs.rootNode i) (fs.rootNode (i + 1)) := by
          rw [hnode, hnode]
          exact fun x hl hh => hrest2 x (by omega) (by omega)
        exact hmounted1.congr hshort hsame hsame'
      · exact hmounted2 j g hgt hg
    · intro x hx hxn
      rw [hheader, hheader] at hx
      rw [hnode, hnode] at hxn
      rw [hrest2 x (by omega) (by omega), hrest1 x (by omega) (by omega)]

/-! ## The whole function -/

/-- The globals when `initialise_initrd` has returned. -/
def mountedAs (location root dev nodes n : ℕ) : Initrd := ⟨location + sizeofInitrdHeader, root, dev, nodes, n⟩

/-- The regions of the mounted file system. -/
def regions (st : Statics) (fs : Initrd) (location size : ℕ) : List (ℕ × ℕ) :=
  (fs.rootNodes, sizeofFsNode * fs.nrootNodes) :: (fs.initrdDev, sizeofFsNode) ::
    (fs.initrdRoot, sizeofFsNode) :: kept st location size

/-- The file system of an image is mounted. -/
structure Mounted (m : Mem) (st : Statics) (fs : Initrd) (location size : ℕ) (files : List FileHeader) : Prop where
  count : fs.nrootNodes = files.length
  fileHeaders : fs.fileHeaders = location + sizeofInitrdHeader
  mounted : ∀ i f, files[i]? = some f → FileMounted m st fs location i f
  root : DirectoryNode m st fs.initrdRoot nameJ
  dev : DirectoryNode m st fs.initrdDev nameDev
  strDev : CString m st.strDev nameDev
  nonnull : fs.initrdDev ≠ 0 ∧ fs.rootNodes ≠ 0
  fits : fs.rootNodes + sizeofFsNode * files.length ≤ 4294967296
  apart : (regions st fs location size).Pairwise Apart

/-- The image is as it was, where the regions to be kept are. -/
theorem Loaded.congr (h : Loaded m st location size files)
    (hm : ∀ r ∈ kept st location size, SameOn m m' r.1 (r.1 + r.2)) : Loaded m' st location size files := by
  have hsize : sizeofFileHeader = 76 ∧ sizeofInitrdHeader = 4 := ⟨rfl, rfl⟩
  obtain ⟨hsize1, hsize2⟩ := hsize
  have hfile : fileName = 1 ∧ fileOffset = 68 ∧ fileLength = 72 := ⟨rfl, rfl, rfl⟩
  have himage : SameOn m m' location (location + size) := hm (location, size) List.mem_cons_self
  have hJ : SameOn m m' st.strJ (st.strJ + 2) := hm (st.strJ, 2) (by simp [kept])
  have hDev : SameOn m m' st.strDev (st.strDev + 4) := hm (st.strDev, 4) (by simp [kept])
  have htable := h.table
  rw [hsize1, hsize2] at htable
  refine { h with count := ?_, headers := ?_, strJ := ?_, strDev := ?_ }
  · rw [himage.load32_eq le_rfl (by omega), h.count]
  · intro i f hf
    obtain ⟨hi, -⟩ := List.getElem?_eq_some_iff.mp hf
    have hat : headerAt location i = location + 4 + 76 * i := rfl
    obtain ⟨-, hshort⟩ := h.named f (List.mem_of_getElem? hf)
    obtain ⟨hname, hoffset, hlength⟩ := h.headers i f hf
    refine ⟨hname.congr himage (by omega) (by omega), ?_, ?_⟩
    · rw [himage.load32_eq (by omega) (by omega), hoffset]
    · rw [himage.load32_eq (by omega) (by omega), hlength]
  · exact h.strJ.congr hJ le_rfl (Nat.lt_succ_self _)
  · exact h.strDev.congr hDev le_rfl (Nat.lt_succ_self _)

/-- A block is granted and made a directory node: the regions to be kept stay as they are. -/
theorem Grant.makeDirectory_spec {k1 : Kernel} {lit : ℕ} (h : Grant kmalloc keep sizeofFsNode k node k1)
    (hkeep : (lit, name.length + 1) ∈ keep) (hlit : CString k.mem lit name) (hne : name ≠ [])
    (hn : name.length ≤ 63) :
    ∃ m', makeDirectory st node lit k1 = .ok (k1.withMem m') ∧ DirectoryNode m' st node name ∧
      (∀ r ∈ keep, SameOn k.mem m' r.1 (r.1 + r.2)) ∧
      ∀ x, node + name.length ≤ x → x < node + nodeMask → m' x = k1.mem x := by
  have hlit1 : CString k1.mem lit name := hlit.congr (h.same _ hkeep) le_rfl (Nat.lt_succ_self _)
  obtain ⟨m', hrun, hnode, hoff, htail⟩ := PandaOS.makeDirectory_spec st hlit1 hne hn (h.apart _ hkeep)
  exact ⟨m', hrun, hnode, fun r hr => (h.same r hr).trans ((h.apart r hr).sameOn hoff), htail⟩

/-- The whole loop: what is apart from the image and from the nodes stays, and so does the part of the
image behind the headers. -/
theorem filesLoop_mounts (h : Loaded m st location size files)
    (hnodes : Apart (nodes, sizeofFsNode * files.length) (location, size)) :
    ∃ m', filesLoop st (mountedAs location root dev nodes files.length) location ADDRESS_SPACE 0 m = .ok m' ∧
      (∀ i f, files[i]? = some f →
        FileMounted m' st (mountedAs location root dev nodes files.length) location i f) ∧
      (∀ r, Apart r (location, size) → Apart (nodes, sizeofFsNode * files.length) r →
        SameOn m m' r.1 (r.1 + r.2)) ∧
      SameOn m m' (headerAt location files.length) (location + size) := by
  have hsizes : sizeofFsNode = 184 ∧ sizeofFileHeader = 76 ∧ sizeofInitrdHeader = 4 := ⟨rfl, rfl, rfl⟩
  obtain ⟨hsize1, hsize2, hsize3⟩ := hsizes
  obtain ⟨fs, hfs⟩ : ∃ x, x = mountedAs location root dev nodes files.length := ⟨_, rfl⟩
  have hheader : ∀ j, fs.fileHeader j = headerAt location j := by
    intro j
    rw [hfs]
    rfl
  have hnode : ∀ j, fs.rootNode j = nodes + 184 * j := by
    intro j
    rw [hfs]
    rfl
  have hat : ∀ j, headerAt location j = location + 4 + 76 * j := fun _ => rfl
  have htable := h.table
  have hspan := h.span
  rw [hsize2, hsize3] at htable
  have hapart : Apart (fs.rootNodes, sizeofFsNode * files.length)
      (location, sizeofInitrdHeader + sizeofFileHeader * files.length) := by
    rw [hfs, hsize2, hsize3]
    unfold Apart at hnodes ⊢
    dsimp only [mountedAs] at hnodes ⊢
    omega
  have hheaders : ∀ j f, 0 ≤ j → files[j]? = some f → CString m (fs.fileHeader j + fileName) f.name ∧
      load32 m (fs.fileHeader j + fileOffset) = f.offset ∧
      load32 m (fs.fileHeader j + fileLength) = f.length := by
    intro j f _ hf
    rw [hheader]
    exact h.headers j f hf
  have hfiles : files.length < ADDRESS_SPACE := by
    unfold ADDRESS_SPACE
    omega
  obtain ⟨m', hrun, hmounted, hrest⟩ := filesLoop_spec st files.length (by omega) hfiles (by rw [hfs]; rfl)
    h.count hheaders h.named hapart
  rw [← hfs]
  -- the bytes of the loop's frame, in the addresses of the image and of the nodes
  have hframe : ∀ x, (x < location + 4 ∨ headerAt location files.length ≤ x) →
      (x < nodes ∨ nodes + 184 * files.length ≤ x) → m' x = m x := by
    intro x hx hxn
    have hfile : fileOffset = 68 := rfl
    apply hrest
    · rw [hheader, hheader, hat, hfile]
      omega
    · rw [hnode, hnode]
      omega
  refine ⟨m', hrun, fun i f hf => hmounted i f (Nat.zero_le i) hf, ?_, ?_⟩
  · intro r himage hr x hl hh
    have hlast := hat files.length
    unfold Apart at himage hr
    dsimp only at himage hr
    rw [hsize1] at hr
    exact hframe x (by omega) (by omega)
  · intro x hl hh
    have hlast := hat files.length
    unfold Apart at hnodes
    dsimp only at hnodes
    rw [hsize1] at hnodes
    exact hframe x (Or.inr hl) (by omega)

theorem initialise_mounts (h : Loaded k.mem st location size files)
    (hserved : Served kmalloc st (kept st location size) files.length k root dev nodes kdev k') :
    ∃ m', initialiseInitrd kmalloc st location k =
        .ok ((root, mountedAs location root dev nodes files.length), k'.withMem m') ∧
      Mounted m' st (mountedAs location root dev nodes files.length) location size files ∧
      SameOn k.mem m' (headerAt location files.length) (location + size) ∧
      ∀ x, dev + nameDev.length ≤ x → x < dev + nodeMask → m' x = kdev.mem x := by
  obtain ⟨k1, k2, k3, hgrant1, hmake1, hgrant2, hmake2, hgrant3⟩ := hserved
  have hsize : sizeofFsNode = 184 := rfl
  have himage : (location, size) ∈ kept st location size := List.mem_cons_self
  have hJ : (st.strJ, 2) ∈ kept st location size := by simp [kept]
  have hDev : (st.strDev, 4) ∈ kept st location size := by simp [kept]
  -- the root
  obtain ⟨m2, hrun2, hroot2, hsame2, -⟩ := hgrant1.makeDirectory_spec hJ h.strJ (by decide) (by decide)
  rw [hrun2] at hmake1
  cases hmake1
  -- `dev`
  obtain ⟨m4, hrun4, hdev4, hsame4, htail4⟩ := hgrant2.makeDirectory_spec
    (List.mem_cons_of_mem _ hDev) (h.congr hsame2).strDev (by decide) (by decide)
  rw [hrun4] at hmake2
  cases hmake2
  have hkept4 : ∀ r ∈ kept st location size, SameOn k.mem m4 r.1 (r.1 + r.2) :=
    fun r hr => (hsame2 r hr).trans (hsame4 r (List.mem_cons_of_mem _ hr))
  have hroot4 : DirectoryNode m4 st root nameJ := hroot2.congr (by decide) (hsame4 _ List.mem_cons_self)
  -- the nodes of the files
  have hkept5 : ∀ r ∈ kept st location size, SameOn k.mem k'.mem r.1 (r.1 + r.2) := fun r hr =>
    (hkept4 r hr).trans (hgrant3.same r (List.mem_cons_of_mem _ (List.mem_cons_of_mem _ hr)))
  have hroot5 : DirectoryNode k'.mem st root nameJ :=
    hroot4.congr (by decide) (hgrant3.same _ (List.mem_cons_of_mem _ List.mem_cons_self))
  have hdev5 : DirectoryNode k'.mem st dev nameDev := hdev4.congr (by decide) (hgrant3.same _ List.mem_cons_self)
  have hload5 := h.congr hkept5
  obtain ⟨m', hrun', hmounted', hframe', hbehind'⟩ := filesLoop_mounts hload5
    (hgrant3.apart _ (List.mem_cons_of_mem _ (List.mem_cons_of_mem _ himage)))
  have hrootSame := hframe' (root, sizeofFsNode) (hgrant1.apart _ himage)
    (hgrant3.apart _ (List.mem_cons_of_mem _ List.mem_cons_self))
  have hdevSame := hframe' (dev, sizeofFsNode) (hgrant2.apart _ (List.mem_cons_of_mem _ himage))
    (hgrant3.apart _ List.mem_cons_self)
  have hstrSame := hframe' (st.strDev, 4) ((List.pairwise_cons.mp h.apart).1 _ (by simp)).symm
    (hgrant3.apart _ (List.mem_cons_of_mem _ (List.mem_cons_of_mem _ hDev)))
  refine ⟨m', ?_, ⟨rfl, rfl, hmounted', ?_, ?_, ?_, ⟨hgrant2.nonnull, hgrant3.nonnull⟩, hgrant3.fits, ?_⟩, ?_, ?_⟩
  · have hbytes : sizeofFsNode * load32 m4 location % 4294967296 = sizeofFsNode * files.length := by
      have hnonnull := hgrant3.nonnull
      have hfits := hgrant3.fits
      rw [(h.congr hkept4).count]
      apply Nat.mod_eq_of_lt
      omega
    rw [initialiseInitrd, hgrant1.run, ok_bind]
    dsimp only
    rw [hrun2, ok_bind, hgrant2.run, ok_bind]
    dsimp only
    rw [hrun4, ok_bind, Kernel.withMem_mem, hbytes, hgrant3.run, ok_bind]
    dsimp only
    rw [hload5.count]
    unfold mountedAs at hrun' ⊢
    rw [hrun', ok_bind]
    rfl
  · exact hroot5.congr (by decide) hrootSame
  · exact hdev5.congr (by decide) hdevSame
  · exact hload5.strDev.congr hstrSame le_rfl (Nat.lt_succ_self _)
  · exact List.pairwise_cons.mpr ⟨hgrant3.apart, List.pairwise_cons.mpr ⟨hgrant2.apart,
      List.pairwise_cons.mpr ⟨hgrant1.apart, h.apart⟩⟩⟩
  · have hhead : location ≤ headerAt location files.length := by
      unfold headerAt
      omega
    exact ((hkept5 _ himage).mono hhead le_rfl).trans hbehind'
  · intro x hl hh
    have hmask : nodeMask = 128 := rfl
    rw [hdevSame x (by dsimp only; omega) (by dsimp only; omega),
      hgrant3.same _ List.mem_cons_self x (by dsimp only; omega) (by dsimp only; omega)]
    exact htail4 x hl hh

end PandaOS

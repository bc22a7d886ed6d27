import PandaOS.Filesystem.NodeFields
import PandaOS.Filesystem.Reading

/-! The mounted file system as its callers see it: a volume of named files that nobody can write. A call of `fs.c`
on one of its nodes answers what the volume says, and leaves it as it is. -/
namespace PandaOS
open ByteMemory Word32
set_option autoImplicit false
set_option maxHeartbeats 250000

/-! ## The volume -/

structure VolumeFile where
  name : List UInt8
  contents : List UInt8

abbrev Volume := List VolumeFile

inductive Node
  | root
  | dev
  | file (i : ℕ)

def Node.address (fs : Initrd) : Node → ℕ
  | .root => fs.initrdRoot
  | .dev => fs.initrdDev
  | .file i => fs.rootNode i

def Node.On (v : Volume) : Node → Prop
  | .file i => i < v.length
  | _ => True

def Volume.read (v : Volume) (offset count : ℕ) : Node → List UInt8
  | .file i => match v[i]? with
    | some f => (f.contents.drop offset).take count
    | none => []
  | _ => []

/-- Name and inode of an entry. For `dev` they are those of the root, with the first one missing. -/
def Volume.entry (v : Volume) : Node → ℕ → Option (List UInt8 × ℕ)
  | .root, 0 => some (nameDev, 0)
  | .dev, 0 => none
  | .file _, _ => none
  | _, i + 1 => (v[i]?).map fun f => (f.name, i)

/-- The first file of this name. -/
def Volume.first (v : Volume) (name : List UInt8) : Option ℕ := v.findIdx? fun f => decide (name = f.name)

def Volume.find (v : Volume) (name : List UInt8) : Node → Option Node
  | .root => if name = nameDev then some .dev else (v.first name).map .file
  | .dev => (v.first name).map .file
  | .file _ => none

/-! ## Calls -/

/-- A call of one of the functions of `fs.c`; `name` is what the caller has put at `p`. -/
inductive FsCall
  | read (node : Node) (offset count buffer : ℕ)
  | write (node : Node) (offset count buffer : ℕ)
  | opening (node : Node) (read write : UInt8)
  | closing (node : Node)
  | readdir (node : Node) (index : ℕ)
  | finddir (node : Node) (p : ℕ) (name : List UInt8)

/-- What a caller finds out: the bytes in its buffer, a count, the fields of `struct dirent`, a node. -/
inductive FsAnswer
  | bytes (s : List UInt8)
  | count (n : ℕ)
  | done
  | entry (e : Option (List UInt8 × ℕ))
  | found (address : ℕ)

/-- `struct dirent` behind the pointer that `readdir_fs` returned. -/
def direntAt (m : Mem) (entry : ℕ) : Result (Option (List UInt8 × ℕ)) :=
  if entry = 0 then return none
  else do
    let length ← strlen m entry
    return some (readBytes m entry length, load32 m (entry + direntIno))

def FsCall.run (code : Driver) (fs : Initrd) : FsCall → Mem → Result (FsAnswer × Mem)
  | .read node offset count buffer, m => do
    let (got, m') ← readFs code.toCode (node.address fs) offset count buffer m
    return (.bytes (readBytes m' buffer got), m')
  | .write node offset count buffer, m => do
    let (got, m') ← writeFs code (node.address fs) offset count buffer m
    return (.count got, m')
  | .opening node r w, m => do
    let m' ← openFs code (node.address fs) r w m
    return (.done, m')
  | .closing node, m => do
    let m' ← closeFs code (node.address fs) m
    return (.done, m')
  | .readdir node index, m => do
    let (entry, m') ← readdirFs code.toCode (node.address fs) index m
    let e ← direntAt m' entry
    return (.entry e, m')
  | .finddir node p _, m => do
    let q ← finddirFs code.toCode (node.address fs) p m
    return (.found q, m)

/-- What the volume says. -/
def Volume.answer (v : Volume) (fs : Initrd) : FsCall → FsAnswer
  | .read node offset count _ => .bytes (v.read offset count node)
  | .write _ _ _ _ => .count 0
  | .opening _ _ _ => .done
  | .closing _ => .done
  | .readdir node index => .entry (v.entry node index)
  | .finddir node _ name => .found (((v.find name node).map (Node.address fs)).getD 0)

/-- The regions that hold the file system: the nodes, the image, and the name of `dev`. -/
def holding (st : Statics) (fs : Initrd) (location size : ℕ) : List (ℕ × ℕ) :=
  [(fs.rootNodes, sizeofFsNode * fs.nrootNodes), (fs.initrdDev, sizeofFsNode), (fs.initrdRoot, sizeofFsNode),
    (location, size), (st.strDev, 4)]

/-- Nothing in these regions has changed. -/
def Keeps (l : List (ℕ × ℕ)) (m m' : Mem) : Prop := ∀ r ∈ l, SameOn m m' r.1 (r.1 + r.2)

/-- What a caller owes: a node of the file system, words as arguments, a buffer of its own for what is read, where
offset and size do not wrap, and a string for the name. -/
def FsCall.Fits (v : Volume) (l : List (ℕ × ℕ)) (m : Mem) : FsCall → Prop
  | .read node offset count buffer => node.On v ∧ offset + count < 4294967296 ∧ ∀ r ∈ l, Apart (buffer, count) r
  | .write node _ _ _ => node.On v
  | .opening node _ _ => node.On v
  | .closing node => node.On v
  | .readdir node index => node.On v ∧ index < 4294967296
  | .finddir node p name => node.On v ∧ CString m p name ∧ name.length < ADDRESS_SPACE

/-- The volume is mounted. -/
structure Serves (m : Mem) (st : Statics) (fs : Initrd) (location size : ℕ) (files : List FileHeader)
    (v : Volume) : Prop where
  mounted : Mounted m st fs location size files
  same : files.length = v.length
  short : ∀ h ∈ files, h.name.length ≤ 63
  table : sizeofInitrdHeader + sizeofFileHeader * files.length ≤ size
  span : location + size < 4294967296
  rootUnset : Unset m fs.initrdRoot directoryUnset
  devUnset : Unset m fs.initrdDev directoryUnset
  fileUnset : ∀ i < files.length, Unset m (fs.rootNode i) fileUnset
  names : ∀ (i : ℕ) (f : VolumeFile), v[i]? = some f → CString m (fs.rootNode i) f.name ∧ f.name ≠ [] ∧ f.name.length < 128
  inside : ∀ (i : ℕ) (f : VolumeFile) (g : FileHeader), v[i]? = some f → files[i]? = some g →
    g.length = f.contents.length ∧ g.offset + g.length ≤ size
  contents : ∀ (i : ℕ) (f : VolumeFile) (g : FileHeader), v[i]? = some f → files[i]? = some g →
    BytesAt m (location + g.offset) f.contents

variable {m m' : Mem} {st : Statics} {fs : Initrd} {files : List FileHeader} {v : Volume} {code : Driver}
  {node : Node} {f : VolumeFile} {name : List UInt8} {forRead forWrite : UInt8} {c : FsCall}
  {location size i j p src ino index offset count buffer : ℕ}

/-! ## What keeps it mounted -/

theorem Keeps.trans {l : List (ℕ × ℕ)} {m'' : Mem} (h : Keeps l m m') (h' : Keeps l m' m'') : Keeps l m m'' :=
  fun r hr => (h r hr).trans (h' r hr)

theorem Keeps.refl (l : List (ℕ × ℕ)) (m : Mem) : Keeps l m m := fun r _ => SameOn.refl m r.1 (r.1 + r.2)

theorem Keeps.of_off {l : List (ℕ × ℕ)} {n : ℕ} (h : ∀ r ∈ l, Apart (p, n) r) (hm : SameOff m m' p (p + n)) :
    Keeps l m m' := fun r hr => (h r hr).sameOn hm

theorem Keeps.mono {l l' : List (ℕ × ℕ)} (h : Keeps l m m') (hl : ∀ r ∈ l', r ∈ l) : Keeps l' m m' :=
  fun r hr => h r (hl r hr)

/-- The parts of the nodes and of the image that belong to file `i`. -/
theorem Serves.keeps_file (h : Serves m st fs location size files v) (hm : Keeps (holding st fs location size) m m')
    (hi : i < files.length) : SameOn m m' (fs.rootNode i) (fs.rootNode (i + 1)) ∧
      SameOn m m' (fs.fileHeader i + fileOffset) (fs.fileHeader (i + 1)) := by
  have hcount := h.mounted.count
  have hnodes : fs.rootNodes ≤ fs.rootNode i ∧
      fs.rootNode (i + 1) ≤ fs.rootNodes + sizeofFsNode * fs.nrootNodes := rootNode_inside (hcount ▸ hi)
  have hheaders := h.mounted.fileHeaders
  have htable := h.table
  have hnodesSame := hm (fs.rootNodes, sizeofFsNode * fs.nrootNodes) (by simp [holding])
  have himageSame := hm (location, size) (by simp [holding])
  dsimp only at hnodesSame himageSame
  refine ⟨hnodesSame.mono hnodes.1 hnodes.2, himageSame.mono ?_ ?_⟩
  · unfold Initrd.fileHeader
    omega
  · have hnext : i + 1 ≤ files.length := hi
    have hmul := Nat.mul_le_mul_left sizeofFileHeader hnext
    unfold Initrd.fileHeader
    omega

theorem Serves.keeps_node (h : Serves m st fs location size files v) (hm : Keeps (holding st fs location size) m m')
    (hi : i < files.length) : SameOn m m' (fs.rootNode i) (fs.rootNode i + sizeofFsNode) := by
  have hnext : fs.rootNode i + sizeofFsNode ≤ fs.rootNode (i + 1) := by
    unfold Initrd.rootNode sizeofFsNode
    omega
  exact (h.keeps_file hm hi).1.mono le_rfl hnext

theorem Serves.keeps (h : Serves m st fs location size files v) (hm : Keeps (holding st fs location size) m m') :
    Serves m' st fs location size files v := by
  have hroot := hm (fs.initrdRoot, sizeofFsNode) (by simp [holding])
  have hdev := hm (fs.initrdDev, sizeofFsNode) (by simp [holding])
  have himage := hm (location, size) (by simp [holding])
  have hstr := hm (st.strDev, 4) (by simp [holding])
  have hsize : sizeofFsNode = 184 := rfl
  have hindex : ∀ {i : ℕ} {f : VolumeFile}, v[i]? = some f → i < files.length := by
    intro i f hf
    obtain ⟨hlt, -⟩ := List.getElem?_eq_some_iff.mp hf
    rw [h.same]
    exact hlt
  refine { h with mounted := ?_, rootUnset := ?_, devUnset := ?_, fileUnset := ?_, names := ?_, contents := ?_ }
  · refine { h.mounted with mounted := fun i f hf => ?_, root := ?_, dev := ?_, strDev := ?_ }
    · obtain ⟨hi, -⟩ := List.getElem?_eq_some_iff.mp hf
      obtain ⟨hnode, hheader⟩ := h.keeps_file hm hi
      exact (h.mounted.mounted i f hf).congr (h.short f (List.mem_of_getElem? hf)) hheader hnode
    · exact h.mounted.root.congr (by decide) hroot
    · exact h.mounted.dev.congr (by decide) hdev
    · exact h.mounted.strDev.congr hstr le_rfl (Nat.lt_succ_self _)
  · exact h.rootUnset.congr (by decide) hroot
  · exact h.devUnset.congr (by decide) hdev
  · exact fun i hi => (h.fileUnset i hi).congr (by decide) (h.keeps_node hm hi)
  · intro i f hf
    obtain ⟨hname, hne, hshort⟩ := h.names i f hf
    exact ⟨hname.congr (h.keeps_node hm (hindex hf)) le_rfl (by omega), hne, hshort⟩
  · intro i f g hf hg
    obtain ⟨hlength, hinside⟩ := h.inside i f g hf hg
    exact (h.contents i f g hf hg).congr himage (by omega) (by dsimp only; omega)

/-- `dirent` is apart from all of it. -/
theorem Serves.dirent_apart (h : Serves m st fs location size files v) :
    ∀ r ∈ holding st fs location size, Apart (st.dirent, 132) r := by
  have hpair := h.mounted.apart
  unfold regions kept at hpair
  simp only [List.pairwise_cons, List.mem_cons, List.not_mem_nil, or_false] at hpair
  obtain ⟨hnodes, hdev, hroot, himage, -, hstr, -⟩ := hpair
  intro r hr
  unfold holding at hr
  simp only [List.mem_cons, List.not_mem_nil, or_false] at hr
  rcases hr with rfl | rfl | rfl | rfl | rfl
  · exact (hnodes _ (by simp)).symm
  · exact (hdev _ (by simp)).symm
  · exact (hroot _ (by simp)).symm
  · exact (himage _ (by simp)).symm
  · exact (hstr _ (by simp)).symm

/-! ## The fields that are looked at -/

theorem Serves.index_lt (h : Serves m st fs location size files v) (hon : (Node.file i).On v) : i < files.length := by
  rw [h.same]
  exact hon

theorem Serves.file (h : Serves m st fs location size files v) (hon : (Node.file i).On v) :
    ∃ f g, v[i]? = some f ∧ files[i]? = some g := by
  have hi := h.index_lt hon
  exact ⟨v[i], files[i], List.getElem?_eq_getElem hon, List.getElem?_eq_getElem hi⟩

/-- No node can be written, opened or closed. -/
theorem Serves.unset (h : Serves m st fs location size files v) (hon : node.On v) :
    Unset m (node.address fs) PandaOS.fileUnset := by
  have hsub : ∀ o ∈ PandaOS.fileUnset, o ∈ directoryUnset := by decide
  cases node with
  | root => exact fun o ho => h.rootUnset o (hsub o ho)
  | dev => exact fun o ho => h.devUnset o (hsub o ho)
  | file i => exact h.fileUnset i (h.index_lt hon)

theorem Serves.write (h : Serves m st fs location size files v) (hon : node.On v) :
    writeFs code (node.address fs) offset count buffer m = .ok (0, m) := by
  rw [writeFs, h.unset hon nodeWrite (by decide)]
  exact if_neg (not_not.mpr rfl)

theorem Serves.opens (h : Serves m st fs location size files v) (hon : node.On v) :
    openFs code (node.address fs) forRead forWrite m = .ok m := by
  rw [openFs, h.unset hon nodeOpen (by decide)]
  exact if_neg (not_not.mpr rfl)

theorem Serves.closes (h : Serves m st fs location size files v) (hon : node.On v) :
    closeFs code (node.address fs) m = .ok m := by
  rw [closeFs, h.unset hon nodeClose (by decide)]
  exact if_neg (not_not.mpr rfl)

/-! ## read_fs -/

theorem Serves.read_file (h : Serves m st fs location size files v) (hon : (Node.file i).On v)
    (hsum : offset + count < 4294967296) (hapart : ∀ r ∈ holding st fs location size, Apart (buffer, count) r) :
    ∃ got m', readFs (initrdCode st fs) (fs.rootNode i) offset count buffer m = .ok (got, m') ∧
      readBytes m' buffer got = v.read offset count (.file i) ∧ SameOff m m' buffer (buffer + count) := by
  obtain ⟨f, g, hf, hg⟩ := h.file hon
  obtain ⟨hlength, hinside⟩ := h.inside i f g hf hg
  have hspan := h.span
  have hrun := readFs_file h.mounted hg offset count buffer
  have hread : v.read offset count (.file i) = (f.contents.drop offset).take count := by
    unfold Volume.read
    dsimp only
    rw [hf]
  rw [hread]
  rcases Nat.lt_or_ge g.length offset with hbehind | hwithin
  · rw [if_pos hbehind] at hrun
    refine ⟨0, m, hrun, ?_, SameOff.refl _ _ _⟩
    rw [List.drop_of_length_le (by omega), List.take_nil]
    rfl
  · rw [if_neg (by omega)] at hrun
    dsimp only at hrun
    rw [clip_eq (by omega) hwithin hsum, memcpy_from_file (by omega) hinside hwithin] at hrun
    have hclipped : clipped g.length offset count = min count (g.length - offset) := clipped_of_le hwithin
    have himage := hapart (location, size) (by simp [holding])
    unfold Apart at himage
    dsimp only at himage
    refine ⟨_, _, hrun, ?_, (sameOff_memcpy _ _ _ _).mono le_rfl (by omega)⟩
    have hdrop := (h.contents i f g hf hg).drop offset (by omega)
    have hshort : clipped g.length offset count ≤ (f.contents.drop offset).length := by
      rw [List.length_drop]
      omega
    rw [readBytes_memcpy (by omega), hdrop.read_take hshort, hclipped, hlength, ← List.length_drop]
    exact List.take_eq_take_min.symm

/-- A directory has no function for reading. -/
theorem readFs_unset (code : Code) (hunset : load32 m (p + nodeRead) = 0) :
    readFs code p offset count buffer m = .ok (0, m) := by
  rw [readFs, hunset]
  exact if_neg (not_not.mpr rfl)

/-! ## readdir_fs -/

/-- What both branches of `initrd_readdir` leave in `dirent`: the characters, a 0 behind them, and the inode. -/
theorem dirent_spec (st : Statics) (hname : CString m src name) (hne : name ≠ []) (hshort : name.length < 128)
    (hino : ino < 4294967296) (hapart : Apart (st.dirent, 132) (src, name.length + 1)) :
    ∃ m1, strcpy st.dirent src m = .ok m1 ∧ SameOff m m1 st.dirent (st.dirent + name.length) ∧
      ∀ m', m' = store32 (store8 m1 (st.dirent + name.length) 0) (st.dirent + direntIno) ino →
        CString m' st.dirent name ∧ load32 m' (st.dirent + direntIno) = ino ∧
        SameOff m m' st.dirent (st.dirent + 132) := by
  have hoffset : direntIno = 128 := rfl
  unfold Apart at hapart
  dsimp only at hapart
  obtain ⟨m1, hcopy, hbytes1, hoff1⟩ := strcpy_spec hname hne (by unfold ADDRESS_SPACE; omega)
    (by omega : st.dirent + name.length ≤ src ∨ src + name.length < st.dirent)
  refine ⟨m1, hcopy, hoff1, fun m3 hm3 => ?_⟩
  obtain ⟨m2, hm2⟩ : ∃ x, x = store8 m1 (st.dirent + name.length) 0 := ⟨_, rfl⟩
  rw [← hm2] at hm3
  have hoff2 : SameOff m1 m2 (st.dirent + name.length) (st.dirent + name.length + 1) := by
    rw [hm2]
    exact sameOff_store8 le_rfl (by omega)
  have hoff3 : SameOff m2 m3 (st.dirent + 128) (st.dirent + 132) := by
    rw [hm3]
    exact sameOff_store32 (by omega) (by omega)
  have hbytes2 : BytesAt m2 st.dirent name := hbytes1.congr (hoff2.sameOn (Or.inl le_rfl)) le_rfl le_rfl
  have hzero2 : m2 (st.dirent + name.length) = 0 := by
    rw [hm2]
    simp [store8]
  refine ⟨?_, ?_, ?_⟩
  · have hstring : CString m2 st.dirent name := cstring_of_bytesAt hbytes2 hzero2 hname.2
    exact hstring.congr (hoff3.sameOn (Or.inl le_rfl : st.dirent + 128 ≤ st.dirent + 128 ∨ _)) le_rfl (by omega)
  · rw [hm3]
    exact load32_store32_of_lt hino
  · exact (hoff1.mono le_rfl (by omega)).trans
      ((hoff2.mono (by omega) (by omega)).trans (hoff3.mono (by omega) le_rfl))

theorem direntAt_spec (hname : CString m p name) (hshort : name.length < 128) (hp : p ≠ 0) :
    direntAt m p = .ok (some (name, load32 m (p + direntIno))) := by
  have hbytes : readBytes m p name.length = name := hname.bytes
  rw [direntAt, if_neg hp, strlen_spec hname (by unfold ADDRESS_SPACE; omega), ok_bind, hbytes]
  rfl

/-- The entry `dev` of the root. -/
theorem Serves.readdir_first (h : Serves m st fs location size files v) :
    ∃ m', initrdReaddir st fs fs.initrdRoot 0 m = .ok (st.dirent, m') ∧ CString m' st.dirent nameDev ∧
      direntAt m' st.dirent = .ok (some (nameDev, 0)) ∧ SameOff m m' st.dirent (st.dirent + 132) := by
  have hlength : nameDev.length = 3 := rfl
  obtain ⟨m1, hcopy, -, hrest⟩ := dirent_spec st h.mounted.strDev (by decide) (by decide) (by norm_num : 0 < 4294967296)
    (h.dirent_apart (st.strDev, 4) (by simp [holding]))
  obtain ⟨m2, hm2⟩ : ∃ x, x = store32 (store8 m1 (st.dirent + 3) 0) (st.dirent + direntIno) 0 := ⟨_, rfl⟩
  obtain ⟨hname, hino, hoff⟩ := hrest m2 hm2
  have hpos := st.dirent_pos
  refine ⟨m2, ?_, hname, ?_, hoff⟩
  · rw [initrdReaddir, if_pos ⟨rfl, rfl⟩, hcopy, ok_bind]
    dsimp only
    rw [← hm2]
    rfl
  · rw [direntAt_spec hname (by decide) (by omega), hino]

/-- The entry of file `i`, for the root and for `dev`. -/
theorem Serves.readdir_file (h : Serves m st fs location size files v) (hf : v[i]? = some f) (d : ℕ) :
    ∃ m', initrdReaddir st fs d (i + 1) m = .ok (st.dirent, m') ∧ CString m' st.dirent f.name ∧
      direntAt m' st.dirent = .ok (some (f.name, i)) ∧ SameOff m m' st.dirent (st.dirent + 132) := by
  obtain ⟨hlt, -⟩ := List.getElem?_eq_some_iff.mp hf
  obtain ⟨f', g, hf', hg⟩ := h.file (i := i) hlt
  obtain ⟨hname, hne, hshort⟩ := h.names i f hf
  have hcount := h.mounted.count
  have hbound := h.mounted.count_lt
  have hsame := h.same
  have hsize : sizeofFsNode = 184 := rfl
  have hinside : fs.rootNodes ≤ fs.rootNode i ∧
      fs.rootNode (i + 1) ≤ fs.rootNodes + sizeofFsNode * fs.nrootNodes := rootNode_inside (by omega)
  have hnext : fs.rootNode (i + 1) = fs.rootNode i + 184 := by
    unfold Initrd.rootNode sizeofFsNode
    omega
  have hnodes := h.dirent_apart (fs.rootNodes, sizeofFsNode * fs.nrootNodes) (by simp [holding])
  have hapart : Apart (st.dirent, 132) (fs.rootNode i, f.name.length + 1) := by
    unfold Apart at hnodes ⊢
    dsimp only at hnodes ⊢
    omega
  obtain ⟨m1, hcopy, hoff1, hrest⟩ := dirent_spec st hname hne hshort (by omega : i < 4294967296) hapart
  have hkeeps1 : Keeps (holding st fs location size) m m1 :=
    Keeps.of_off h.dirent_apart (hoff1.mono le_rfl (by omega))
  have hinode : load32 (store8 m1 (st.dirent + f.name.length) 0) (fs.rootNode i + nodeInode) = i := by
    have hinodeOffset : nodeInode = 144 := rfl
    unfold Apart at hnodes
    dsimp only at hnodes
    rw [load32_store8_of_off (by omega)]
    exact ((h.keeps hkeeps1).mounted.mounted i g hg).node.inode
  have hindex : sub32 (i + 1) 1 = i := by
    rw [sub32_of_le (by omega) (by omega), Nat.add_sub_cancel]
  have hname1 := ((h.keeps hkeeps1).names i f hf).1
  obtain ⟨m2, hm2⟩ : ∃ x, x = store32 (store8 m1 (st.dirent + f.name.length) 0) (st.dirent + direntIno) i := ⟨_, rfl⟩
  obtain ⟨hname2, hino2, hoff2⟩ := hrest m2 hm2
  have hpos := st.dirent_pos
  refine ⟨m2, ?_, hname2, ?_, hoff2⟩
  · rw [initrdReaddir, if_neg (fun hzero => by omega), hindex, if_neg (by omega)]
    dsimp only
    rw [hcopy, ok_bind, strlen_spec hname1 (by unfold ADDRESS_SPACE; omega), ok_bind, hinode, ← hm2]
    rfl
  · rw [direntAt_spec hname2 hshort (by omega), hino2]

/-- Behind the last file there is no entry. -/
theorem Serves.readdir_end (h : Serves m st fs location size files v) (hlow : v.length < index)
    (hhigh : index < 4294967296) (d : ℕ) : initrdReaddir st fs d index m = .ok (0, m) := by
  have hcount := h.mounted.count
  have hsame := h.same
  rw [initrdReaddir, if_neg (fun hzero => by omega), sub32_of_le (by omega) hhigh, if_pos (by omega)]

/-- A file is no directory. -/
theorem file_flags : FS_FILE &&& 0x7 ≠ FS_DIRECTORY := by decide

theorem Serves.readdir (h : Serves m st fs location size files v) (hon : node.On v) (hindex : index < 4294967296) :
    ∃ entry m', readdirFs (initrdCode st fs) (node.address fs) index m = .ok (entry, m') ∧
      direntAt m' entry = .ok (v.entry node index) ∧ Keeps (holding st fs location size) m m' := by
  have hbehind : ∀ d i, i + 1 < 4294967296 → ∃ entry m', initrdReaddir st fs d (i + 1) m = .ok (entry, m') ∧
      direntAt m' entry = .ok ((v[i]?).map fun f => (f.name, i)) ∧ Keeps (holding st fs location size) m m' := by
    intro d i hi
    by_cases hlt : i < v.length
    · obtain ⟨m', hrun, -, hentry, hoff⟩ := h.readdir_file (List.getElem?_eq_getElem hlt) d
      refine ⟨_, m', hrun, ?_, Keeps.of_off h.dirent_apart hoff⟩
      rw [hentry, List.getElem?_eq_getElem hlt]
      rfl
    · refine ⟨0, m, h.readdir_end (by omega) hi d, ?_, Keeps.refl _ m⟩
      rw [List.getElem?_eq_none (by omega)]
      rfl
  cases node with
  | root =>
    dsimp only [Node.address]
    rw [readdirFs_directory h.mounted.root]
    cases index with
    | zero =>
      obtain ⟨m', hrun, -, hentry, hoff⟩ := h.readdir_first
      exact ⟨_, m', hrun, hentry, Keeps.of_off h.dirent_apart hoff⟩
    | succ i => exact hbehind fs.initrdRoot i hindex
  | dev =>
    dsimp only [Node.address]
    cases index with
    | zero => exact ⟨0, m, h.mounted.readdir_dev, rfl, Keeps.refl _ m⟩
    | succ i =>
      rw [readdirFs_directory h.mounted.dev]
      exact hbehind fs.initrdDev i hindex
  | file i =>
    obtain ⟨f, g, hf, hg⟩ := h.file hon
    have hflags := (h.mounted.mounted i g hg).node.flags
    refine ⟨0, m, ?_, ?_, Keeps.refl _ m⟩
    · dsimp only [Node.address]
      rw [readdirFs, hflags, if_neg (fun hdirectory => file_flags hdirectory.1)]
    · unfold Volume.entry
      rfl

/-! ## finddir_fs -/

/-- The loop over the files of `w`, which begin at `i`. -/
theorem finddirLoop_spec (w : Volume) (hs : CString m p name) (hshort : name.length < ADDRESS_SPACE)
    (hw : ∀ j f, w[j]? = some f → CString m (fs.rootNode (i + j)) f.name) :
    finddirLoop fs p m w.length i = .ok (((w.first name).map fun j => fs.rootNode (i + j)).getD 0) := by
  induction w generalizing i with
  | nil => rfl
  | cons f w ih =>
    have hhead : CString m (fs.rootNode i) f.name := hw 0 f rfl
    have hrest : ∀ j g, w[j]? = some g → CString m (fs.rootNode (i + 1 + j)) g.name := by
      intro j g hg
      have hnext := hw (j + 1) g hg
      rwa [show i + (j + 1) = i + 1 + j by omega] at hnext
    rw [List.length_cons, finddirLoop, strcmp_spec hs hhead hshort, ok_bind]
    unfold Volume.first
    rw [List.findIdx?_cons]
    by_cases heq : name = f.name
    · rw [if_pos heq, if_pos rfl, decide_eq_true heq]
      rfl
    · rw [if_neg heq, if_neg (by decide), decide_eq_false heq, ih hrest]
      unfold Volume.first
      cases w.findIdx? fun f => decide (name = f.name) with
      | none => rfl
      | some j =>
        have hnext : i + 1 + j = i + (j + 1) := by omega
        simp [hnext]

theorem Serves.finddir (h : Serves m st fs location size files v) (hon : node.On v) (hs : CString m p name)
    (hshort : name.length < ADDRESS_SPACE) : finddirFs (initrdCode st fs) (node.address fs) p m =
      .ok (((v.find name node).map (Node.address fs)).getD 0) := by
  have hcount : (toInt32 fs.nrootNodes).toNat = v.length := by
    rw [toInt32_of_lt h.mounted.count_lt, h.mounted.count, h.same, Int.toNat_natCast]
  have hloop : finddirLoop fs p m v.length 0 = .ok ((((v.first name).map Node.file).map (Node.address fs)).getD 0) := by
    rw [finddirLoop_spec v hs hshort fun j f hf => by rw [Nat.zero_add]; exact (h.names j f hf).1]
    cases v.first name with
    | none => rfl
    | some j =>
      simp [Node.address]
  cases node with
  | root =>
    have hdev : isDev st fs fs.initrdRoot p m = .ok (decide (name = nameDev)) := by
      rw [isDev, if_pos rfl, strcmp_spec hs h.mounted.strDev hshort, ok_bind]
      by_cases heq : name = nameDev
      · rw [if_pos heq, decide_eq_true heq]
        rfl
      · rw [if_neg heq, decide_eq_false heq]
        rfl
    dsimp only [Node.address]
    rw [finddirFs_directory h.mounted.root, initrdFinddir, hdev, ok_bind, hcount, hloop, Volume.find]
    by_cases heq : name = nameDev
    · rw [decide_eq_true heq, if_pos heq]
      rfl
    · rw [decide_eq_false heq, if_neg heq]
      rfl
  | dev =>
    have hdev : isDev st fs fs.initrdDev p m = .ok false := if_neg h.mounted.dev_ne_root
    dsimp only [Node.address]
    rw [finddirFs_directory h.mounted.dev, initrdFinddir, hdev, ok_bind, hcount, hloop, Volume.find]
    rfl
  | file i =>
    obtain ⟨f, g, hf, hg⟩ := h.file hon
    have hflags := (h.mounted.mounted i g hg).node.flags
    dsimp only [Node.address]
    rw [finddirFs, hflags, if_neg (fun hdirectory => file_flags hdirectory.1)]
    rfl

/-! ## Every call -/

/-- One call: it answers what the volume says, and the file system stays as it is. -/
theorem Serves.call (h : Serves m st fs location size files v) (hcode : code.toCode = initrdCode st fs)
    (hfits : c.Fits v (holding st fs location size) m) :
    ∃ m', c.run code fs m = .ok (v.answer fs c, m') ∧ Keeps (holding st fs location size) m m' := by
  cases c with
  | read node offset count buffer =>
    obtain ⟨hon, hsum, hapart⟩ := hfits
    have hdirectory : ∀ d, load32 m (d + nodeRead) = 0 → readFs code.toCode d offset count buffer m = .ok (0, m) :=
      fun d hd => readFs_unset code.toCode hd
    cases node with
    | root =>
      refine ⟨m, ?_, Keeps.refl _ m⟩
      rw [FsCall.run]
      dsimp only [Node.address]
      rw [hdirectory _ (h.rootUnset nodeRead (by decide)), ok_bind]
      rfl
    | dev =>
      refine ⟨m, ?_, Keeps.refl _ m⟩
      rw [FsCall.run]
      dsimp only [Node.address]
      rw [hdirectory _ (h.devUnset nodeRead (by decide)), ok_bind]
      rfl
    | file i =>
      obtain ⟨got, m', hrun, hbytes, hoff⟩ := h.read_file hon hsum hapart
      refine ⟨m', ?_, Keeps.of_off hapart hoff⟩
      rw [FsCall.run]
      dsimp only [Node.address]
      rw [hcode, hrun, ok_bind]
      dsimp only
      rw [hbytes]
      rfl
  | write node offset count buffer =>
    refine ⟨m, ?_, Keeps.refl _ m⟩
    rw [FsCall.run, h.write hfits, ok_bind]
    rfl
  | opening node read write =>
    refine ⟨m, ?_, Keeps.refl _ m⟩
    rw [FsCall.run, h.opens hfits, ok_bind]
    rfl
  | closing node =>
    refine ⟨m, ?_, Keeps.refl _ m⟩
    rw [FsCall.run, h.closes hfits, ok_bind]
    rfl
  | readdir node index =>
    obtain ⟨entry, m', hrun, hentry, hkeeps⟩ := h.readdir hfits.1 hfits.2
    refine ⟨m', ?_, hkeeps⟩
    rw [FsCall.run, hcode, hrun, ok_bind]
    dsimp only
    rw [hentry, ok_bind]
    rfl
  | finddir node p name =>
    obtain ⟨hon, hs, hshort⟩ := hfits
    refine ⟨m, ?_, Keeps.refl _ m⟩
    rw [FsCall.run, hcode, h.finddir hon hs hshort, ok_bind]
    rfl

end PandaOS

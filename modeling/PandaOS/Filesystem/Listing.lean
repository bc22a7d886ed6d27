import PandaOS.Filesystem.RoundTrip

/-! Listing a directory and looking a name up in it. Both directory nodes have the same functions.
`initrd_readdir` takes 1 from the index also for `dev`, where index 0 then is past the end, while
`initrd_finddir` searches the files there too; and the names that `strcpy` wrote end where the
memory happened to hold a 0. -/
namespace PandaOS
open ByteMemory Word32
set_option autoImplicit false
set_option maxHeartbeats 250000

/-! ## Agreement -/

/-- `while ((node = readdir_fs(d, i)) != 0) i++;` from index `i` on: name and inode of each entry. -/
def listFrom (code : Code) (d : ℕ) : ℕ → ℕ → Mem → Result (List (List UInt8 × ℕ) × Mem)
  | 0, _, _ => .error .outOfFuel
  | fuel + 1, i, m => do
    let (entry, m) ← readdirFs code d i m
    if entry = 0 then return ([], m)
    else do
      let length ← strlen m entry
      let (rest, m') ← listFrom code d fuel (i + 1) m
      return ((readBytes m entry length, load32 m (entry + direntIno)) :: rest, m')

/-- The directory lists these entries. -/
def Lists (code : Code) (d : ℕ) (m : Mem) (entries : List (List UInt8 × ℕ)) : Prop :=
  ∃ fuel m', listFrom code d fuel 0 m = .ok (entries, m')

def names (entries : List (List UInt8 × ℕ)) : List (List UInt8) := entries.map Prod.fst

/-- The memory still holds the nodes and the string that the operations look at. -/
def Still (st : Statics) (fs : Initrd) (m m' : Mem) : Prop :=
  ∀ r ∈ [(fs.rootNodes, sizeofFsNode * fs.nrootNodes), (fs.initrdDev, sizeofFsNode),
    (fs.initrdRoot, sizeofFsNode), (st.strDev, 4)], SameOn m m' r.1 (r.1 + r.2)

/-- A name at `p` is found exactly when it is listed, and then as the node of that name and inode. -/
structure Finds (code : Code) (d p : ℕ) (m : Mem) (s : List UInt8) (entries : List (List UInt8 × ℕ))
    (q : ℕ) : Prop where
  run : finddirFs code d p m = .ok q
  listed : q ≠ 0 ↔ s ∈ names entries
  named : q ≠ 0 → CString m q s ∧ (s, load32 m (q + nodeInode)) ∈ entries

/-- Listing and lookup agree in the directory `d`, for every name wherever it is put. -/
def AgreeIn (st : Statics) (fs : Initrd) (d : ℕ) (m : Mem) : Prop :=
  ∃ entries, Lists (initrdCode st fs) d m entries ∧ (names entries).Nodup ∧
    ∀ m' p s, Still st fs m m' → CString m' p s → p + s.length < ADDRESS_SPACE →
      ∃ q, Finds (initrdCode st fs) d p m' s entries q

/-- Listing and lookup agree in both directories, and the root lists `dev` and the files. -/
structure ListingAgrees (st : Statics) (fs : Initrd) (m : Mem) (files : List FileHeader) : Prop where
  root : AgreeIn st fs fs.initrdRoot m
  dev : AgreeIn st fs fs.initrdDev m
  names : ∀ entries, Lists (initrdCode st fs) fs.initrdRoot m entries →
    (names entries).Perm (nameDev :: files.map FileHeader.name)

variable {m m' : Mem} {st : Statics} {fs : Initrd} {files : List FileHeader} {name s : List UInt8}
  {location size d i p : ℕ}

/-! ## The operations on a directory node -/

theorem readdirFs_directory (h : DirectoryNode m st d name) (i : ℕ) :
    readdirFs (initrdCode st fs) d i m = initrdReaddir st fs d i m := by
  have hne : st.initrdReaddir ≠ 0 := by
    have := st.readdir_pos
    omega
  rw [readdirFs, h.flags, h.readdir, if_pos ⟨rfl, hne⟩]
  dsimp only [initrdCode]
  rw [if_pos rfl]

theorem finddirFs_directory (h : DirectoryNode m st d name) (p : ℕ) :
    finddirFs (initrdCode st fs) d p m = initrdFinddir st fs d p m := by
  have hne : st.initrdFinddir ≠ 0 := by
    have := st.finddir_pos
    omega
  rw [finddirFs, h.flags, h.finddir, if_pos ⟨rfl, hne⟩]
  dsimp only [initrdCode]
  rw [if_pos rfl]

theorem Mounted.dev_ne_root (h : Mounted m st fs location size files) : fs.initrdDev ≠ fs.initrdRoot := by
  have hpair := h.apart
  unfold regions at hpair
  obtain ⟨-, hpair⟩ := List.pairwise_cons.mp hpair
  obtain ⟨hdev, -⟩ := List.pairwise_cons.mp hpair
  have hapart := hdev _ List.mem_cons_self
  unfold Apart sizeofFsNode at hapart
  dsimp only at hapart
  omega

theorem Mounted.count_lt (h : Mounted m st fs location size files) : fs.nrootNodes < 2147483648 := by
  have hfits := h.fits
  rw [h.count]
  unfold sizeofFsNode at hfits
  omega

/-- For `dev` the first index is past the end. -/
theorem Mounted.readdir_dev (h : Mounted m st fs location size files) :
    readdirFs (initrdCode st fs) fs.initrdDev 0 m = .ok (0, m) := by
  have hlt := h.count_lt
  have hwrap : sub32 0 1 = 4294967295 := by decide
  rw [readdirFs_directory h.dev, initrdReaddir, if_neg (fun hroot => h.dev_ne_root hroot.1), hwrap,
    if_pos (by omega)]

theorem Mounted.lists_dev (h : Mounted m st fs location size files) {entries : List (List UInt8 × ℕ)}
    (hlists : Lists (initrdCode st fs) fs.initrdDev m entries) : entries = [] := by
  obtain ⟨fuel, m', hrun⟩ := hlists
  cases fuel with
  | zero => cases hrun
  | succ fuel =>
    rw [listFrom, h.readdir_dev, ok_bind] at hrun
    cases hrun
    rfl

/-- The first file is found under `dev` by the name its node has. -/
theorem Mounted.finddir_dev_first {f : FileHeader} {rest : List FileHeader}
    (h : Mounted m st fs location size (f :: rest)) (hs : CString m (fs.rootNode 0) s)
    (hshort : s.length < ADDRESS_SPACE) :
    finddirFs (initrdCode st fs) fs.initrdDev (fs.rootNode 0) m = .ok (fs.rootNode 0) := by
  have hlt := h.count_lt
  obtain ⟨n, hn⟩ : ∃ n, (toInt32 fs.nrootNodes).toNat = n + 1 := by
    refine ⟨rest.length, ?_⟩
    rw [toInt32_of_lt hlt, h.count, List.length_cons]
    exact Int.toNat_natCast _
  have hdev : isDev st fs fs.initrdDev (fs.rootNode 0) m = .ok false := if_neg h.dev_ne_root
  rw [finddirFs_directory h.dev, initrdFinddir, hdev, ok_bind, hn, finddirLoop, strcmp_spec hs hs hshort,
    if_pos rfl, ok_bind]
  rfl

/-- The name of a node ends within the node. -/
theorem FileNode.name_ends {f : FileHeader} (h : FileNode m st d i f) : ∃ s, CString m d s ∧ s.length ≤ 128 := by
  refine cstring_of_zero ?_
  have hmask := h.mask
  unfold load32 at hmask
  exact load8_eq_zero.mp (by unfold nodeMask at hmask; omega)

/-- With a file the two disagree in `dev`. -/
theorem Mounted.disagree_dev {f : FileHeader} {rest : List FileHeader}
    (h : Mounted m st fs location size (f :: rest)) : ¬ AgreeIn st fs fs.initrdDev m := by
  rintro ⟨entries, hlists, -, hfinds⟩
  have hempty := h.lists_dev hlists
  obtain ⟨s, hs, hshort⟩ := (h.mounted 0 f rfl).node.name_ends
  have hnode : fs.rootNode 0 = fs.rootNodes := rfl
  have hfits := h.fits
  rw [List.length_cons] at hfits
  have hfar : fs.rootNode 0 + s.length < ADDRESS_SPACE := by
    unfold sizeofFsNode at hfits
    unfold ADDRESS_SPACE
    omega
  obtain ⟨q, hq⟩ := hfinds m (fs.rootNode 0) s (fun r _ => SameOn.refl _ _ _) hs hfar
  have hrun := hq.run
  rw [h.finddir_dev_first hs (by omega)] at hrun
  cases hrun
  have hmem := hq.listed.mp h.nonnull.2
  rw [hempty] at hmem
  exact List.not_mem_nil hmem

/-! ## Without files -/

/-- `dev` is found in the root as the node `initrd_dev`. -/
theorem Mounted.finddir_root (h : Mounted m st fs location size files) (hs : CString m p s)
    (hshort : s.length < ADDRESS_SPACE) (hfiles : files = []) :
    finddirFs (initrdCode st fs) fs.initrdRoot p m = .ok (if s = nameDev then fs.initrdDev else 0) := by
  have hnone : (toInt32 fs.nrootNodes).toNat = 0 := by
    rw [h.count, hfiles]
    rfl
  have hdev : isDev st fs fs.initrdRoot p m = .ok (decide (s = nameDev)) := by
    rw [isDev, if_pos rfl, strcmp_spec hs h.strDev hshort, ok_bind]
    by_cases heq : s = nameDev
    · rw [if_pos heq, decide_eq_true heq]
      rfl
    · rw [if_neg heq, decide_eq_false heq]
      rfl
  rw [finddirFs_directory h.root, initrdFinddir, hdev, ok_bind, hnone]
  by_cases heq : s = nameDev
  · rw [if_pos heq, decide_eq_true heq]
    rfl
  · rw [if_neg heq, decide_eq_false heq]
    rfl

theorem Mounted.finddir_dev_none (h : Mounted m st fs location size files) (hfiles : files = []) (p : ℕ) :
    finddirFs (initrdCode st fs) fs.initrdDev p m = .ok 0 := by
  have hnone : (toInt32 fs.nrootNodes).toNat = 0 := by
    rw [h.count, hfiles]
    rfl
  have hdev : isDev st fs fs.initrdDev p m = .ok false := if_neg h.dev_ne_root
  rw [finddirFs_directory h.dev, initrdFinddir, hdev, ok_bind, hnone]
  rfl

theorem Mounted.dirent_apart (h : Mounted m st fs location size files) {r : ℕ × ℕ}
    (hr : r ∈ [(fs.rootNodes, sizeofFsNode * fs.nrootNodes), (fs.initrdDev, sizeofFsNode),
      (fs.initrdRoot, sizeofFsNode), (st.strDev, 4)]) : Apart r (st.dirent, 132) := by
  have hpair := h.apart
  unfold regions kept at hpair
  simp only [List.pairwise_cons, List.mem_cons, List.not_mem_nil, or_false] at hpair hr
  obtain ⟨hnodes, hdev, hroot, -, -, hstr, -⟩ := hpair
  rcases hr with rfl | rfl | rfl | rfl
  · exact hnodes _ (by simp)
  · exact hdev _ (by simp)
  · exact hroot _ (by simp)
  · exact hstr _ (by simp)

/-- An empty file system stays mounted as long as its nodes and the string do. -/
theorem Mounted.still (h : Mounted m st fs location size []) (hm : Still st fs m m') :
    Mounted m' st fs location size [] := by
  have hdev := hm _ (List.mem_cons_of_mem _ List.mem_cons_self)
  have hroot := hm _ (List.mem_cons_of_mem _ (List.mem_cons_of_mem _ List.mem_cons_self))
  have hstr := hm (st.strDev, 4) (by simp)
  refine ⟨h.count, h.fileHeaders, fun i f hf => (nomatch hf), h.root.congr (by decide) hroot,
    h.dev.congr (by decide) hdev, ?_, h.nonnull, h.fits, h.apart⟩
  exact h.strDev.congr hstr le_rfl (by rw [show nameDev.length = 3 from rfl]; dsimp only; omega)

/-- The first entry of the root is `dev`. -/
theorem Mounted.readdir_root (h : Mounted m st fs location size []) :
    ∃ m', readdirFs (initrdCode st fs) fs.initrdRoot 0 m = .ok (st.dirent, m') ∧ CString m' st.dirent nameDev ∧
      load32 m' (st.dirent + direntIno) = 0 ∧ Mounted m' st fs location size [] := by
  have hlength : nameDev.length = 3 := rfl
  have hino : direntIno = 128 := rfl
  have hfar := h.dirent_apart (r := (st.strDev, 4)) (by simp)
  have hd : st.dirent + nameDev.length ≤ st.strDev ∨ st.strDev + nameDev.length < st.dirent := by
    unfold Apart at hfar
    dsimp only at hfar
    omega
  obtain ⟨m1, hcopy, hbytes1, hoff1⟩ := strcpy_spec h.strDev (by decide) (by decide) hd
  obtain ⟨m2, hm2⟩ : ∃ x, x = store8 m1 (st.dirent + 3) 0 := ⟨_, rfl⟩
  obtain ⟨m3, hm3⟩ : ∃ x, x = store32 m2 (st.dirent + direntIno) 0 := ⟨_, rfl⟩
  have hoff2 : SameOff m1 m2 (st.dirent + 3) (st.dirent + 4) := by
    rw [hm2]
    exact sameOff_store8 le_rfl (by omega)
  have hoff3 : SameOff m2 m3 (st.dirent + 128) (st.dirent + 132) := by
    rw [hm3]
    exact sameOff_store32 (by omega) (by omega)
  have hoff : SameOff m m3 st.dirent (st.dirent + 132) :=
    (hoff1.mono le_rfl (by omega)).trans
      ((hoff2.mono (by omega) (by omega)).trans (hoff3.mono (by omega) le_rfl))
  refine ⟨m3, ?_, ?_, ?_, h.still fun r hr => ?_⟩
  · rw [readdirFs_directory h.root, initrdReaddir, if_pos ⟨rfl, rfl⟩, hcopy, ok_bind]
    dsimp only
    rw [← hm2, ← hm3]
    rfl
  · have hzero : m2 (st.dirent + nameDev.length) = 0 := by
      rw [hm2, hlength]
      simp [store8]
    have hbytes2 : BytesAt m2 st.dirent nameDev :=
      hbytes1.congr (hoff2.sameOn (Or.inl (by omega : st.dirent + nameDev.length ≤ st.dirent + 3))) le_rfl le_rfl
    have hstring : CString m2 st.dirent nameDev := cstring_of_bytesAt hbytes2 hzero (by decide)
    exact hstring.congr (hoff3.sameOn (Or.inl le_rfl : st.dirent + 128 ≤ st.dirent + 128 ∨ _)) le_rfl (by omega)
  · rw [hm3]
    exact load32_store32_of_lt (by norm_num)
  · have hapart := h.dirent_apart hr
    unfold Apart at hapart
    dsimp only at hapart
    exact hoff.sameOn (by omega)

/-- Without files the root lists `dev` alone. -/
theorem Mounted.listFrom_root (h : Mounted m st fs location size []) :
    ∃ m', listFrom (initrdCode st fs) fs.initrdRoot 2 0 m = .ok ([(nameDev, 0)], m') := by
  obtain ⟨m1, hread, hname, hino, h1⟩ := h.readdir_root
  have hend : readdirFs (initrdCode st fs) fs.initrdRoot 1 m1 = .ok (0, m1) := by
    have hindex : sub32 1 1 = 0 := by decide
    have hcount := h1.count
    rw [readdirFs_directory h1.root, initrdReaddir, if_neg (fun hzero => absurd hzero.2 one_ne_zero), hindex,
      if_pos (by rw [hcount]; exact le_rfl)]
  have hpos := st.dirent_pos
  have hbytes : readBytes m1 st.dirent nameDev.length = nameDev := hname.bytes
  refine ⟨m1, ?_⟩
  rw [listFrom, hread, ok_bind]
  dsimp only
  rw [if_neg (by omega), strlen_spec hname (by decide), ok_bind, hbytes, hino, listFrom, hend, ok_bind]
  rfl

/-! ## Together -/

/-- More fuel does not change a listing. -/
theorem listFrom_succ {code : Code} {fuel : ℕ} {r : List (List UInt8 × ℕ) × Mem}
    (hrun : listFrom code d fuel i m = .ok r) : listFrom code d (fuel + 1) i m = .ok r := by
  induction fuel generalizing i m r with
  | zero => cases hrun
  | succ fuel ih =>
    rw [listFrom] at hrun ⊢
    obtain ⟨⟨entry, m1⟩, hread, hrun⟩ := bind_eq_ok.mp hrun
    rw [hread, ok_bind]
    dsimp only at hrun ⊢
    split at hrun
    · next hzero =>
      rw [if_pos hzero]
      exact hrun
    · next hzero =>
      obtain ⟨length, hlength, hrun⟩ := bind_eq_ok.mp hrun
      obtain ⟨⟨rest, m2⟩, hrest, hrun⟩ := bind_eq_ok.mp hrun
      rw [if_neg hzero, hlength, ok_bind, ih hrest]
      exact hrun

theorem Lists.unique {code : Code} {entries entries' : List (List UInt8 × ℕ)} (h : Lists code d m entries)
    (h' : Lists code d m entries') : entries = entries' := by
  obtain ⟨fuel, m1, hrun⟩ := h
  obtain ⟨fuel', m1', hrun'⟩ := h'
  have hmore : ∀ (n fuel : ℕ) (r : List (List UInt8 × ℕ) × Mem),
      listFrom code d fuel 0 m = .ok r → listFrom code d (fuel + n) 0 m = .ok r := by
    intro n
    induction n with
    | zero => exact fun _ _ hr => hr
    | succ n ih => exact fun fuel r hr => listFrom_succ (ih fuel r hr)
  have hsame := hmore fuel' fuel _ hrun
  rw [Nat.add_comm, hmore fuel fuel' _ hrun'] at hsame
  cases hsame
  rfl

/-- Without files the two agree when the name of `dev` ends where it should. -/
theorem Mounted.agrees_empty (h : Mounted m st fs location size []) (hend : m (fs.initrdDev + 3) = 0) :
    ListingAgrees st fs m [] := by
  obtain ⟨m1, hlist⟩ := h.listFrom_root
  have hlists : Lists (initrdCode st fs) fs.initrdRoot m [(nameDev, 0)] := ⟨2, m1, hlist⟩
  refine ⟨⟨_, hlists, List.nodup_singleton _, fun m' p s hstill hs hfar => ?_⟩,
    ⟨[], ⟨1, m, ?_⟩, List.nodup_nil, fun m' p s hstill hs hfar => ?_⟩, fun entries hentries => ?_⟩
  · have h' := h.still hstill
    have hshort : s.length < ADDRESS_SPACE := by omega
    refine ⟨_, h'.finddir_root hs hshort rfl, ?_, fun hq => ?_⟩
    · by_cases heq : s = nameDev
      · rw [if_pos heq, heq]
        exact ⟨fun _ => List.mem_cons_self, fun _ => h.nonnull.1⟩
      · rw [if_neg heq]
        refine ⟨fun hne => absurd rfl hne, fun hmem => absurd (List.mem_singleton.mp hmem) heq⟩
    · by_cases heq : s = nameDev
      · rw [if_pos heq, heq, h'.dev.inode]
        have hdev := hstill (fs.initrdDev, sizeofFsNode) (by simp)
        refine ⟨cstring_of_bytesAt h'.dev.name ?_ (by decide), List.mem_cons_self⟩
        have hlength : nameDev.length = 3 := rfl
        have hsize : sizeofFsNode = 184 := rfl
        rw [hlength, hdev _ (by dsimp only; omega) (by dsimp only; omega), hend]
      · rw [if_neg heq] at hq
        exact absurd rfl hq
  · rw [listFrom, h.readdir_dev, ok_bind]
    rfl
  · have h' := h.still hstill
    refine ⟨0, h'.finddir_dev_none rfl p, ⟨fun hne => absurd rfl hne, fun hmem => absurd hmem List.not_mem_nil⟩,
      fun hne => absurd rfl hne⟩
  · rw [hentries.unique hlists]
    exact List.Perm.refl _

/-- Where the two agree without files, the name of `dev` ends behind its characters. -/
theorem Mounted.name_ends_of_agrees (h : Mounted m st fs location size [])
    (hagrees : AgreeIn st fs fs.initrdRoot m) : m (fs.initrdDev + 3) = 0 := by
  have hfar : st.strDev + nameDev.length < ADDRESS_SPACE := by
    have := st.strDev_lt
    rw [show nameDev.length = 3 from rfl, ADDRESS_SPACE]
    omega
  obtain ⟨entries, -, -, hfinds⟩ := hagrees
  obtain ⟨q, hq⟩ := hfinds m st.strDev nameDev (fun r _ => SameOn.refl _ _ _) h.strDev hfar
  have hrun := hq.run
  rw [h.finddir_root h.strDev (by decide) rfl, if_pos rfl] at hrun
  cases hrun
  exact (hq.named h.nonnull.1).1.zero

variable {kmalloc : Kmalloc} {k k' kdev : Kernel} {root dev nodes : ℕ}

/-- Listing and lookup agree exactly when there is no file and the block that `kmalloc` returned for `dev`
holds a 0 behind the place of the three characters. -/
theorem listing_agrees_iff (h : Loaded k.mem st location size files)
    (hserved : Served kmalloc st (kept st location size) files.length k root dev nodes kdev k') :
    ∃ m', initialiseInitrd kmalloc st location k =
        .ok ((root, mountedAs location root dev nodes files.length), k'.withMem m') ∧
      (ListingAgrees st (mountedAs location root dev nodes files.length) m' files ↔
        files = [] ∧ kdev.mem (dev + 3) = 0) := by
  obtain ⟨m', hrun, hmounted, -, htail⟩ := initialise_mounts h hserved
  have hprior : m' (dev + 3) = kdev.mem (dev + 3) := htail _ le_rfl (Nat.add_lt_add_left (by decide) _)
  refine ⟨m', hrun, fun hagrees => ?_, fun hempty => ?_⟩
  · cases files with
    | nil => exact ⟨rfl, hprior ▸ hmounted.name_ends_of_agrees hagrees.root⟩
    | cons f rest => exact absurd hagrees.dev hmounted.disagree_dev
  · obtain ⟨hfiles, hzero⟩ := hempty
    rw [hfiles] at hmounted ⊢
    exact hmounted.agrees_empty (hprior.trans hzero)

theorem loaded_loadedImage {files : List InputFile} {image : List UInt8} (hcount : files.length ≤ 63)
    (hnames : ∀ f ∈ files, f.name ≠ [] ∧ f.name.length ≤ 63 ∧ 0 ∉ f.name)
    (hat : ∀ m location, BytesAt m location image → ImageAt m location files)
    (hlength : image.length = imageSize files) (hshort : imageSize files < 0xF0000) :
    Loaded (loadedImage image).mem lowStatics 0x10000 image.length (headersFrom (tableSize + 4) files) := by
  have hbooted := booted_loadedImage (hlength.trans_lt hshort)
  exact loaded_of_imageAt hcount hnames (hat _ _ hbooted.bytes) hlength hbooted

/-- Without files, on memory that was 0 before, they agree. -/
theorem listing_agrees_iff_empty : ∃ image fs k',
    createInitrd (fun _ => none) [] (fun _ => 0) = some image ∧
    initialiseInitrd (PandaOS.kmalloc 1) lowStatics 0x10000 (loadedImage image) = .ok ((0x100000, fs), k') ∧
    ListingAgrees lowStatics fs k'.mem [] := by
  have hnone : ∀ f : InputFile, f ∉ [] := fun f => List.not_mem_nil
  obtain ⟨image, hcreate, hlength, hat⟩ := createInitrd_spec (fun _ => none) [] (fun _ => 0) (by decide)
    (fun f hf => absurd hf (hnone f)) (fun f hf => absurd hf (hnone f)) (by decide)
  have hloaded := loaded_loadedImage (by decide) (fun f hf => absurd hf (hnone f)) hat hlength (by decide)
  have hshort : image.length < 0xF0000 := hlength.trans_lt (by decide)
  obtain ⟨kdev, k', hserved, hzero⟩ := served_loadedImage hshort (Nat.zero_le 63)
  obtain ⟨m', hrun, hiff⟩ := listing_agrees_iff hloaded hserved
  exact ⟨image, _, _, hcreate, hrun, hiff.mpr ⟨rfl, hzero _ (by norm_num)⟩⟩

/-- With one file on the same memory, `dev` lists nothing, and the file is found there. -/
theorem listing_disagrees : ∃ image fs k',
    createInitrd (fun _ => some [0x68, 0x69]) [⟨[0x68], [0x68]⟩] (fun _ => 0) = some image ∧
    initialiseInitrd (PandaOS.kmalloc 1) lowStatics 0x10000 (loadedImage image) = .ok ((0x100000, fs), k') ∧
    Lists (initrdCode lowStatics fs) fs.initrdDev k'.mem [] ∧
    finddirFs (initrdCode lowStatics fs) fs.initrdDev (fs.rootNode 0) k'.mem = .ok (fs.rootNode 0) ∧
    ¬ ListingAgrees lowStatics fs k'.mem (headersFrom (tableSize + 4) [hiFile]) := by
  have hopen : ∀ f ∈ [hiFile], (fun _ : List UInt8 => some [0x68, 0x69]) f.path = some f.contents := by
    intro f hf
    rw [List.mem_singleton.mp hf]
    rfl
  obtain ⟨image, hcreate, hlength, hat⟩ := createInitrd_spec (fun _ => some [0x68, 0x69]) [hiFile] (fun _ => 0)
    (by decide) hopen (by decide) (by decide)
  have hloaded := loaded_loadedImage (by decide) (by decide) hat hlength (by decide)
  have hshort : image.length < 0xF0000 := hlength.trans_lt (by decide)
  obtain ⟨kdev, k', hserved, -⟩ := served_loadedImage hshort (by norm_num : 1 ≤ 63)
  obtain ⟨m', hrun, hmounted, -, -⟩ := initialise_mounts hloaded hserved
  have hmounted' : Mounted m' lowStatics _ 0x10000 image.length [⟨[0x68], tableSize + 4, 2⟩] := hmounted
  obtain ⟨s, hs, hends⟩ := (hmounted'.mounted 0 _ rfl).node.name_ends
  refine ⟨image, _, _, hcreate, hrun, ⟨1, m', ?_⟩, ?_, fun hagrees => hmounted'.disagree_dev hagrees.dev⟩
  · rw [Kernel.withMem_mem, listFrom, hmounted'.readdir_dev, ok_bind]
    rfl
  · exact hmounted'.finddir_dev_first hs (hends.trans_lt (by decide))

end PandaOS

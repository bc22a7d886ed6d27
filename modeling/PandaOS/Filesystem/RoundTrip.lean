import PandaOS.Filesystem.CreateInitrd
import PandaOS.Memory.BootMapping

/-! Reading a file of the image back through its node. A read clips at the end of the file, so
reading on from where the last read ended gives the contents piece by piece and then nothing. -/
namespace PandaOS
open ByteMemory Word32
set_option autoImplicit false
set_option maxHeartbeats 250000

/-! ## Reading in chunks -/

/-- One call of `read_fs`: how much is asked for, and where it goes. -/
structure Chunk where
  size : ℕ
  buffer : ℕ

/-- `read_fs` at successive offsets, each advanced by the count returned: the bytes that each call
put in its buffer. -/
def readChunks (code : Code) (node : ℕ) : List Chunk → ℕ → Mem → Result (List (List UInt8) × Mem)
  | [], _, m => .ok ([], m)
  | c :: chunks, offset, m => do
    let (count, m) ← readFs code node offset c.size c.buffer m
    let (pieces, m') ← readChunks code node chunks (offset + count) m
    return (readBytes m c.buffer count :: pieces, m')

/-- All that the chunks ask for. -/
def asked (chunks : List Chunk) : ℕ := (chunks.map Chunk.size).sum

/-- The pieces are the contents from the start on, all of them once enough was asked for, and nothing
behind that. -/
structure Delivers (pieces : List (List UInt8)) (contents : List UInt8) (chunks : List Chunk) : Prop where
  initial : pieces.flatten <+: contents
  whole : contents.length ≤ asked chunks → pieces.flatten = contents
  done : ∀ j, contents.length ≤ asked (chunks.take j) → ∀ piece ∈ pieces.drop j, piece = []

/-- The calls a client may make on a file of `length` bytes from `offset` on: offset and size do not wrap,
and the buffers are apart from the image and the nodes. -/
structure ChunksFit (fs : Initrd) (location size length offset : ℕ) (chunks : List Chunk) : Prop where
  bounded : ∀ before c after, chunks = before ++ c :: after →
    min (offset + asked before) length + c.size < 4294967296
  apart : ∀ c ∈ chunks, Apart (c.buffer, c.size) (location, size) ∧
    Apart (c.buffer, c.size) (fs.rootNodes, sizeofFsNode * fs.nrootNodes)

/-- The file `i` can be read: it is mounted, and its contents lie where its header says. -/
structure Readable (m : Mem) (st : Statics) (fs : Initrd) (location i : ℕ) (h : FileHeader)
    (contents : List UInt8) : Prop where
  mounted : FileMounted m st fs location i h
  length : h.length = contents.length
  contents : BytesAt m (location + h.offset) contents

/-- Where the parts of file `i` lie in the image and among the nodes. -/
structure Inside (fs : Initrd) (location size i : ℕ) (h : FileHeader) : Prop where
  index : i < fs.nrootNodes
  name : h.name.length ≤ 63
  header : location ≤ fs.fileHeader i ∧ fs.fileHeader (i + 1) ≤ location + size
  contents : h.offset + h.length ≤ size
  span : location + size < 4294967296

variable {m m' : Mem} {st : Statics} {fs : Initrd} {h : FileHeader} {contents : List UInt8}
  {chunks : List Chunk} {location size i offset buffer count : ℕ}

theorem rootNode_inside (hi : i < fs.nrootNodes) :
    fs.rootNodes ≤ fs.rootNode i ∧ fs.rootNode (i + 1) ≤ fs.rootNodes + sizeofFsNode * fs.nrootNodes := by
  unfold Initrd.rootNode
  refine ⟨Nat.le_add_right _ _, Nat.add_le_add_left ?_ _⟩
  exact Nat.mul_le_mul_left _ hi

/-- Writing to a buffer apart from the file system changes nothing that a read looks at. -/
theorem Readable.congr (hr : Readable m st fs location i h contents) (hin : Inside fs location size i h)
    (hm : SameOff m m' buffer (buffer + count)) (himage : Apart (buffer, count) (location, size))
    (hnodes : Apart (buffer, count) (fs.rootNodes, sizeofFsNode * fs.nrootNodes)) :
    Readable m' st fs location i h contents := by
  have himage' := himage.sameOn hm
  have hnodes' := hnodes.sameOn hm
  dsimp only at himage' hnodes'
  obtain ⟨hnode1, hnode2⟩ := rootNode_inside hin.index
  obtain ⟨hheader1, hheader2⟩ := hin.header
  have hcontents := hin.contents
  have hlength := hr.length
  refine ⟨?_, hr.length, hr.contents.congr himage' (by omega) (by omega)⟩
  exact hr.mounted.congr hin.name (himage'.mono (by omega) hheader2) (hnodes'.mono hnode1 hnode2)

/-- One call of `read_fs`. -/
theorem readFs_spec (hr : Readable m st fs location i h contents) (hin : Inside fs location size i h)
    (hoffset : offset ≤ contents.length) (hcount : offset + count < 4294967296)
    (himage : Apart (buffer, count) (location, size))
    (hnodes : Apart (buffer, count) (fs.rootNodes, sizeofFsNode * fs.nrootNodes)) :
    ∃ m', readFs (initrdCode st fs) (fs.rootNode i) offset count buffer m =
        .ok (min count (contents.length - offset), m') ∧
      readBytes m' buffer (min count (contents.length - offset)) = (contents.drop offset).take count ∧
      Readable m' st fs location i h contents := by
  obtain ⟨got, hgot⟩ : ∃ x, x = min count (contents.length - offset) := ⟨_, rfl⟩
  rw [← hgot]
  have hcontents := hin.contents
  have hlength := hr.length
  have hspan := hin.span
  have hmounted := hr.mounted
  have haddr : add32 (add32 h.offset location) offset = location + h.offset + offset := by
    have hsum : add32 h.offset location = location + h.offset := by
      rw [add32_of_lt (by omega)]
      omega
    rw [hsum]
    exact add32_of_lt (by omega)
  have hsize : (if add32 offset count > h.length then sub32 h.length offset else count) = got := by
    rw [add32_of_lt hcount]
    split
    · rw [sub32_of_le (by omega) (by omega)]
      omega
    · omega
  have hfar : buffer + got ≤ location + h.offset + offset ∨ location + h.offset + offset + got ≤ buffer := by
    unfold Apart at himage
    dsimp only at himage
    omega
  refine ⟨memcpy m buffer (location + h.offset + offset) got, ?_, ?_, ?_⟩
  · have hptr : load32 m (fs.rootNode i + nodeRead) = st.initrdRead := hmounted.node.read
    have hne : st.initrdRead ≠ 0 := by
      have := st.read_pos
      omega
    rw [readFs, hptr, if_pos hne]
    dsimp only [initrdCode]
    rw [if_pos rfl]
    dsimp only [initrdRead]
    rw [hmounted.node.inode, hmounted.length, hmounted.offset, if_neg (by omega), hsize, haddr]
  · have hdrop := hr.contents.drop offset hoffset
    have hshort : got ≤ (contents.drop offset).length := by
      rw [List.length_drop]
      omega
    rw [readBytes_memcpy hfar, hdrop.read_take hshort, hgot, ← List.length_drop]
    exact List.take_eq_take_min.symm
  · have hoff : SameOff m (memcpy m buffer (location + h.offset + offset) got) buffer (buffer + count) :=
      (sameOff_memcpy _ _ _ _).mono le_rfl (by omega)
    exact hr.congr hin hoff himage hnodes

theorem asked_cons (c : Chunk) (chunks : List Chunk) : asked (c :: chunks) = c.size + asked chunks := rfl

theorem ChunksFit.head {c : Chunk} (hfit : ChunksFit fs location size count offset (c :: chunks))
    (hoffset : offset ≤ count) : offset + c.size < 4294967296 := by
  have hbound := hfit.bounded [] c chunks rfl
  rw [show asked [] = 0 from rfl] at hbound
  omega

theorem ChunksFit.tail {c : Chunk} (hfit : ChunksFit fs location size count offset (c :: chunks)) :
    ChunksFit fs location size count (offset + min c.size (count - offset)) chunks := by
  refine ⟨fun before d after heq => ?_, fun d hd => hfit.apart d (List.mem_cons_of_mem _ hd)⟩
  have hbound := hfit.bounded (c :: before) d after (by rw [heq]; rfl)
  rw [asked_cons] at hbound
  omega

/-- The calls from `offset` on. -/
theorem readChunks_spec (hr : Readable m st fs location i h contents) (hin : Inside fs location size i h)
    (hoffset : offset ≤ contents.length) (hfit : ChunksFit fs location size contents.length offset chunks) :
    ∃ pieces m', readChunks (initrdCode st fs) (fs.rootNode i) chunks offset m = .ok (pieces, m') ∧
      pieces.flatten = (contents.drop offset).take (asked chunks) ∧
      ∀ j, contents.length ≤ offset + asked (chunks.take j) → ∀ piece ∈ pieces.drop j, piece = [] := by
  induction chunks generalizing m offset with
  | nil =>
    refine ⟨[], m, rfl, List.take_zero.symm, fun j _ piece hpiece => ?_⟩
    rw [List.drop_nil] at hpiece
    cases hpiece
  | cons c chunks ih =>
    obtain ⟨himage, hnodes⟩ := hfit.apart c List.mem_cons_self
    obtain ⟨m1, hrun1, hpiece1, hr1⟩ := readFs_spec hr hin hoffset (hfit.head hoffset) himage hnodes
    obtain ⟨next, hnext⟩ : ∃ x, x = offset + min c.size (contents.length - offset) := ⟨_, rfl⟩
    obtain ⟨pieces, m2, hrun2, hflatten, hdone⟩ := ih hr1 (by omega : next ≤ contents.length) (hnext ▸ hfit.tail)
    -- the rest of the file from the new offset is the rest behind what was asked for
    have hrest : contents.drop next = (contents.drop offset).drop c.size := by
      rw [List.drop_drop]
      rcases Nat.le_total (offset + c.size) contents.length with hle | hge
      · rw [show next = offset + c.size by omega]
      · rw [List.drop_of_length_le (by omega), List.drop_of_length_le hge]
    refine ⟨(contents.drop offset).take c.size :: pieces, m2, ?_, ?_, ?_⟩
    · rw [readChunks, hrun1, ok_bind]
      dsimp only
      rw [← hnext, hrun2, ok_bind, hpiece1]
      rfl
    · rw [List.flatten_cons, hflatten, hrest, asked_cons, ← List.take_add]
    · intro j hj piece hpiece
      cases j with
      | zero =>
        have hend : contents.length ≤ offset := hj
        rcases List.mem_cons.mp hpiece with heq | hmem
        · rw [heq, List.drop_of_length_le hend, List.take_nil]
        · exact hdone 0 (by omega) piece hmem
      | succ j =>
        rw [List.take_succ_cons, asked_cons] at hj
        exact hdone j (by omega) piece hpiece

theorem delivers_of_flatten {pieces : List (List UInt8)} (hflatten : pieces.flatten = contents.take (asked chunks))
    (hdone : ∀ j, contents.length ≤ asked (chunks.take j) → ∀ piece ∈ pieces.drop j, piece = []) :
    Delivers pieces contents chunks := by
  refine ⟨?_, fun hle => ?_, hdone⟩
  · rw [hflatten]
    exact List.take_prefix _ _
  · rw [hflatten, List.take_of_length_le hle]

/-! ## From the host to the nodes -/

/-- The image is loaded with the strings of `initrd.c` in place, and nothing overlaps. -/
structure Booted (m : Mem) (st : Statics) (location : ℕ) (image : List UInt8) : Prop where
  bytes : BytesAt m location image
  span : location + image.length < 4294967296
  strJ : CString m st.strJ nameJ
  strDev : CString m st.strDev nameDev
  apart : (kept st location image.length).Pairwise Apart

theorem loaded_of_imageAt {files : List InputFile} {image : List UInt8} (hcount : files.length ≤ 63)
    (hnames : ∀ f ∈ files, f.name ≠ [] ∧ f.name.length ≤ 63 ∧ 0 ∉ f.name)
    (himage : ImageAt m location files) (hlength : image.length = imageSize files)
    (hbooted : Booted m st location image) :
    Loaded m st location image.length (headersFrom (tableSize + 4) files) := by
  have hspan := hbooted.span
  have htable : tableSize = 4864 := rfl
  refine ⟨?_, fun i h hh => ?_, fun h hh => ?_, ?_, hspan.le, hbooted.strJ, hbooted.strDev, hbooted.apart⟩
  · rw [length_headersFrom, himage.count]
  · have hheader := himage.headers i h hh
    exact ⟨hheader.name, hheader.offset, hheader.length⟩
  · obtain ⟨i, hi⟩ := List.getElem?_of_mem hh
    obtain ⟨f, hf, hname, -⟩ := headersFrom_file _ hi
    obtain ⟨hne, hshort, -⟩ := hnames f (List.mem_of_getElem? hf)
    rw [hname]
    exact ⟨hne, hshort⟩
  · rw [length_headersFrom, hlength, imageSize]
    unfold sizeofInitrdHeader sizeofFileHeader
    omega

variable {k : Kernel}

/-- Every file of the image that `create_initrd` writes can be read back through its node. -/
theorem initrd_round_trip (kmalloc : Kmalloc) (st : Statics) (fopen : Fopen) (files : List InputFile) (stack : Mem)
    (hcount : files.length ≤ 63)
    (hopen : ∀ f ∈ files, fopen f.path = some f.contents)
    (hnames : ∀ f ∈ files, f.name ≠ [] ∧ f.name.length ≤ 63 ∧ 0 ∉ f.name)
    (hfits : imageSize files < 4294967296) :
    ∃ image, createInitrd fopen (files.map InputFile.argument) stack = some image ∧
      image.length = imageSize files ∧ ∀ location k root dev nodes kdev k', Booted k.mem st location image →
        Served kmalloc st (kept st location image.length) files.length k root dev nodes kdev k' →
        ∃ fs m', initialiseInitrd kmalloc st location k = .ok ((root, fs), k'.withMem m') ∧
          fs = mountedAs location root dev nodes files.length ∧ fs.nrootNodes = files.length ∧
          ∀ i f, files[i]? = some f → load32 m' (fs.rootNode i + nodeLength) = f.contents.length ∧
            ∀ chunks, ChunksFit fs location image.length f.contents.length 0 chunks →
              ∃ pieces m'', readChunks (initrdCode st fs) (fs.rootNode i) chunks 0 m' = .ok (pieces, m'') ∧
                Delivers pieces f.contents chunks := by
  obtain ⟨image, hcreate, hlength, hat⟩ := createInitrd_spec fopen files stack hcount hopen
    (fun f hf => (hnames f hf).2) hfits
  refine ⟨image, hcreate, hlength, fun location k root dev nodes kdev k' hbooted hserved => ?_⟩
  have himage := hat k.mem location hbooted.bytes
  have hloaded := loaded_of_imageAt hcount hnames himage hlength hbooted
  obtain ⟨headers, hheaders⟩ : ∃ x, x = headersFrom (tableSize + 4) files := ⟨_, rfl⟩
  have hlengths : headers.length = files.length := by rw [hheaders, length_headersFrom]
  rw [← hlengths] at hserved
  rw [← hheaders] at hloaded
  obtain ⟨m', hrun, hmounted, hsame, -⟩ := initialise_mounts hloaded hserved
  obtain ⟨fs, hfs⟩ : ∃ x, x = mountedAs location root dev nodes headers.length := ⟨_, rfl⟩
  rw [← hfs] at hrun hmounted
  refine ⟨fs, m', hrun, hlengths ▸ hfs, hmounted.count.trans hlengths, fun i f hf => ?_⟩
  obtain ⟨h, hh, hname, hcontentsLength⟩ := headersFrom_getElem (tableSize + 4) hf
  obtain ⟨hbytes, hlow, hhigh⟩ := contents_at (tableSize + 4) himage.contents hf hh
  rw [← hheaders] at hh
  have hfile := hmounted.mounted i h hh
  obtain ⟨hilt, -⟩ := List.getElem?_eq_some_iff.mp hf
  have hin : Inside fs location image.length i h := by
    have htable : tableSize = 4864 := rfl
    have hheader : ∀ j, fs.fileHeader j = location + 4 + 76 * j := by
      intro j
      rw [hfs]
      rfl
    refine ⟨?_, (hloaded.named h (List.mem_of_getElem? hh)).2, ⟨?_, ?_⟩, ?_, hbooted.span⟩
    · rw [hmounted.count]
      omega
    · rw [hheader]
      omega
    · rw [hheader, hlength, imageSize]
      omega
    · rw [hcontentsLength, hlength, imageSize]
      omega
  have hreadable : Readable m' st fs location i h f.contents := by
    refine ⟨hfile, hcontentsLength, hbytes.congr hsame ?_ ?_⟩
    · have hat : headerAt location headers.length = location + 4 + 76 * headers.length := rfl
      have htable : tableSize = 4864 := rfl
      omega
    · rw [hlength, imageSize]
      omega
  refine ⟨hfile.node.length.trans hcontentsLength, fun chunks hfit => ?_⟩
  obtain ⟨pieces, m'', hread, hflatten, hdone⟩ := readChunks_spec hreadable hin (Nat.zero_le _) hfit
  rw [List.drop_zero] at hflatten
  refine ⟨pieces, m'', hread, delivers_of_flatten hflatten fun j hj => hdone j ?_⟩
  rwa [Nat.zero_add]

/-! ## The placement allocator serves -/

theorem grant_of_none {keep : List (ℕ × ℕ)} {p : ℕ} (fuel sz : ℕ) (hk : k.kheap = none)
    (hp : k.placementAddress = p) (hpos : 0 < p) (hfits : p + sz < 4294967296) (hkeep : ∀ r ∈ keep, r.1 + r.2 ≤ p) :
    Grant (PandaOS.kmalloc fuel) keep sz k p (k.withPlacement (p + sz)) := by
  refine ⟨?_, by omega, by omega, fun r hr => Or.inr (hkeep r hr), fun r _ => SameOn.refl _ _ _⟩
  rw [kmalloc_of_none fuel hk, hp, add32_of_lt hfits]

/-- Before the heap exists `initialise_initrd` gets its three blocks one behind the other. -/
theorem served_of_none {keep : List (ℕ × ℕ)} (fuel p n : ℕ) (hk : k.kheap = none)
    (hp : k.placementAddress = p) (hpos : 0 < p) (hfits : p + 368 + 184 * n < 4294967296)
    (hkeep : ∀ r ∈ keep, r.1 + r.2 ≤ p) (hJ : CString k.mem st.strJ nameJ)
    (hDev : CString k.mem st.strDev nameDev) (hlow : st.strJ + 2 ≤ p ∧ st.strDev + 4 ≤ p) :
    ∃ kdev k', Served (PandaOS.kmalloc fuel) st keep n k p (p + 184) (p + 368) kdev k' ∧
      ∀ x, p + 184 ≤ x → kdev.mem x = k.mem x := by
  have hsize : sizeofFsNode = 184 := rfl
  have hlengths : nameJ.length = 1 ∧ nameDev.length = 3 := ⟨rfl, rfl⟩
  have hgrant1 := grant_of_none fuel sizeofFsNode hk hp hpos (by omega) hkeep
  obtain ⟨k1, hk1⟩ : ∃ x, x = k.withPlacement (p + sizeofFsNode) := ⟨_, rfl⟩
  rw [← hk1] at hgrant1
  have hJ1 : CString k1.mem st.strJ nameJ := by
    rw [hk1]
    exact hJ
  have hJapart : Apart (p, sizeofFsNode) (st.strJ, nameJ.length + 1) := Or.inr (by dsimp only; omega)
  obtain ⟨m2, hrun2, -, hoff2, -⟩ := makeDirectory_spec st hJ1 (by decide) (by decide) hJapart
  obtain ⟨k2, hk2⟩ : ∃ x, x = k1.withMem m2 := ⟨_, rfl⟩
  rw [← hk2] at hrun2
  have hfields2 : k2.placementAddress = p + 184 ∧ k2.kheap = none ∧ k2.mem = m2 := by
    rw [hk2, hk1]
    exact ⟨rfl, hk, rfl⟩
  obtain ⟨hplace2, hheap2, hmem2⟩ := hfields2
  have hkeep2 : ∀ r ∈ (p, sizeofFsNode) :: keep, r.1 + r.2 ≤ p + 184 := by
    intro r hr
    rcases List.mem_cons.mp hr with rfl | hr
    · exact le_rfl
    · have := hkeep r hr
      omega
  have hgrant2 := grant_of_none fuel sizeofFsNode hheap2 hplace2 (by omega) (by omega) hkeep2
  obtain ⟨kdev, hkdev⟩ : ∃ x, x = k2.withPlacement (p + 184 + sizeofFsNode) := ⟨_, rfl⟩
  rw [← hkdev] at hgrant2
  have hDev3 : CString kdev.mem st.strDev nameDev := by
    have hsame : SameOn k.mem kdev.mem st.strDev (st.strDev + 4) := by
      rw [hkdev]
      show SameOn k.mem k2.mem _ _
      rw [hmem2]
      rw [hk1] at hoff2
      exact hoff2.sameOn (Or.inl (by omega))
    exact hDev.congr hsame le_rfl (by omega)
  have hDevApart : Apart (p + 184, sizeofFsNode) (st.strDev, nameDev.length + 1) := Or.inr (by dsimp only; omega)
  obtain ⟨m4, hrun4, -, -, -⟩ := makeDirectory_spec st hDev3 (by decide) (by decide) hDevApart
  obtain ⟨k4, hk4⟩ : ∃ x, x = kdev.withMem m4 := ⟨_, rfl⟩
  rw [← hk4] at hrun4
  have hfields4 : k4.placementAddress = p + 368 ∧ k4.kheap = none := by
    rw [hk4, hkdev]
    exact ⟨rfl, hheap2⟩
  have hkeep4 : ∀ r ∈ (p + 184, sizeofFsNode) :: (p, sizeofFsNode) :: keep, r.1 + r.2 ≤ p + 368 := by
    intro r hr
    rcases List.mem_cons.mp hr with rfl | hr
    · exact le_rfl
    · have := hkeep2 r hr
      omega
  have hgrant4 := grant_of_none fuel (sizeofFsNode * n) hfields4.2 hfields4.1 (by omega)
    (by rw [hsize]; omega) hkeep4
  refine ⟨kdev, _, ⟨k1, k2, k4, hgrant1, hrun2, hgrant2, hrun4, hgrant4⟩, fun x hx => ?_⟩
  rw [hkdev]
  show k2.mem x = k.mem x
  rw [hmem2, hoff2 x (Or.inr hx), hk1]
  rfl

/-- Statics below 64 kB, with the image loaded behind them at 64 kB and the placement address at 1 MB. -/
def lowStatics : Statics := ⟨0x200, 0x100, 0x110, 0x300, 0x400, 0x500, by decide, by decide, by decide, by decide, by decide⟩

def jMem : Mem := writeBytes (fun _ => 0) 0x100 (nameJ ++ [0])

def stringsMem : Mem := writeBytes jMem 0x110 (nameDev ++ [0])

def loadedImage (image : List UInt8) : Kernel :=
  ⟨writeBytes stringsMem 0x10000 image, fun _ => 0, 0x100000, none, 0, 0, 0, 0, 0, false⟩

theorem booted_loadedImage {image : List UInt8} (hlength : image.length < 0xF0000) :
    Booted (loadedImage image).mem lowStatics 0x10000 image := by
  have hsame : SameOn stringsMem (loadedImage image).mem 0x100 0x10000 :=
    (sameOff_writeBytes stringsMem 0x10000 image).sameOn (Or.inl le_rfl)
  have hsameJ : SameOn jMem stringsMem 0x100 0x110 :=
    (sameOff_writeBytes jMem 0x110 (nameDev ++ [0])).sameOn (Or.inl le_rfl)
  have hJ : BytesAt jMem 0x100 (nameJ ++ [0]) := bytesAt_writeBytes _ _ _
  have hDev : BytesAt stringsMem 0x110 (nameDev ++ [0]) := bytesAt_writeBytes _ _ _
  refine ⟨bytesAt_writeBytes _ _ _, by omega, ⟨?_, by decide⟩, ⟨?_, by decide⟩, ?_⟩
  · exact (hJ.congr hsameJ le_rfl (by decide)).congr hsame le_rfl (by decide)
  · exact hDev.congr hsame (by decide) (by decide)
  · unfold kept lowStatics Apart
    simp only [List.pairwise_cons, List.mem_cons, List.not_mem_nil, or_false, forall_eq_or_imp, forall_eq,
      List.Pairwise.nil, and_true]
    exact ⟨⟨by omega, by omega, by omega⟩, ⟨by omega, by omega⟩, by omega, fun _ h => h.elim⟩

theorem served_loadedImage {image : List UInt8} {n : ℕ} (hlength : image.length < 0xF0000) (hn : n ≤ 63) :
    ∃ kdev k', Served (PandaOS.kmalloc 1) lowStatics (kept lowStatics 0x10000 image.length) n
      (loadedImage image) 0x100000 (0x100000 + 184) (0x100000 + 368) kdev k' ∧
      ∀ x, 0x100000 + 184 ≤ x → kdev.mem x = 0 := by
  have hbooted := booted_loadedImage hlength
  have hkeep : ∀ r ∈ kept lowStatics 0x10000 image.length, r.1 + r.2 ≤ 0x100000 := by
    intro r hr
    unfold kept at hr
    simp only [List.mem_cons, List.not_mem_nil, or_false] at hr
    rcases hr with rfl | rfl | rfl | rfl
    · dsimp only
      omega
    all_goals decide
  obtain ⟨kdev, k', hserved, hsame⟩ := served_of_none 1 0x100000 n
    (rfl : (loadedImage image).kheap = none) rfl (by norm_num) (by omega) hkeep hbooted.strJ hbooted.strDev (by decide)
  refine ⟨kdev, k', hserved, fun x hx => ?_⟩
  have hlengths : (nameDev ++ [0]).length = 4 ∧ (nameJ ++ [0]).length = 2 := ⟨rfl, rfl⟩
  have himage := sameOff_writeBytes stringsMem 0x10000 image x (Or.inr (by omega))
  have hDev := sameOff_writeBytes jMem 0x110 (nameDev ++ [0]) x (Or.inr (by omega))
  have hJ := sameOff_writeBytes (fun _ => 0) 0x100 (nameJ ++ [0]) x (Or.inr (by omega))
  rw [hsame x hx]
  exact himage.trans (hDev.trans hJ)

/-- One file of two bytes. -/
def hiFile : InputFile := ⟨[0x68], [0x68], [0x68, 0x69]⟩

/-- Reading it 1 byte and then 4 bytes at a time. -/
theorem initrd_round_trip_hi : ∃ image fs k' pieces m',
    createInitrd (fun _ => some [0x68, 0x69]) [⟨[0x68], [0x68]⟩] (fun _ => 0) = some image ∧
    initialiseInitrd (PandaOS.kmalloc 1) lowStatics 0x10000 (loadedImage image) = .ok ((0x100000, fs), k') ∧
    readChunks (initrdCode lowStatics fs) (fs.rootNode 0) [⟨1, 0x10⟩, ⟨4, 0x20⟩] 0 k'.mem = .ok (pieces, m') ∧
    pieces.flatten = [0x68, 0x69] := by
  have hopen : ∀ f ∈ [hiFile], (fun _ : List UInt8 => some [0x68, 0x69]) f.path = some f.contents := by
    intro f hf
    rw [List.mem_singleton.mp hf]
    rfl
  have hsize : imageSize [hiFile] = 4870 := by decide
  obtain ⟨image, hcreate, hlength, hrest⟩ := initrd_round_trip (PandaOS.kmalloc 1) lowStatics
    (fun _ => some [0x68, 0x69]) [hiFile] (fun _ => 0) (by decide) hopen (by decide) (by rw [hsize]; norm_num)
  have hshort : image.length < 0xF0000 := by
    rw [hlength, hsize]
    norm_num
  obtain ⟨kdev, k', hserved, -⟩ := served_loadedImage hshort (by norm_num : 1 ≤ 63)
  obtain ⟨fs, m', hrun, hfs, -, hfiles⟩ := hrest _ _ _ _ _ _ _ (booted_loadedImage hshort) hserved
  obtain ⟨-, hread⟩ := hfiles 0 hiFile rfl
  have hfit : ChunksFit fs 0x10000 image.length hiFile.contents.length 0 [⟨1, 0x10⟩, ⟨4, 0x20⟩] := by
    refine ⟨fun before c after heq => ?_, fun c hc => ?_⟩
    · have hc : c ∈ [(⟨1, 0x10⟩ : Chunk), ⟨4, 0x20⟩] := by
        rw [heq]
        exact List.mem_append_right _ List.mem_cons_self
      have hlengthHi : hiFile.contents.length = 2 := rfl
      fin_cases hc <;> (dsimp only; omega)
    · rw [hfs]
      fin_cases hc <;> exact ⟨Or.inl (by dsimp only; norm_num), Or.inl (by decide)⟩
  obtain ⟨pieces, m'', hchunks, hdelivers⟩ := hread _ hfit
  exact ⟨image, fs, _, pieces, m'', hcreate, hrun, hchunks, hdelivers.whole (by decide)⟩

end PandaOS

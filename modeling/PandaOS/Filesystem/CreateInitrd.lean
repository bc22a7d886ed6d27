import PandaOS.Filesystem.Mounting

/-! `create_initrd.c`, the host program that writes the image: the number of files, a table of 64
headers, and the contents one behind the other. The table is an array on the stack whose unused
bytes are written as they are. -/
namespace PandaOS
open ByteMemory Word32
set_option autoImplicit false
set_option maxHeartbeats 250000

/-! ## The program -/

/-- `argv[i*2+1]` and `argv[i*2+2]`. -/
structure Argument where
  path : List UInt8
  name : List UInt8

/-- `argc` is a `char`. -/
def signedChar (x : ℕ) : ℤ := if x % 256 < 128 then (x % 256 : ℕ) else (x % 256 : ℕ) - 256

/-- `(argc-1)/2` -/
def headerCount (argc : ℕ) : ℤ := (signedChar argc - 1).tdiv 2

/-- What the host's `fopen` and `fread` give: the contents of a file, or no file. -/
abbrev Fopen := List UInt8 → Option (List UInt8)

/-- The first loop from header `i` on; `none` is the exit with "file not found". -/
def headersLoop (fopen : Fopen) : List Argument → ℕ → ℕ → Mem → Option Mem
  | [], _, _, headers => some headers
  | arg :: args, i, off, headers =>
    let header := sizeofFileHeader*i
    let headers := writeBytes headers (header + fileName) (arg.name ++ [0])
    let headers := store32 headers (header + fileOffset) off
    match fopen arg.path with
    | none => none
    | some stream =>
      let headers := store32 headers (header + fileLength) stream.length
      let off := add32 off (load32 headers (header + fileLength))
      let headers := store8 headers header 0xBF
      headersLoop fopen args (i + 1) off headers

/-- The second loop from header `i` on. -/
def contentsLoop (fopen : Fopen) (headers : Mem) : List Argument → ℕ → Option (List UInt8)
  | [], _ => some []
  | arg :: args, i =>
    match fopen arg.path, contentsLoop fopen headers args (i + 1) with
    | some stream, some rest => some (stream.take (load32 headers (sizeofFileHeader*i + fileLength)) ++ rest)
    | _, _ => none

/-- The bytes of an `int`. -/
def intBytes (v : ℤ) : List UInt8 := readBytes (store32 (fun _ => 0) 0 (v % 4294967296).toNat) 0 4

def tableSize : ℕ := sizeofFileHeader * 64

/-- The image, for the arguments behind `argv[0]` and the stack as `main` finds it. -/
def createInitrd (fopen : Fopen) (args : List Argument) (stack : Mem) : Option (List UInt8) :=
  let nheaders := headerCount (2 * args.length + 1)
  let args := args.take nheaders.toNat
  let off := tableSize + 4
  match headersLoop fopen args 0 off stack with
  | none => none
  | some headers =>
    match contentsLoop fopen headers args 0 with
    | none => none
    | some contents => some (intBytes nheaders ++ (readBytes headers 0 tableSize ++ contents))

/-! ## The image of a list of files -/

/-- A file of the host and the name it gets. -/
structure InputFile where
  path : List UInt8
  name : List UInt8
  contents : List UInt8

def InputFile.argument (f : InputFile) : Argument := ⟨f.path, f.name⟩

/-- The bytes of all contents. -/
def allContents (files : List InputFile) : List UInt8 := files.flatMap InputFile.contents

/-- The headers of files whose contents begin at `off`. -/
def headersFrom (off : ℕ) : List InputFile → List FileHeader
  | [] => []
  | f :: files => ⟨f.name, off, f.contents.length⟩ :: headersFrom (off + f.contents.length) files

def imageSize (files : List InputFile) : ℕ := 4 + tableSize + (allContents files).length

/-- A header in memory says this. -/
structure HeaderIs (m : Mem) (header : ℕ) (f : FileHeader) : Prop where
  name : CString m (header + fileName) f.name
  offset : load32 m (header + fileOffset) = f.offset
  length : load32 m (header + fileLength) = f.length

/-- What is stored of a header: the offset is an `unsigned int`. -/
def FileHeader.stored (h : FileHeader) : FileHeader := ⟨h.name, h.offset % 4294967296, h.length⟩

variable {fopen : Fopen} {files : List InputFile} {f : InputFile} {h : FileHeader} {m m' headers : Mem}
  {i j off header location : ℕ}

theorem HeaderIs.congr (hh : HeaderIs m header h) (hn : h.name.length ≤ 63)
    (hm : SameOn m m' header (header + sizeofFileHeader)) : HeaderIs m' header h := by
  have hsize : sizeofFileHeader = 76 := rfl
  have hfile : fileName = 1 ∧ fileOffset = 68 ∧ fileLength = 72 := ⟨rfl, rfl, rfl⟩
  refine ⟨hh.name.congr hm (by omega) (by omega), ?_, ?_⟩
  · rw [hm.load32_eq (by omega) (by omega), hh.offset]
  · rw [hm.load32_eq (by omega) (by omega), hh.length]

theorem length_headersFrom (off : ℕ) (files : List InputFile) : (headersFrom off files).length = files.length := by
  induction files generalizing off with
  | nil => rfl
  | cons f files ih => rw [headersFrom, List.length_cons, ih, List.length_cons]

theorem headersFrom_getElem (off : ℕ) (hf : files[i]? = some f) :
    ∃ h, (headersFrom off files)[i]? = some h ∧ h.name = f.name ∧ h.length = f.contents.length := by
  induction files generalizing off i with
  | nil => cases hf
  | cons g files ih =>
    cases i with
    | zero =>
      cases hf
      exact ⟨_, rfl, rfl, rfl⟩
    | succ i => exact ih _ hf

/-- Every header stems from a file. -/
theorem headersFrom_file (off : ℕ) (hh : (headersFrom off files)[i]? = some h) :
    ∃ f, files[i]? = some f ∧ h.name = f.name ∧ h.length = f.contents.length := by
  have hlt : i < files.length := by
    obtain ⟨hlt, -⟩ := List.getElem?_eq_some_iff.mp hh
    rwa [length_headersFrom] at hlt
  obtain ⟨h', hh', hname, hlength⟩ := headersFrom_getElem off (List.getElem?_eq_getElem hlt)
  rw [hh] at hh'
  cases hh'
  exact ⟨_, List.getElem?_eq_getElem hlt, hname, hlength⟩

/-- The contents of a file lie at the offset in its header. -/
theorem contents_at (off : ℕ) (hm : BytesAt m (location + off) (allContents files)) (hf : files[i]? = some f)
    (hh : (headersFrom off files)[i]? = some h) :
    BytesAt m (location + h.offset) f.contents ∧ off ≤ h.offset ∧
      h.offset + f.contents.length ≤ off + (allContents files).length := by
  induction files generalizing off i with
  | nil => cases hf
  | cons g files ih =>
    have hsplit : allContents (g :: files) = g.contents ++ allContents files := List.flatMap_cons
    rw [hsplit] at hm ⊢
    rw [bytesAt_append] at hm
    rw [List.length_append]
    cases i with
    | zero =>
      cases hf
      cases hh
      exact ⟨hm.1, le_rfl, by dsimp only; omega⟩
    | succ i =>
      have hsum : location + off + g.contents.length = location + (off + g.contents.length) := by omega
      rw [hsum] at hm
      obtain ⟨hbytes, hl, hh'⟩ := ih (off + g.contents.length) hm.2 hf hh
      exact ⟨hbytes, by omega, by omega⟩

/-! ## The loops -/

/-- The first loop fills in the headers from `i` on and leaves the others alone. -/
theorem headersLoop_spec (hopen : ∀ f ∈ files, fopen f.path = some f.contents)
    (hnames : ∀ f ∈ files, f.name.length ≤ 63 ∧ 0 ∉ f.name)
    (hsizes : ∀ f ∈ files, f.contents.length < 4294967296) (i off : ℕ) (m : Mem) :
    ∃ m', headersLoop fopen (files.map InputFile.argument) i (off % 4294967296) m = some m' ∧
      (∀ j h, (headersFrom off files)[j]? = some h → HeaderIs m' (sizeofFileHeader*(i + j)) h.stored ∧
        load8 m' (sizeofFileHeader*(i + j)) = 0xBF) ∧
      SameOff m m' (sizeofFileHeader*i) (sizeofFileHeader*(i + files.length)) := by
  have hsize : sizeofFileHeader = 76 := rfl
  have hfile : fileName = 1 ∧ fileOffset = 68 ∧ fileLength = 72 := ⟨rfl, rfl, rfl⟩
  obtain ⟨hfile1, hfile2, hfile3⟩ := hfile
  induction files generalizing i off m with
  | nil => exact ⟨m, rfl, fun j h hh => (nomatch hh), SameOff.refl _ _ _⟩
  | cons f files ih =>
    obtain ⟨hshort, hzero⟩ := hnames f List.mem_cons_self
    have hlength := hsizes f List.mem_cons_self
    obtain ⟨header, hheader⟩ : ∃ x, x = sizeofFileHeader*i := ⟨_, rfl⟩
    obtain ⟨m1, hm1⟩ : ∃ x, x = writeBytes m (header + fileName) (f.name ++ [0]) := ⟨_, rfl⟩
    obtain ⟨m2, hm2⟩ : ∃ x, x = store32 m1 (header + fileOffset) (off % 4294967296) := ⟨_, rfl⟩
    obtain ⟨m3, hm3⟩ : ∃ x, x = store32 m2 (header + fileLength) f.contents.length := ⟨_, rfl⟩
    obtain ⟨m4, hm4⟩ : ∃ x, x = store8 m3 header 0xBF := ⟨_, rfl⟩
    have hoff1 : SameOff m m1 (header + fileName) (header + fileOffset) := by
      rw [hm1]
      refine (sameOff_writeBytes m (header + fileName) (f.name ++ [0])).mono le_rfl ?_
      rw [List.length_append, List.length_singleton]
      omega
    have hoff2 : SameOff m1 m2 (header + fileOffset) (header + fileLength) := by
      rw [hm2]
      exact sameOff_store32 le_rfl (by omega)
    have hoff3 : SameOff m2 m3 (header + fileLength) (header + 76) := by
      rw [hm3]
      exact sameOff_store32 le_rfl (by omega)
    have hoff4 : SameOff m3 m4 header (header + fileName) := by
      rw [hm4]
      exact sameOff_store8 le_rfl (by omega)
    have hlength3 : load32 m3 (header + fileLength) = f.contents.length := by
      rw [hm3]
      exact load32_store32_of_lt hlength
    have hheader4 : HeaderIs m4 header ⟨f.name, off % 4294967296, f.contents.length⟩ := by
      refine ⟨?_, ?_, ?_⟩
      · have hname1 : CString m1 (header + fileName) f.name := ⟨hm1 ▸ bytesAt_writeBytes _ _ _, hzero⟩
        have hsame : SameOn m1 m4 (header + fileName) (header + fileOffset) :=
          (hoff2.sameOn (by omega)).trans ((hoff3.sameOn (by omega)).trans (hoff4.sameOn (by omega)))
        exact hname1.congr hsame le_rfl (by omega)
      · rw [hoff4.load32_eq (by omega), hoff3.load32_eq (by omega), hm2]
        exact load32_store32_of_lt (by omega)
      · rw [hoff4.load32_eq (by omega), hlength3]
    have hmagic4 : load8 m4 header = 0xBF := by
      rw [hm4]
      exact load8_store8_self _ _ _
    have hnext : add32 (off % 4294967296) (load32 m3 (header + fileLength)) =
        (off + f.contents.length) % 4294967296 := by
      rw [hlength3]
      unfold add32
      omega
    obtain ⟨m5, hrun, hheaders, hrest⟩ := ih (fun g hg => hopen g (List.mem_cons_of_mem _ hg))
      (fun g hg => hnames g (List.mem_cons_of_mem _ hg)) (fun g hg => hsizes g (List.mem_cons_of_mem _ hg)) (i + 1)
      (off + f.contents.length) m4
    rw [List.length_cons]
    rw [hsize] at hrest hheader ⊢
    refine ⟨m5, ?_, ?_, ?_⟩
    · rw [List.map_cons, headersLoop]
      dsimp only [InputFile.argument]
      rw [hopen f List.mem_cons_self]
      dsimp only
      rw [hsize, ← hheader, ← hm1, ← hm2, ← hm3, ← hm4, hnext]
      exact hrun
    · intro j h hh
      cases j with
      | zero =>
        cases hh
        have hsame : SameOn m4 m5 header (header + sizeofFileHeader) := hrest.sameOn (by omega)
        rw [Nat.add_zero, ← hheader]
        exact ⟨hheader4.congr hshort hsame, (hsame.load8_eq le_rfl (by omega)).trans hmagic4⟩
      | succ j =>
        have hindex : i + (j + 1) = i + 1 + j := by omega
        rw [hindex]
        exact hheaders j h hh
    · intro x hx
      rw [hrest x (by omega), hoff4 x (by omega), hoff3 x (by omega), hoff2 x (by omega), hoff1 x (by omega)]

/-- The second loop gives the contents one behind the other. -/
theorem contentsLoop_spec (off : ℕ) (hopen : ∀ f ∈ files, fopen f.path = some f.contents)
    (hheaders : ∀ j h, (headersFrom off files)[j]? = some h →
      HeaderIs headers (sizeofFileHeader*(i + j)) h.stored) :
    contentsLoop fopen headers (files.map InputFile.argument) i = some (allContents files) := by
  induction files generalizing i off with
  | nil => rfl
  | cons f files ih =>
    have hfirst : HeaderIs headers (sizeofFileHeader*i) (FileHeader.stored ⟨f.name, off, f.contents.length⟩) :=
      hheaders 0 _ rfl
    have hrest : ∀ j h, (headersFrom (off + f.contents.length) files)[j]? = some h →
        HeaderIs headers (sizeofFileHeader*(i + 1 + j)) h.stored := by
      intro j h hh
      have hindex : i + 1 + j = i + (j + 1) := by omega
      rw [hindex]
      exact hheaders (j + 1) h hh
    rw [List.map_cons, contentsLoop, ih _ (fun g hg => hopen g (List.mem_cons_of_mem _ hg)) hrest]
    dsimp only [InputFile.argument]
    rw [hopen f List.mem_cons_self, hfirst.length]
    dsimp only [FileHeader.stored]
    rw [List.take_length]
    exact congrArg some List.flatMap_cons.symm

theorem headerCount_eq {n : ℕ} (h : n ≤ 63) : headerCount (2 * n + 1) = n := by
  have hchar : signedChar (2 * n + 1) = 2 * (n : ℤ) + 1 := by
    unfold signedChar
    rw [Nat.mod_eq_of_lt (by omega), if_pos (by omega)]
    omega
  rw [headerCount, hchar, Int.tdiv_eq_ediv_of_nonneg (by omega)]
  omega

theorem load32_intBytes {v : ℤ} {rest : List UInt8} (hm : BytesAt m location (intBytes v ++ rest)) :
    load32 m location = (v % 4294967296).toNat := by
  have hword := (bytesAt_append.mp hm).1
  unfold intBytes at hword
  rw [load32_shift fun x hx => bytesAt_readBytes hword hx, load32_store32_of_lt (by omega)]

/-! ## The image -/

/-- The image of these files is in memory. -/
structure ImageAt (m : Mem) (location : ℕ) (files : List InputFile) : Prop where
  count : load32 m location = files.length
  headers : ∀ j h, (headersFrom (tableSize + 4) files)[j]? = some h → HeaderIs m (headerAt location j) h
  contents : BytesAt m (location + (tableSize + 4)) (allContents files)

/-- An image in memory as it was written, with the offsets as they are stored. -/
structure WrittenAt (m : Mem) (location : ℕ) (files : List InputFile) : Prop where
  count : load32 m location = files.length
  headers : ∀ j h, (headersFrom (tableSize + 4) files)[j]? = some h →
    HeaderIs m (headerAt location j) h.stored ∧ load8 m (headerAt location j) = 0xBF
  contents : BytesAt m (location + (tableSize + 4)) (allContents files)

theorem length_le_allContents (hf : f ∈ files) : f.contents.length ≤ (allContents files).length := by
  rw [allContents, List.length_flatMap]
  exact List.single_le_sum (fun _ _ => Nat.zero_le _) _ (List.mem_map_of_mem hf)

theorem length_allContents_take (files : List InputFile) (i : ℕ) :
    (allContents (files.take i)).length ≤ (allContents files).length := by
  unfold allContents
  rw [List.length_flatMap, List.length_flatMap]
  exact ((List.take_sublist i files).map _).sum_le_sum fun _ _ => Nat.zero_le _

/-- Header `i` gives the place behind the contents of the files in front of `i`. -/
theorem headersFrom_offset (off : ℕ) (hh : (headersFrom off files)[i]? = some h) :
    h.offset = off + (allContents (files.take i)).length := by
  induction files generalizing off i with
  | nil => cases hh
  | cons f files ih =>
    cases i with
    | zero =>
      cases hh
      rfl
    | succ i =>
      have hsplit : (allContents ((f :: files).take (i + 1))).length =
          f.contents.length + (allContents (files.take i)).length := by
        rw [List.take_succ_cons, show allContents (f :: files.take i) = f.contents ++ allContents (files.take i) from
          List.flatMap_cons, List.length_append]
      rw [ih (off + f.contents.length) hh, hsplit]
      omega

/-- `create_initrd` writes an image that is one of these files wherever it is loaded. -/
theorem createInitrd_written (fopen : Fopen) (files : List InputFile) (stack : Mem) (hcount : files.length ≤ 63)
    (hopen : ∀ f ∈ files, fopen f.path = some f.contents)
    (hnames : ∀ f ∈ files, f.name.length ≤ 63 ∧ 0 ∉ f.name)
    (hsizes : ∀ f ∈ files, f.contents.length < 4294967296) :
    ∃ image, createInitrd fopen (files.map InputFile.argument) stack = some image ∧
      image.length = imageSize files ∧
      ∀ m location, BytesAt m location image → WrittenAt m location files := by
  have hsize : sizeofFileHeader = 76 := rfl
  have htable : tableSize = 4864 := rfl
  obtain ⟨headers, hrun, hheaders, -⟩ := headersLoop_spec hopen hnames hsizes 0 (tableSize + 4) stack
  have hcontents := contentsLoop_spec (tableSize + 4) hopen fun j h hh => (hheaders j h hh).1
  have hlength : (files.map InputFile.argument).length = files.length := List.length_map _
  have hcountInt : headerCount (2 * files.length + 1) = (files.length : ℤ) := headerCount_eq hcount
  have hwhole : (files.map InputFile.argument).take ((files.length : ℤ)).toNat = files.map InputFile.argument :=
    List.take_of_length_le (by omega)
  have hoff : (tableSize + 4) % 4294967296 = tableSize + 4 := rfl
  have himage : createInitrd fopen (files.map InputFile.argument) stack =
      some (intBytes files.length ++ (readBytes headers 0 tableSize ++ allContents files)) := by
    unfold createInitrd
    rw [hlength, hcountInt]
    dsimp only
    rw [hwhole, ← hoff, hrun]
    dsimp only
    rw [hcontents]
  have hint : (intBytes files.length).length = 4 := length_readBytes _ _ _
  refine ⟨_, himage, ?_, fun m location hm => ?_⟩
  · rw [List.length_append, List.length_append, hint, length_readBytes, imageSize]
    omega
  · have hcountAt := load32_intBytes hm
    rw [bytesAt_append, bytesAt_append, hint, length_readBytes] at hm
    obtain ⟨-, htableAt, hcontentsAt⟩ := hm
    refine ⟨?_, fun j h hh => ?_, ?_⟩
    · rw [hcountAt]
      omega
    · obtain ⟨hjlt, -⟩ := List.getElem?_eq_some_iff.mp hh
      rw [length_headersFrom] at hjlt
      obtain ⟨f, hf, hname, -⟩ := headersFrom_file _ hh
      obtain ⟨hshort, -⟩ := hnames f (List.mem_of_getElem? hf)
      obtain ⟨hheader, hmagic⟩ := hheaders j h hh
      have hfile : fileName = 1 ∧ fileOffset = 68 ∧ fileLength = 72 := ⟨rfl, rfl, rfl⟩
      have hmove : ∀ o x, o + x < 76 → m (headerAt location j + o + x) = headers (sizeofFileHeader*(0 + j) + o + x) := by
        intro o x hx
        have hat : headerAt location j = location + 4 + 76 * j := rfl
        have hbyte := bytesAt_readBytes htableAt (i := 76 * j + o + x) (by omega)
        rw [hat, hsize, show location + 4 + 76 * j + o + x = location + 4 + (76 * j + o + x) by omega, hbyte]
        congr 1
        omega
      have hstored : h.stored.name = h.name := rfl
      rw [← hname] at hshort
      refine ⟨⟨hheader.name.shift fun x hx => hmove _ x ?_, ?_, ?_⟩, ?_⟩
      · rw [hstored] at hx
        omega
      · rw [load32_shift fun x hx => hmove _ x (by omega), hheader.offset]
      · rw [load32_shift fun x hx => hmove _ x (by omega), hheader.length]
      · have hfirst := hmove 0 0 (by norm_num)
        rw [Nat.add_zero, Nat.add_zero] at hfirst
        rw [load8, hfirst]
        exact hmagic
    · have hsum : location + 4 + tableSize = location + (tableSize + 4) := by omega
      rwa [hsum] at hcontentsAt

/-- The offsets of an image below 4 GB are stored as they are. -/
theorem WrittenAt.imageAt (hm : WrittenAt m location files) (hfits : imageSize files < 4294967296) :
    ImageAt m location files := by
  refine ⟨hm.count, fun j h hh => ?_, hm.contents⟩
  have hoffset := headersFrom_offset _ hh
  have hbefore := length_allContents_take files j
  have hstored : h.stored = h := by
    unfold imageSize at hfits
    unfold FileHeader.stored
    rw [Nat.mod_eq_of_lt (by omega)]
  exact hstored ▸ (hm.headers j h hh).1

theorem createInitrd_spec (fopen : Fopen) (files : List InputFile) (stack : Mem) (hcount : files.length ≤ 63)
    (hopen : ∀ f ∈ files, fopen f.path = some f.contents)
    (hnames : ∀ f ∈ files, f.name.length ≤ 63 ∧ 0 ∉ f.name) (hfits : imageSize files < 4294967296) :
    ∃ image, createInitrd fopen (files.map InputFile.argument) stack = some image ∧
      image.length = imageSize files ∧
      ∀ m location, BytesAt m location image → ImageAt m location files := by
  have hsizes : ∀ f ∈ files, f.contents.length < 4294967296 := by
    intro f hf
    have hle := length_le_allContents hf
    unfold imageSize at hfits
    omega
  obtain ⟨image, hcreate, hlength, hat⟩ := createInitrd_written fopen files stack hcount hopen hnames hsizes
  exact ⟨image, hcreate, hlength, fun m location hm => (hat m location hm).imageAt hfits⟩

end PandaOS

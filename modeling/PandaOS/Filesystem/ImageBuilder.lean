import PandaOS.Filesystem.CreateInitrd

/-! How many files an image can hold. The table has 64 headers, but `argc` is a `char`: with 64 files
it is negative, the loops do nothing, and the count in the image is negative too. The same narrowing
keeps any longer argument list inside the table. -/
namespace PandaOS
open ByteMemory Word32
set_option autoImplicit false
set_option maxHeartbeats 250000

/-! ## What the image should be -/

/-- The image, read to address 0. -/
def imageMem (image : List UInt8) : Mem := writeBytes (fun _ => 0) 0 image

def offsetWord (image : List UInt8) (i : ℕ) : ℕ := load32 (imageMem image) (headerAt 0 i + fileOffset)

def lengthWord (image : List UInt8) (i : ℕ) : ℕ := load32 (imageMem image) (headerAt 0 i + fileLength)

/-- Where the contents of file `i` belong. -/
def offsetOf (files : List InputFile) (i : ℕ) : ℕ := 4 + 64 * 76 + (allContents (files.take i)).length

structure RightImage (image : List UInt8) (files : List InputFile) : Prop where
  count : load32 (imageMem image) 0 = files.length
  magic : ∀ i < files.length, load8 (imageMem image) (headerAt 0 i) = 0xBF
  header : ∀ i f, files[i]? = some f →
    HeaderIs (imageMem image) (headerAt 0 i) ⟨f.name, offsetOf files i, f.contents.length⟩
  contents : ∀ i f, files[i]? = some f → (image.drop (offsetWord image i)).take (lengthWord image i) = f.contents
  adjacent : ∀ i, i + 1 < files.length → offsetWord image i + lengthWord image i = offsetWord image (i + 1)
  disjoint : ∀ i j, i < j → j < files.length → offsetWord image i + lengthWord image i ≤ offsetWord image j
  last : ∀ i, i + 1 = files.length → offsetWord image i + lengthWord image i = image.length

/-- The builder is right: the image of up to 64 files, and the table with more of them. -/
structure BuildsRight (fopen : Fopen) (files : List InputFile) (stack : Mem) : Prop where
  image : files.length ≤ 64 →
    ∃ image, createInitrd fopen (files.map InputFile.argument) stack = some image ∧ RightImage image files
  table : 64 < files.length → ∀ headers,
    headersLoop fopen ((files.map InputFile.argument).take (headerCount (2 * files.length + 1)).toNat) 0
      (tableSize + 4) stack = some headers → SameOff stack headers 0 tableSize

/-- The offsets are 32-bit words. -/
def OffsetsFit (files : List InputFile) : Prop := ∀ i < files.length, offsetOf files i < 4294967296

variable {fopen : Fopen} {files : List InputFile} {f : InputFile} {args : List Argument} {image : List UInt8}
  {stack m m' : Mem} {i j off n : ℕ}

/-! ## The table -/

theorem headerCount_le (argc : ℕ) : headerCount argc ≤ 63 := by
  have hchar : signedChar argc ≤ 127 := by
    unfold signedChar
    split <;> omega
  unfold headerCount
  rcases Int.le_total 0 (signedChar argc - 1) with hpos | hneg
  · rw [Int.tdiv_eq_ediv_of_nonneg hpos]
    omega
  · have hopposite : 0 ≤ (-(signedChar argc - 1)).tdiv 2 := Int.tdiv_nonneg (by omega) (by norm_num)
    rw [Int.neg_tdiv] at hopposite
    omega

/-- The first loop writes only the headers it fills in, whatever files there are. -/
theorem headersLoop_frame (hnames : ∀ arg ∈ args, arg.name.length ≤ 63)
    (hrun : headersLoop fopen args i off m = some m') :
    SameOff m m' (sizeofFileHeader*i) (sizeofFileHeader*(i + args.length)) := by
  have hsize : sizeofFileHeader = 76 := rfl
  have hfile : fileName = 1 ∧ fileOffset = 68 ∧ fileLength = 72 := ⟨rfl, rfl, rfl⟩
  obtain ⟨hfile1, hfile2, hfile3⟩ := hfile
  induction args generalizing i off m with
  | nil =>
    cases hrun
    exact SameOff.refl _ _ _
  | cons arg args ih =>
    have hshort := hnames arg List.mem_cons_self
    rw [headersLoop] at hrun
    dsimp only at hrun
    cases hstream : fopen arg.path with
    | none =>
      rw [hstream] at hrun
      cases hrun
    | some stream =>
      rw [hstream] at hrun
      have hrest := ih (fun a ha => hnames a (List.mem_cons_of_mem _ ha)) hrun
      rw [hsize] at hrest ⊢
      rw [List.length_cons]
      intro x hx
      have hname := sameOff_writeBytes m (76*i + fileName) (arg.name ++ [0]) x
        (by rw [List.length_append, List.length_singleton]; omega)
      rw [hrest x (by omega), store8_of_ne (by omega), store32_of_off (by omega), store32_of_off (by omega), hname]

theorem table_kept (hnames : ∀ f ∈ files, f.name.length ≤ 63 ∧ 0 ∉ f.name) (argc : ℕ)
    (hrun : headersLoop fopen ((files.map InputFile.argument).take (headerCount argc).toNat) 0 off m = some m') :
    SameOff m m' 0 tableSize := by
  have htable : tableSize = sizeofFileHeader * 64 := rfl
  have hcount := headerCount_le argc
  have hshort : ∀ arg ∈ (files.map InputFile.argument).take (headerCount argc).toNat, arg.name.length ≤ 63 := by
    intro arg harg
    obtain ⟨f, hf, rfl⟩ := List.mem_map.mp (List.mem_of_mem_take harg)
    exact (hnames f hf).1
  have hframe := headersLoop_frame hshort hrun
  have hlength : ((files.map InputFile.argument).take (headerCount argc).toNat).length ≤ 64 := by
    rw [List.length_take]
    omega
  refine hframe.mono (Nat.zero_le _) ?_
  rw [htable, Nat.zero_add]
  exact Nat.mul_le_mul_left _ hlength

/-! ## The image -/

theorem bytesAt_imageMem (image : List UInt8) : BytesAt (imageMem image) 0 image := bytesAt_writeBytes _ _ _

/-- A part of the image is what the memory holds there. -/
theorem imageMem_part {s : List UInt8} (hs : BytesAt (imageMem image) off s) (hfits : off + s.length ≤ image.length) :
    (image.drop off).take s.length = s := by
  have hdrop := (bytesAt_imageMem image).drop off (by omega)
  have hshort : s.length ≤ (image.drop off).length := by
    rw [List.length_drop]
    omega
  rw [← hdrop.read_take hshort, Nat.zero_add]
  exact hs

theorem offsetOf_succ (hf : files[i]? = some f) : offsetOf files (i + 1) = offsetOf files i + f.contents.length := by
  have hsplit : files.take (i + 1) = files.take i ++ [f] := by
    rw [List.take_add_one, hf]
    rfl
  rw [offsetOf, hsplit, allContents, List.flatMap_append, List.length_append, List.flatMap_singleton, ← Nat.add_assoc]
  rfl

theorem offsetOf_mono (files : List InputFile) (hij : i ≤ j) : offsetOf files i ≤ offsetOf files j := by
  have htake : files.take i = (files.take j).take i := by
    rw [List.take_take, Nat.min_eq_left hij]
  unfold offsetOf
  rw [htake]
  exact Nat.add_le_add_left (length_allContents_take _ _) _

theorem offsetOf_length (files : List InputFile) : offsetOf files files.length = imageSize files := by
  rw [offsetOf, List.take_length]
  rfl

/-- An image as it is written, with offsets that fit, is right. -/
theorem WrittenAt.right (hm : WrittenAt (imageMem image) 0 files) (hlength : image.length = imageSize files)
    (hfits : OffsetsFit files) : RightImage image files := by
  have hheader : ∀ i f, files[i]? = some f →
      HeaderIs (imageMem image) (headerAt 0 i) ⟨f.name, offsetOf files i, f.contents.length⟩ ∧
      load8 (imageMem image) (headerAt 0 i) = 0xBF ∧
      BytesAt (imageMem image) (offsetOf files i) f.contents := by
    intro i f hf
    obtain ⟨h, hh, hname, hsize⟩ := headersFrom_getElem (tableSize + 4) hf
    obtain ⟨hstored, hmagic⟩ := hm.headers i h hh
    obtain ⟨hbytes, -, -⟩ := contents_at (tableSize + 4) hm.contents hf hh
    obtain ⟨hilt, -⟩ := List.getElem?_eq_some_iff.mp hf
    have hoffset : h.offset = offsetOf files i := headersFrom_offset _ hh
    have hmod : h.offset % 4294967296 = offsetOf files i := by
      rw [hoffset, Nat.mod_eq_of_lt (hfits i hilt)]
    unfold FileHeader.stored at hstored
    rw [hname, hsize, hmod] at hstored
    rw [Nat.zero_add, hoffset] at hbytes
    exact ⟨hstored, hmagic, hbytes⟩
  have hwords : ∀ i f, files[i]? = some f →
      offsetWord image i = offsetOf files i ∧ lengthWord image i = f.contents.length :=
    fun i f hf => ⟨(hheader i f hf).1.offset, (hheader i f hf).1.length⟩
  have hnext : ∀ i, i < files.length → offsetWord image i + lengthWord image i = offsetOf files (i + 1) := by
    intro i hi
    have hf := List.getElem?_eq_getElem hi
    obtain ⟨hoffset, hsize⟩ := hwords i _ hf
    rw [hoffset, hsize, offsetOf_succ hf]
  refine ⟨hm.count, fun i hi => ?_, fun i f hf => (hheader i f hf).1, fun i f hf => ?_, fun i hi => ?_,
    fun i j hij hj => ?_, fun i hi => ?_⟩
  · exact (hheader i _ (List.getElem?_eq_getElem hi)).2.1
  · obtain ⟨hilt, -⟩ := List.getElem?_eq_some_iff.mp hf
    obtain ⟨hoffset, hsize⟩ := hwords i f hf
    have hend := offsetOf_mono files (Nat.succ_le_of_lt hilt)
    rw [Nat.succ_eq_add_one, offsetOf_succ hf, offsetOf_length] at hend
    rw [hoffset, hsize]
    exact imageMem_part (hheader i f hf).2.2 (by omega)
  · rw [hnext i (by omega), (hwords (i + 1) _ (List.getElem?_eq_getElem hi)).1]
  · rw [hnext i (by omega), (hwords j _ (List.getElem?_eq_getElem hj)).1]
    exact offsetOf_mono files hij
  · rw [hnext i (by omega), hi, offsetOf_length, hlength]

/-- With 64 files the count is -64 and nothing else is written. -/
theorem createInitrd_full (fopen : Fopen) (stack : Mem) (hfull : args.length = 64) :
    createInitrd fopen args stack = some (intBytes (-64) ++ (readBytes stack 0 tableSize ++ [])) := by
  have hcount : headerCount (2 * 64 + 1) = -64 := by decide
  have hnone : args.take (-64 : ℤ).toNat = [] := List.take_zero
  unfold createInitrd
  rw [hfull, hcount]
  dsimp only
  rw [hnone]
  rfl

theorem not_right_full {rest : List UInt8} (hfull : files.length = 64) : ¬ RightImage (intBytes (-64) ++ rest) files := by
  intro hright
  have hcount := hright.count
  rw [load32_intBytes (bytesAt_imageMem _), hfull] at hcount
  exact absurd hcount (by decide)

/-- The builder is right exactly when there are at most 63 files with offsets that fit, or more than 64. -/
theorem builds_right_iff (fopen : Fopen) (files : List InputFile) (stack : Mem)
    (hnames : ∀ f ∈ files, f.name.length ≤ 63 ∧ 0 ∉ f.name)
    (hopen : files.length ≤ 64 → ∀ f ∈ files, fopen f.path = some f.contents)
    (hsizes : files.length ≤ 64 → (allContents files).length < 4294967296) :
    BuildsRight fopen files stack ↔ files.length ≤ 63 ∧ OffsetsFit files ∨ 64 < files.length := by
  rcases Nat.lt_or_ge 64 files.length with hmore | hle
  · refine ⟨fun _ => Or.inr hmore, fun _ => ⟨fun hle => absurd hle (by omega), fun _ headers hrun => ?_⟩⟩
    exact table_kept hnames _ hrun
  · rcases Nat.eq_or_lt_of_le hle with hfull | hlt
    · refine ⟨fun hbuilds => ?_, fun hcond => absurd hcond (by omega)⟩
      obtain ⟨image, hcreate, hright⟩ := hbuilds.image hle
      rw [createInitrd_full fopen stack (by rw [List.length_map, hfull])] at hcreate
      cases hcreate
      exact absurd hright (not_right_full hfull)
    · have hsmall : ∀ f ∈ files, f.contents.length < 4294967296 :=
        fun f hf => (length_le_allContents hf).trans_lt (hsizes hle)
      obtain ⟨image, hcreate, hlength, hat⟩ := createInitrd_written fopen files stack (by omega) (hopen hle) hnames
        hsmall
      constructor
      · intro hbuilds
        obtain ⟨image', hcreate', hright⟩ := hbuilds.image hle
        refine Or.inl ⟨by omega, fun i hi => ?_⟩
        have hoffset := (hright.header i _ (List.getElem?_eq_getElem hi)).offset
        dsimp only at hoffset
        exact hoffset ▸ load32_lt _ _
      · rintro (⟨-, hfits⟩ | hmore)
        · refine ⟨fun _ => ⟨image, hcreate, ?_⟩, fun hmore => absurd hle (by omega)⟩
          exact (hat _ _ (bytesAt_imageMem image)).right hlength hfits
        · omega

/-- One file. -/
theorem builds_right_iff_one : BuildsRight (fun _ => some [0x68, 0x69]) [⟨[0x68], [0x68], [0x68, 0x69]⟩] fun _ => 0 := by
  have hfits : OffsetsFit [⟨[0x68], [0x68], [0x68, 0x69]⟩] := by
    unfold OffsetsFit
    decide
  refine (builds_right_iff _ _ _ (by decide) (fun _ f hf => ?_) fun _ => by decide).mpr (Or.inl ⟨by decide, hfits⟩)
  rw [List.mem_singleton.mp hf]

/-- 64 files of one name. -/
theorem builds_wrong : ¬ BuildsRight (fun _ => some [0x68, 0x69])
    (List.replicate 64 ⟨[0x68], [0x68], [0x68, 0x69]⟩) fun _ => 0 := by
  intro hbuilds
  have hfull : (List.replicate 64 (⟨[0x68], [0x68], [0x68, 0x69]⟩ : InputFile)).length = 64 := List.length_replicate
  obtain ⟨image, hcreate, hright⟩ := hbuilds.image hfull.le
  rw [createInitrd_full _ _ (by rw [List.length_map, hfull])] at hcreate
  cases hcreate
  exact not_right_full hfull hright

end PandaOS

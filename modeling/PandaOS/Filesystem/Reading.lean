import PandaOS.Filesystem.Listing

/-! A read of a file at any offset and of any size. `initrd_read` clips the size by comparing the sum
of offset and size with the length of the file. The sum is a 32-bit word, so a sum that wraps is not
clipped and the copy goes on behind the file. -/
namespace PandaOS
open ByteMemory Word32
set_option autoImplicit false
set_option maxHeartbeats 250000

/-- How much of a file of `length` bytes a read gets. -/
def clipped (length offset count : ℕ) : ℕ := if length ≤ offset then 0 else min count (length - offset)

/-- A read of the file in `[start, start + length)`: it returns the clipped count, copies that much of the
file and nothing else, and the buffer then holds it. -/
structure ReadsFile (m : Mem) (start length offset count buffer got : ℕ) (m' : Mem) : Prop where
  count : got = clipped length offset count
  inside : 0 < got → offset + got ≤ length
  copied : m' = memcpy m buffer (start + offset) got
  frame : SameOff m m' buffer (buffer + got)
  contents : Apart (buffer, got) (start, length) → readBytes m' buffer got = readBytes m (start + offset) got

/-- The call returns, and it reads the file. -/
def ReadsRight (m : Mem) (start length offset count buffer : ℕ) (run : Result (ℕ × Mem)) : Prop :=
  ∃ got m', run = .ok (got, m') ∧ ReadsFile m start length offset count buffer got m'

variable {m : Mem} {st : Statics} {fs : Initrd} {files : List FileHeader} {f : FileHeader}
  {location size start length offset count buffer i : ℕ}

theorem clipped_of_lt (h : length < offset) : clipped length offset count = 0 := if_pos h.le

theorem clipped_of_le (h : offset ≤ length) : clipped length offset count = min count (length - offset) := by
  unfold clipped
  split <;> omega

theorem clipped_inside (h : 0 < clipped length offset count) : offset + clipped length offset count ≤ length := by
  unfold clipped at h ⊢
  split at h
  · omega
  · rw [if_neg (by assumption)]
    omega

/-- A copy of the clipped count reads the file. -/
theorem readsFile_memcpy (m : Mem) (start length offset count buffer : ℕ) :
    ReadsFile m start length offset count buffer (clipped length offset count)
      (memcpy m buffer (start + offset) (clipped length offset count)) := by
  have hinside : 0 < clipped length offset count → offset + clipped length offset count ≤ length := clipped_inside
  refine ⟨rfl, hinside, rfl, sameOff_memcpy _ _ _ _, fun hapart => ?_⟩
  unfold Apart at hapart
  dsimp only at hapart
  exact readBytes_memcpy (by omega)

/-- What `initrd_read` uses as the size. -/
theorem clip_eq (hlength : length < 4294967296) (hoffset : offset ≤ length) (hsum : offset + count < 4294967296) :
    (if add32 offset count > length then sub32 length offset else count) = clipped length offset count := by
  rw [add32_of_lt hsum, clipped_of_le hoffset]
  split
  · rw [sub32_of_le hoffset hlength]
    omega
  · omega

/-- When the sum wraps, the size stays as it is and is more than the rest of the file. -/
theorem clip_wraps (hlength : length < 4294967296) (hoffset : offset ≤ length) (hcount : count < 4294967296)
    (hsum : 4294967296 ≤ offset + count) :
    (if add32 offset count > length then sub32 length offset else count) ≠ clipped length offset count := by
  have hwrapped : add32 offset count = offset + count - 4294967296 := by
    unfold add32
    omega
  rw [hwrapped, if_neg (by omega), clipped_of_le hoffset]
  omega

/-- The call for a file whose contents are in memory. -/
theorem readFs_file (h : Mounted m st fs location size files) (hf : files[i]? = some f) (offset count buffer : ℕ) :
    readFs (initrdCode st fs) (fs.rootNode i) offset count buffer m =
      if offset > f.length then .ok (0, m)
      else
        let got := if add32 offset count > f.length then sub32 f.length offset else count
        .ok (got, memcpy m buffer (add32 (add32 f.offset location) offset) got) := by
  have hmounted := h.mounted i f hf
  have hptr : load32 m (fs.rootNode i + nodeRead) = st.initrdRead := hmounted.node.read
  have hne : st.initrdRead ≠ 0 := by
    have := st.read_pos
    omega
  rw [readFs, hptr, if_pos hne]
  dsimp only [initrdCode]
  rw [if_pos rfl]
  dsimp only [initrdRead]
  rw [hmounted.node.inode, hmounted.length, hmounted.offset]

/-- The address that is copied from. It may wrap only at the very end of the address space, where nothing is
left to copy. -/
theorem memcpy_from_file (hspan : location + size ≤ 4294967296) (hinside : f.offset + f.length ≤ size)
    (hoffset : offset ≤ f.length) :
    memcpy m buffer (add32 (add32 f.offset location) offset) (clipped f.length offset count) =
      memcpy m buffer (location + f.offset + offset) (clipped f.length offset count) := by
  have hclipped : clipped f.length offset count = min count (f.length - offset) := clipped_of_le hoffset
  rcases Nat.eq_zero_or_pos (clipped f.length offset count) with hzero | hpos
  · rw [hzero]
    rfl
  · have hsum : add32 f.offset location = location + f.offset := by
      rw [add32_of_lt (by omega)]
      omega
    rw [hsum, add32_of_lt (by omega)]

/-- A read through the node of a file does what it should exactly when it begins behind the file or the sum of
its offset and size fits in 32 bits. -/
theorem reads_right_iff (h : Mounted m st fs location size files) (hspan : location + size ≤ 4294967296)
    (hinside : ∀ g ∈ files, g.offset + g.length ≤ size) (hf : files[i]? = some f)
    (hcount : count < 4294967296) :
    ReadsRight m (location + f.offset) f.length offset count buffer
        (readFs (initrdCode st fs) (fs.rootNode i) offset count buffer m) ↔
      f.length < offset ∨ offset + count < 4294967296 := by
  have hlength : f.length < 4294967296 := (h.mounted i f hf).length ▸ load32_lt _ _
  have hrun := readFs_file h hf offset count buffer
  rcases Nat.lt_or_ge f.length offset with hbehind | hwithin
  · rw [if_pos hbehind] at hrun
    have hzero : clipped f.length offset count = 0 := clipped_of_lt hbehind
    have hread := readsFile_memcpy m (location + f.offset) f.length offset count buffer
    rw [hzero] at hread
    exact ⟨fun _ => Or.inl hbehind, fun _ => ⟨0, m, hrun, hread⟩⟩
  · rw [if_neg (by omega)] at hrun
    dsimp only at hrun
    constructor
    · rintro ⟨got, m', hgot, hread⟩
      by_contra hnot
      rw [hrun] at hgot
      cases hgot
      exact clip_wraps hlength hwithin hcount (by omega) hread.count
    · rintro (hbehind | hsum)
      · omega
      · rw [clip_eq hlength hwithin hsum, memcpy_from_file hspan (hinside f (List.mem_of_getElem? hf)) hwithin] at hrun
        exact ⟨_, _, hrun, readsFile_memcpy _ _ _ _ _ _⟩

/-- The file of two bytes, mounted. -/
theorem mounted_hi : ∃ m fs, Mounted m lowStatics fs 0x10000 (imageSize [hiFile]) [⟨[0x68], tableSize + 4, 2⟩] := by
  have hopen : ∀ f ∈ [hiFile], (fun _ : List UInt8 => some [0x68, 0x69]) f.path = some f.contents := by
    intro f hf
    rw [List.mem_singleton.mp hf]
    rfl
  obtain ⟨image, -, hlength, hat⟩ := createInitrd_spec (fun _ => some [0x68, 0x69]) [hiFile] (fun _ => 0)
    (by decide) hopen (by decide) (by decide)
  have hloaded := loaded_loadedImage (by decide) (by decide) hat hlength (by decide)
  have hshort : image.length < 0xF0000 := hlength.trans_lt (by decide)
  obtain ⟨kdev, k', hserved, -⟩ := served_loadedImage hshort (by norm_num : 1 ≤ 63)
  obtain ⟨m', -, hmounted, -, -⟩ := initialise_mounts hloaded hserved
  rw [hlength] at hmounted
  exact ⟨m', _, hmounted⟩

/-- Its second byte, asked for with 5 bytes of room. -/
theorem reads_right_iff_hi : ∃ m fs, ReadsRight m (0x10000 + (tableSize + 4)) 2 1 5 0x10
    (readFs (initrdCode lowStatics fs) (fs.rootNode 0) 1 5 0x10 m) := by
  obtain ⟨m, fs, hmounted⟩ := mounted_hi
  have hf : [(⟨[0x68], tableSize + 4, 2⟩ : FileHeader)][0]? = some ⟨[0x68], tableSize + 4, 2⟩ := rfl
  have hiff := @reads_right_iff m _ fs _ _ _ _ 1 5 0x10 0 hmounted (by decide) (by decide) hf (by norm_num)
  exact ⟨m, fs, hiff.mpr (Or.inr (by norm_num))⟩

/-- With a size of `0xFFFFFFFF` at offset 1 all of it is copied. -/
theorem read_leaves_file : ∃ m fs, Mounted m lowStatics fs 0x10000 (imageSize [hiFile]) [⟨[0x68], tableSize + 4, 2⟩] ∧
    (∃ m', readFs (initrdCode lowStatics fs) (fs.rootNode 0) 1 0xFFFFFFFF 0x10 m = .ok (0xFFFFFFFF, m')) ∧
    ¬ ReadsRight m (0x10000 + (tableSize + 4)) 2 1 0xFFFFFFFF 0x10
      (readFs (initrdCode lowStatics fs) (fs.rootNode 0) 1 0xFFFFFFFF 0x10 m) := by
  obtain ⟨m, fs, hmounted⟩ := mounted_hi
  have hrun := readFs_file hmounted (f := ⟨[0x68], tableSize + 4, 2⟩) (i := 0) rfl 1 0xFFFFFFFF 0x10
  have hclip : ¬ add32 1 0xFFFFFFFF > 2 := by
    unfold add32
    norm_num
  dsimp only at hrun
  rw [if_neg (by norm_num), if_neg hclip] at hrun
  refine ⟨m, fs, hmounted, ⟨_, hrun⟩, ?_⟩
  rintro ⟨got, m', hgot, hread⟩
  rw [hrun] at hgot
  cases hgot
  have hcount := hread.count
  rw [clipped_of_le (by norm_num)] at hcount
  omega

end PandaOS

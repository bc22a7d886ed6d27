import PandaOS.Filesystem.Volume
import PandaOS.Screen.Text

/-! `print_filesystem_contents` of `kernel.c`: the files of the mounted volume on the screen. -/
namespace PandaOS
open ByteMemory Word32
set_option autoImplicit false
set_option maxHeartbeats 250000

/-! ## The function -/

/-- What the function works on. -/
structure Console where
  mem : Mem
  monitor : Monitor

def Console.run (f : Monitor → Result Monitor) (s : Console) : Result Console := do
  let m ← f s.monitor
  return { s with monitor := m }

/-- The loop over `j`. -/
def putBuffer (buf sz : ℕ) (s : Console) : Console :=
  { s with monitor := (List.range sz).foldl (fun m j => monitorPut (s.mem (buf + j)).toBitVec m) s.monitor }

/-- The body of the loop for one entry; `buf` is where the array is on the stack. -/
def printEntry (code : Code) (fsRoot buf node : ℕ) (s : Console) : Result Console := do
  let s ← s.run (monitorWriteString (ascii "Found file "))
  let s ← s.run (monitorWriteSysAt s.mem node)
  let fsnode ← finddirFs code fsRoot node s.mem
  if load32 s.mem (fsnode + nodeFlags) &&& 0x7 = FS_DIRECTORY then
    s.run (monitorWriteSys (ascii "\n\t(directory)\n"))
  else do
    let s ← s.run (monitorWriteSys (ascii "\n\t contents: \""))
    let (sz, m) ← readFs code fsnode 0 256 buf s.mem
    let s := putBuffer buf sz { s with mem := m }
    s.run (monitorWriteSys (ascii "\"\n"))

def printLoop (code : Code) (fsRoot buf : ℕ) : ℕ → ℕ → Console → Result Console
  | 0, _, _ => .error .outOfFuel
  | fuel + 1, i, s => do
    let (node, m) ← readdirFs code fsRoot i s.mem
    let s := { s with mem := m }
    if node ≠ 0 then do
      let s ← printEntry code fsRoot buf node s
      printLoop code fsRoot buf fuel (i + 1) s
    else return s

def printFilesystemContents (code : Code) (fsRoot buf fuel : ℕ) (s : Console) : Result Console := do
  let s ← (if fsRoot = 0 then s.run (monitorWriteString (ascii "\nNo filesystem found\n")) else .ok s)
  let s ← printLoop code fsRoot buf fuel 0 s
  s.run (monitorWriteString (ascii "\n"))

/-! ## What is printed -/

/-- An entry of this name: the node that the name leads to decides what follows. -/
def Volume.entryText (v : Volume) (name : List UInt8) : List (BitVec 8) :=
  ascii "Found file " ++ (text name ++ match v.find name .root with
    | some (.file i) => ascii "\n\t contents: \"" ++ (text (v.read 0 256 (.file i)) ++ ascii "\"\n")
    | _ => ascii "\n\t(directory)\n")

/-- `dev` comes first, then the files in the order in which they were packed. -/
def Volume.listing (v : Volume) : List (List UInt8) := nameDev :: v.map VolumeFile.name

def Volume.contentsText (v : Volume) : List (BitVec 8) := v.listing.flatMap v.entryText ++ ascii "\n"

/-- The text was written, and of the memory only `dirent` and the array on the stack. -/
structure Reports (dirent buf : ℕ) (cs : List (BitVec 8)) (s s' : Console) : Prop where
  prints : Prints cs s.monitor s'.monitor
  rest : ∀ x, (x < dirent ∨ dirent + 132 ≤ x) → (x < buf ∨ buf + 256 ≤ x) → s'.mem x = s.mem x

variable {s s' s'' : Console} {l : List (ℕ × ℕ)} {dirent : ℕ} {cs ds : List (BitVec 8)} {f : Monitor → Result Monitor} {m : Mem}
  {st : Statics} {fs : Initrd} {files : List FileHeader} {v : Volume} {name : List UInt8}
  {location size i buf node fuel sz : ℕ}

theorem Reports.trans (h : Reports dirent buf cs s s') (h' : Reports dirent buf ds s' s'') :
    Reports dirent buf (cs ++ ds) s s'' :=
  ⟨h.prints.trans h'.prints, fun x hx hx' => (h'.rest x hx hx').trans (h.rest x hx hx')⟩

theorem Reports.keeps (h : Reports dirent buf cs s s') (hdirent : ∀ r ∈ l, Apart (dirent, 132) r)
    (hbuf : ∀ r ∈ l, Apart (buf, 256) r) : Keeps l s.mem s'.mem := by
  intro r hr x hl hh
  have hone := hdirent r hr
  have htwo := hbuf r hr
  unfold Apart at hone htwo
  dsimp only at hone htwo
  exact h.rest x (by omega) (by omega)

theorem Printer.run (hf : Printer f cs) (dirent buf : ℕ) (s : Console) :
    ∃ s', s.run f = .ok s' ∧ s'.mem = s.mem ∧ Reports dirent buf cs s s' := by
  obtain ⟨m', hrun, hprints⟩ := hf s.monitor
  refine ⟨{ s with monitor := m' }, ?_, rfl, hprints, fun _ _ _ => rfl⟩
  rw [Console.run, hrun]
  rfl

theorem putBuffer_prints (buf sz : ℕ) (s : Console) :
    Prints (text (readBytes s.mem buf sz)) s.monitor (putBuffer buf sz s).monitor := by
  induction sz with
  | zero => exact Prints.nil s.monitor
  | succ n ih =>
    have htext : text (readBytes s.mem buf (n + 1)) = text (readBytes s.mem buf n) ++ [(s.mem (buf + n)).toBitVec] := by
      rw [readBytes_add, text, List.map_append]
      rfl
    have hput : (putBuffer buf (n + 1) s).monitor = monitorPut (s.mem (buf + n)).toBitVec (putBuffer buf n s).monitor := by
      unfold putBuffer
      rw [List.range_succ, List.foldl_append]
      rfl
    rw [htext, hput]
    exact ih.trans (monitorPut_prints _ _)

/-! ## One entry -/

/-- The name of an entry leads somewhere. -/
theorem Volume.find_listing (hi : v.listing[i]? = some name) :
    v.find name .root = some .dev ∨ ∃ j, v.find name .root = some (.file j) ∧ j < v.length := by
  by_cases hdev : name = nameDev
  · exact Or.inl (if_pos hdev)
  · right
    have hmem : name ∈ v.map VolumeFile.name := by
      rcases List.mem_cons.mp (List.mem_of_getElem? hi) with heq | hmem
      · exact absurd heq hdev
      · exact hmem
    obtain ⟨f, hf, hname⟩ := List.mem_map.mp hmem
    have hsome : (v.first name).isSome := by
      rw [Volume.first, List.findIdx?_isSome, List.any_eq_true]
      exact ⟨f, hf, decide_eq_true hname.symm⟩
    obtain ⟨j, hj⟩ := Option.isSome_iff_exists.mp hsome
    refine ⟨j, ?_, ?_⟩
    · rw [Volume.find, if_neg hdev, hj]
      rfl
    · obtain ⟨hlt, -⟩ := List.findIdx?_eq_some_iff_getElem.mp hj
      exact hlt

theorem Volume.entryText_directory (h : v.find name .root = some .dev) :
    v.entryText name = ascii "Found file " ++ (text name ++ ascii "\n\t(directory)\n") := by
  rw [Volume.entryText, h]

theorem Volume.entryText_file (h : v.find name .root = some (.file i)) : v.entryText name = ascii "Found file " ++ (text name ++
    (ascii "\n\t contents: \"" ++ (text (v.read 0 256 (.file i)) ++ ascii "\"\n"))) := by
  rw [Volume.entryText, h]

/-- An entry that is in `dirent`. -/
theorem Serves.printEntry (h : Serves s.mem st fs location size files v) (hi : v.listing[i]? = some name)
    (hname : CString s.mem node name) (hshort : name.length < 128)
    (hbuf : ∀ r ∈ holding st fs location size, Apart (buf, 256) r) :
    ∃ s', PandaOS.printEntry (initrdCode st fs) fs.initrdRoot buf node s = .ok s' ∧
      Reports st.dirent buf (v.entryText name) s s' := by
  have hspace : name.length < ADDRESS_SPACE := by
    unfold ADDRESS_SPACE
    omega
  obtain ⟨s1, hrun1, hmem1, hreports1⟩ := (monitorWriteString_printer (zeroFree_ascii (s := "Found file ") rfl)).run
    st.dirent buf s
  have hname1 : CString s1.mem node name := by
    rw [hmem1]
    exact hname
  obtain ⟨s2, hrun2, hmem2, hreports2⟩ := (monitorWriteSysAt_printer hname1 hspace).run st.dirent buf s1
  have hmem : s2.mem = s.mem := hmem2.trans hmem1
  rw [← hmem] at h hname
  have hroot : Node.root.On v := trivial
  have haddress : Node.root.address fs = fs.initrdRoot := rfl
  have hfind := h.finddir hroot hname hspace
  rw [haddress] at hfind
  rw [PandaOS.printEntry, hrun1, ok_bind, hrun2, ok_bind, hfind, ok_bind]
  rcases Volume.find_listing hi with hdev | ⟨j, hfile, hj⟩
  · rw [Volume.entryText_directory hdev, hdev]
    have hflags : load32 s2.mem (Node.dev.address fs + nodeFlags) &&& 0x7 = FS_DIRECTORY := by
      rw [Node.address, h.mounted.dev.flags]
      rfl
    obtain ⟨s3, hrun3, -, hreports3⟩ := (monitorWriteSys_printer (zeroFree_ascii (s := "\n\t(directory)\n") rfl)).run
      st.dirent buf s2
    have hall := hreports1.trans (hreports2.trans hreports3)
    refine ⟨s3, ?_, hall⟩
    rw [Option.map_some, Option.getD_some, if_pos hflags, hrun3]
  · rw [Volume.entryText_file hfile, hfile]
    obtain ⟨f, g, hf, hg⟩ := h.file (i := j) hj
    have hflags : ¬ load32 s2.mem ((Node.file j).address fs + nodeFlags) &&& 0x7 = FS_DIRECTORY := by
      rw [Node.address, (h.mounted.mounted j g hg).node.flags]
      exact file_flags
    obtain ⟨s3, hrun3, hmem3, hreports3⟩ := (monitorWriteSys_printer (zeroFree_ascii (s := "\n\t contents: \"") rfl)).run
      st.dirent buf s2
    rw [← hmem3] at h
    obtain ⟨sz, m4, hread, hbytes, hoff⟩ := h.read_file (i := j) hj (by norm_num : 0 + 256 < 4294967296) hbuf
    have hreports4 : Reports st.dirent buf (text (v.read 0 256 (.file j))) s3
        (putBuffer buf sz { s3 with mem := m4 }) := by
      rw [← hbytes]
      exact ⟨putBuffer_prints buf sz { s3 with mem := m4 }, fun x _ hx => hoff x hx⟩
    obtain ⟨s5, hrun5, hmem5, hreports5⟩ := (monitorWriteSys_printer (zeroFree_ascii (s := "\"\n") rfl)).run
      st.dirent buf (putBuffer buf sz { s3 with mem := m4 })
    have hcontents := hreports3.trans (hreports4.trans hreports5)
    have hall := hreports1.trans (hreports2.trans hcontents)
    refine ⟨s5, ?_, hall⟩
    rw [Option.map_some, Option.getD_some, if_neg hflags, hrun3, ok_bind]
    dsimp only [Node.address]
    rw [hread, ok_bind]
    exact hrun5

/-! ## The loop -/

/-- `readdir_fs` of the root leaves the entry of this name in `dirent`. -/
theorem Serves.readdir_listing (h : Serves m st fs location size files v) (hi : v.listing[i]? = some name) :
    ∃ m', initrdReaddir st fs fs.initrdRoot i m = .ok (st.dirent, m') ∧ CString m' st.dirent name ∧ name.length < 128 ∧
      SameOff m m' st.dirent (st.dirent + 132) := by
  cases i with
  | zero =>
    cases hi
    obtain ⟨m', hrun, hname, -, hoff⟩ := h.readdir_first
    exact ⟨m', hrun, hname, by decide, hoff⟩
  | succ i =>
    rw [Volume.listing, List.getElem?_cons_succ, List.getElem?_map] at hi
    obtain ⟨f, hf, rfl⟩ := Option.map_eq_some_iff.mp hi
    obtain ⟨m', hrun, hname, -, hoff⟩ := h.readdir_file hf fs.initrdRoot
    exact ⟨m', hrun, hname, (h.names i f hf).2.2, hoff⟩

theorem Serves.printLoop (h : Serves s.mem st fs location size files v) (d : ℕ) (hd : i + d = v.length + 1) (hfuel : d < fuel)
    (hbuf : ∀ r ∈ holding st fs location size, Apart (buf, 256) r) :
    ∃ s', PandaOS.printLoop (initrdCode st fs) fs.initrdRoot buf fuel i s = .ok s' ∧
      Reports st.dirent buf ((v.listing.drop i).flatMap v.entryText) s s' := by
  have hlength : v.listing.length = v.length + 1 := by rw [Volume.listing, List.length_cons, List.length_map]
  have hbound := h.mounted.count_lt
  have hcount := h.mounted.count
  have hsame := h.same
  induction d generalizing i s fuel with
  | zero =>
    obtain ⟨fuel, rfl⟩ : ∃ x, fuel = x + 1 := ⟨fuel - 1, by omega⟩
    have hend := h.readdir_end (by omega : v.length < i) (by omega) fs.initrdRoot
    refine ⟨s, ?_, ?_⟩
    · rw [PandaOS.printLoop, readdirFs_directory h.mounted.root, hend]
      rfl
    · rw [List.drop_of_length_le (by omega)]
      exact ⟨Prints.nil s.monitor, fun _ _ _ => rfl⟩
  | succ d ih =>
    obtain ⟨fuel, rfl⟩ : ∃ x, fuel = x + 1 := ⟨fuel - 1, by omega⟩
    have hlt : i < v.listing.length := by omega
    obtain ⟨name, hi⟩ : ∃ name, v.listing[i]? = some name := ⟨_, List.getElem?_eq_getElem hlt⟩
    obtain ⟨m1, hread, hname, hshort, hoff⟩ := h.readdir_listing hi
    have h1 := h.keeps (Keeps.of_off h.dirent_apart hoff)
    obtain ⟨s2, hentry, hreports2⟩ := h1.printEntry (s := ⟨m1, s.monitor⟩) hi hname hshort hbuf
    obtain ⟨s', hloop, hreports'⟩ := ih (h1.keeps (hreports2.keeps h1.dirent_apart hbuf))
      (by omega : i + 1 + d = v.length + 1) (by omega : d < fuel)
    have hpos := st.dirent_pos
    refine ⟨s', ?_, ?_⟩
    · rw [PandaOS.printLoop, readdirFs_directory h.mounted.root, hread, ok_bind]
      dsimp only
      rw [if_pos (by omega), hentry, ok_bind, hloop]
    · have hdrop : v.listing.drop i = name :: v.listing.drop (i + 1) := by
        rw [List.getElem?_eq_getElem hlt, Option.some.injEq] at hi
        rw [List.drop_eq_getElem_cons hlt, hi]
      rw [hdrop, List.flatMap_cons]
      have hfirst : Reports st.dirent buf [] s ⟨m1, s.monitor⟩ := ⟨Prints.nil s.monitor, fun x hx _ => hoff x hx⟩
      exact hfirst.trans (hreports2.trans hreports')

/-- The whole function: every file with its name and its first 256 bytes. -/
theorem Serves.printFilesystem (h : Serves s.mem st fs location size files v) (hfuel : v.length + 1 < fuel)
    (hroot : fs.initrdRoot ≠ 0) (hbuf : ∀ r ∈ holding st fs location size, Apart (buf, 256) r) :
    ∃ s', printFilesystemContents (initrdCode st fs) fs.initrdRoot buf fuel s = .ok s' ∧
      Reports st.dirent buf v.contentsText s s' := by
  obtain ⟨s1, hloop, hreports1⟩ := h.printLoop (v.length + 1) (Nat.zero_add _) hfuel hbuf
  obtain ⟨s', hrun, -, hreports'⟩ := (monitorWriteString_printer (zeroFree_ascii (s := "\n") rfl)).run
    st.dirent buf s1
  refine ⟨s', ?_, hreports1.trans hreports'⟩
  rw [printFilesystemContents, if_neg hroot, ok_bind, hloop, ok_bind, hrun]

end PandaOS

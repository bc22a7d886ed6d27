import PandaOS.Filesystem.Fs

/-! `initrd.c`. The image is in memory as the boot loader left it; `initialise_initrd` relocates the
offsets in it and makes a node for each file. `kmalloc` is a parameter, and the addresses of the
static data and of the functions are those of a `Statics`. -/
namespace PandaOS
open ByteMemory Word32
set_option autoImplicit false
set_option maxHeartbeats 250000

/-! ## The data -/

def sizeofInitrdHeader : ℕ := 4
def sizeofFileHeader : ℕ := 76

/-- The fields of `initrd_file_header_t` behind `magic` and `name[64]`, which is padded by 3. -/
def fileName : ℕ := 1
def fileOffset : ℕ := 68
def fileLength : ℕ := 72

/-- Where the linker put what `initrd.c` refers to. -/
structure Statics where
  dirent : ℕ
  strJ : ℕ
  strDev : ℕ
  initrdRead : ℕ
  initrdReaddir : ℕ
  initrdFinddir : ℕ
  dirent_pos : 0 < dirent
  strDev_lt : strDev + 4 ≤ 4294967296
  read_pos : 0 < initrdRead ∧ initrdRead < 4294967296
  readdir_pos : 0 < initrdReaddir ∧ initrdReaddir < 4294967296
  finddir_pos : 0 < initrdFinddir ∧ initrdFinddir < 4294967296

/-- The globals of `initrd.c`. -/
structure Initrd where
  fileHeaders : ℕ
  initrdRoot : ℕ
  initrdDev : ℕ
  rootNodes : ℕ
  nrootNodes : ℕ

/-- `&file_headers[i]` -/
def Initrd.fileHeader (fs : Initrd) (i : ℕ) : ℕ := fs.fileHeaders + sizeofFileHeader*i

/-- `&root_nodes[i]` -/
def Initrd.rootNode (fs : Initrd) (i : ℕ) : ℕ := fs.rootNodes + sizeofFsNode*i

/-! ## The operations of the nodes -/

def initrdRead (fs : Initrd) : ReadType := fun node offset size buffer m =>
  let header := fs.fileHeader (load32 m (node + nodeInode))
  let length := load32 m (header + fileLength)
  if offset > length then .ok (0, m)
  else
    let size := if add32 offset size > length then sub32 length offset else size
    .ok (size, memcpy m buffer (add32 (load32 m (header + fileOffset)) offset) size)

def initrdReaddir (st : Statics) (fs : Initrd) : ReaddirType := fun node index m =>
  if node = fs.initrdRoot ∧ index = 0 then do
    let m ← strcpy st.dirent st.strDev m
    let m := store8 m (st.dirent + 3) 0
    let m := store32 m (st.dirent + direntIno) 0
    return (st.dirent, m)
  else if sub32 index 1 ≥ fs.nrootNodes then .ok (0, m)
  else do
    let file := fs.rootNode (sub32 index 1)
    let m ← strcpy st.dirent file m
    let length ← strlen m file
    let m := store8 m (st.dirent + length) 0
    let m := store32 m (st.dirent + direntIno) (load32 m (file + nodeInode))
    return (st.dirent, m)

/-- The loop of `initrd_finddir` from `i` on, with `n` nodes left. -/
def finddirLoop (fs : Initrd) (name : ℕ) (m : Mem) : ℕ → ℕ → Result ℕ
  | 0, _ => .ok 0
  | n + 1, i => do
    let differ ← strcmp m name (fs.rootNode i)
    if differ = 0 then return fs.rootNode i
    else finddirLoop fs name m n (i + 1)

/-- `node == initrd_root && !strcmp(name, "dev")` -/
def isDev (st : Statics) (fs : Initrd) (node name : ℕ) (m : Mem) : Result Bool :=
  if node = fs.initrdRoot then do
    let differ ← strcmp m name st.strDev
    return decide (differ = 0)
  else .ok false

def initrdFinddir (st : Statics) (fs : Initrd) : FinddirType := fun node name m => do
  let found ← isDev st fs node name m
  if found then return fs.initrdDev
  else finddirLoop fs name m (toInt32 fs.nrootNodes).toNat 0

/-- What the function pointers of the nodes call. -/
def initrdCode (st : Statics) (fs : Initrd) : Code where
  read a := if a = st.initrdRead then some (initrdRead fs) else none
  readdir a := if a = st.initrdReaddir then some (initrdReaddir st fs) else none
  finddir a := if a = st.initrdFinddir then some (initrdFinddir st fs) else none

/-! ## initialise_initrd -/

/-- The assignments to `initrd_root`, and to `initrd_dev`, behind the one to the name. -/
def directoryFields (st : Statics) : List (ℕ × ℕ) :=
  [(nodeLength, 0), (nodeInode, 0), (nodeGid, 0), (nodeUid, 0), (nodeMask, 0), (nodeFlags, FS_DIRECTORY),
    (nodeRead, 0), (nodeWrite, 0), (nodeOpen, 0), (nodeClose, 0), (nodeReaddir, st.initrdReaddir),
    (nodeFinddir, st.initrdFinddir), (nodePtr, 0), (nodeImpl, 0)]

def makeDirectory (st : Statics) (node name : ℕ) (k : Kernel) : Result Kernel := do
  let m ← strcpy node name k.mem
  return k.withMem (storeFields m node (directoryFields st))

/-- The assignments to `root_nodes[i]` between the name and the length. -/
def ownerFields : List (ℕ × ℕ) := [(nodeGid, 0), (nodeUid, 0), (nodeMask, 0)]

/-- The assignments to `root_nodes[i]` from the length on. -/
def fileFields (st : Statics) (i length : ℕ) : List (ℕ × ℕ) :=
  [(nodeLength, length), (nodeInode, i), (nodeFlags, FS_FILE), (nodeRead, st.initrdRead), (nodeWrite, 0),
    (nodeReaddir, 0), (nodeFinddir, 0), (nodeOpen, 0), (nodeClose, 0), (nodeImpl, 0)]

/-- One round of the loop of `initialise_initrd`. -/
def makeFile (st : Statics) (location header node i : ℕ) (m : Mem) : Result Mem := do
  let m := store32 m (header + fileOffset) (add32 (load32 m (header + fileOffset)) location)
  let m ← strcpy node (header + fileName) m
  let m := storeFields m node ownerFields
  return storeFields m node (fileFields st i (load32 m (header + fileLength)))

/-- `for (i = 0; i < initrd_header->nfiles; i++)` from `i` on, with `n` rounds left. -/
def filesLoop (st : Statics) (fs : Initrd) (location : ℕ) : ℕ → ℕ → Mem → Result Mem
  | 0, _, _ => .error .outOfFuel
  | n + 1, i, m =>
    if i < load32 m location then do
      let m ← makeFile st location (fs.fileHeader i) (fs.rootNode i) i m
      filesLoop st fs location n (i + 1) m
    else .ok m

/-- `kmalloc(sz)`. -/
abbrev Kmalloc := ℕ → Kernel → Result (ℕ × Kernel)

def initialiseInitrd (kmalloc : Kmalloc) (st : Statics) (location : ℕ) (k : Kernel) :
    Result ((ℕ × Initrd) × Kernel) := do
  let fileHeaders := location + sizeofInitrdHeader
  let (root, k) ← kmalloc sizeofFsNode k
  let k ← makeDirectory st root st.strJ k
  let (dev, k) ← kmalloc sizeofFsNode k
  let k ← makeDirectory st dev st.strDev k
  let (nodes, k) ← kmalloc (sizeofFsNode * load32 k.mem location % 4294967296) k
  let fs : Initrd := ⟨fileHeaders, root, dev, nodes, load32 k.mem location⟩
  let m ← filesLoop st fs location ADDRESS_SPACE 0 k.mem
  return ((root, fs), k.withMem m)

end PandaOS

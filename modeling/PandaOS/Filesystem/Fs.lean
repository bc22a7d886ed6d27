import PandaOS.Library.Regions
import PandaOS.Utils.Strings

/-! `fs.c`. A node is an `fs_node_t` in memory, and its operations are function pointers; what a
pointer calls is a parameter here, since `fs.c` does not know the file systems. -/
namespace PandaOS
open ByteMemory Word32
set_option autoImplicit false
set_option maxHeartbeats 250000

def FS_FILE : ℕ := 0x01
def FS_DIRECTORY : ℕ := 0x02

/-! ## fs_node_t and struct dirent -/

def sizeofFsNode : ℕ := 184

/-- The offsets of the fields behind `name[128]`. -/
def nodeMask : ℕ := 128
def nodeUid : ℕ := 132
def nodeGid : ℕ := 136
def nodeFlags : ℕ := 140
def nodeInode : ℕ := 144
def nodeLength : ℕ := 148
def nodeImpl : ℕ := 152
def nodeRead : ℕ := 156
def nodeWrite : ℕ := 160
def nodeOpen : ℕ := 164
def nodeClose : ℕ := 168
def nodeReaddir : ℕ := 172
def nodeFinddir : ℕ := 176
def nodePtr : ℕ := 180

def direntIno : ℕ := 128

/-- Assignments to fields of the structure at `a`, in order. -/
def storeFields (m : Mem) (a : ℕ) : List (ℕ × ℕ) → Mem
  | [] => m
  | f :: l => storeFields (store32 m (a + f.1) f.2) a l

/-! ## The functions -/

/-- `read_type_t`: node, offset, size and buffer; the count, and the memory afterwards. -/
abbrev ReadType := ℕ → ℕ → ℕ → ℕ → Mem → Result (ℕ × Mem)

/-- `readdir_type_t`: node and index; the address of the entry or 0. -/
abbrev ReaddirType := ℕ → ℕ → Mem → Result (ℕ × Mem)

/-- `finddir_type_t`: node and name; the node found or 0. -/
abbrev FinddirType := ℕ → ℕ → Mem → Result ℕ

/-- The functions at an address. -/
structure Code where
  read : ℕ → Option ReadType
  readdir : ℕ → Option ReaddirType
  finddir : ℕ → Option FinddirType

def readFs (code : Code) (node offset size buffer : ℕ) (m : Mem) : Result (ℕ × Mem) :=
  if load32 m (node + nodeRead) ≠ 0 then
    match code.read (load32 m (node + nodeRead)) with
    | some f => f node offset size buffer m
    | none => .error (.undefined "no function at this address")
  else .ok (0, m)

def readdirFs (code : Code) (node index : ℕ) (m : Mem) : Result (ℕ × Mem) :=
  if load32 m (node + nodeFlags) &&& 0x7 = FS_DIRECTORY ∧ load32 m (node + nodeReaddir) ≠ 0 then
    match code.readdir (load32 m (node + nodeReaddir)) with
    | some f => f node index m
    | none => .error (.undefined "no function at this address")
  else .ok (0, m)

def finddirFs (code : Code) (node name : ℕ) (m : Mem) : Result ℕ :=
  if load32 m (node + nodeFlags) &&& 0x7 = FS_DIRECTORY ∧ load32 m (node + nodeFinddir) ≠ 0 then
    match code.finddir (load32 m (node + nodeFinddir)) with
    | some f => f node name m
    | none => .error (.undefined "no function at this address")
  else .ok 0

/-- `open_type_t` and `close_type_t`. -/
abbrev OpenType := ℕ → Mem → Result Mem

/-- With the other functions that a node may point to; `write_type_t` has the form of `read_type_t`. -/
structure Driver extends Code where
  write : ℕ → Option ReadType
  opening : ℕ → Option OpenType
  closing : ℕ → Option OpenType

def writeFs (code : Driver) (node offset size buffer : ℕ) (m : Mem) : Result (ℕ × Mem) :=
  if load32 m (node + nodeWrite) ≠ 0 then
    match code.write (load32 m (node + nodeWrite)) with
    | some f => f node offset size buffer m
    | none => .error (.undefined "no function at this address")
  else .ok (0, m)

/-- The arguments `read` and `write` are not used. -/
def openFs (code : Driver) (node : ℕ) (_read _write : UInt8) (m : Mem) : Result Mem :=
  if load32 m (node + nodeOpen) ≠ 0 then
    match code.opening (load32 m (node + nodeOpen)) with
    | some f => f node m
    | none => .error (.undefined "no function at this address")
  else .ok m

def closeFs (code : Driver) (node : ℕ) (m : Mem) : Result Mem :=
  if load32 m (node + nodeClose) ≠ 0 then
    match code.closing (load32 m (node + nodeClose)) with
    | some f => f node m
    | none => .error (.undefined "no function at this address")
  else .ok m

variable {m m' : Mem} {a o v : ℕ} {l : List (ℕ × ℕ)}

/-! ## Fields -/

/-- The offsets that are assigned to. -/
def offsets (l : List (ℕ × ℕ)) : List ℕ := l.map Prod.fst

/-- The fields are words that do not overlap. -/
def FieldsApart (l : List ℕ) : Prop := l.Pairwise fun o p => o + 4 ≤ p ∨ p + 4 ≤ o

theorem storeFields_append (m : Mem) (a : ℕ) (l l' : List (ℕ × ℕ)) :
    storeFields (storeFields m a l) a l' = storeFields m a (l ++ l') := by
  induction l generalizing m with
  | nil => rfl
  | cons f l ih => exact ih _

theorem sameOff_storeFields {lo hi : ℕ} (h : ∀ o ∈ offsets l, lo ≤ o ∧ o + 4 ≤ hi) :
    SameOff m (storeFields m a l) (a + lo) (a + hi) := by
  induction l generalizing m with
  | nil => exact SameOff.refl _ _ _
  | cons f l ih =>
    have hf := h f.1 List.mem_cons_self
    have hstore : SameOff m (store32 m (a + f.1) f.2) (a + lo) (a + hi) :=
      sameOff_store32 (by omega) (by omega)
    exact hstore.trans (ih fun g hg => h g (List.mem_cons_of_mem _ hg))

theorem load32_storeFields_of_off (h : ∀ p ∈ offsets l, o + 4 ≤ p ∨ p + 4 ≤ o) :
    load32 (storeFields m a l) (a + o) = load32 m (a + o) := by
  induction l generalizing m with
  | nil => rfl
  | cons f l ih =>
    have hf := h f.1 List.mem_cons_self
    rw [storeFields, ih fun g hg => h g (List.mem_cons_of_mem _ hg), load32_store32_of_off (by omega)]

/-- A field has the value that was assigned to it. -/
theorem load32_storeFields (hapart : FieldsApart (offsets l)) (h : (o, v) ∈ l) (hv : v < 4294967296) :
    load32 (storeFields m a l) (a + o) = v := by
  induction l generalizing m with
  | nil => exact absurd h List.not_mem_nil
  | cons f l ih =>
    obtain ⟨hf, hl⟩ := List.pairwise_cons.mp hapart
    rw [storeFields]
    rcases List.mem_cons.mp h with heq | hmem
    · rw [← heq] at hf ⊢
      rw [load32_storeFields_of_off hf]
      exact load32_store32_of_lt hv
    · exact ih hl hmem

end PandaOS

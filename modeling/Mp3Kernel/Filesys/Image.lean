import Mp3Kernel.Lib.Memory

/-!
The read-only file system of filesys.c: the image, the directory lookups and
the copy loop of `read_data`. The image is taken apart into its directory, its
inodes and its data blocks, and a copied byte is recorded by the cell of the
data area it was read from.
-/
namespace Mp3Kernel.Filesys
open Mp3Kernel.Memory

abbrev DATABLOCK_SIZE : Nat := 4096
abbrev FILENAME_LEN : Nat := 32
abbrev DATABLOCK_NUM : Nat := 1023
abbrev DENTRY_NUM : Nat := 63
abbrev ELF_MAGIC_SIZE : Nat := 4
abbrev ELF_MAGIC : Word := 0x464c457f

structure Dentry where
  file_name : Nat → Byte
  file_type : Nat
  inode_num : Nat
  deriving Inhabited

structure Inode where
  len : Nat
  dblocks : Nat → Nat

/-- The image. The arrays are total: an index past the end reads whatever
    follows in memory. -/
structure FileSys where
  num_dentries : Nat
  num_inodes : Nat
  num_blocks : Nat
  dentries : Nat → Dentry
  inodes : Nat → Inode
  data : Nat → Nat → Byte

/-- The blocks that hold a file's bytes exist, and a file leaves room in its
    block list. -/
structure WellFormed (file_sys : FileSys) : Prop where
  blocks : ∀ n < file_sys.num_inodes, ∀ j < ((file_sys.inodes n).len + 4095) / 4096,
    (file_sys.inodes n).dblocks j < file_sys.num_blocks
  size : ∀ n < file_sys.num_inodes, (file_sys.inodes n).len ≤ 1022 * 4096

/-- A pointer to an inode is its number, and nothing for a null pointer. -/
def get_inode (file_sys : FileSys) (inode : Nat) : Option Nat :=
  if file_sys.num_inodes ≤ inode then none else some inode

/-! ### The directory -/

def same_name (a b : Nat → Byte) : Bool := (List.range FILENAME_LEN).all (fun j => a j == b j)

/-- The first entry with the name. -/
def find_dentry (file_sys : FileSys) (fname : Nat → Byte) : Option Nat :=
  (List.range file_sys.num_dentries).find? (fun i => same_name (file_sys.dentries i).file_name fname)

/-- The fields of an entry copied over `dentry`. -/
def copy_dentry (source dentry : Dentry) : Dentry where
  file_name := fun j => if j < FILENAME_LEN then source.file_name j else dentry.file_name j
  file_type := source.file_type
  inode_num := source.inode_num

def read_dentry_by_name (file_sys : FileSys) (fname : Nat → Byte) (dentry : Dentry) : Int × Dentry :=
  -- any name that starts with a dot is the directory itself
  if fname 0 = 46 then
    (0,{ file_type := (file_sys.dentries 0).file_type
         inode_num := (file_sys.dentries 0).inode_num
         file_name := fun j => if j = 0 then 46 else dentry.file_name j })
  else match find_dentry file_sys fname with
  | none => (-1,dentry)
  | some found => (0,copy_dentry (file_sys.dentries found) dentry)

def read_dentry_by_index (file_sys : FileSys) (index : Nat) (dentry : Dentry) : Int × Dentry :=
  if file_sys.num_dentries ≤ index then (-1,dentry) else (0,copy_dentry (file_sys.dentries index) dentry)

/-! ### File data -/

/-- What a read returns, the cell (data block and index in it) behind each byte
    it stores, and the indices it looks up in the inode's block list. -/
structure ReadResult where
  ret : Int
  stored : List (Nat × Nat)
  lookups : List Nat
  deriving DecidableEq, Repr

def ReadResult.failed : ReadResult := ⟨-1,[],[]⟩

/-- The loop went on after storing one byte and looking up `lookups`. -/
def ReadResult.after (cell : Nat × Nat) (lookups : List Nat) (r : ReadResult) : ReadResult :=
  { r with stored := cell :: r.stored, lookups := lookups ++ r.lookups }

def ReadResult.bytes (file_sys : FileSys) (r : ReadResult) : List Byte :=
  r.stored.map (fun cell => file_sys.data cell.1 cell.2)

/-- The copy loop with `remaining` bytes to go. -/
def copy_loop (file_sys : FileSys) (node : Inode) (block_length : Nat) :
    (remaining i offset dblock_page dblock : Nat) → ReadResult
  | 0, i, _, _, _ => ⟨i32 i,[],[]⟩
  | remaining + 1, i, offset, dblock_page, dblock =>
    let cell := (dblock,(i + offset) % DATABLOCK_SIZE)
    if (i + 1 + offset) % DATABLOCK_SIZE = 0 then
      let next := dblock_page + 1
      -- the byte just stored is not counted
      if next = block_length then ⟨i32 i,[cell],[]⟩
      else if next > block_length then ⟨-1,[cell],[]⟩
      else if file_sys.num_blocks ≤ node.dblocks next then ⟨-1,[cell],[next]⟩
      -- the offset starts over, but `i` does not
      else (copy_loop file_sys node block_length remaining (i + 1) 0 next (node.dblocks next)).after cell [next]
    else (copy_loop file_sys node block_length remaining (i + 1) offset dblock_page dblock).after cell []

def read_data (file_sys : FileSys) (inode offset length : Nat) : ReadResult :=
  if file_sys.num_inodes ≤ inode then .failed else
    let node := file_sys.inodes inode
    let block_length := node.len / DATABLOCK_SIZE + 1
    let dblock_page := offset / DATABLOCK_SIZE
    if block_length ≤ dblock_page then .failed
    else if file_sys.num_blocks ≤ node.dblocks dblock_page then ⟨-1,[],[dblock_page]⟩
    else
      let r := copy_loop file_sys node block_length length 0 (offset % DATABLOCK_SIZE) dblock_page
        (node.dblocks dblock_page)
      { r with lookups := dblock_page :: r.lookups }

/-- A local `dentry_t` before it is filled. -/
def uninitialized : Dentry := ⟨fun _ => 0,0,0⟩

/-- The header is read first, then the whole file is copied to `pgrm_addr`; how
    that copy ends is not looked at. -/
def load_program (file_sys : FileSys) (fname : Nat → Byte) (pgrm_addr : Nat) (m : Mem) : Int × Mem :=
  if pgrm_addr = 0 then (-1,m) else
    let (found,dentry) := read_dentry_by_name file_sys fname uninitialized
    if found = -1 then (-1,m)
    else if dentry.file_type ≠ 2 then (-1,m)
    else
      let header := read_data file_sys dentry.inode_num 0 ELF_MAGIC_SIZE
      if header.ret ≠ ELF_MAGIC_SIZE then (-1,m)
      else if load32 (storeBytes (fun _ => 0) 0 (header.bytes file_sys)) 0 ≠ ELF_MAGIC then (-1,m)
      else
        let m := storeBytes m pgrm_addr ((read_data file_sys dentry.inode_num 0 (u32 (-1))).bytes file_sys)
        ((load32 m (pgrm_addr + 24)).toInt,m)

end Mp3Kernel.Filesys

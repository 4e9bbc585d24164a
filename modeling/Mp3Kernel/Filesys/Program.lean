import Mp3Kernel.Filesys.ReadData

/-!
Where `load_program` writes. However a file is laid out, a read from its start
stores at most the blocks that its length lists, so a program lands in a range
that the length of its file bounds.
-/
namespace Mp3Kernel.Filesys
open Mp3Kernel.Memory

variable {file_sys : FileSys} {node : Inode} {block_length : Nat}

theorem cells_length (dblock start count : Nat) : (cells dblock start count).length = count := by
  simp [cells]

/-- The loop stores no more than what is left of its block and of the listed
    blocks after it. -/
theorem copy_loop_length (file_sys : FileSys) (node : Inode) (blocks remaining i offset dblock_page dblock : Nat)
    (listed : block_length = dblock_page + blocks + 1) :
    (copy_loop file_sys node block_length remaining i offset dblock_page dblock).stored.length ≤
      4096 * (blocks + 1) - (i + offset) % 4096 := by
  induction blocks generalizing remaining i offset dblock_page dblock with
  | zero =>
    by_cases short : remaining < 4096 - (i + offset) % 4096
    · rw [copy_within remaining dblock_page dblock le_rfl (by omega),Nat.sub_self]
      simp only [copy_loop,ReadResult.afterCells,List.append_nil,cells_length]
      omega
    · rw [copy_cross dblock_page dblock (by omega)]
      dsimp only
      rw [if_pos (by omega)]
      simp only [cells_length]
      omega
  | succ blocks ih =>
    by_cases short : remaining < 4096 - (i + offset) % 4096
    · rw [copy_within remaining dblock_page dblock le_rfl (by omega),Nat.sub_self]
      simp only [copy_loop,ReadResult.afterCells,List.append_nil,cells_length]
      omega
    · rw [copy_cross dblock_page dblock (by omega)]
      dsimp only
      rw [if_neg (by omega),if_neg (by omega)]
      by_cases absent : file_sys.num_blocks ≤ node.dblocks (dblock_page + 1)
      · rw [if_pos absent]
        simp only [cells_length]
        omega
      · rw [if_neg absent]
        have rest := ih (remaining - (4096 - (i + offset) % 4096)) (i + (4096 - (i + offset) % 4096)) 0 (dblock_page + 1)
          (node.dblocks (dblock_page + 1)) (by omega)
        simp only [ReadResult.afterCells,List.length_append,cells_length]
        omega

theorem read_data_length (inode length : Nat) :
    (read_data file_sys inode 0 length).stored.length ≤ 4096 * ((file_sys.inodes inode).len / 4096 + 1) := by
  rcases read_data_cases file_sys inode 0 length with ⟨-,failed⟩ | ⟨-,inside,⟨-,alone⟩ | ⟨-,starts⟩⟩
  · rw [failed]
    exact Nat.zero_le _
  · rw [alone]
    exact Nat.zero_le _
  · rw [starts]
    exact Nat.le_trans (copy_loop_length file_sys _ ((file_sys.inodes inode).len / 4096) length 0 (0 % 4096)
      (0 / 4096) _ (by omega)) (Nat.sub_le _ _)

/-- The inode that a program's name leads to. -/
def program_inode (file_sys : FileSys) (fname : Nat → Byte) : Nat :=
  (read_dentry_by_name file_sys fname uninitialized).2.inode_num

/-- What `load_program` checks before it copies anything. -/
def Elf (file_sys : FileSys) (fname : Nat → Byte) : Prop :=
  let found := read_dentry_by_name file_sys fname uninitialized
  let header := read_data file_sys found.2.inode_num 0 ELF_MAGIC_SIZE
  found.1 ≠ -1 ∧ found.2.file_type = 2 ∧ header.ret = ELF_MAGIC_SIZE ∧
    load32 (storeBytes (fun _ => 0) 0 (header.bytes file_sys)) 0 = ELF_MAGIC

instance (file_sys : FileSys) (fname : Nat → Byte) : Decidable (Elf file_sys fname) :=
  inferInstanceAs (Decidable (_ ∧ _ ∧ _ ∧ _))

/-- The bytes that it copies. -/
def image (file_sys : FileSys) (fname : Nat → Byte) : List Byte :=
  (read_data file_sys (program_inode file_sys fname) 0 (u32 (-1))).bytes file_sys

theorem elf_iff {fname : Nat → Byte} {found : Int} {dentry : Dentry}
    (pair : read_dentry_by_name file_sys fname uninitialized = (found,dentry)) :
    Elf file_sys fname ↔ found ≠ -1 ∧ dentry.file_type = 2 ∧
      (read_data file_sys dentry.inode_num 0 ELF_MAGIC_SIZE).ret = ELF_MAGIC_SIZE ∧
      load32 (storeBytes (fun _ => 0) 0 ((read_data file_sys dentry.inode_num 0 ELF_MAGIC_SIZE).bytes file_sys)) 0 =
        ELF_MAGIC := by
  unfold Elf
  rw [pair]

theorem load_program_eq {fname : Nat → Byte} {addr : Nat} (m : Mem) (positive : addr ≠ 0) :
    load_program file_sys fname addr m =
      if Elf file_sys fname then
        ((load32 (storeBytes m addr (image file_sys fname)) (addr + 24)).toInt,storeBytes m addr (image file_sys fname))
      else (-1,m) := by
  rw [load_program,if_neg positive,image,program_inode]
  cases pair : read_dentry_by_name file_sys fname uninitialized with
  | mk found dentry =>
    have checks := elf_iff pair
    dsimp only
    by_cases absent : found = -1
    · rw [if_pos absent,if_neg (fun elf => (checks.mp elf).1 absent)]
    rw [if_neg absent]
    by_cases other : dentry.file_type ≠ 2
    · rw [if_pos other,if_neg (fun elf => other (checks.mp elf).2.1)]
    rw [if_neg other]
    by_cases short : (read_data file_sys dentry.inode_num 0 ELF_MAGIC_SIZE).ret ≠ ELF_MAGIC_SIZE
    · rw [if_pos short,if_neg (fun elf => short (checks.mp elf).2.2.1)]
    rw [if_neg short]
    by_cases foreign : load32 (storeBytes (fun _ => 0) 0
        ((read_data file_sys dentry.inode_num 0 ELF_MAGIC_SIZE).bytes file_sys)) 0 ≠ ELF_MAGIC
    · rw [if_pos foreign,if_neg (fun elf => foreign (checks.mp elf).2.2.2)]
    rw [if_neg foreign,if_pos (checks.mpr ⟨absent,not_not.mp other,not_not.mp short,not_not.mp foreign⟩)]

/-- A load writes nothing, or at most the listed blocks of the program's file
    from its destination on. -/
theorem load_program_writes {fname : Nat → Byte} {addr : Nat} {m m' : Mem} {exe_addr : Int}
    (loaded : load_program file_sys fname addr m = (exe_addr,m')) :
    m' = m ∨ ∃ bytes, m' = storeBytes m addr bytes ∧
      bytes.length ≤ 4096 * ((file_sys.inodes (program_inode file_sys fname)).len / 4096 + 1) := by
  by_cases null : addr = 0
  · rw [load_program,if_pos null] at loaded
    exact .inl (congrArg Prod.snd loaded).symm
  rw [load_program_eq m null] at loaded
  by_cases elf : Elf file_sys fname
  · rw [if_pos elf] at loaded
    refine .inr ⟨image file_sys fname,(congrArg Prod.snd loaded).symm,?_⟩
    rw [image,ReadResult.bytes,List.length_map]
    exact read_data_length _ _
  · rw [if_neg elf] at loaded
    exact .inl (congrArg Prod.snd loaded).symm

end Mp3Kernel.Filesys

import Mp3Kernel.Filesys.Lookup
import Mp3Kernel.Filesys.Program
import Mp3Kernel.Filesys.ReadContents

/-!
What `load_program` leaves in memory. A read from the start of a file stays on
the borders of its blocks, so the load stores the blocks in order up to the
first entry of the block list that it cannot follow, each of them whole.
-/
namespace Mp3Kernel.Loader
open Mp3Kernel.Memory Mp3Kernel.Filesys Mp3Kernel.ReadContents Mp3Kernel.Lookup

/-- How many blocks a read from the start goes through: all entries of the block
    list that it looks at, or those before the first that names no block. -/
def blocks_followed (file_sys : FileSys) (node : Inode) : Nat :=
  (List.range (node.len / 4096 + 1)).findIdx (fun j => file_sys.num_blocks ≤ node.dblocks j)

/-- The file that a program's name leads to. -/
def program_node (file_sys : FileSys) (fname : Nat → Byte) : Inode :=
  file_sys.inodes (program_inode file_sys fname)

/-- The first entry with the name is a regular file that begins as an ELF. -/
def Program (file_sys : FileSys) (fname : Nat → Byte) (node : Inode) : Prop :=
  ∃ i, First file_sys fname i ∧ (file_sys.dentries i).file_type = 2 ∧
    node = file_sys.inodes (file_sys.dentries i).inode_num ∧ load32 (file_byte file_sys node) 0 = ELF_MAGIC

/-- The file is at its destination, and nothing behind its last listed block or
    before its first byte is written. -/
structure Loaded (file_sys : FileSys) (node : Inode) (addr : Nat) (m m' : Mem) : Prop where
  copied : ∀ j < node.len, m' (addr + j) = file_byte file_sys node j
  rest : ∀ b, b < addr ∨ addr + 4096 * (node.len / 4096 + 1) ≤ b → m' b = m b

variable {file_sys : FileSys} {node : Inode} {fname : Nat → Byte} {addr : Nat} {m : Mem}

/-! ### The blocks that are followed -/

variable (file_sys node) in
theorem followed_le : blocks_followed file_sys node ≤ node.len / 4096 + 1 := by
  have bound : blocks_followed file_sys node ≤ (List.range (node.len / 4096 + 1)).length := List.findIdx_le_length
  rwa [List.length_range] at bound

theorem followed_valid {j : Nat} (before : j < blocks_followed file_sys node) : node.dblocks j < file_sys.num_blocks := by
  have passed := List.not_of_lt_findIdx before
  simpa using passed

variable (file_sys node) in
theorem followed_stops : Stops file_sys node (node.len / 4096 + 1) (blocks_followed file_sys node) := by
  rcases Nat.lt_or_eq_of_le (followed_le file_sys node) with before | atEnd
  · have inside : (List.range (node.len / 4096 + 1)).findIdx (fun j => file_sys.num_blocks ≤ node.dblocks j) <
        (List.range (node.len / 4096 + 1)).length := by simpa [blocks_followed] using before
    have absent := List.findIdx_getElem (w := inside)
    exact .inr ⟨before,by simpa [blocks_followed] using absent⟩
  · exact .inl atEnd

/-- It is where the list first fails. -/
theorem le_followed {n : Nat} (listed : n ≤ node.len / 4096 + 1)
    (valid : ∀ j < n, node.dblocks j < file_sys.num_blocks) : n ≤ blocks_followed file_sys node := by
  rcases followed_stops file_sys node with atEnd | ⟨-,absent⟩
  · omega
  · by_contra before
    have present := valid (blocks_followed file_sys node) (by omega)
    omega

theorem followed_pos : 0 < blocks_followed file_sys node ↔ node.dblocks 0 < file_sys.num_blocks := by
  constructor
  · exact followed_valid
  · intro first
    refine le_followed (by omega) ?_
    intro j below
    rwa [show j = 0 from by omega]

/-- From the border of a block the loop stores all blocks up to `stop`. -/
theorem stored_blocks {block_length stop : Nat} (stops : Stops file_sys node block_length stop)
    (blocks remaining i page : Nat) (ahead : stop = page + blocks + 1) (aligned : i % 4096 = 0)
    (valid : ∀ j, page < j → j < stop → node.dblocks j < file_sys.num_blocks) :
    (copy_loop file_sys node block_length remaining i 0 page (node.dblocks page)).stored =
      (List.range' (4096 * page) (min remaining (4096 * (blocks + 1)))).map (file_cell node) := by
  have bound : stop ≤ block_length := by rcases stops with atEnd | before <;> omega
  have start : (i + 0) % 4096 = 0 := aligned
  by_cases within : remaining < 4096
  · rw [stored_within (by omega),start,Nat.add_zero,Nat.min_eq_left (by omega)]
  induction blocks generalizing remaining i page with
  | zero =>
    have whole : cells (node.dblocks page) 0 4096 = (List.range' (4096 * page + 0) 4096).map (file_cell node) :=
      cells_eq le_rfl
    rw [copy_cross page _ (by omega),start,Nat.min_eq_right (by omega)]
    dsimp only
    rcases stops with atEnd | ⟨before,absent⟩
    · rw [if_pos (by omega)]
      exact whole
    · rw [ahead] at absent
      rw [if_neg (by omega),if_neg (by omega),if_pos absent]
      exact whole
  | succ blocks ih =>
    have present := valid (page + 1) (by omega) (by omega)
    rw [stored_go_on (by omega) present (by omega),start,Nat.sub_zero,Nat.add_zero]
    have border : (i + 4096) % 4096 = 0 := by omega
    have later : (copy_loop file_sys node block_length (remaining - 4096) (i + 4096) 0 (page + 1)
        (node.dblocks (page + 1))).stored =
          (List.range' (4096 * (page + 1)) (min (remaining - 4096) (4096 * (blocks + 1)))).map (file_cell node) := by
      by_cases short : remaining - 4096 < 4096
      · rw [stored_within (by omega),Nat.add_zero,border,Nat.add_zero,Nat.min_eq_left (by omega)]
      · exact ih (remaining - 4096) (i + 4096) (page + 1) (by omega) border
          (fun j low high => valid j (by omega) high) border short
    have split : min remaining (4096 * (blocks + 1 + 1)) = 4096 + min (remaining - 4096) (4096 * (blocks + 1)) := by
      have rest : 4096 + (remaining - 4096) = remaining := by omega
      rw [← Nat.add_min_add_left,rest,Nat.mul_succ,Nat.add_comm 4096]
    rw [later,split,← List.map_append,Nat.mul_add,Nat.mul_one,List.range'_append_1]

/-! ### Reads from the start of a file -/

section
variable {inode : Nat} (known : inode < file_sys.num_inodes)
  (first : (file_sys.inodes inode).dblocks 0 < file_sys.num_blocks)
include known first

theorem read_from_start (length : Nat) : (read_data file_sys inode 0 length).stored =
    (List.range (min length (4096 * blocks_followed file_sys (file_sys.inodes inode)))).map
      (file_cell (file_sys.inodes inode)) := by
  have positive := followed_pos.mpr first
  obtain ⟨blocks,ahead⟩ : ∃ blocks, blocks_followed file_sys (file_sys.inodes inode) = blocks + 1 :=
    ⟨blocks_followed file_sys (file_sys.inodes inode) - 1,by omega⟩
  have run := stored_blocks (followed_stops file_sys (file_sys.inodes inode)) blocks length 0 0
    (by omega) rfl (fun j _ before => followed_valid before)
  rw [Nat.mul_zero,← ahead,← List.range_eq_range'] at run
  have starts := read_data_starts length known (show 0 / 4096 ≤ _ by omega) (by rwa [Nat.zero_div])
  rw [Nat.zero_mod,Nat.zero_div] at starts
  rw [starts,← run]
  rfl

theorem bytes_from_start (length : Nat) : (read_data file_sys inode 0 length).bytes file_sys =
    (List.range (min length (4096 * blocks_followed file_sys (file_sys.inodes inode)))).map
      (file_byte file_sys (file_sys.inodes inode)) := by
  rw [ReadResult.bytes,read_from_start known first,List.map_map]
  rfl

/-- The header is always there, -/
theorem header_read : (read_data file_sys inode 0 ELF_MAGIC_SIZE).ret = ELF_MAGIC_SIZE := by
  have positive := followed_pos.mpr first
  rw [read_data_ret known (followed_stops _ _) (by omega) (fun j _ before => followed_valid before),arrival,
    if_pos (.inr (by omega)),ended,if_pos (show 4 < _ from by omega)]
  rfl

/-- and it is the first word of the file. -/
theorem header_word : load32 (storeBytes (fun _ => 0) 0 ((read_data file_sys inode 0 ELF_MAGIC_SIZE).bytes file_sys)) 0 =
    load32 (file_byte file_sys (file_sys.inodes inode)) 0 := by
  have positive := followed_pos.mpr first
  rw [bytes_from_start known first,Nat.min_eq_left (show 4 ≤ _ from by omega)]
  refine load32_congr ?_
  intro b low high
  have inside : b < ((List.range ELF_MAGIC_SIZE).map (file_byte file_sys (file_sys.inodes inode))).length := by
    simpa using high
  have stored := storeBytes_inside (m := fun _ => 0) (a := 0) inside
  simpa using stored

end

/-- Without a first block there is no header. -/
theorem header_fails {inode : Nat} (absent : file_sys.num_inodes ≤ inode ∨
    file_sys.num_blocks ≤ (file_sys.inodes inode).dblocks 0) :
    (read_data file_sys inode 0 ELF_MAGIC_SIZE).ret = -1 := by
  rcases read_data_cases file_sys inode 0 ELF_MAGIC_SIZE with ⟨-,failed⟩ | ⟨known,-,⟨-,alone⟩ | ⟨present,-⟩⟩
  · rw [failed]
    rfl
  · rw [alone]
  · rw [Nat.zero_div] at present
    omega

/-! ### The load -/

theorem elf_iff_file : Elf file_sys fname ↔ (read_dentry_by_name file_sys fname uninitialized).1 ≠ -1 ∧
    (read_dentry_by_name file_sys fname uninitialized).2.file_type = 2 ∧
    program_inode file_sys fname < file_sys.num_inodes ∧
    (program_node file_sys fname).dblocks 0 < file_sys.num_blocks ∧
    load32 (file_byte file_sys (program_node file_sys fname)) 0 = ELF_MAGIC := by
  rw [elf_iff (Prod.eta (read_dentry_by_name file_sys fname uninitialized)).symm]
  refine and_congr_right fun _ => and_congr_right fun _ => ?_
  by_cases known : program_inode file_sys fname < file_sys.num_inodes
  · by_cases first : (program_node file_sys fname).dblocks 0 < file_sys.num_blocks
    · have read := header_read known first
      have word := header_word known first
      simp only [program_inode] at known first read word
      rw [read,word]
      exact ⟨fun checks => ⟨known,first,checks.2⟩,fun checks => ⟨rfl,checks.2.2⟩⟩
    · have fails : (read_data file_sys (program_inode file_sys fname) 0 ELF_MAGIC_SIZE).ret = -1 :=
        header_fails (.inr (Nat.not_lt.mp first))
      simp only [program_inode] at fails
      rw [fails]
      exact ⟨fun checks => absurd checks.1 (by decide),fun checks => absurd checks.2.1 first⟩
  · have fails : (read_data file_sys (program_inode file_sys fname) 0 ELF_MAGIC_SIZE).ret = -1 :=
      header_fails (.inl (Nat.not_lt.mp known))
    simp only [program_inode] at fails
    rw [fails]
    exact ⟨fun checks => absurd checks.1 (by decide),fun checks => absurd checks.1 known⟩

/-- The bytes of a program that is copied. -/
theorem image_bytes (elf : Elf file_sys fname) : image file_sys fname =
    (List.range (min 4294967295 (4096 * blocks_followed file_sys (program_node file_sys fname)))).map
      (file_byte file_sys (program_node file_sys fname)) := by
  obtain ⟨-,-,known,first,-⟩ := elf_iff_file.mp elf
  exact bytes_from_start known first 4294967295

theorem image_length (elf : Elf file_sys fname) : (image file_sys fname).length =
    min 4294967295 (4096 * blocks_followed file_sys (program_node file_sys fname)) := by
  rw [image_bytes elf,List.length_map,List.length_range]

variable (addr m) in
theorem image_byte (elf : Elf file_sys fname) {j : Nat} (inside : j < (image file_sys fname).length) :
    storeBytes m addr (image file_sys fname) (addr + j) = file_byte file_sys (program_node file_sys fname) j := by
  rw [storeBytes_inside inside]
  simp [image_bytes elf]

/-- The entry point is the word at offset 24 of the file. -/
theorem entry_word (elf : Elf file_sys fname) : load32 (storeBytes m addr (image file_sys fname)) (addr + 24) =
    load32 (file_byte file_sys (program_node file_sys fname)) 24 := by
  obtain ⟨-,-,-,first,-⟩ := elf_iff_file.mp elf
  have positive := followed_pos.mpr first
  have long : 28 ≤ (image file_sys fname).length := by
    rw [image_length elf]
    omega
  have byte (k : Nat) (small : k < 28) := image_byte addr m elf (show k < _ from by omega)
  simp only [load32,Nat.add_assoc,byte 24 (by omega),byte (24 + 1) (by omega),byte (24 + 2) (by omega),
    byte (24 + 3) (by omega)]

theorem load_program_elf (positive : addr ≠ 0) (elf : Elf file_sys fname) : load_program file_sys fname addr m =
    ((load32 (file_byte file_sys (program_node file_sys fname)) 24).toInt,storeBytes m addr (image file_sys fname)) := by
  rw [load_program_eq m positive,if_pos elf,entry_word elf]

/-! ### A well-formed image -/

theorem first_node (plain : fname 0 ≠ 46) {i : Nat} (first : First file_sys fname i) :
    (read_dentry_by_name file_sys fname uninitialized).1 = 0 ∧
      (read_dentry_by_name file_sys fname uninitialized).2.file_type = (file_sys.dentries i).file_type ∧
      program_inode file_sys fname = (file_sys.dentries i).inode_num := by
  have found := by_name_first uninitialized plain first
  rw [program_inode,found]
  exact ⟨rfl,rfl,rfl⟩

/-- A program is what passes the checks of the load. -/
theorem program_iff (plain : fname 0 ≠ 46) (present : ∀ i, First file_sys fname i →
      (file_sys.dentries i).inode_num < file_sys.num_inodes ∧
        (file_sys.inodes (file_sys.dentries i).inode_num).dblocks 0 < file_sys.num_blocks) :
    Program file_sys fname node ↔ Elf file_sys fname ∧ node = program_node file_sys fname := by
  rw [elf_iff_file]
  constructor
  · rintro ⟨i,first,type,rfl,magic⟩
    obtain ⟨found,same,leads⟩ := first_node plain first
    obtain ⟨known,listed⟩ := present i first
    simp only [program_node,found,same,leads]
    exact ⟨⟨by decide,type,known,listed,magic⟩,trivial⟩
  · rintro ⟨⟨found,type,-,-,magic⟩,rfl⟩
    rcases first_or_none file_sys fname with absent | ⟨i,first⟩
    · rw [by_name_absent uninitialized plain absent] at found
      exact absurd rfl found
    · obtain ⟨-,same,leads⟩ := first_node plain first
      simp only [program_node,leads] at magic ⊢
      exact ⟨i,first,same ▸ type,rfl,magic⟩

/-- A file whose blocks exist is copied whole. -/
theorem loaded_of_blocks (elf : Elf file_sys fname) (short : (program_node file_sys fname).len < 4294967295)
    (blocks : ∀ j < ((program_node file_sys fname).len + 4095) / 4096,
      (program_node file_sys fname).dblocks j < file_sys.num_blocks) :
    Loaded file_sys (program_node file_sys fname) addr m (storeBytes m addr (image file_sys fname)) := by
  have enough := le_followed (by omega) blocks
  have most := followed_le file_sys (program_node file_sys fname)
  have length := image_length elf
  constructor
  · intro j inside
    exact image_byte addr m elf (by omega)
  · intro b apart
    exact storeBytes_outside (by omega)

/-- In a well-formed image a program is copied whole and its entry point is
    returned; without a program nothing is written. -/
theorem load_program_loads
    (blocks : ∀ n < file_sys.num_inodes, ∀ j < ((file_sys.inodes n).len + 4095) / 4096,
      (file_sys.inodes n).dblocks j < file_sys.num_blocks)
    (entries : ∀ i < file_sys.num_dentries, (file_sys.dentries i).inode_num < file_sys.num_inodes)
    (plain : fname 0 ≠ 46)
    (sized : ∀ i, First file_sys fname i → 28 ≤ (file_sys.inodes (file_sys.dentries i).inode_num).len ∧
      (file_sys.inodes (file_sys.dentries i).inode_num).len ≤ 1022 * 4096)
    (positive : addr ≠ 0) :
    (∀ node, Program file_sys fname node → ∃ m', Loaded file_sys node addr m m' ∧
      load_program file_sys fname addr m = ((load32 (file_byte file_sys node) 24).toInt,m')) ∧
    ((∀ node, ¬ Program file_sys fname node) → load_program file_sys fname addr m = (-1,m)) := by
  have present (i : Nat) (first : First file_sys fname i) := entries i first.1.1
  have listed (i : Nat) (first : First file_sys fname i) :
      (file_sys.dentries i).inode_num < file_sys.num_inodes ∧
        (file_sys.inodes (file_sys.dentries i).inode_num).dblocks 0 < file_sys.num_blocks := by
    have long := (sized i first).1
    exact ⟨present i first,blocks _ (present i first) 0 (by omega)⟩
  constructor
  · intro node program
    obtain ⟨elf,rfl⟩ := (program_iff plain listed).mp program
    obtain ⟨i,first,-⟩ := program
    have leads := (first_node plain first).2.2
    have size := sized i first
    have whole := blocks _ (present i first)
    rw [← leads] at size whole
    refine ⟨_,loaded_of_blocks elf ?_ whole,load_program_elf positive elf⟩
    rw [program_node]
    omega
  · intro no_program
    have refused : ¬ Elf file_sys fname := by
      intro elf
      exact no_program _ ((program_iff plain listed).mpr ⟨elf,rfl⟩)
    rw [load_program_eq m positive,if_neg refused]

/-- An image whose only entry is the program `"a"`. -/
def program_file (num_blocks len : Nat) (dblocks : Nat → Nat) : FileSys where
  num_dentries := 1
  num_inodes := 1
  num_blocks := num_blocks
  dentries := fun _ => { file_name := fun j => if j = 0 then 97 else 0, file_type := 2, inode_num := 0 }
  inodes := fun _ => { len := len, dblocks := dblocks }
  data := fun _ k => ([127,69,76,70] : List Byte).getD k 0

def program_name : Nat → Byte := fun j => if j = 0 then 97 else 0

section
variable (num_blocks len : Nat) (dblocks : Nat → Nat)

theorem program_file_first : First (program_file num_blocks len dblocks) program_name 0 :=
  ⟨⟨Nat.zero_lt_one,fun _ _ => rfl⟩,fun _ below => absurd below (Nat.not_lt_zero _)⟩

theorem program_file_program : Program (program_file num_blocks len dblocks) program_name
    { len := len, dblocks := dblocks } := by
  refine ⟨0,program_file_first num_blocks len dblocks,rfl,rfl,?_⟩
  simp only [load32,file_byte,file_cell,program_file]
  decide

end

theorem load_program_loads_one_block :
    ∃ m', Loaded (program_file 1 28 (fun _ => 0)) { len := 28, dblocks := fun _ => 0 } 0x848000 (fun _ => 0) m' ∧
      load_program (program_file 1 28 (fun _ => 0)) program_name 0x848000 (fun _ => 0) =
        ((load32 (file_byte (program_file 1 28 (fun _ => 0)) { len := 28, dblocks := fun _ => 0 }) 24).toInt,m') := by
  refine (load_program_loads ?_ ?_ (by decide) ?_ (by decide)).1 _ (program_file_program 1 28 _)
  · intro _ _ _ _
    exact Nat.zero_lt_one
  · intro _ _
    exact Nat.zero_lt_one
  · intro _ _
    simp [program_file]

end Mp3Kernel.Loader

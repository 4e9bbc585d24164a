import Mp3Kernel.Filesys.ReadData

/-!
Which bytes `read_data` delivers. A file is the concatenation of its data
blocks; a read that crosses into the next block from an unaligned offset goes
on at the count of copied bytes there, so that everything after the crossing is
taken from further on in the file.
-/
namespace Mp3Kernel.ReadContents
open Mp3Kernel.Memory Mp3Kernel.Filesys

variable {file_sys : FileSys} {node : Inode} {block_length : Nat}

/-- Where byte `i` of a file is stored. -/
def file_cell (node : Inode) (i : Nat) : Nat × Nat := (node.dblocks (i / 4096),i % 4096)

/-- Byte `i` of a file. -/
def file_byte (file_sys : FileSys) (node : Inode) (i : Nat) : Byte :=
  file_sys.data (file_cell node i).1 (file_cell node i).2

/-- The first entry of the block list that a read cannot follow. -/
def last_entry (node : Inode) (num_blocks : Nat) : Nat :=
  if node.len % 4096 = 0 ∧ num_blocks ≤ node.dblocks (node.len / 4096) then node.len / 4096
  else node.len / 4096 + 1

/-- A read of `n` bytes stays in order: it starts on a block or ends before the
    next one begins, and does not need an entry after the file's last block. -/
def InOrder (node : Inode) (num_blocks offset n : Nat) : Prop :=
  (offset % 4096 = 0 ∨ n ≤ 4096 - offset % 4096) ∧
    (offset + n < node.len ∨ node.len % 4096 ≠ 0 ∨ node.dblocks (node.len / 4096) < num_blocks)

/-- A read that does not, but finds the same bytes further on. -/
def FoundAhead (file_sys : FileSys) (node : Inode) (offset n : Nat) : Prop :=
  offset % 4096 ≠ 0 ∧ 4096 - offset % 4096 < n ∧
    n < 4096 * (last_entry node file_sys.num_blocks - offset / 4096 - 1) ∧
    ∀ j, 4096 - offset % 4096 ≤ j → j < n →
      file_byte file_sys node (offset + j + (4096 - offset % 4096)) = file_byte file_sys node (offset + j)

/-! ### The cells of a read -/

theorem cells_eq {page start count : Nat} (inside : start + count ≤ 4096) :
    cells (node.dblocks page) start count = (List.range' (4096 * page + start) count).map (file_cell node) := by
  apply List.ext_getElem
  · simp [cells]
  · intro i low high
    have bound : i < count := by simpa [cells] using low
    have block : (4096 * page + start + i) / 4096 = page := by omega
    have index : (4096 * page + start + i) % 4096 = start + i := by omega
    simp [cells,file_cell,block,index]

/-- Inside its block a read stores consecutive bytes, -/
theorem stored_within {remaining i offset page : Nat} (inside : (i + offset) % 4096 + remaining < 4096) :
    (copy_loop file_sys node block_length remaining i offset page (node.dblocks page)).stored =
      (List.range' (4096 * page + (i + offset) % 4096) remaining).map (file_cell node) := by
  rw [copy_within remaining page _ le_rfl inside,Nat.sub_self,← cells_eq (by omega)]
  simp [copy_loop,ReadResult.afterCells]

/-- and a crossing goes on in the next block at the count of copied bytes. -/
theorem stored_go_on {remaining i offset page : Nat} (listed : page + 1 < block_length)
    (present : node.dblocks (page + 1) < file_sys.num_blocks) (enough : 4096 - (i + offset) % 4096 ≤ remaining) :
    (copy_loop file_sys node block_length remaining i offset page (node.dblocks page)).stored =
      (List.range' (4096 * page + (i + offset) % 4096) (4096 - (i + offset) % 4096)).map (file_cell node) ++
        (copy_loop file_sys node block_length (remaining - (4096 - (i + offset) % 4096))
          (i + (4096 - (i + offset) % 4096)) 0 (page + 1) (node.dblocks (page + 1))).stored := by
  rw [copy_cross page _ enough,← cells_eq (by omega)]
  dsimp only
  rw [if_neg (by omega),if_neg (by omega),if_neg (by omega)]
  rfl

variable (file_sys node block_length) in
/-- Past its first crossing a read stores consecutive bytes through any number
    of blocks. -/
theorem stored_aligned (blocks remaining i page : Nat)
    (valid : ∀ j, page < j → j ≤ page + blocks → j < block_length ∧ node.dblocks j < file_sys.num_blocks)
    (short : remaining < 4096 * (blocks + 1) - i % 4096) :
    (copy_loop file_sys node block_length remaining i 0 page (node.dblocks page)).stored =
      (List.range' (4096 * page + i % 4096) remaining).map (file_cell node) := by
  induction blocks generalizing remaining i page with
  | zero => exact stored_within (by simp only [Nat.add_zero]; omega)
  | succ blocks ih =>
    by_cases within : remaining < 4096 - i % 4096
    · exact stored_within (by simp only [Nat.add_zero]; omega)
    · obtain ⟨listed,present⟩ := valid (page + 1) (by omega) (by omega)
      have later := ih (remaining - (4096 - i % 4096)) (i + (4096 - i % 4096)) (page + 1)
        (fun j low high => valid j (by omega) (by omega)) (by omega)
      have start : 4096 * (page + 1) + (i + (4096 - i % 4096)) % 4096 = 4096 * page + i % 4096 + (4096 - i % 4096) := by
        omega
      rw [stored_go_on listed present (by simp only [Nat.add_zero]; omega)]
      simp only [Nat.add_zero]
      rw [later,start,← List.map_append,List.range'_append_1,show 4096 - i % 4096 + (remaining - (4096 - i % 4096)) =
        remaining from by omega]

/-- The position in the file behind byte `j` of a read. -/
def position (offset j : Nat) : Nat :=
  if offset % 4096 = 0 ∨ j < 4096 - offset % 4096 then offset + j else offset + j + (4096 - offset % 4096)

theorem positions_straight {offset n : Nat} (straight : offset % 4096 = 0 ∨ n ≤ 4096 - offset % 4096) :
    (List.range n).map (position offset) = List.range' offset n := by
  rw [List.range'_eq_map_range]
  refine List.map_congr_left ?_
  intro j inside
  have bound := List.mem_range.mp inside
  rw [position,if_pos (by omega)]

theorem positions_ahead {offset n : Nat} (unaligned : offset % 4096 ≠ 0) (crosses : 4096 - offset % 4096 ≤ n) :
    (List.range n).map (position offset) =
      List.range' offset (4096 - offset % 4096) ++
        List.range' (offset + (4096 - offset % 4096) + (4096 - offset % 4096)) (n - (4096 - offset % 4096)) := by
  have split : List.range n = List.range (4096 - offset % 4096) ++
      List.range' (4096 - offset % 4096) (n - (4096 - offset % 4096)) := by
    have whole := List.range'_append_1 (s := 0) (m := 4096 - offset % 4096) (n := n - (4096 - offset % 4096))
    rw [Nat.zero_add,show 4096 - offset % 4096 + (n - (4096 - offset % 4096)) = n from by omega] at whole
    rw [List.range_eq_range',List.range_eq_range',whole]
  rw [split,List.map_append,positions_straight (.inr le_rfl)]
  congr 1
  rw [List.range'_eq_map_range,List.range'_eq_map_range,List.map_map]
  refine List.map_congr_left ?_
  intro j inside
  have bound := List.mem_range.mp inside
  rw [Function.comp_apply,position,if_neg (by omega)]
  omega

/-- The cells of a read that does not run into the end of the block list. -/
theorem read_data_stored {inode offset length stop : Nat} (known : inode < file_sys.num_inodes)
    (bound : stop ≤ (file_sys.inodes inode).len / 4096 + 1) (ahead : offset / 4096 < stop)
    (valid : ∀ j, offset / 4096 ≤ j → j < stop → (file_sys.inodes inode).dblocks j < file_sys.num_blocks)
    (short : length < arrival (offset % 4096) (stop - offset / 4096)) :
    (read_data file_sys inode offset length).stored =
      (List.range length).map (fun j => file_cell (file_sys.inodes inode) (position offset j)) := by
  have first := valid (offset / 4096) le_rfl ahead
  have start : 4096 * (offset / 4096) + offset % 4096 = offset := by omega
  have straight (small : offset % 4096 = 0 ∨ length ≤ 4096 - offset % 4096) :
      (List.range length).map (fun j => file_cell (file_sys.inodes inode) (position offset j)) =
        (List.range' offset length).map (file_cell (file_sys.inodes inode)) := by
    rw [← positions_straight small,List.map_map]
    rfl
  rw [read_data_starts length known (by omega) first,ReadResult.afterCells]
  dsimp only [List.nil_append]
  by_cases within : length < 4096 - offset % 4096
  · rw [straight (by omega),stored_within (by omega),Nat.zero_add,Nat.mod_mod,start]
  · have further : offset / 4096 + 1 < stop := by
      simp only [arrival] at short
      split at short <;> omega
    have rest := stored_aligned file_sys (file_sys.inodes inode) ((file_sys.inodes inode).len / 4096 + 1) (stop - offset / 4096 - 2)
      (length - (4096 - offset % 4096)) (4096 - offset % 4096) (offset / 4096 + 1)
      (fun j low high => ⟨by omega,valid j (by omega) (by omega)⟩)
      (by
        simp only [arrival] at short
        split at short <;> omega)
    rw [stored_go_on (by omega) (valid _ (by omega) further) (by omega),Nat.zero_add,Nat.mod_mod,start,Nat.zero_add,rest]
    by_cases aligned : offset % 4096 = 0
    · have next : 4096 * (offset / 4096 + 1) + (4096 - offset % 4096) % 4096 = offset + (4096 - offset % 4096) := by omega
      rw [straight (.inl aligned),next,← List.map_append,List.range'_append_1,
        show 4096 - offset % 4096 + (length - (4096 - offset % 4096)) = length from by omega]
    · have next : 4096 * (offset / 4096 + 1) + (4096 - offset % 4096) % 4096 =
          offset + (4096 - offset % 4096) + (4096 - offset % 4096) := by omega
      have shifted := positions_ahead aligned (n := length) (by omega)
      rw [next,← List.map_append,← shifted,List.map_map]
      rfl

/-! ### What a read delivers -/

/-- Up to its last entry the block list can be followed. -/
theorem stops_last_entry (node : Inode) : Stops file_sys node (node.len / 4096 + 1) (last_entry node file_sys.num_blocks) := by
  unfold last_entry
  split
  · rename_i absent
    exact .inr ⟨by omega,absent.2⟩
  · exact .inl rfl

theorem valid_before_last_entry {inode j : Nat} (wellFormed : WellFormed file_sys) (known : inode < file_sys.num_inodes)
    (before : j < last_entry (file_sys.inodes inode) file_sys.num_blocks) :
    (file_sys.inodes inode).dblocks j < file_sys.num_blocks := by
  have blocks := wellFormed.blocks inode known
  unfold last_entry at before
  by_cases absent : (file_sys.inodes inode).len % 4096 = 0 ∧
      file_sys.num_blocks ≤ (file_sys.inodes inode).dblocks ((file_sys.inodes inode).len / 4096)
  · rw [if_pos absent] at before
    exact blocks j (by omega)
  · rw [if_neg absent] at before
    by_cases extra : j = (file_sys.inodes inode).len / 4096 ∧ (file_sys.inodes inode).len % 4096 = 0
    · obtain ⟨rfl,whole⟩ := extra
      exact Nat.lt_of_not_le (fun missing => absent ⟨whole,missing⟩)
    · exact blocks j (by omega)

/-- The read returns the count and stores the bytes of the file in order. -/
def Delivers (file_sys : FileSys) (inode offset n : Nat) : Prop :=
  (read_data file_sys inode offset n).ret = n ∧
    (read_data file_sys inode offset n).bytes file_sys =
      (List.range' offset n).map (file_byte file_sys (file_sys.inodes inode))

/-- The reads that return the count they were asked for. -/
theorem returns_iff {inode offset n : Nat} (wellFormed : WellFormed file_sys) (known : inode < file_sys.num_inodes)
    (asked : 1 ≤ n) (inside : offset + n ≤ (file_sys.inodes inode).len) :
    (read_data file_sys inode offset n).ret = n ↔
      n < arrival (offset % 4096) (last_entry (file_sys.inodes inode) file_sys.num_blocks - offset / 4096) := by
  have size := wellFormed.size inode known
  have ahead : offset / 4096 < last_entry (file_sys.inodes inode) file_sys.num_blocks := by
    unfold last_entry
    split <;> omega
  rw [read_data_ret known (stops_last_entry _) ahead (fun j _ before => valid_before_last_entry wellFormed known before),
    ended]
  by_cases short : n < arrival (offset % 4096) (last_entry (file_sys.inodes inode) file_sys.num_blocks - offset / 4096)
  · rw [if_pos short,i32_small (by omega)]
    omega
  · rw [if_neg short]
    constructor
    · intro counted
      split at counted
      · rw [i32_small (by omega)] at counted
        omega
      · omega
    · exact fun shorter => absurd shorter short

theorem arrives_iff {node : Inode} {offset n : Nat} (num_blocks : Nat) (asked : 1 ≤ n) (inside : offset + n ≤ node.len) :
    n < arrival (offset % 4096) (last_entry node num_blocks - offset / 4096) ↔
      InOrder node num_blocks offset n ∨
      offset % 4096 ≠ 0 ∧ 4096 - offset % 4096 < n ∧ n < 4096 * (last_entry node num_blocks - offset / 4096 - 1) := by
  unfold InOrder last_entry arrival
  by_cases absent : node.len % 4096 = 0 ∧ num_blocks ≤ node.dblocks (node.len / 4096)
  · rw [if_pos absent]
    split <;> omega
  · rw [if_neg absent]
    split <;> omega

/-- The bytes of a read that finds all its blocks. -/
theorem read_data_bytes {inode offset n : Nat} (wellFormed : WellFormed file_sys) (known : inode < file_sys.num_inodes)
    (asked : 1 ≤ n) (inside : offset + n ≤ (file_sys.inodes inode).len)
    (counted : n < arrival (offset % 4096) (last_entry (file_sys.inodes inode) file_sys.num_blocks - offset / 4096)) :
    (read_data file_sys inode offset n).bytes file_sys =
      (List.range n).map (fun j => file_byte file_sys (file_sys.inodes inode) (position offset j)) := by
  have bound : last_entry (file_sys.inodes inode) file_sys.num_blocks ≤ (file_sys.inodes inode).len / 4096 + 1 := by
    unfold last_entry
    split <;> omega
  have ahead : offset / 4096 < last_entry (file_sys.inodes inode) file_sys.num_blocks := by
    unfold last_entry
    split <;> omega
  rw [ReadResult.bytes,read_data_stored known bound ahead
    (fun j _ before => valid_before_last_entry wellFormed known before) counted,List.map_map]
  rfl

/-- Such a read delivers where its positions hold the right bytes. -/
theorem delivers_counted {inode offset n : Nat} (wellFormed : WellFormed file_sys) (known : inode < file_sys.num_inodes)
    (asked : 1 ≤ n) (inside : offset + n ≤ (file_sys.inodes inode).len)
    (counted : n < arrival (offset % 4096) (last_entry (file_sys.inodes inode) file_sys.num_blocks - offset / 4096)) :
    Delivers file_sys inode offset n ↔ ∀ j < n, file_byte file_sys (file_sys.inodes inode) (position offset j) =
      file_byte file_sys (file_sys.inodes inode) (offset + j) := by
  have returned := (returns_iff wellFormed known asked inside).mpr counted
  rw [Delivers,read_data_bytes wellFormed known asked inside counted,List.range'_eq_map_range,List.map_map,
    List.map_inj_left]
  constructor
  · rintro ⟨-,agree⟩ j below
    exact agree j (List.mem_range.mpr below)
  · intro agree
    exact ⟨returned,fun j below => agree j (List.mem_range.mp below)⟩

/-- A read inside a file delivers its bytes exactly when it stays in order or
    finds the same bytes further on. -/
theorem read_data_delivers_iff {inode offset n : Nat} (wellFormed : WellFormed file_sys) (known : inode < file_sys.num_inodes)
    (asked : 1 ≤ n) (inside : offset + n ≤ (file_sys.inodes inode).len) :
    Delivers file_sys inode offset n ↔
      InOrder (file_sys.inodes inode) file_sys.num_blocks offset n ∨ FoundAhead file_sys (file_sys.inodes inode) offset n := by
  have arrives := arrives_iff file_sys.num_blocks asked inside
  constructor
  · intro delivers
    have counted := (returns_iff wellFormed known asked inside).mp delivers.1
    have agree := (delivers_counted wellFormed known asked inside counted).mp delivers
    rcases arrives.mp counted with inOrder | ⟨unaligned,crosses,short⟩
    · exact .inl inOrder
    · refine .inr ⟨unaligned,crosses,short,?_⟩
      intro j beyond below
      have here := agree j below
      rwa [position,if_neg (by omega)] at here
  · rintro (inOrder | ⟨unaligned,crosses,short,ahead⟩)
    · refine (delivers_counted wellFormed known asked inside (arrives.mpr (.inl inOrder))).mpr ?_
      intro j below
      have straight := inOrder.1
      rw [position,if_pos (by omega)]
    · refine (delivers_counted wellFormed known asked inside (arrives.mpr (.inr ⟨unaligned,crosses,short⟩))).mpr ?_
      intro j below
      by_cases before : j < 4096 - offset % 4096
      · rw [position,if_pos (.inr before)]
      · rw [position,if_neg (by omega)]
        exact ahead j (by omega) below

/-- A file of two blocks, whose bytes tell their block. -/
def two_blocks : FileSys where
  num_dentries := 1
  num_inodes := 1
  num_blocks := 2
  dentries := fun _ => { file_name := fun _ => 0, file_type := 2, inode_num := 0 }
  inodes := fun _ => { len := 8000, dblocks := fun j => j }
  data := fun dblock i => BitVec.ofNat 8 (i + dblock)

theorem wellFormed_two_blocks : WellFormed two_blocks where
  blocks := fun _ _ j inside => by
    have : j < (8000 + 4095) / 4096 := inside
    change j < 2
    omega
  size := fun _ _ => by dsimp only [two_blocks]; decide

theorem read_data_delivers_aligned : Delivers two_blocks 0 0 5000 := by
  refine (read_data_delivers_iff wellFormed_two_blocks (by decide) (by decide) (by decide)).mpr (.inl ?_)
  exact ⟨.inl rfl,.inl (by decide)⟩

/-- Two bytes across the boundary: the second is not the one that follows. -/
theorem read_across_boundary : WellFormed two_blocks ∧ 0 < two_blocks.num_inodes ∧
    4095 + 2 ≤ (two_blocks.inodes 0).len ∧ ¬ Delivers two_blocks 0 4095 2 := by
  refine ⟨wellFormed_two_blocks,by decide,by decide,?_⟩
  intro delivers
  have second : (read_data two_blocks 0 4095 2).bytes two_blocks = [255,2] := by decide
  exact absurd (second.symm.trans delivers.2) (by decide)

end Mp3Kernel.ReadContents

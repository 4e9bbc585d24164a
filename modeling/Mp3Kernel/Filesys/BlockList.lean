import Mp3Kernel.Filesys.ReadData

/-!
What `read_data` looks at, for images with anything in their inodes: the data
blocks that it copies from and the entries of the block list that it looks up.
A file of the largest length has one entry fewer than it is taken to have.
-/
namespace Mp3Kernel.BlockList
open Mp3Kernel.Memory Mp3Kernel.Filesys

variable {file_sys : FileSys} {node : Inode} {block_length : Nat}

/-! ### The loop -/

/-- With an existing block in use the loop copies from existing blocks only, one
    byte for each turn at most. -/
theorem copy_loop_cells {remaining i offset dblock_page dblock : Nat} (present : dblock < file_sys.num_blocks) :
    (∀ cell ∈ (copy_loop file_sys node block_length remaining i offset dblock_page dblock).stored,
      cell.1 < file_sys.num_blocks ∧ cell.2 < DATABLOCK_SIZE) ∧
    (copy_loop file_sys node block_length remaining i offset dblock_page dblock).stored.length ≤ remaining := by
  induction remaining generalizing i offset dblock_page dblock with
  | zero => exact ⟨fun cell stored => absurd stored List.not_mem_nil,le_rfl⟩
  | succ remaining ih =>
    have here : (i + offset) % DATABLOCK_SIZE < DATABLOCK_SIZE := Nat.mod_lt _ (by decide)
    have one : ∀ cell ∈ [(dblock,(i + offset) % DATABLOCK_SIZE)],
        cell.1 < file_sys.num_blocks ∧ cell.2 < DATABLOCK_SIZE := by
      intro cell stored
      obtain rfl := List.mem_singleton.mp stored
      exact ⟨present,here⟩
    have more {r : ReadResult} {lookups : List Nat} (rest : (∀ cell ∈ r.stored,
          cell.1 < file_sys.num_blocks ∧ cell.2 < DATABLOCK_SIZE) ∧ r.stored.length ≤ remaining) :
        (∀ cell ∈ (r.after (dblock,(i + offset) % DATABLOCK_SIZE) lookups).stored,
          cell.1 < file_sys.num_blocks ∧ cell.2 < DATABLOCK_SIZE) ∧
        (r.after (dblock,(i + offset) % DATABLOCK_SIZE) lookups).stored.length ≤ remaining + 1 := by
      refine ⟨?_,Nat.succ_le_succ rest.2⟩
      intro cell stored
      rcases List.mem_cons.mp stored with rfl | later
      · exact ⟨present,here⟩
      · exact rest.1 cell later
    rw [copy_loop]
    dsimp only
    split
    · split
      · exact ⟨one,Nat.succ_le_succ (Nat.zero_le _)⟩
      · split
        · exact ⟨one,Nat.succ_le_succ (Nat.zero_le _)⟩
        · split
          · exact ⟨one,Nat.succ_le_succ (Nat.zero_le _)⟩
          -- the block list was checked just before
          · exact more (ih (Nat.not_le.mp ‹_›))
    · exact more (ih present)

/-- It looks up one entry after another, all of them within the list's length. -/
theorem copy_loop_lookups (remaining i offset dblock_page dblock : Nat) :
    (dblock_page :: (copy_loop file_sys node block_length remaining i offset dblock_page dblock).lookups).Pairwise (· < ·) ∧
    ∀ j ∈ (copy_loop file_sys node block_length remaining i offset dblock_page dblock).lookups, j < block_length := by
  induction remaining generalizing i offset dblock_page dblock with
  | zero => exact ⟨List.pairwise_singleton _ _,fun j looked => absurd looked List.not_mem_nil⟩
  | succ remaining ih =>
    have none_ : [dblock_page].Pairwise (· < ·) ∧ ∀ j ∈ ([] : List Nat), j < block_length :=
      ⟨List.pairwise_singleton _ _,fun j looked => absurd looked List.not_mem_nil⟩
    rw [copy_loop]
    dsimp only
    split
    · split
      · exact none_
      · split
        · exact none_
        · have below : dblock_page + 1 < block_length := by omega
          split
          · refine ⟨?_,?_⟩
            · simp
            · intro j looked
              obtain rfl := List.mem_singleton.mp looked
              exact below
          · obtain ⟨increasing,bound⟩ := ih (i + 1) 0 (dblock_page + 1) (node.dblocks (dblock_page + 1))
            refine ⟨?_,?_⟩
            · refine List.pairwise_cons.mpr ⟨?_,increasing⟩
              intro j looked
              rcases List.mem_cons.mp looked with rfl | later
              · exact Nat.lt_succ_self dblock_page
              · exact Nat.lt_of_succ_lt ((List.pairwise_cons.mp increasing).1 j later)
            · intro j looked
              rcases List.mem_cons.mp looked with rfl | later
              · exact below
              · exact bound j later
    · exact ih (i + 1) offset dblock_page dblock

/-! ### Any read -/

/-- Whatever the image holds, every byte that is stored comes from a data block
    that exists, each turn of the loop stores one byte, and each entry of the
    block list is looked up once at most. -/
theorem read_data_contained (file_sys : FileSys) (inode offset length : Nat) :
    (∀ cell ∈ (read_data file_sys inode offset length).stored,
      cell.1 < file_sys.num_blocks ∧ cell.2 < DATABLOCK_SIZE) ∧
    (read_data file_sys inode offset length).stored.length ≤ length ∧
    (read_data file_sys inode offset length).lookups.Pairwise (· < ·) := by
  rcases read_data_cases file_sys inode offset length with ⟨-,failed⟩ | ⟨-,-,⟨-,absent⟩ | ⟨present,starts⟩⟩
  · rw [failed]
    exact ⟨fun cell stored => absurd stored List.not_mem_nil,Nat.zero_le _,.nil⟩
  · rw [absent]
    exact ⟨fun cell stored => absurd stored List.not_mem_nil,Nat.zero_le _,List.pairwise_singleton _ _⟩
  · rw [starts]
    exact ⟨(copy_loop_cells present).1,(copy_loop_cells present).2,(copy_loop_lookups _ _ _ _ _).1⟩

/-! ### Reaching one entry -/

/-- What holds of the entries between two holds of the first and of those behind
    the crossing. -/
theorem behind_crossing_iff (valid : Nat → Prop) {page stop : Nat} {arrives comes : Prop} (later : page + 1 < stop) :
    arrives ∧ valid (page + 1) ∧ (∀ j, page + 1 < j → j < stop → valid j) ∧ comes ↔
      (∀ j, page < j → j < stop → valid j) ∧ arrives ∧ comes := by
  constructor
  · rintro ⟨arrives,first,rest,comes⟩
    refine ⟨?_,arrives,comes⟩
    intro j low high
    rcases Nat.lt_or_eq_of_le (Nat.succ_le_of_lt low) with after | rfl
    · exact rest j after high
    · exact first
  · rintro ⟨all,arrives,comes⟩
    exact ⟨arrives,all _ (Nat.lt_succ_self page) later,fun j low high => all j (Nat.lt_of_succ_lt low) high,comes⟩

/-- Inside one block nothing is looked up. -/
theorem looked_within {remaining i offset : Nat} (dblock_page dblock : Nat)
    (inside : (i + offset) % 4096 + remaining < 4096) :
    (copy_loop file_sys node block_length remaining i offset dblock_page dblock).lookups = [] := by
  rw [copy_within remaining dblock_page dblock le_rfl inside,Nat.sub_self]
  rfl

/-- The next entry is looked up as soon as the block's last byte is copied. -/
theorem looked_next {remaining i offset dblock_page : Nat} (dblock : Nat) (listed : dblock_page + 1 < block_length) :
    dblock_page + 1 ∈ (copy_loop file_sys node block_length remaining i offset dblock_page dblock).lookups ↔
      4096 - (i + offset) % 4096 ≤ remaining := by
  by_cases enough : 4096 - (i + offset) % 4096 ≤ remaining
  · rw [copy_cross dblock_page dblock enough]
    dsimp only
    rw [if_neg (by omega),if_neg (by omega)]
    split <;> simp [ReadResult.afterCells,enough]
  · rw [looked_within dblock_page dblock (by omega)]
    simp [enough]

/-- A later entry is looked up by what follows the crossing. -/
theorem looked_later {remaining i offset dblock_page stop : Nat} (dblock : Nat) (later : dblock_page + 1 < stop)
    (listed : stop < block_length) :
    stop ∈ (copy_loop file_sys node block_length remaining i offset dblock_page dblock).lookups ↔
      4096 - (i + offset) % 4096 ≤ remaining ∧ node.dblocks (dblock_page + 1) < file_sys.num_blocks ∧
      stop ∈ (copy_loop file_sys node block_length (remaining - (4096 - (i + offset) % 4096))
        (i + (4096 - (i + offset) % 4096)) 0 (dblock_page + 1) (node.dblocks (dblock_page + 1))).lookups := by
  by_cases enough : 4096 - (i + offset) % 4096 ≤ remaining
  · have further : stop ≠ dblock_page + 1 := by omega
    rw [copy_cross dblock_page dblock enough]
    dsimp only
    rw [if_neg (by omega),if_neg (by omega)]
    by_cases present : node.dblocks (dblock_page + 1) < file_sys.num_blocks
    · rw [if_neg (by omega)]
      simp [ReadResult.afterCells,further,enough,present]
    · rw [if_pos (by omega)]
      simp [further,present]
  · rw [looked_within dblock_page dblock (by omega)]
    simp [enough]

/-- Past its first crossing the loop looks up an entry each 4096 bytes, as long as
    the entries before it name blocks. -/
theorem looked_aligned {stop : Nat} (listed : stop < block_length) (blocks remaining i dblock_page dblock : Nat)
    (ahead : stop = dblock_page + blocks + 1) :
    stop ∈ (copy_loop file_sys node block_length remaining i 0 dblock_page dblock).lookups ↔
      (∀ j, dblock_page < j → j < stop → node.dblocks j < file_sys.num_blocks) ∧
      4096 * (blocks + 1) - i % 4096 ≤ remaining := by
  induction blocks generalizing remaining i dblock_page dblock with
  | zero =>
    obtain rfl : stop = dblock_page + 1 := ahead
    rw [looked_next dblock listed]
    constructor
    · exact fun enough => ⟨fun j low high => absurd high (by omega),enough⟩
    · exact And.right
  | succ blocks ih =>
    have arrives : 4096 - (i + 0) % 4096 ≤ remaining ∧
        4096 * (blocks + 1) - (i + (4096 - (i + 0) % 4096)) % 4096 ≤ remaining - (4096 - (i + 0) % 4096) ↔
        4096 * (blocks + 1 + 1) - i % 4096 ≤ remaining := by omega
    rw [looked_later dblock (by omega) listed,ih _ _ (dblock_page + 1) _ (by omega),← arrives]
    have later : dblock_page + 1 < stop := by omega
    exact behind_crossing_iff (fun j => node.dblocks j < file_sys.num_blocks) later

/-- The loop of a read looks up an entry when the entries before it name blocks
    and the read is long enough to arrive there. -/
theorem looked_iff {offset length page stop : Nat} (start : offset < 4096) (ahead : page < stop)
    (listed : stop < block_length) :
    stop ∈ (copy_loop file_sys node block_length length 0 offset page (node.dblocks page)).lookups ↔
      (∀ j, page < j → j < stop → node.dblocks j < file_sys.num_blocks) ∧ arrival offset (stop - page) ≤ length := by
  by_cases adjacent : stop = page + 1
  · subst adjacent
    have arrive : arrival offset (page + 1 - page) = 4096 - (0 + offset) % 4096 := by
      rw [arrival,if_pos (.inl (by omega))]
      omega
    rw [looked_next _ listed,arrive]
    constructor
    · exact fun enough => ⟨fun j low high => absurd high (by omega),enough⟩
    · exact And.right
  · obtain ⟨blocks,further⟩ : ∃ blocks, stop = page + 1 + blocks + 1 := ⟨stop - page - 2,by omega⟩
    have arrives : 4096 - (0 + offset) % 4096 ≤ length ∧
        4096 * (blocks + 1) - (0 + (4096 - (0 + offset) % 4096)) % 4096 ≤ length - (4096 - (0 + offset) % 4096) ↔
        arrival offset (stop - page) ≤ length := by
      simp only [arrival]
      split <;> omega
    rw [looked_later _ (by omega) listed,looked_aligned listed blocks _ _ (page + 1) _ further,← arrives]
    have later : page + 1 < stop := by omega
    exact behind_crossing_iff (fun j => node.dblocks j < file_sys.num_blocks) later

/-- Nothing before the block that a read starts in is looked up. -/
theorem read_data_from {inode offset length j : Nat} (looked : j ∈ (read_data file_sys inode offset length).lookups) :
    offset / 4096 ≤ j := by
  rcases read_data_cases file_sys inode offset length with ⟨-,failed⟩ | ⟨-,-,⟨-,absent⟩ | ⟨-,starts⟩⟩
  · rw [failed] at looked
    exact absurd looked List.not_mem_nil
  · rw [absent] at looked
    exact Nat.le_of_eq (List.mem_singleton.mp looked).symm
  · rw [starts] at looked
    rcases List.mem_cons.mp looked with rfl | later
    · exact le_rfl
    · exact Nat.le_of_lt ((List.pairwise_cons.mp (copy_loop_lookups _ _ _ _ _).1).1 j later)

/-- The entry for its start is, in a list that has one. -/
theorem read_data_start_looked {inode offset length : Nat} (known : inode < file_sys.num_inodes)
    (inside : offset / 4096 ≤ (file_sys.inodes inode).len / 4096) :
    offset / 4096 ∈ (read_data file_sys inode offset length).lookups := by
  rcases read_data_cases file_sys inode offset length with ⟨unlisted,-⟩ | ⟨-,-,⟨-,absent⟩ | ⟨-,starts⟩⟩
  · omega
  · rw [absent]
    exact List.mem_singleton_self _
  · rw [starts]
    exact List.mem_cons_self

/-- A read looks up an entry of the block list when it starts at or before it, the
    entries up to it name blocks and the read is long enough to arrive there. -/
theorem read_data_looks {inode offset length stop : Nat} (known : inode < file_sys.num_inodes)
    (listed : stop < (file_sys.inodes inode).len / 4096 + 1) :
    stop ∈ (read_data file_sys inode offset length).lookups ↔
      offset / 4096 ≤ stop ∧
      (∀ j, offset / 4096 ≤ j → j < stop → (file_sys.inodes inode).dblocks j < file_sys.num_blocks) ∧
      arrival (offset % 4096) (stop - offset / 4096) ≤ length := by
  rcases Nat.lt_trichotomy (offset / 4096) stop with before | rfl | after
  · have further : stop ≠ offset / 4096 := Nat.ne_of_gt before
    rcases read_data_cases file_sys inode offset length with ⟨unlisted,-⟩ | ⟨-,-,⟨absent,alone⟩ | ⟨present,starts⟩⟩
    · omega
    · rw [alone]
      simp only [List.mem_singleton]
      constructor
      · exact fun first => absurd first further
      · rintro ⟨-,valid,-⟩
        exact absurd (valid _ le_rfl before) (Nat.not_lt.mpr absent)
    · have start : offset % 4096 < 4096 := Nat.mod_lt offset (by decide)
      have valid : (∀ j, offset / 4096 ≤ j → j < stop → (file_sys.inodes inode).dblocks j < file_sys.num_blocks) ↔
          ∀ j, offset / 4096 < j → j < stop → (file_sys.inodes inode).dblocks j < file_sys.num_blocks := by
        constructor
        · exact fun all j low high => all j (Nat.le_of_lt low) high
        · intro all j low high
          rcases Nat.lt_or_eq_of_le low with later | rfl
          · exact all j later high
          · exact present
      rw [starts,valid,← looked_iff start before listed]
      simp [ReadResult.afterCells,further,Nat.le_of_lt before]
  · -- the entry of the read's own start
    have arrive : arrival (offset % 4096) (offset / 4096 - offset / 4096) = 0 := by
      simp [arrival]
    have alone : ∀ j, offset / 4096 ≤ j → j < offset / 4096 →
        (file_sys.inodes inode).dblocks j < file_sys.num_blocks :=
      fun j low high => absurd high (Nat.not_lt.mpr low)
    rw [arrive]
    exact iff_of_true (read_data_start_looked known (Nat.le_of_lt_succ listed)) ⟨le_rfl,alone,Nat.zero_le _⟩
  · have never : ¬ offset / 4096 ≤ stop := by omega
    simp only [never,false_and,iff_false]
    exact fun looked => never (read_data_from looked)

/-! ### The array of a full inode -/

/-- The read arrives behind the last entry of an inode of the largest length. -/
def PassesEnd (file_sys : FileSys) (inode offset length : Nat) : Prop :=
  inode < file_sys.num_inodes ∧ (file_sys.inodes inode).len = DATABLOCK_NUM * DATABLOCK_SIZE ∧
  offset / DATABLOCK_SIZE ≤ DATABLOCK_NUM ∧
  (∀ j, offset / DATABLOCK_SIZE ≤ j → j < DATABLOCK_NUM → (file_sys.inodes inode).dblocks j < file_sys.num_blocks) ∧
  arrival (offset % DATABLOCK_SIZE) (DATABLOCK_NUM - offset / DATABLOCK_SIZE) ≤ length

/-- Looked-up entries are within the length that the inode's file has in blocks. -/
theorem read_data_listed (file_sys : FileSys) (inode offset length : Nat) :
    ∀ j ∈ (read_data file_sys inode offset length).lookups, inode < file_sys.num_inodes ∧
      j ≤ (file_sys.inodes inode).len / 4096 := by
  intro j looked
  rcases read_data_cases file_sys inode offset length with ⟨-,failed⟩ | ⟨known,inside,⟨-,absent⟩ | ⟨-,starts⟩⟩
  · rw [failed] at looked
    exact absurd looked List.not_mem_nil
  · rw [absent] at looked
    obtain rfl := List.mem_singleton.mp looked
    exact ⟨known,inside⟩
  · rw [starts] at looked
    rcases List.mem_cons.mp looked with rfl | later
    · exact ⟨known,inside⟩
    · exact ⟨known,Nat.le_of_lt_succ ((copy_loop_lookups _ _ _ _ _).2 j later)⟩

/-- No entry behind the array is looked up, but for the one after its end. -/
theorem lookups_inside_iff {file_sys : FileSys} {inode offset length : Nat}
    (lens : ∀ n, n < file_sys.num_inodes → (file_sys.inodes n).len ≤ DATABLOCK_NUM * DATABLOCK_SIZE) :
    (∀ j ∈ (read_data file_sys inode offset length).lookups, j < DATABLOCK_NUM) ↔
      ¬ PassesEnd file_sys inode offset length := by
  constructor
  · rintro inside ⟨known,full,start,valid,enough⟩
    have looked : DATABLOCK_NUM ∈ (read_data file_sys inode offset length).lookups :=
      (read_data_looks known (by rw [full]; decide)).mpr ⟨start,valid,enough⟩
    exact absurd (inside _ looked) (lt_irrefl _)
  · intro stays j looked
    obtain ⟨known,listed⟩ := read_data_listed file_sys inode offset length j looked
    have size : (file_sys.inodes inode).len ≤ 1023 * 4096 := lens inode known
    by_contra outside
    dsimp only [DATABLOCK_NUM] at outside
    -- only a full inode lists that many entries
    have full : (file_sys.inodes inode).len = 1023 * 4096 := by omega
    obtain rfl : j = 1023 := by omega
    obtain ⟨start,valid,enough⟩ := (read_data_looks known (by omega)).mp looked
    exact stays ⟨known,full,start,valid,enough⟩

/-- A file of the largest length, each of whose blocks is the same one. -/
def full_file : FileSys where
  num_dentries := 0
  num_inodes := 1
  num_blocks := 1
  dentries := default
  inodes := fun _ => ⟨1023 * 4096,fun _ => 0⟩
  data := fun _ _ => 0

theorem lookups_inside_short : (full_file.inodes 0).len = DATABLOCK_NUM * DATABLOCK_SIZE ∧
    ∀ j ∈ (read_data full_file 0 (1022 * 4096) 4095).lookups, j < DATABLOCK_NUM := by
  refine ⟨rfl,(lookups_inside_iff (fun _ _ => le_rfl)).mpr ?_⟩
  intro passes
  exact absurd passes.2.2.2.2 (by decide)

/-- Reading the last block of such a file looks past the list. -/
theorem last_block_looks_past : (∀ n, n < full_file.num_inodes → (full_file.inodes n).len ≤ DATABLOCK_NUM * DATABLOCK_SIZE) ∧
    ¬ ∀ j ∈ (read_data full_file 0 (1022 * 4096) 4096).lookups, j < DATABLOCK_NUM := by
  refine ⟨fun _ _ => le_rfl,?_⟩
  intro inside
  have looked : 1023 ∈ (read_data full_file 0 (1022 * 4096) 4096).lookups :=
    (read_data_looks (by decide) (by decide)).mpr ⟨by decide,fun _ _ _ => Nat.zero_lt_one,by decide⟩
  exact absurd (inside _ looked) (by decide)

end Mp3Kernel.BlockList

import Mp3Kernel.Filesys.Image

/-!
What `read_data` does for any image. The copy loop moves through the block list
one crossing at a time; after the first crossing the in-block index follows the
count of copied bytes, not the position in the file.
-/
namespace Mp3Kernel.Filesys
open Mp3Kernel.Memory

variable {file_sys : FileSys} {node : Inode} {block_length : Nat}

/-- The cells of a block from index `start` on. -/
def cells (dblock start count : Nat) : List (Nat × Nat) := (List.range' start count).map (fun j => (dblock,j))

def ReadResult.afterCells (copied : List (Nat × Nat)) (lookups : List Nat) (r : ReadResult) : ReadResult :=
  { r with stored := copied ++ r.stored, lookups := lookups ++ r.lookups }

/-- What a read does once its inode lists a block at `offset` and the block exists. -/
theorem read_data_starts {inode offset : Nat} (length : Nat) (known : inode < file_sys.num_inodes)
    (inside : offset / 4096 ≤ (file_sys.inodes inode).len / 4096)
    (present : (file_sys.inodes inode).dblocks (offset / 4096) < file_sys.num_blocks) :
    read_data file_sys inode offset length =
      (copy_loop file_sys (file_sys.inodes inode) ((file_sys.inodes inode).len / 4096 + 1) length 0
        (offset % 4096) (offset / 4096) ((file_sys.inodes inode).dblocks (offset / 4096))).afterCells [] [offset / 4096] := by
  simp only [read_data,DATABLOCK_SIZE]
  rw [if_neg (by omega),if_neg (by omega),if_neg (by omega)]
  rfl

/-- It fails without a look at the block list, fails on the first entry it looks
    up, or copies from there. -/
theorem read_data_cases (file_sys : FileSys) (inode offset length : Nat) :
    (file_sys.num_inodes ≤ inode ∨ (file_sys.inodes inode).len / 4096 < offset / 4096) ∧
      read_data file_sys inode offset length = .failed ∨
    inode < file_sys.num_inodes ∧ offset / 4096 ≤ (file_sys.inodes inode).len / 4096 ∧
      ((file_sys.num_blocks ≤ (file_sys.inodes inode).dblocks (offset / 4096) ∧
          read_data file_sys inode offset length = ⟨-1,[],[offset / 4096]⟩) ∨
        ((file_sys.inodes inode).dblocks (offset / 4096) < file_sys.num_blocks ∧
          read_data file_sys inode offset length =
            (copy_loop file_sys (file_sys.inodes inode) ((file_sys.inodes inode).len / 4096 + 1) length 0
              (offset % 4096) (offset / 4096) ((file_sys.inodes inode).dblocks (offset / 4096))).afterCells []
              [offset / 4096])) := by
  by_cases known : inode < file_sys.num_inodes
  · by_cases inside : offset / 4096 ≤ (file_sys.inodes inode).len / 4096
    · refine .inr ⟨known,inside,?_⟩
      by_cases present : (file_sys.inodes inode).dblocks (offset / 4096) < file_sys.num_blocks
      · exact .inr ⟨present,read_data_starts length known inside present⟩
      · refine .inl ⟨by omega,?_⟩
        simp only [read_data,DATABLOCK_SIZE]
        rw [if_neg (by omega),if_neg (by omega),if_pos (by omega)]
    · refine .inl ⟨.inr (by omega),?_⟩
      simp only [read_data,DATABLOCK_SIZE]
      rw [if_neg (by omega),if_pos (by omega)]
  · refine .inl ⟨.inl (by omega),?_⟩
    rw [read_data,if_pos (by omega)]

theorem cells_cons (dblock start count : Nat) :
    cells dblock start (count + 1) = (dblock,start) :: cells dblock (start + 1) count := rfl

/-- Inside one block the loop copies consecutive cells. -/
theorem copy_within (count : Nat) {remaining i offset : Nat} (dblock_page dblock : Nat) (enough : count ≤ remaining)
    (inside : (i + offset) % 4096 + count < 4096) :
    copy_loop file_sys node block_length remaining i offset dblock_page dblock =
      (copy_loop file_sys node block_length (remaining - count) (i + count) offset dblock_page dblock).afterCells
        (cells dblock ((i + offset) % 4096) count) [] := by
  induction count generalizing remaining i with
  | zero => rfl
  | succ count ih =>
    obtain ⟨rest,rfl⟩ : ∃ rest, remaining = rest + 1 := ⟨remaining - 1,by omega⟩
    have stays : (i + 1 + offset) % 4096 = (i + offset) % 4096 + 1 := by omega
    have next : (i + 1 + offset) % 4096 ≠ 0 := by omega
    rw [copy_loop,DATABLOCK_SIZE]
    simp only [next,↓reduceIte]
    rw [ih (by omega) (by omega),stays,cells_cons,show rest + 1 - (count + 1) = rest - count from by omega,
      show i + 1 + count = i + (count + 1) from by omega]
    rfl

/-- The last byte of a block leads to the next entry of the block list. -/
theorem copy_cross {remaining i offset : Nat} (dblock_page dblock : Nat)
    (enough : 4096 - (i + offset) % 4096 ≤ remaining) :
    copy_loop file_sys node block_length remaining i offset dblock_page dblock =
      let count := 4096 - (i + offset) % 4096
      let copied := cells dblock ((i + offset) % 4096) count
      let next := dblock_page + 1
      if next = block_length then ⟨i32 (i + count - 1),copied,[]⟩
      else if next > block_length then ⟨-1,copied,[]⟩
      else if file_sys.num_blocks ≤ node.dblocks next then ⟨-1,copied,[next]⟩
      else (copy_loop file_sys node block_length (remaining - count) (i + count) 0 next
        (node.dblocks next)).afterCells copied [next] := by
  dsimp only
  obtain ⟨count,counted⟩ : ∃ count, 4096 - (i + offset) % 4096 = count + 1 :=
    ⟨4096 - (i + offset) % 4096 - 1,by omega⟩
  obtain ⟨rest,left⟩ : ∃ rest, remaining - count = rest + 1 := ⟨remaining - count - 1,by omega⟩
  have last : (i + count + offset) % 4096 = (i + offset) % 4096 + count := by omega
  have crossing : (i + count + 1 + offset) % 4096 = 0 := by omega
  have split : cells dblock ((i + offset) % 4096) (count + 1) =
      cells dblock ((i + offset) % 4096) count ++ [(dblock,(i + count + offset) % 4096)] := by
    rw [last,cells,cells,List.range'_concat,List.map_append]
    simp
  rw [copy_within count dblock_page dblock (by omega) (by omega),left,copy_loop,counted,split,DATABLOCK_SIZE]
  simp only [crossing,↓reduceIte]
  split
  · simp [ReadResult.afterCells]
  · split
    · rfl
    · split
      · rfl
      · simp [ReadResult.afterCells,ReadResult.after,show remaining - (count + 1) = rest from by omega,
          show i + (count + 1) = i + count + 1 from by omega]

theorem ret_within {remaining i offset : Nat} (dblock_page dblock : Nat)
    (inside : (i + offset) % 4096 + remaining < 4096) :
    (copy_loop file_sys node block_length remaining i offset dblock_page dblock).ret = i32 (i + remaining) := by
  rw [copy_within remaining dblock_page dblock le_rfl inside,Nat.sub_self]
  rfl

/-- The loop cannot pass `stop`: it is the end of the block list or an entry
    that names no block. -/
def Stops (file_sys : FileSys) (node : Inode) (block_length stop : Nat) : Prop :=
  stop = block_length ∨ stop < block_length ∧ file_sys.num_blocks ≤ node.dblocks stop

/-- How the loop ends with `remaining` bytes to go and `room` bytes until it
    reaches `stop`: it returns the count, one less at the end of the list. -/
def ended (block_length stop room i remaining : Nat) : Int :=
  if remaining < room then i32 (i + remaining)
  else if stop = block_length then i32 (i + room - 1) else -1

theorem ended_advance {stop count room i remaining : Nat} (enough : count ≤ remaining) (fits : count < room) :
    ended block_length stop (room - count) (i + count) (remaining - count) =
      ended block_length stop room i remaining := by
  have sum : i + count + (remaining - count) = i + remaining := by omega
  have last : i + count + (room - count) - 1 = i + room - 1 := by omega
  by_cases short : remaining < room
  · rw [ended,ended,if_pos short,if_pos (by omega),sum]
  · rw [ended,ended,if_neg short,if_neg (by omega),last]

/-- A crossing into `stop` ends the loop. -/
theorem ret_stop {remaining i offset dblock_page stop : Nat} (dblock : Nat)
    (stops : Stops file_sys node block_length stop) (adjacent : stop = dblock_page + 1) :
    (copy_loop file_sys node block_length remaining i offset dblock_page dblock).ret =
      ended block_length stop (4096 - (i + offset) % 4096) i remaining := by
  by_cases short : remaining < 4096 - (i + offset) % 4096
  · rw [ret_within dblock_page dblock (by omega),ended,if_pos short]
  · rw [copy_cross dblock_page dblock (by omega),ended,if_neg short]
    simp only [← adjacent]
    rcases stops with atEnd | ⟨before,absent⟩
    · rw [if_pos atEnd,if_pos atEnd]
    · rw [if_neg (by omega),if_neg (by omega),if_pos absent,if_neg (by omega)]

/-- A crossing before that leads on with the offset reset. -/
theorem ret_go_on {remaining i offset dblock_page : Nat} (dblock : Nat) (listed : dblock_page + 1 < block_length)
    (present : node.dblocks (dblock_page + 1) < file_sys.num_blocks)
    (enough : 4096 - (i + offset) % 4096 ≤ remaining) :
    (copy_loop file_sys node block_length remaining i offset dblock_page dblock).ret =
      (copy_loop file_sys node block_length (remaining - (4096 - (i + offset) % 4096))
        (i + (4096 - (i + offset) % 4096)) 0 (dblock_page + 1) (node.dblocks (dblock_page + 1))).ret := by
  rw [copy_cross dblock_page dblock enough]
  dsimp only
  rw [if_neg (by omega),if_neg (by omega),if_neg (by omega)]
  rfl

/-- Past its first crossing the loop reaches a block each 4096 bytes. -/
theorem ret_aligned {stop : Nat} (stops : Stops file_sys node block_length stop)
    (blocks remaining i dblock_page dblock : Nat) (ahead : stop = dblock_page + blocks + 1)
    (valid : ∀ j, dblock_page < j → j < stop → node.dblocks j < file_sys.num_blocks) :
    (copy_loop file_sys node block_length remaining i 0 dblock_page dblock).ret =
      ended block_length stop (4096 * (blocks + 1) - i % 4096) i remaining := by
  induction blocks generalizing remaining i dblock_page dblock with
  | zero => exact ret_stop dblock stops ahead
  | succ blocks ih =>
    have bound : stop ≤ block_length := by rcases stops with atEnd | before <;> omega
    by_cases short : remaining < 4096 - i % 4096
    · rw [ret_within dblock_page dblock (by simp only [Nat.add_zero]; omega),ended,if_pos (by omega)]
    · have later := ih (remaining - (4096 - i % 4096)) (i + (4096 - i % 4096)) (dblock_page + 1)
        (node.dblocks (dblock_page + 1)) (by omega) (fun j low high => valid j (by omega) high)
      have room : 4096 * (blocks + 1) - (i + (4096 - i % 4096)) % 4096 =
          4096 * (blocks + 1 + 1) - i % 4096 - (4096 - i % 4096) := by omega
      rw [ret_go_on dblock (by omega) (valid _ (by omega) (by omega)) (by simp only [Nat.add_zero]; omega)]
      simp only [Nat.add_zero]
      rw [later,room,ended_advance (by omega) (by omega)]

/-- The bytes copied by a read from in-block index `start` when it reaches the
    `blocks`-th block after its first. -/
def arrival (start blocks : Nat) : Nat :=
  if blocks = 1 ∨ start = 0 then 4096 * blocks - start else 4096 * (blocks - 1)

/-- How any read ends. -/
theorem read_data_ret {inode offset length stop : Nat} (known : inode < file_sys.num_inodes)
    (stops : Stops file_sys (file_sys.inodes inode) ((file_sys.inodes inode).len / 4096 + 1) stop)
    (ahead : offset / 4096 < stop)
    (valid : ∀ j, offset / 4096 ≤ j → j < stop → (file_sys.inodes inode).dblocks j < file_sys.num_blocks) :
    (read_data file_sys inode offset length).ret =
      ended ((file_sys.inodes inode).len / 4096 + 1) stop (arrival (offset % 4096) (stop - offset / 4096)) 0 length := by
  have bound : stop ≤ (file_sys.inodes inode).len / 4096 + 1 := by rcases stops with atEnd | before <;> omega
  have first := valid (offset / 4096) le_rfl ahead
  have start : (0 + offset % 4096) % 4096 = offset % 4096 := by omega
  rw [read_data_starts length known (by omega) first,ReadResult.afterCells]
  dsimp only
  by_cases adjacent : stop = offset / 4096 + 1
  · have arrive : arrival (offset % 4096) (stop - offset / 4096) = 4096 - (0 + offset % 4096) % 4096 := by
      rw [arrival,if_pos (.inl (by omega))]
      omega
    rw [ret_stop _ stops adjacent,arrive]
  · obtain ⟨blocks,further⟩ : ∃ blocks, stop = offset / 4096 + 1 + blocks + 1 :=
      ⟨stop - offset / 4096 - 2,by omega⟩
    have arrive : arrival (offset % 4096) (stop - offset / 4096) =
        4096 - offset % 4096 + (4096 * (blocks + 1) - (4096 - offset % 4096) % 4096) := by
      simp only [arrival]
      split <;> omega
    by_cases short : length < 4096 - offset % 4096
    · rw [ret_within _ _ (by omega),ended,if_pos (by omega)]
    · have later := ret_aligned stops blocks (length - (4096 - offset % 4096)) (0 + (4096 - offset % 4096))
        (offset / 4096 + 1) ((file_sys.inodes inode).dblocks (offset / 4096 + 1)) further
        (fun j low high => valid j (by omega) high)
      have room : 4096 * (blocks + 1) - (0 + (4096 - offset % 4096)) % 4096 =
          arrival (offset % 4096) (stop - offset / 4096) - (4096 - offset % 4096) := by omega
      rw [ret_go_on _ (by omega) (valid _ (by omega) (by omega)) (by omega),start,later,room,
        ended_advance (by omega) (by omega)]

/-- A file shorter than a block is copied with the whole of its block. -/
theorem read_data_block {inode length : Nat} (known : inode < file_sys.num_inodes)
    (short : (file_sys.inodes inode).len < 4096) (present : (file_sys.inodes inode).dblocks 0 < file_sys.num_blocks)
    (enough : 4096 ≤ length) :
    (read_data file_sys inode 0 length).stored = cells ((file_sys.inodes inode).dblocks 0) 0 4096 := by
  have one : (file_sys.inodes inode).len / 4096 + 1 = 1 := by omega
  rw [read_data_starts length known (by omega) (by simpa using present),one]
  simp only [Nat.zero_div,Nat.zero_mod]
  rw [copy_cross _ _ (by omega)]
  simp [ReadResult.afterCells]

end Mp3Kernel.Filesys

import Mp3Kernel.Lib.Runs
import Mp3Kernel.Filesys.ReadData
import Mp3Kernel.Kernel.Task

/-!
Reading a file to its end with `file_read`. The handler clamps a request by the
whole length of the file and advances the offset by what was asked for, while
`read_data` only knows how many blocks there are; `Counted` says exactly which
reads come out right.
-/
namespace Mp3Kernel.FileRead
open Mp3Kernel.Memory Mp3Kernel.Filesys Mp3Kernel.Tasks Mp3Kernel.Runs

/-- `file_read` by the current task. Reading through a null inode faults. -/
def file_read (file_sys : FileSys) (cur_task : Option Task) (fd nbytes : Int) :
    Option (ReadResult × Option Task) :=
  if fd < 0 ∨ fd > 7 then some (.failed,cur_task) else
    match cur_task with
    | none => some (.failed,none)
    | some task =>
      let file := task.files fd
      file.inode.bind fun node =>
        let len := (file_sys.inodes node).len
        if len ≤ file.offset then some (⟨0,[],[]⟩,some task) else
          -- the comparison is unsigned
          let r := read_data file_sys file.dentry.inode_num file.offset (if len < u32 nbytes then len else u32 nbytes)
          if r.ret ≠ -1 then
            some (r,some (task.setFile fd { file with offset := u32 (file.offset + u32 nbytes) }))
          else some (r,some task)

/-! ### One read -/

/-- A read that is not aligned to a block and crosses into the next one copies
    from a shifted index there, and runs off the block list early. -/
def RunsShort (len offset n : Nat) : Prop :=
  offset % 4096 ≠ 0 ∧ offset / 4096 ≠ len / 4096 ∧ 4096 * (len / 4096 - offset / 4096) ≤ n

/-- The reads that return as many bytes as there are. -/
def Counted (node : Inode) (num_blocks offset n : Nat) : Prop :=
  let len := node.len
  len ≤ offset ∨
    -- it asks for what is left, unless an early end of the block list makes up for it
    ((n ≤ len - offset ∨ offset = 0) ∧ ¬ RunsShort len offset n ∨
      (offset % 4096 = 0 ∨ offset / 4096 = len / 4096) ∧ len % 4096 = 4095 ∨
      offset / 4096 ≠ len / 4096 ∧ offset % 4096 = len % 4096 + 1) ∧
    -- and the entry after the last block is not needed, or names a block
    (len % 4096 ≠ 0 ∨ node.dblocks (len / 4096) < num_blocks ∨
      n < arrival (offset % 4096) (len / 4096 - offset / 4096))

instance (len offset n : Nat) : Decidable (RunsShort len offset n) :=
  inferInstanceAs (Decidable (_ ∧ _))
instance (node : Inode) (num_blocks offset n : Nat) : Decidable (Counted node num_blocks offset n) :=
  inferInstanceAs (Decidable (_ ∨ _))

/-- Where the whole block list can be followed. -/
theorem ended_counts_iff {len offset n : Nat} (inside : offset < len) (size : len ≤ 1022 * 4096) (asked : 0 < n) :
    ended (len / 4096 + 1) (len / 4096 + 1) (arrival (offset % 4096) (len / 4096 + 1 - offset / 4096)) 0 (min n len) =
        (min n (len - offset) : Nat) ↔
      ((n ≤ len - offset ∨ offset = 0) ∧ ¬ RunsShort len offset n ∨
        (offset % 4096 = 0 ∨ offset / 4096 = len / 4096) ∧ len % 4096 = 4095 ∨
        offset / 4096 ≠ len / 4096 ∧ offset % 4096 = len % 4096 + 1) := by
  simp only [ended,RunsShort,↓reduceIte]
  by_cases straight : len / 4096 + 1 - offset / 4096 = 1 ∨ offset % 4096 = 0
  · rw [arrival,if_pos straight]
    by_cases short : min n len < 4096 * (len / 4096 + 1 - offset / 4096) - offset % 4096
    · rw [if_pos short,i32_small (by omega)]
      omega
    · rw [if_neg short,i32_small (by omega)]
      omega
  · rw [arrival,if_neg straight]
    by_cases short : min n len < 4096 * (len / 4096 + 1 - offset / 4096 - 1)
    · rw [if_pos short,i32_small (by omega)]
      omega
    · rw [if_neg short,i32_small (by omega)]
      omega

/-- Where the entry after the last block names none. -/
theorem ended_before_iff {len offset n : Nat} (inside : offset < len) (size : len ≤ 1022 * 4096) (asked : 0 < n)
    (whole : len % 4096 = 0) :
    ended (len / 4096 + 1) (len / 4096) (arrival (offset % 4096) (len / 4096 - offset / 4096)) 0 (min n len) =
        (min n (len - offset) : Nat) ↔
      n < arrival (offset % 4096) (len / 4096 - offset / 4096) := by
  have fits : arrival (offset % 4096) (len / 4096 - offset / 4096) ≤ len - offset := by
    simp only [arrival]
    split <;> omega
  simp only [ended]
  by_cases short : min n len < arrival (offset % 4096) (len / 4096 - offset / 4096)
  · rw [if_pos short,i32_small (by omega)]
    omega
  · rw [if_neg short,if_neg (by omega)]
    omega

theorem read_data_counts_iff {file_sys : FileSys} {inode offset n : Nat} (wellFormed : WellFormed file_sys)
    (known : inode < file_sys.num_inodes) (inside : offset < (file_sys.inodes inode).len) (asked : 0 < n) :
    (read_data file_sys inode offset (min n (file_sys.inodes inode).len)).ret =
        (min n ((file_sys.inodes inode).len - offset) : Nat) ↔
      Counted (file_sys.inodes inode) file_sys.num_blocks offset n := by
  have size := wellFormed.size inode known
  have blocks := wellFormed.blocks inode known
  by_cases backed : (file_sys.inodes inode).len % 4096 ≠ 0 ∨
      (file_sys.inodes inode).dblocks ((file_sys.inodes inode).len / 4096) < file_sys.num_blocks
  · have valid (j : Nat) (_ : offset / 4096 ≤ j) (high : j < (file_sys.inodes inode).len / 4096 + 1) :
        (file_sys.inodes inode).dblocks j < file_sys.num_blocks := by
      by_cases extra : j = (file_sys.inodes inode).len / 4096 ∧ (file_sys.inodes inode).len % 4096 = 0
      · obtain ⟨rfl,whole⟩ := extra
        exact backed.resolve_left (not_not.mpr whole)
      · exact blocks j (by omega)
    rw [read_data_ret known (.inl rfl) (by omega) valid,ended_counts_iff inside size asked,Counted]
    have entry : (file_sys.inodes inode).len % 4096 ≠ 0 ∨
        (file_sys.inodes inode).dblocks ((file_sys.inodes inode).len / 4096) < file_sys.num_blocks ∨
        n < arrival (offset % 4096) ((file_sys.inodes inode).len / 4096 - offset / 4096) := by
      rcases backed with odd | named
      · exact .inl odd
      · exact .inr (.inl named)
    exact ⟨fun counted => .inr ⟨counted,entry⟩,fun counted => (counted.resolve_left (by omega)).1⟩
  · obtain ⟨whole,absent⟩ := not_or.mp backed
    rw [not_not] at whole
    have valid (j : Nat) (_ : offset / 4096 ≤ j) (high : j < (file_sys.inodes inode).len / 4096) :
        (file_sys.inodes inode).dblocks j < file_sys.num_blocks := blocks j (by omega)
    rw [read_data_ret known (.inr ⟨by omega,by omega⟩) (by omega) valid,
      ended_before_iff inside size asked whole,Counted]
    constructor
    · intro before
      have room : arrival (offset % 4096) ((file_sys.inodes inode).len / 4096 - offset / 4096) ≤
            (file_sys.inodes inode).len - offset ∧
          (offset % 4096 = 0 ∨ arrival (offset % 4096) ((file_sys.inodes inode).len / 4096 - offset / 4096) ≤
            4096 * ((file_sys.inodes inode).len / 4096 - offset / 4096)) := by
        simp only [arrival]
        split <;> omega
      refine .inr ⟨.inl ⟨.inl (by omega),?_⟩,.inr (.inr before)⟩
      simp only [RunsShort]
      omega
    · intro counted
      obtain ⟨-,entry⟩ := counted.resolve_left (by omega)
      exact (entry.resolve_left (not_not.mpr whole)).resolve_left absent

/-! ### Reading until the end -/

/-- A positive `int32_t`. -/
abbrev Size := { n : Int // 0 < n ∧ n < 2147483648 }

/-- A task that reads, and the sum of the values it got. -/
structure Reading where
  task : Task
  total : Int

def step (file_sys : FileSys) (fd : Int) (s : Reading) (n : Size) : Option Reading :=
  (file_read file_sys (some s.task) fd n).bind fun (r,task) => task.map fun task => ⟨task,s.total + r.ret⟩

/-- The descriptor reads inode `inode`. -/
structure Opened (file_sys : FileSys) (fd : Int) (inode : Nat) (task : Task) : Prop where
  descriptor : 0 ≤ fd ∧ fd ≤ 7
  known : inode < file_sys.num_inodes
  node : (task.files fd).inode = some inode
  number : (task.files fd).dentry.inode_num = inode

/-- A call returns between 0 and what was asked for, and 0 only once the whole
    file is delivered; what the offset has passed has been delivered. -/
def Delivers (file_sys : FileSys) (fd : Int) (len : Nat) (s : Reading) (n : Size) : Prop :=
  ∃ r task, file_read file_sys (some s.task) fd n = some (r,some task) ∧ 0 ≤ r.ret ∧ r.ret ≤ n ∧
    (r.ret = 0 → s.total = len) ∧ s.total + r.ret = min (task.files fd).offset len

/-- The condition on one call of a run. -/
def CallCounted (file_sys : FileSys) (fd : Int) (inode : Nat) (s : Reading) (n : Size) : Prop :=
  Counted (file_sys.inodes inode) file_sys.num_blocks (s.task.files fd).offset n.val.toNat

/-- What a run keeps while every call delivers. -/
structure Accounted (file_sys : FileSys) (fd : Int) (inode : Nat) (s : Reading) : Prop where
  opened : Opened file_sys fd inode s.task
  total : s.total = min (s.task.files fd).offset (file_sys.inodes inode).len

variable {file_sys : FileSys} {fd : Int} {inode : Nat} {s : Reading} {n : Size}

/-- At the end of the file nothing happens. -/
theorem file_read_at_end {task : Task} (opened : Opened file_sys fd inode task)
    (atEnd : (file_sys.inodes inode).len ≤ (task.files fd).offset) :
    file_read file_sys (some task) fd n = some (⟨0,[],[]⟩,some task) := by
  have range := opened.descriptor
  rw [file_read,if_neg (by omega)]
  simp only [opened.node,Option.bind_some]
  rw [if_pos atEnd]

theorem file_read_before_end {task : Task} (opened : Opened file_sys fd inode task)
    (before : (task.files fd).offset < (file_sys.inodes inode).len) (size : (file_sys.inodes inode).len ≤ 1022 * 4096) :
    let r := read_data file_sys inode (task.files fd).offset (min n.val.toNat (file_sys.inodes inode).len)
    file_read file_sys (some task) fd n =
      some (r,some (if r.ret ≠ -1 then
        task.setFile fd { task.files fd with offset := (task.files fd).offset + n.val.toNat } else task)) := by
  have range := opened.descriptor
  have asked := n.property
  have unsigned : u32 n.val = n.val.toNat := u32_small (by omega) (by omega)
  have clamped : (if (file_sys.inodes inode).len < n.val.toNat then (file_sys.inodes inode).len else n.val.toNat) =
      min n.val.toNat (file_sys.inodes inode).len := by
    split <;> omega
  have advanced : u32 ((task.files fd).offset + n.val.toNat) = (task.files fd).offset + n.val.toNat := by
    rw [u32_small (by omega) (by omega)]
    omega
  dsimp only
  rw [file_read,if_neg (by omega)]
  simp only [opened.node,Option.bind_some,opened.number,unsigned,clamped,advanced]
  rw [if_neg (by omega)]
  split <;> rfl

/-- One call delivers exactly when it is counted. -/
theorem delivers_iff (wellFormed : WellFormed file_sys) (accounted : Accounted file_sys fd inode s) :
    Delivers file_sys fd (file_sys.inodes inode).len s n ↔ CallCounted file_sys fd inode s n := by
  have opened := accounted.opened
  have total := accounted.total
  have asked := n.property
  by_cases atEnd : (file_sys.inodes inode).len ≤ (s.task.files fd).offset
  · have nothing : Delivers file_sys fd (file_sys.inodes inode).len s n := by
      refine ⟨⟨0,[],[]⟩,s.task,file_read_at_end opened atEnd,?_,?_,?_,?_⟩ <;> dsimp only <;> omega
    exact ⟨fun _ => .inl atEnd,fun _ => nothing⟩
  · have executed := file_read_before_end (n := n) opened (not_le.mp atEnd) (wellFormed.size inode opened.known)
    rw [CallCounted,← read_data_counts_iff wellFormed opened.known (not_le.mp atEnd) (by omega)]
    dsimp only at executed
    constructor
    · rintro ⟨r,task,returned,low,high,last,passed⟩
      rw [executed,Option.some.injEq,Prod.mk.injEq,Option.some.injEq] at returned
      obtain ⟨rfl,rfl⟩ := returned
      rw [if_pos (by omega),setFile_same] at passed
      dsimp only at passed
      omega
    · intro counted
      refine ⟨_,_,executed,?_⟩
      rw [if_pos (by omega),setFile_same]
      dsimp only
      omega

theorem accounted_step (wellFormed : WellFormed file_sys) (accounted : Accounted file_sys fd inode s)
    (delivers : Delivers file_sys fd (file_sys.inodes inode).len s n) {s' : Reading}
    (taken : step file_sys fd s n = some s') : Accounted file_sys fd inode s' := by
  have opened := accounted.opened
  obtain ⟨r,task,returned,-,-,-,passed⟩ := delivers
  obtain rfl : s' = ⟨task,s.total + r.ret⟩ := by simpa [step,returned] using taken.symm
  have kept : task = s.task ∨
      ∃ offset, task = s.task.setFile fd { s.task.files fd with offset := offset } := by
    by_cases atEnd : (file_sys.inodes inode).len ≤ (s.task.files fd).offset
    · rw [file_read_at_end opened atEnd,Option.some.injEq,Prod.mk.injEq,Option.some.injEq] at returned
      exact .inl returned.2.symm
    · have executed := file_read_before_end (n := n) opened (not_le.mp atEnd) (wellFormed.size inode opened.known)
      dsimp only at executed
      rw [returned,Option.some.injEq,Prod.mk.injEq,Option.some.injEq] at executed
      rw [executed.2]
      split
      · exact .inr ⟨_,rfl⟩
      · exact .inl rfl
  rcases kept with rfl | ⟨offset,rfl⟩
  · exact ⟨opened,passed⟩
  · exact ⟨⟨opened.descriptor,opened.known,by simpa using opened.node,by simpa using opened.number⟩,passed⟩

/-- A file of 100 bytes in one block, -/
def short_file : FileSys where
  num_dentries := 1
  num_inodes := 1
  num_blocks := 1
  dentries := fun _ => { file_name := fun _ => 0, file_type := 2, inode_num := 0 }
  inodes := fun _ => { len := 100, dblocks := fun _ => 0 }
  data := fun _ _ => 0

/-- opened on descriptor 2. -/
def reader : Task where
  parent_task := -1
  pName := fun _ => 0
  pid := 1
  ptid := 0
  files := fun _ => { fops := some .file_fops, dentry := short_file.dentries 0, inode := some 0, offset := 0, flags := 5 }
  tss := { esp0 := 0, ss0 := 0, cr3 := 0, eip := 0, eflags := 0, eax := 0, ecx := 0, edx := 0, ebx := 0, esp := 0,
           ebp := 0, esi := 0, edi := 0, cs := 0, ss := 0, ds := 0, ldt_segment_selector := 0 }
  ret_ebp := 0
  ret_esp := 0
  ret_eip := 0
  ret_eflags := 0
  page_directory := 0
  page_table := 0
  state := .TASK_RUNNING
  args := fun _ => 0

theorem wellFormed_short_file : WellFormed short_file where
  blocks := fun _ _ _ _ => Nat.zero_lt_one
  size := fun _ _ => by dsimp only [short_file]; decide

theorem opened_reader : Opened short_file 2 0 reader := ⟨by decide,by decide,rfl,rfl⟩

end Mp3Kernel.FileRead

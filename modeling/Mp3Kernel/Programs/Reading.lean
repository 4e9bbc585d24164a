import Mp3Kernel.Filesys.ReadContents
import Mp3Kernel.Kernel.ReadBounds
import Mp3Kernel.Programs.UserLibrary

/-!
What a program gets that reads a file to its end. `Serves` says of a read call
that it hands out a given content from front to back; the programs are proved
right over any such call. The kernel's own read is one in two cases: in requests
of 1024 bytes each, where the content is the file up to the end of the piece in
which it ends, and for a file of at most 1024 bytes.
-/
namespace Mp3Kernel.Reading
open Mp3Kernel.Memory Mp3Kernel.CString Mp3Kernel.Filesys Mp3Kernel.Tasks Mp3Kernel.UserLibrary
open Mp3Kernel.FileRead (file_read Opened file_read_at_end file_read_before_end)
open Mp3Kernel.Descriptors (is_open table_setFile resolve AllOpen Lowest)
open Mp3Kernel.ReadContents (file_byte file_cell)
open Mp3Kernel.UserPointers (Machine do_read)
open Mp3Kernel.Tty (Console)

/-- `R task n rest`: the task's next request, of `n` bytes, is served out of
    `rest`. What lies behind the bytes that are counted is left open. -/
structure Serves (read : Nat → Int → Machine → Option (Int × Machine)) (asks : Nat → Prop)
    (R : Task → Nat → List Byte → Prop) : Prop where
  answers : ∀ {m : Machine} {ptr n : Nat} {rest : List Byte}, Running m → InPage ptr n → R m.task n rest →
    ∃ stored task, read ptr n m =
        some (((min n rest.length : Nat) : Int),{ m with mem := storeBytes m.mem ptr stored, task := task }) ∧
      stored.length ≤ n ∧ stored.take (min n rest.length) = rest.take n ∧
      Running { m with mem := storeBytes m.mem ptr stored, task := task } ∧ ∀ n', asks n' → R task n' (rest.drop n)

/-- Whatever the reads leave alone of the task stays as it is. -/
theorem Serves.keep {read : Nat → Int → Machine → Option (Int × Machine)} {asks : Nat → Prop}
    {R : Task → Nat → List Byte → Prop} {F : Task → Prop} (serves : Serves read asks R)
    (keeps : ∀ {m m' : Machine} {ptr : Nat} {n ret : Int}, read ptr n m = some (ret,m') → F m.task → F m'.task) :
    Serves read asks (fun task n rest => R task n rest ∧ F task) := by
  constructor
  rintro m ptr n rest running inside ⟨next,kept⟩
  obtain ⟨stored,task,answered,short,counted,after,later⟩ := serves.answers running inside next
  exact ⟨stored,task,answered,short,counted,after,fun n' asked => ⟨later n' asked,keeps answered kept⟩⟩

/-! ### A read inside one block -/

variable {file_sys : FileSys}

/-- The file's bytes from `offset` on. -/
def file_bytes (file_sys : FileSys) (inode offset n : Nat) : List Byte :=
  (List.range' offset n).map (file_byte file_sys (file_sys.inodes inode))

@[simp] theorem file_bytes_length (inode offset n : Nat) : (file_bytes file_sys inode offset n).length = n := by
  simp [file_bytes]

theorem file_bytes_take {inode offset k n : Nat} (within : k ≤ n) :
    (file_bytes file_sys inode offset n).take k = file_bytes file_sys inode offset k := by
  rw [file_bytes,← List.map_take,List.take_range'_of_length_ge within,file_bytes]

theorem file_bytes_drop {inode offset k n : Nat} :
    (file_bytes file_sys inode offset n).drop k = file_bytes file_sys inode (offset + k) (n - k) := by
  rw [file_bytes,← List.map_drop,List.drop_range',Nat.mul_one,file_bytes]

/-- The bytes come in order, and a read that reaches the end of its block looks
    for the next one: behind the last it counts a byte less, and fails if that
    names no block. -/
theorem read_in_block {inode : Nat} (offset length : Nat) (known : inode < file_sys.num_inodes)
    (listed : offset / 4096 ≤ (file_sys.inodes inode).len / 4096)
    (present : (file_sys.inodes inode).dblocks (offset / 4096) < file_sys.num_blocks)
    (inside : offset % 4096 + length ≤ 4096) (asked : length ≤ 1024) :
    (read_data file_sys inode offset length).bytes file_sys = file_bytes file_sys inode offset length ∧
      (read_data file_sys inode offset length).ret =
        if offset % 4096 + length < 4096 then (length : Int)
        else if offset / 4096 = (file_sys.inodes inode).len / 4096 then (length : Int) - 1
        else if (file_sys.inodes inode).dblocks (offset / 4096 + 1) < file_sys.num_blocks then (length : Int) else -1 := by
  have start : 4096 * (offset / 4096) + offset % 4096 = offset := by omega
  rw [read_data_starts length known listed present]
  by_cases within : offset % 4096 + length < 4096
  · rw [if_pos within,copy_within length _ _ le_rfl (by omega)]
    simp only [ReadResult.afterCells,ReadResult.bytes,copy_loop,Nat.sub_self,Nat.zero_add,List.append_nil,List.nil_append]
    refine ⟨?_,i32_small (by omega)⟩
    rw [Nat.mod_mod,ReadContents.cells_eq (by omega),start,List.map_map]
    rfl
  · have whole : 4096 - (0 + offset % 4096) % 4096 = length := by omega
    have cells : cells ((file_sys.inodes inode).dblocks (offset / 4096)) ((0 + offset % 4096) % 4096) length =
        (List.range' offset length).map (file_cell (file_sys.inodes inode)) := by
      rw [ReadContents.cells_eq (by omega),show (0 + offset % 4096) % 4096 = offset % 4096 from by omega,start]
    rw [if_neg within,copy_cross _ _ (by omega),whole]
    simp only [cells]
    by_cases last : offset / 4096 = (file_sys.inodes inode).len / 4096
    · rw [if_pos (by omega),if_pos last]
      refine ⟨?_,?_⟩
      · simp only [ReadResult.afterCells,ReadResult.bytes,List.nil_append,List.map_map]
        rfl
      · simp only [ReadResult.afterCells]
        rw [i32_small (by omega)]
        omega
    · rw [if_neg (by omega),if_neg (by omega),if_neg last]
      by_cases next : (file_sys.inodes inode).dblocks (offset / 4096 + 1) < file_sys.num_blocks
      · rw [if_neg (by omega),if_pos next,Nat.sub_self]
        simp only [ReadResult.afterCells,ReadResult.bytes,copy_loop,List.append_nil,List.nil_append,Nat.zero_add]
        refine ⟨?_,i32_small (by omega)⟩
        rw [List.map_map]
        rfl
      · rw [if_pos (by omega),if_neg next]
        simp only [ReadResult.afterCells,ReadResult.bytes,List.nil_append]
        refine ⟨?_,trivial⟩
        rw [List.map_map]
        rfl

/-! ### The kernel's read call -/

/-- Descriptor `fd` is open on the regular file of an inode. -/
structure ReadsFile (file_sys : FileSys) (fd : Int) (inode : Nat) (task : Task) : Prop extends
    Opened file_sys fd inode task where
  low : 2 ≤ fd
  opened : is_open (task.files fd) = true
  fops : (task.files fd).fops = some .file_fops

variable {fd : Int} {inode : Nat} {m : Machine} {ptr n : Nat} {wait : Console → Int × List Byte × Console}

theorem do_read_file (running : Running m) (reads : ReadsFile file_sys fd inode m.task) (page : EXECUTION_ADDR ≤ ptr) :
    do_read file_sys wait fd ptr n m =
      (file_read file_sys (some m.task) fd n).bind fun (r,task) =>
        task.bind fun task => ({ m with task := task }.put ptr (r.bytes file_sys)).map fun m => (r.ret,m) := by
  have range := reads.descriptor
  rw [do_read,if_pos (is_user_ptr_page running page),if_neg (by omega),if_neg (by omega),if_pos reads.opened,reads.fops,
    Option.bind_some,UserPointers.Fops.read]

theorem put_task {m m' : Machine} {s : List Byte} (stored : m.put ptr s = some m') : m'.task = m.task := by
  rw [UserPointers.Machine.put] at stored
  split at stored
  · obtain rfl := Option.some.inj stored
    rfl
  · cases stored

theorem directory_read_others {task task' : Task} {g : Int} (other : g ≠ fd)
    (read : (Descriptors.directory_read file_sys (some task) fd).2.2 = some task') : task'.files g = task.files g := by
  unfold Descriptors.directory_read at read
  split at read
  · obtain rfl := Option.some.inj read
    rfl
  · dsimp only at read
    split at read
    · obtain rfl := Option.some.inj read
      rfl
    · obtain rfl := Option.some.inj read
      exact setFile_other _ _ other

theorem file_read_others {task task' : Task} {g nbytes : Int} {r : ReadResult} (other : g ≠ fd)
    (read : file_read file_sys (some task) fd nbytes = some (r,some task')) : task'.files g = task.files g := by
  rw [file_read] at read
  split at read
  · obtain rfl := Option.some.inj (Prod.mk.inj (Option.some.inj read)).2
    rfl
  · obtain ⟨node,-,read⟩ := Option.bind_eq_some_iff.mp read
    dsimp only at read
    split at read
    · obtain rfl := Option.some.inj (Prod.mk.inj (Option.some.inj read)).2
      rfl
    · generalize read_data file_sys _ _ _ = copied at read
      split at read
      · obtain rfl := Option.some.inj (Prod.mk.inj (Option.some.inj read)).2
        exact setFile_other _ _ other
      · obtain rfl := Option.some.inj (Prod.mk.inj (Option.some.inj read)).2
        rfl

/-- A read leaves the other descriptors alone. -/
theorem do_read_others {m m' : Machine} {g nbytes ret : Int} (other : g ≠ fd)
    (answered : do_read file_sys wait fd ptr nbytes m = some (ret,m')) : m'.task.files g = m.task.files g := by
  rw [do_read] at answered
  split_ifs at answered
  any_goals (obtain ⟨-,rfl⟩ := Prod.mk.inj (Option.some.inj answered); rfl)
  obtain ⟨fops,-,answered⟩ := Option.bind_eq_some_iff.mp answered
  cases fops with
  | rtc_fops =>
    obtain ⟨-,rfl⟩ := Prod.mk.inj (Option.some.inj answered)
    rfl
  | term_fops =>
    rw [UserPointers.Fops.read,UserPointers.terminal_read] at answered
    split at answered
    · obtain ⟨-,rfl⟩ := Prod.mk.inj (Option.some.inj answered)
      rfl
    · obtain ⟨after,stored,same⟩ := Option.map_eq_some_iff.mp answered
      obtain ⟨-,rfl⟩ := Prod.mk.inj same
      rw [put_task stored]
  | dir_fops =>
    obtain ⟨task,moved,answered⟩ := Option.bind_eq_some_iff.mp answered
    obtain ⟨after,stored,same⟩ := Option.map_eq_some_iff.mp answered
    obtain ⟨-,rfl⟩ := Prod.mk.inj same
    rw [put_task stored]
    exact directory_read_others other moved
  | file_fops =>
    obtain ⟨⟨r,task⟩,read,answered⟩ := Option.bind_eq_some_iff.mp answered
    obtain ⟨task,rfl,answered⟩ := Option.bind_eq_some_iff.mp answered
    obtain ⟨after,stored,same⟩ := Option.map_eq_some_iff.mp answered
    obtain ⟨-,rfl⟩ := Prod.mk.inj same
    rw [put_task stored]
    exact file_read_others other read

/-- A name that is found opens the lowest free descriptor. -/
theorem open_done {fname : Nat} {name : List Byte} {dentry : Dentry} (running : Running m)
    (text : Text m.mem fname name) (found : resolve file_sys name = some dentry) (small : dentry.file_type ≤ 2)
    (free : ¬ AllOpen m.task.files) {fuel : Nat} (enough : name.length < fuel) :
    ∃ fd, Lowest m.task.files fd ∧
      ece391_open file_sys fname fuel m =
        some (fd,{ m with task := m.task.setFile fd (Descriptors.opened file_sys dentry) }) ∧
      Running { m with task := m.task.setFile fd (Descriptors.opened file_sys dentry) } := by
  have terminated : OpenName.Terminated (fun i => m.mem (fname + i)) name.length :=
    ⟨text.terminator,fun i below => (text.bytes i below).trans_ne (text.plain _ (List.getElem_mem below))⟩
  obtain ⟨other,fd,same,-,lowest,done⟩ | ⟨impossible,-⟩ := Descriptors.do_open_spec file_sys m.task name
  · obtain rfl := Option.some.inj (found.symm.trans same)
    refine ⟨fd,lowest,?_,?_⟩
    · rw [ece391_open,OpenName.do_open_eq terminated enough,text.bytes.eq_range,done]
      rfl
    · refine ⟨running.pid,running.mapped,table_setFile running.table lowest.1 (fun _ => ⟨?_,rfl⟩)⟩
      have types : ∀ n ≤ 2, Descriptors.type_fops n ≠ none := by decide
      exact types _ small
  · rcases impossible with full | unresolved
    · exact absurd full free
    · exact absurd ⟨dentry,found,small⟩ unresolved

/-- The name of a regular file. -/
theorem open_reads {fname : Nat} {name : List Byte} {dentry : Dentry} (running : Running m)
    (text : Text m.mem fname name) (found : resolve file_sys name = some dentry) (regular : dentry.file_type = 2)
    (known : dentry.inode_num < file_sys.num_inodes) (free : ¬ AllOpen m.task.files) {fuel : Nat}
    (enough : name.length < fuel) :
    ∃ fd, Lowest m.task.files fd ∧
      let task := m.task.setFile fd (Descriptors.opened file_sys dentry)
      ece391_open file_sys fname fuel m = some (fd,{ m with task := task }) ∧
        Running { m with task := task } ∧ ReadsFile file_sys fd dentry.inode_num task ∧ (task.files fd).offset = 0 := by
  obtain ⟨fd,lowest,opens,after⟩ := open_done running text found (by omega) free enough
  have regular_fops : Descriptors.type_fops dentry.file_type = some .file_fops := by rw [regular]; rfl
  refine ⟨fd,lowest,opens,after,?_,?_⟩
  · have number : ¬ file_sys.num_inodes ≤ dentry.inode_num := by omega
    refine ⟨⟨⟨by have low := lowest.1; omega,by have high := lowest.2.1; omega⟩,known,?_,?_⟩,lowest.1,?_,?_⟩
    · rw [setFile_same,Descriptors.opened,get_inode,if_neg number]
    · rw [setFile_same,Descriptors.opened]
    · rw [setFile_same]
      exact Descriptors.is_open_opened dentry
    · rw [setFile_same,Descriptors.opened,regular_fops]
  · rw [setFile_same]
    rfl

/-- At the end of the file nothing is stored. -/
theorem do_read_at_end (running : Running m) (reads : ReadsFile file_sys fd inode m.task) (inside : InPage ptr n)
    (asked : 0 < n ∧ n < 2147483648) (atEnd : (file_sys.inodes inode).len ≤ (m.task.files fd).offset) :
    do_read file_sys wait fd ptr n m = some (0,{ m with mem := storeBytes m.mem ptr [] }) := by
  have none_read := file_read_at_end (n := ⟨n,by omega,by omega⟩) reads.toOpened atEnd
  have within : InPage ptr (ReadResult.bytes file_sys ⟨0,[],[]⟩).length := ⟨inside.1,by
    have high := inside.2
    simp only [ReadResult.bytes,List.map_nil,List.length_nil]
    omega⟩
  rw [do_read_file running reads inside.1,none_read]
  change (m.put ptr (ReadResult.bytes file_sys ⟨0,[],[]⟩)).map _ = _
  rw [put_page running within]
  rfl

/-- The task after a read of `n` bytes that did not fail. -/
def advanced (fd : Int) (n : Nat) (task : Task) : Task :=
  task.setFile fd { task.files fd with offset := (task.files fd).offset + n }

variable (wait) in
theorem do_read_before_end (wellFormed : WellFormed file_sys) (running : Running m)
    (reads : ReadsFile file_sys fd inode m.task) (inside : InPage ptr n) (asked : 0 < n ∧ n < 2147483648)
    (before : (m.task.files fd).offset < (file_sys.inodes inode).len) :
    let r := read_data file_sys inode (m.task.files fd).offset (min n (file_sys.inodes inode).len)
    r.ret ≠ -1 → (r.bytes file_sys).length ≤ n →
      do_read file_sys wait fd ptr n m =
        some (r.ret,{ m with mem := storeBytes m.mem ptr (r.bytes file_sys), task := advanced fd n m.task }) := by
  intro r succeeds fits
  have done := file_read_before_end (n := ⟨n,by omega,by omega⟩) reads.toOpened before
    (wellFormed.size inode reads.known)
  dsimp only [Int.toNat_natCast] at done
  have after : Running { m with task := advanced fd n m.task } :=
    ⟨running.pid,running.mapped,table_setFile running.table reads.low
      (running.table.fops fd reads.low (by have range := reads.descriptor; omega))⟩
  rw [do_read_file running reads inside.1,done,if_pos succeeds]
  change (({ m with task := advanced fd n m.task } : Machine).put ptr (r.bytes file_sys)).map _ = _
  rw [put_page after ⟨inside.1,by have high := inside.2; omega⟩]
  rfl

theorem running_advanced (running : Running m) (reads : ReadsFile file_sys fd inode m.task) (mem : Mem) :
    Running { m with mem := mem, task := advanced fd n m.task } :=
  ⟨running.pid,running.mapped,table_setFile running.table reads.low
    (running.table.fops fd reads.low (by have range := reads.descriptor; omega))⟩

theorem readsFile_advanced {task : Task} (reads : ReadsFile file_sys fd inode task) :
    ReadsFile file_sys fd inode (advanced fd n task) where
  descriptor := reads.descriptor
  known := reads.known
  node := by rw [advanced,setFile_same]; exact reads.node
  number := by rw [advanced,setFile_same]; exact reads.number
  low := reads.low
  opened := by rw [advanced,setFile_same]; exact reads.opened
  fops := by rw [advanced,setFile_same]; exact reads.fops

theorem advanced_offset (fd : Int) (n : Nat) (task : Task) :
    ((advanced fd n task).files fd).offset = (task.files fd).offset + n := by rw [advanced,setFile_same]

/-! ### Requests of 1024 bytes -/

/-- How much of a file of `len` bytes such requests return in all: a file of
    more than one piece to the end of its last piece, less a byte if that ends
    its last block. -/
def shown (len : Nat) : Nat :=
  if len ≤ 1024 then len else if 3072 < len % 4096 then 4096 * (len / 4096) + 4095 else (len + 1023) / 1024 * 1024

/-- The request that ends at the end of a file of whole blocks finds an entry
    there. -/
def Backed (file_sys : FileSys) (inode : Nat) : Prop :=
  (file_sys.inodes inode).len % 4096 ≠ 0 ∨ (file_sys.inodes inode).len = 0 ∨
    (file_sys.inodes inode).dblocks ((file_sys.inodes inode).len / 4096) < file_sys.num_blocks

/-- The next request is the one for the piece at the offset. -/
def Piecewise (file_sys : FileSys) (fd : Int) (inode : Nat) (task : Task) (n : Nat) (rest : List Byte) : Prop :=
  n = 1024 ∧ ReadsFile file_sys fd inode task ∧ (task.files fd).offset % 1024 = 0 ∧
    rest = file_bytes file_sys inode (task.files fd).offset (shown (file_sys.inodes inode).len - (task.files fd).offset)

theorem piece_ret {inode offset : Nat} (wellFormed : WellFormed file_sys) (known : inode < file_sys.num_inodes)
    (backed : Backed file_sys inode) (aligned : offset % 1024 = 0) (before : offset < (file_sys.inodes inode).len) :
    (read_data file_sys inode offset (min 1024 (file_sys.inodes inode).len)).bytes file_sys =
        file_bytes file_sys inode offset (min 1024 (file_sys.inodes inode).len) ∧
      (read_data file_sys inode offset (min 1024 (file_sys.inodes inode).len)).ret =
        (min 1024 (shown (file_sys.inodes inode).len - offset) : Nat) := by
  have blocks := wellFormed.blocks inode known
  obtain ⟨bytes,ret⟩ := read_in_block offset (min 1024 (file_sys.inodes inode).len) known (by omega)
    (blocks (offset / 4096) (by omega)) (by omega) (by omega)
  refine ⟨bytes,ret.trans ?_⟩
  have next (inside : offset / 4096 < (file_sys.inodes inode).len / 4096) :
      (file_sys.inodes inode).dblocks (offset / 4096 + 1) < file_sys.num_blocks := by
    by_cases ends : 4096 * (offset / 4096 + 1) = (file_sys.inodes inode).len
    · rcases backed with odd | empty | named
      · omega
      · omega
      · have entry : offset / 4096 + 1 = (file_sys.inodes inode).len / 4096 := by omega
        exact entry ▸ named
    · exact blocks _ (by omega)
  rw [shown]
  by_cases small : (file_sys.inodes inode).len ≤ 1024
  · rw [if_pos small,if_pos (by omega)]
    omega
  · rw [if_neg small]
    by_cases within : offset % 4096 + min 1024 (file_sys.inodes inode).len < 4096
    · rw [if_pos within]
      split <;> omega
    · rw [if_neg within]
      by_cases last : offset / 4096 = (file_sys.inodes inode).len / 4096
      · rw [if_pos last,if_pos (by omega)]
        omega
      · rw [if_neg last,if_pos (next (by omega))]
        split <;> omega

theorem serves_pieces (wait : Console → Int × List Byte × Console) (wellFormed : WellFormed file_sys)
    (backed : Backed file_sys inode) :
    Serves (do_read file_sys wait fd) (· = 1024) (Piecewise file_sys fd inode) := by
  constructor
  rintro m ptr _ _ running inside ⟨rfl,reads,aligned,rfl⟩
  rw [file_bytes_length]
  by_cases atEnd : (file_sys.inodes inode).len ≤ (m.task.files fd).offset
  · have nothing : shown (file_sys.inodes inode).len - (m.task.files fd).offset = 0 := by
      rw [shown]
      split_ifs <;> omega
    refine ⟨[],m.task,?_,Nat.zero_le _,?_,⟨running.pid,running.mapped,running.table⟩,?_⟩
    · rw [do_read_at_end running reads inside (by decide) atEnd,nothing]
      rfl
    · rw [nothing]
      rfl
    · rintro n' rfl
      refine ⟨rfl,reads,aligned,?_⟩
      rw [nothing]
      rfl
  · obtain ⟨bytes,ret⟩ := piece_ret wellFormed reads.known backed aligned (not_le.mp atEnd)
    refine ⟨file_bytes file_sys inode (m.task.files fd).offset (min 1024 (file_sys.inodes inode).len),
      advanced fd 1024 m.task,?_,?_,?_,running_advanced running reads _,?_⟩
    · rw [do_read_before_end wait wellFormed running reads inside (by decide) (not_le.mp atEnd) (by rw [ret]; omega)
        (by rw [bytes,file_bytes_length]; omega),ret,bytes]
    · rw [file_bytes_length]
      exact Nat.min_le_left _ _
    · have within : min 1024 (shown (file_sys.inodes inode).len - (m.task.files fd).offset) ≤
          min 1024 (file_sys.inodes inode).len := by
        rw [shown]
        split_ifs <;> omega
      rw [file_bytes_take within]
      by_cases whole : 1024 ≤ shown (file_sys.inodes inode).len - (m.task.files fd).offset
      · rw [Nat.min_eq_left whole,file_bytes_take whole]
      · rw [Nat.min_eq_right (by omega),List.take_of_length_le (by rw [file_bytes_length]; omega)]
    · rintro n' rfl
      refine ⟨rfl,readsFile_advanced reads,by rw [advanced_offset]; omega,?_⟩
      rw [file_bytes_drop,advanced_offset,Nat.sub_sub]

/-! ### A file of at most 1024 bytes -/

/-- Nothing has been read yet and the request is for everything, or the file
    has been read. -/
def AtOnce (file_sys : FileSys) (fd : Int) (inode : Nat) (task : Task) (n : Nat) (rest : List Byte) : Prop :=
  0 < n ∧ n < 2147483648 ∧ ReadsFile file_sys fd inode task ∧
    ((task.files fd).offset = 0 ∧ (file_sys.inodes inode).len ≤ n ∧
        rest = file_bytes file_sys inode 0 (file_sys.inodes inode).len ∨
      (file_sys.inodes inode).len ≤ (task.files fd).offset ∧ rest = [])

theorem serves_at_once (wait : Console → Int × List Byte × Console) (wellFormed : WellFormed file_sys)
    (small : (file_sys.inodes inode).len ≤ 1024) :
    Serves (do_read file_sys wait fd) (fun n => 0 < n ∧ n < 2147483648) (AtOnce file_sys fd inode) := by
  constructor
  rintro m ptr n rest running inside ⟨low,high,reads,state⟩
  by_cases atEnd : (file_sys.inodes inode).len ≤ (m.task.files fd).offset
  · obtain rfl : rest = [] := by
      rcases state with ⟨start,-,rfl⟩ | ⟨-,rfl⟩
      · rw [show (file_sys.inodes inode).len = 0 from by omega]
        rfl
      · rfl
    refine ⟨[],m.task,?_,Nat.zero_le _,by simp,⟨running.pid,running.mapped,running.table⟩,?_⟩
    · rw [do_read_at_end running reads inside ⟨low,high⟩ atEnd]
      simp
    · exact fun n' asked => ⟨asked.1,asked.2,reads,.inr ⟨atEnd,List.drop_nil⟩⟩
  · obtain ⟨start,room,rfl⟩ := state.resolve_right (fun ended => atEnd ended.1)
    have first := wellFormed.blocks inode reads.known 0 (by omega)
    obtain ⟨bytes,ret⟩ := read_in_block 0 (file_sys.inodes inode).len reads.known (by omega)
      (by simpa using first) (by omega) small
    rw [if_pos (by omega)] at ret
    have clamped : min n (file_sys.inodes inode).len = (file_sys.inodes inode).len := Nat.min_eq_right room
    refine ⟨file_bytes file_sys inode 0 (file_sys.inodes inode).len,advanced fd n m.task,?_,?_,?_,
      running_advanced running reads _,?_⟩
    · have done := do_read_before_end wait wellFormed running reads inside ⟨low,high⟩ (not_le.mp atEnd)
      dsimp only at done
      rw [clamped,start,bytes,ret,file_bytes_length] at done
      rw [done (by omega) room,file_bytes_length,clamped]
    · rw [file_bytes_length]
      exact room
    · rw [file_bytes_length,clamped,List.take_of_length_le (by simp),List.take_of_length_le (by simpa using room)]
    · intro n' asked
      refine ⟨asked.1,asked.2,readsFile_advanced reads,.inr ⟨by rw [advanced_offset]; omega,?_⟩⟩
      exact List.drop_eq_nil_of_le (by simpa using room)

end Mp3Kernel.Reading

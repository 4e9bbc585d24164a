import Mp3Kernel.Filesys.FileRead

/-!
The descriptor table of a task: `do_open`, `do_close`, `do_read` and `do_write`
of sys_calls_handlers.c with the operations they dispatch to. A caller's buffer
is taken to lie outside the task record, so a handler changes no more of the
table than it names.
-/
namespace Mp3Kernel.Descriptors
open Mp3Kernel.Memory Mp3Kernel.Filesys Mp3Kernel.Tasks Mp3Kernel.Runs
open Mp3Kernel.FileRead (file_read)

abbrev FILE_OPEN_BIT : Word := 1

/-- The length of a directory name. -/
def name_length (file_name : Nat → Byte) : Nat :=
  ((List.range FILENAME_LEN).takeWhile (fun i => file_name i ≠ 0)).length

/-- `directory_read`: what it returns, the bytes it stores, and the task. -/
def directory_read (file_sys : FileSys) (cur_task : Option Task) (fd : Int) : Int × List Byte × Option Task :=
  if fd < 0 ∨ fd > 7 then (-1,[],cur_task) else
    match cur_task with
    | none => (-1,[],none)
    | some task =>
      let file := task.files fd
      if file.offset > file_sys.num_inodes then (0,[],some task) else
        let name := (file_sys.dentries file.offset).file_name
        let i := name_length name
        (i,(List.range i).map name,some (task.setFile fd { file with offset := u32 (file.offset + 1) }))

/-- −1 for a pointer outside the alias of the task's own frame, 0 inside. -/
def is_user_ptr (task : Task) (ptr : Nat) : Int :=
  let task_addr := get_task_addr task.pid
  if ptr < task_addr ∨ u32 (task_addr + SIZE_4MB_PAGE) ≤ ptr then -1 else 0

/-- A read through an operations table; `device` is what the terminal or the
    RTC returns, neither of which looks at the table. -/
def Fops.read (file_sys : FileSys) (device : Int) (task : Task) (fd nbytes : Int) : Fops → Option (Int × Task)
  | .file_fops => (file_read file_sys (some task) fd nbytes).bind fun (r,task) => task.map fun task => (r.ret,task)
  | .dir_fops =>
    let (ret,_,task) := directory_read file_sys (some task) fd
    task.map fun task => (ret,task)
  | .rtc_fops | .term_fops => some (device,task)

def Fops.write (device : Int) (task : Task) : Fops → Int × Task
  | .file_fops | .dir_fops => (-1,task)
  | .rtc_fops | .term_fops => (device,task)

def is_open (file : File) : Bool := file.flags &&& FILE_OPEN_BIT != 0

/-- No result is a fault: the operations table or an inode is null. -/
def do_read (file_sys : FileSys) (device : Int) (fd : Int) (buf : Nat) (nbytes : Int) (task : Task) :
    Option (Int × Task) :=
  if is_user_ptr task buf ≠ 0 then
    if fd < 0 then some (-1,task) else if fd > 7 then some (-1,task)
    else if is_open (task.files fd) then (task.files fd).fops.bind (Fops.read file_sys device task fd nbytes)
    else some (-1,task)
  else some (-1,task)

def do_write (device : Int) (fd : Int) (buf : Nat) (task : Task) : Option (Int × Task) :=
  if is_user_ptr task buf ≠ 0 then
    if fd < 0 then some (-1,task) else if fd > 7 then some (-1,task)
    else if is_open (task.files fd) then (task.files fd).fops.map (Fops.write device task)
    else some (-1,task)
  else some (-1,task)

/-- The search for a descriptor from `i` on, with `fuel` tests left. -/
def free_descriptor (files : Int → File) (i : Int) : Nat → Option Int
  | 0 => none
  | fuel + 1 =>
    -- the entry is tested before the bound
    if is_open (files i) ∧ i < 8 then
      if i = 7 then none else free_descriptor files (i + 1) fuel
    else some i

/-- The operations of a file type, and nothing above 2. -/
def type_fops : Nat → Option Fops
  | 0 => some .rtc_fops
  | 1 => some .dir_fops
  | 2 => some .file_fops
  | _ => none

/-- `do_open` once the entry is found; the `open` of every operations table
    returns 0. -/
def open_dentry (file_sys : FileSys) (dentry : Dentry) (task : Task) : Int × Task :=
  match free_descriptor task.files 2 6 with
  | none => (-1,task)
  | some i =>
    match type_fops dentry.file_type with
    | none => (-1,task)
    | some fops =>
      (i,task.setFile i
        { fops := some fops
          dentry := dentry
          inode := get_inode file_sys dentry.inode_num
          offset := 0
          flags := (1#32 <<< dentry.file_type) ||| FILE_OPEN_BIT })

/-- `do_open` of a name that fits the local buffer. -/
def do_open (file_sys : FileSys) (filename : List Byte) (task : Task) : Int × Task :=
  let (found,dentry) := read_dentry_by_name file_sys (fun i => filename.getD i 0) uninitialized
  if found < 0 then (-1,task) else open_dentry file_sys dentry task

def do_close (fd : Int) (task : Task) : Int × Task :=
  if fd < 2 ∨ fd > 7 then (-1,task)
  else if (task.files fd).flags &&& FILE_OPEN_BIT ≠ 1 then (-1,task)
  else (0,task.setFile fd { task.files fd with fops := none, inode := none, offset := 0, flags := 0 })

/-- The table as `init_task` leaves it. -/
def init_files (files : Int → File) : Int → File := fun i =>
  if i = 0 ∨ i = 1 then { files i with fops := some .term_fops, inode := none, offset := 0, flags := 1 }
  else if 2 ≤ i ∧ i < 8 then { files i with fops := none, inode := none, offset := 0, flags := 0 }
  else files i

/-! ### Calls and what is expected of them -/

/-- A name of fewer than 32 characters, without its terminator. -/
abbrev Name := { name : List Byte // (∀ c ∈ name, c ≠ 0) ∧ name.length < 32 }

/-- A system call on the table; `device` is what a device handler returns. -/
inductive Call where
  | open (name : Name)
  | close (fd : Int)
  | read (fd : Int) (buf : Nat) (nbytes : Int) (device : Int)
  | write (fd : Int) (buf : Nat) (device : Int)

def Call.result (file_sys : FileSys) (task : Task) : Call → Option (Int × Task)
  | .open name => some (do_open file_sys name task)
  | .close fd => some (do_close fd task)
  | .read fd buf nbytes device => do_read file_sys device fd buf nbytes task
  | .write fd buf device => do_write device fd buf task

def step (file_sys : FileSys) (task : Task) (call : Call) : Option Task :=
  (call.result file_sys task).map Prod.snd

/-- Entry `i` of the directory has the name, padded with zeros. -/
def Named (file_sys : FileSys) (name : List Byte) (i : Nat) : Prop :=
  i < file_sys.num_dentries ∧ same_name (file_sys.dentries i).file_name (fun j => name.getD j 0) = true

/-- The name is found and the type of its file is at most 2. -/
def Openable (file_sys : FileSys) (name : List Byte) : Prop :=
  ∃ i, Named file_sys name i ∧ (∀ j < i, ¬ Named file_sys name j) ∧ (file_sys.dentries i).file_type ≤ 2

def AllOpen (files : Int → File) : Prop := ∀ fd, 2 ≤ fd → fd < 8 → is_open (files fd) = true

/-- The lowest free descriptor. -/
def Lowest (files : Int → File) (fd : Int) : Prop :=
  2 ≤ fd ∧ fd < 8 ∧ is_open (files fd) = false ∧ ∀ g, 2 ≤ g → g < fd → is_open (files g) = true

/-- Terminal operations on 0 and 1, and the operations of its file type on
    every other open descriptor. -/
structure Table (files : Int → File) : Prop where
  terminal : ∀ fd, fd = 0 ∨ fd = 1 → is_open (files fd) = true ∧ (files fd).fops = some .term_fops
  fops : ∀ fd, 2 ≤ fd → fd < 8 → is_open (files fd) = true →
    (files fd).fops ≠ none ∧ (files fd).fops = type_fops (files fd).dentry.file_type

/-- What a call that went from `files` to `files'` returned. -/
def Answers (file_sys : FileSys) (files files' : Int → File) (ret : Int) : Call → Prop
  | .open name =>
    (ret = -1 ↔ ¬ Openable file_sys name ∨ AllOpen files) ∧ (ret = -1 → files' = files) ∧
      (ret ≠ -1 → Lowest files ret ∧ is_open (files' ret) = true) ∧ ∀ fd ≠ ret, files' fd = files fd
  | .close fd =>
    (ret = 0 ↔ 2 ≤ fd ∧ fd < 8 ∧ is_open (files fd) = true) ∧ (ret ≠ 0 → ret = -1 ∧ files' = files) ∧
      (ret = 0 → is_open (files' fd) = false) ∧ ∀ g ≠ fd, files' g = files g
  | .read fd _ _ _ => ∀ g ≠ fd, files' g = files g
  | .write fd _ _ => ∀ g ≠ fd, files' g = files g

/-- A call returns as expected and leaves a table in order. -/
def Behaves (file_sys : FileSys) (task : Task) (call : Call) : Prop :=
  ∃ ret task', call.result file_sys task = some (ret,task') ∧ Table task'.files ∧
    Answers file_sys task.files task'.files ret call

/-- A name that starts with a dot stands for the first entry of the directory;
    this goes unnoticed where both would open or both fail. -/
def Plain (file_sys : FileSys) (task : Task) : Call → Prop
  | .open name =>
    name.val.getD 0 0 ≠ 46 ∨ AllOpen task.files ∨
      (Openable file_sys name ↔ (file_sys.dentries 0).file_type ≤ 2)
  | _ => True

/-! ### The directory lookup -/

variable {file_sys : FileSys} {task : Task}

/-- The entry that `do_open` finds. -/
def resolve (file_sys : FileSys) (name : List Byte) : Option Dentry :=
  if name.getD 0 0 = 46 then
    some { file_type := (file_sys.dentries 0).file_type
           inode_num := (file_sys.dentries 0).inode_num
           file_name := fun j => if j = 0 then 46 else 0 }
  else (find_dentry file_sys (fun j => name.getD j 0)).map (fun i => copy_dentry (file_sys.dentries i) uninitialized)

theorem find_dentry_some {name : List Byte} {i : Nat}
    (found : find_dentry file_sys (fun j => name.getD j 0) = some i) :
    Named file_sys name i ∧ ∀ j < i, ¬ Named file_sys name j := by
  rw [find_dentry,List.find?_range_eq_some] at found
  obtain ⟨same,inside,first⟩ := found
  refine ⟨⟨List.mem_range.mp inside,same⟩,?_⟩
  rintro j before ⟨-,named⟩
  have other := first j before
  rw [named] at other
  cases other

theorem find_dentry_none {name : List Byte} (absent : find_dentry file_sys (fun j => name.getD j 0) = none) (i : Nat) :
    ¬ Named file_sys name i := by
  rintro ⟨inside,named⟩
  rw [find_dentry,List.find?_range_eq_none] at absent
  have other := absent i inside
  rw [named] at other
  cases other

theorem openable_iff_of_found {name : List Byte} {i : Nat}
    (found : find_dentry file_sys (fun j => name.getD j 0) = some i) :
    Openable file_sys name ↔ (file_sys.dentries i).file_type ≤ 2 := by
  obtain ⟨named,first⟩ := find_dentry_some found
  constructor
  · rintro ⟨j,other,earlier,small⟩
    have same : j = i := by
      by_contra different
      rcases Nat.lt_or_gt_of_ne different with before | after
      · exact first j before other
      · exact earlier i after named
    exact same ▸ small
  · intro small
    exact ⟨i,named,first,small⟩

/-- The resolved entry can be opened. -/
def Resolved (file_sys : FileSys) (name : List Byte) : Prop :=
  ∃ dentry, resolve file_sys name = some dentry ∧ dentry.file_type ≤ 2

theorem resolved_dot {name : List Byte} (dot : name.getD 0 0 = 46) :
    Resolved file_sys name ↔ (file_sys.dentries 0).file_type ≤ 2 := by
  rw [Resolved,resolve,if_pos dot]
  constructor
  · rintro ⟨dentry,same,small⟩
    obtain rfl := Option.some.inj same
    exact small
  · intro small
    exact ⟨_,rfl,small⟩

/-- Away from the dot, the resolved entry decides whether the name opens. -/
theorem openable_iff_resolved {name : List Byte} (plain : name.getD 0 0 ≠ 46) :
    Openable file_sys name ↔ Resolved file_sys name := by
  rw [Resolved,resolve,if_neg plain]
  cases found : find_dentry file_sys (fun j => name.getD j 0) with
  | none =>
    constructor
    · rintro ⟨i,named,-,-⟩
      exact (find_dentry_none found i named).elim
    · rintro ⟨dentry,impossible,-⟩
      cases impossible
  | some i =>
    rw [openable_iff_of_found found]
    constructor
    · intro small
      exact ⟨_,rfl,small⟩
    · rintro ⟨dentry,same,small⟩
      obtain rfl := Option.some.inj same
      exact small

theorem plain_open_iff (name : Name) :
    Plain file_sys task (.open name) ↔
      AllOpen task.files ∨ (Openable file_sys name ↔ Resolved file_sys name) := by
  unfold Plain
  by_cases dot : name.val.getD 0 0 = 46
  · rw [resolved_dot dot]
    exact ⟨fun plain => plain.resolve_left (not_not.mpr dot),.inr⟩
  · exact ⟨fun _ => .inr (openable_iff_resolved dot),fun _ => .inl dot⟩

/-! ### The calls -/

theorem free_descriptor_spec (files : Int → File) (fuel : Nat) {i : Int} (counted : i + fuel = 8) :
    match free_descriptor files i fuel with
    | some fd => i ≤ fd ∧ fd < 8 ∧ is_open (files fd) = false ∧ ∀ g, i ≤ g → g < fd → is_open (files g) = true
    | none => ∀ g, i ≤ g → g < 8 → is_open (files g) = true := by
  induction fuel generalizing i with
  | zero => intro g low high; omega
  | succ fuel ih =>
    rw [free_descriptor]
    by_cases taken : is_open (files i) = true ∧ i < 8
    · rw [if_pos taken]
      by_cases last : i = 7
      · rw [if_pos last]
        intro g low high
        obtain rfl : g = i := by omega
        exact taken.1
      · rw [if_neg last]
        have rest := ih (i := i + 1) (by omega)
        have here {g : Int} (low : i ≤ g) : g = i ∨ i + 1 ≤ g := by omega
        cases search : free_descriptor files (i + 1) fuel with
        | none =>
          rw [search] at rest
          intro g low high
          rcases here low with rfl | later
          · exact taken.1
          · exact rest g later high
        | some fd =>
          rw [search] at rest
          obtain ⟨low,high,free,before⟩ := rest
          refine ⟨by omega,high,free,?_⟩
          intro g lowg highg
          rcases here lowg with rfl | later
          · exact taken.1
          · exact before g later highg
    · rw [if_neg taken]
      have inside : i < 8 := by omega
      refine ⟨Int.le_refl i,inside,?_,fun g low high => by omega⟩
      simpa [inside] using taken

theorem free_descriptor_some {files : Int → File} {fd : Int} (found : free_descriptor files 2 6 = some fd) :
    Lowest files fd := by
  have spec := free_descriptor_spec files 6 (i := 2) (by decide)
  rw [found] at spec
  exact spec

theorem free_descriptor_none {files : Int → File} : free_descriptor files 2 6 = none ↔ AllOpen files := by
  have spec := free_descriptor_spec files 6 (i := 2) (by decide)
  cases found : free_descriptor files 2 6 with
  | none =>
    rw [found] at spec
    exact ⟨fun _ => spec,fun _ => rfl⟩
  | some fd =>
    obtain ⟨low,high,free,-⟩ := free_descriptor_some found
    refine ⟨nofun,fun all => ?_⟩
    rw [all fd low high] at free
    cases free

theorem type_fops_none {type : Nat} : type_fops type = none ↔ ¬ type ≤ 2 := by
  match type with
  | 0 => decide
  | 1 => decide
  | 2 => decide
  | n + 3 => exact ⟨fun _ => by omega,fun _ => rfl⟩

/-- The entry of a file that was just opened. -/
def opened (file_sys : FileSys) (dentry : Dentry) : File where
  fops := type_fops dentry.file_type
  dentry := dentry
  inode := get_inode file_sys dentry.inode_num
  offset := 0
  flags := (1#32 <<< dentry.file_type) ||| FILE_OPEN_BIT

theorem is_open_opened (dentry : Dentry) : is_open (opened file_sys dentry) = true := by
  have kept : ((1#32 <<< dentry.file_type) ||| FILE_OPEN_BIT) &&& FILE_OPEN_BIT = 1 := by
    ext i inside
    by_cases first : i = 0 <;> simp [first]
  simp only [is_open,opened]
  rw [kept]
  decide

theorem open_dentry_eq {dentry : Dentry} :
    open_dentry file_sys dentry task =
      match free_descriptor task.files 2 6 with
      | none => (-1,task)
      | some i => if dentry.file_type ≤ 2 then (i,task.setFile i (opened file_sys dentry)) else (-1,task) := by
  unfold open_dentry
  cases free_descriptor task.files 2 6 with
  | none => rfl
  | some i =>
    dsimp only
    cases known : type_fops dentry.file_type with
    | none =>
      dsimp only
      rw [if_neg (type_fops_none.mp known)]
    | some fops =>
      have small : dentry.file_type ≤ 2 := by
        by_contra large
        rw [type_fops_none.mpr large] at known
        cases known
      dsimp only
      rw [if_pos small,opened,known]

theorem do_open_eq (name : List Byte) :
    do_open file_sys name task =
      match resolve file_sys name with
      | none => (-1,task)
      | some dentry => open_dentry file_sys dentry task := by
  by_cases dot : name.getD 0 0 = 46
  · rw [do_open,read_dentry_by_name,resolve,if_pos dot,if_pos dot]
    rfl
  · rw [do_open,read_dentry_by_name,resolve,if_neg dot,if_neg dot]
    cases find_dentry file_sys (fun i => name.getD i 0) with
    | none => rfl
    | some found => rfl

variable (file_sys task) in
/-- `do_open` takes the lowest free descriptor for an entry it can open. -/
theorem do_open_spec (name : List Byte) :
    (∃ dentry i, resolve file_sys name = some dentry ∧ dentry.file_type ≤ 2 ∧ Lowest task.files i ∧
        do_open file_sys name task = (i,task.setFile i (opened file_sys dentry))) ∨
      (AllOpen task.files ∨ ¬ Resolved file_sys name) ∧ do_open file_sys name task = (-1,task) := by
  rw [do_open_eq]
  cases found : resolve file_sys name with
  | none =>
    refine .inr ⟨.inr ?_,rfl⟩
    rintro ⟨dentry,impossible,-⟩
    rw [found] at impossible
    cases impossible
  | some dentry =>
    dsimp only
    rw [open_dentry_eq]
    cases free : free_descriptor task.files 2 6 with
    | none => exact .inr ⟨.inl (free_descriptor_none.mp free),rfl⟩
    | some i =>
      dsimp only
      by_cases small : dentry.file_type ≤ 2
      · rw [if_pos small]
        exact .inl ⟨dentry,i,rfl,small,free_descriptor_some free,rfl⟩
      · rw [if_neg small]
        refine .inr ⟨.inr ?_,rfl⟩
        rintro ⟨other,same,fits⟩
        obtain rfl := Option.some.inj (found.symm.trans same)
        exact small fits

theorem not_allOpen {files : Int → File} {i : Int} (lowest : Lowest files i) : ¬ AllOpen files := by
  obtain ⟨low,high,free,-⟩ := lowest
  intro all
  rw [all i low high] at free
  cases free

/-! ### What every call keeps -/

/-- The table is in order and open files have inodes. -/
structure Sound (files : Int → File) : Prop where
  table : Table files
  inode : ∀ fd, 2 ≤ fd → fd < 8 → is_open (files fd) = true → (files fd).inode ≠ none

theorem table_setFile {i : Int} {file : File} (table : Table task.files) (low : 2 ≤ i)
    (typed : is_open file = true → file.fops ≠ none ∧ file.fops = type_fops file.dentry.file_type) :
    Table (task.setFile i file).files := by
  constructor
  · intro fd standard
    rw [setFile_other task file (by omega)]
    exact table.terminal fd standard
  · intro fd lowfd high
    by_cases same : fd = i
    · subst same
      rw [setFile_same]
      exact typed
    · rw [setFile_other task file same]
      exact table.fops fd lowfd high

theorem sound_setFile {i : Int} {file : File} (sound : Sound task.files) (low : 2 ≤ i)
    (typed : is_open file = true → file.fops ≠ none ∧ file.fops = type_fops file.dentry.file_type)
    (noded : is_open file = true → file.inode ≠ none) : Sound (task.setFile i file).files := by
  refine ⟨table_setFile sound.table low typed,?_⟩
  intro fd lowfd high
  by_cases same : fd = i
  · subst same
    rw [setFile_same]
    exact noded
  · rw [setFile_other task file same]
    exact sound.inode fd lowfd high

/-- The task is as it was but for the offset of one descriptor. -/
def Advances (fd : Int) (task task' : Task) : Prop :=
  task' = task ∨ 2 ≤ fd ∧ fd < 8 ∧ ∃ offset, task' = task.setFile fd { task.files fd with offset := offset }

theorem sound_advances {fd : Int} {task' : Task} (sound : Sound task.files) (advances : Advances fd task task') :
    Sound task'.files := by
  rcases advances with rfl | ⟨low,high,offset,rfl⟩
  · exact sound
  · exact sound_setFile sound low (sound.table.fops fd low high) (sound.inode fd low high)

theorem others_advances {fd g : Int} {task' : Task} (advances : Advances fd task task') (other : g ≠ fd) :
    task'.files g = task.files g := by
  rcases advances with rfl | ⟨-,-,offset,rfl⟩
  · rfl
  · exact setFile_other task _ other

variable (file_sys) in
theorem file_read_advances {fd : Int} (nbytes : Int) (low : 2 ≤ fd) (high : fd < 8)
    (noded : (task.files fd).inode ≠ none) :
    ∃ r task', file_read file_sys (some task) fd nbytes = some (r,some task') ∧ Advances fd task task' := by
  obtain ⟨node,known⟩ := Option.ne_none_iff_exists'.mp noded
  rw [file_read,if_neg (by omega)]
  simp only [known,Option.bind_some]
  split
  · exact ⟨_,_,rfl,.inl rfl⟩
  · generalize read_data file_sys _ _ _ = r
    split
    · exact ⟨_,_,rfl,.inr ⟨low,high,_,by rw [← known]⟩⟩
    · exact ⟨_,_,rfl,.inl rfl⟩

variable (file_sys) in
theorem directory_read_advances {fd : Int} (low : 2 ≤ fd) (high : fd < 8) :
    ∃ ret stored task', directory_read file_sys (some task) fd = (ret,stored,some task') ∧ Advances fd task task' := by
  rw [directory_read,if_neg (by omega)]
  dsimp only
  split
  · exact ⟨_,_,_,rfl,.inl rfl⟩
  · exact ⟨_,_,_,rfl,.inr ⟨low,high,_,rfl⟩⟩

variable (file_sys) in
/-- `do_read` does not fault and moves at most the offset it reads at. -/
theorem do_read_advances (device fd : Int) (buf : Nat) (nbytes : Int) (sound : Sound task.files) :
    ∃ ret task', do_read file_sys device fd buf nbytes task = some (ret,task') ∧ Advances fd task task' := by
  have refused : ∃ ret task', some ((-1 : Int),task) = some (ret,task') ∧ Advances fd task task' :=
    ⟨_,_,rfl,.inl rfl⟩
  unfold do_read
  split
  · split
    · exact refused
    · split
      · exact refused
      · split
        · rename_i nonneg small taken
          by_cases standard : fd = 0 ∨ fd = 1
          · rw [(sound.table.terminal fd standard).2]
            exact ⟨_,_,rfl,.inl rfl⟩
          · have low : 2 ≤ fd := by omega
            have high : fd < 8 := by omega
            obtain ⟨known,typed⟩ := sound.table.fops fd low high taken
            obtain ⟨fops,named⟩ := Option.ne_none_iff_exists'.mp known
            rw [named,Option.bind_some]
            cases fops with
            | rtc_fops => exact ⟨_,_,rfl,.inl rfl⟩
            | term_fops => exact ⟨_,_,rfl,.inl rfl⟩
            | dir_fops =>
              obtain ⟨ret,stored,task',read,advances⟩ := directory_read_advances file_sys low high
              exact ⟨ret,task',by simp [Fops.read,read],advances⟩
            | file_fops =>
              obtain ⟨r,task',read,advances⟩ := file_read_advances file_sys nbytes low high
                (sound.inode fd low high taken)
              exact ⟨r.ret,task',by simp [Fops.read,read],advances⟩
        · exact refused
  · exact refused

/-- No operations table's `write` touches the descriptors. -/
theorem do_write_keeps (device fd : Int) (buf : Nat) (sound : Sound task.files) :
    ∃ ret, do_write device fd buf task = some (ret,task) := by
  unfold do_write
  split
  · split
    · exact ⟨_,rfl⟩
    · split
      · exact ⟨_,rfl⟩
      · split
        · rename_i nonneg small taken
          have known : (task.files fd).fops ≠ none := by
            by_cases standard : fd = 0 ∨ fd = 1
            · rw [(sound.table.terminal fd standard).2]
              exact nofun
            · exact (sound.table.fops fd (by omega) (by omega) taken).1
          obtain ⟨fops,named⟩ := Option.ne_none_iff_exists'.mp known
          rw [named,Option.map_some]
          cases fops <;> exact ⟨_,rfl⟩
        · exact ⟨_,rfl⟩
  · exact ⟨_,rfl⟩

theorem is_open_iff (file : File) : is_open file = true ↔ file.flags &&& FILE_OPEN_BIT = 1 := by
  have bit : file.flags &&& FILE_OPEN_BIT = 0 ∨ file.flags &&& FILE_OPEN_BIT = 1 := by
    have small : (file.flags &&& FILE_OPEN_BIT).toNat ≤ 1 := Nat.and_le_right
    rcases Nat.le_one_iff_eq_zero_or_eq_one.mp small with zero | one
    · exact .inl (BitVec.eq_of_toNat_eq zero)
    · exact .inr (BitVec.eq_of_toNat_eq one)
  unfold is_open
  rcases bit with zero | one
  · rw [zero]
    decide
  · rw [one]
    decide

variable (task) in
/-- `do_close` succeeds exactly on an open descriptor above 1. -/
theorem do_close_spec (fd : Int) :
    (2 ≤ fd ∧ fd < 8 ∧ is_open (task.files fd) = true ∧ ∃ file, is_open file = false ∧
        do_close fd task = (0,task.setFile fd file)) ∨
      ¬ (2 ≤ fd ∧ fd < 8 ∧ is_open (task.files fd) = true) ∧ do_close fd task = (-1,task) := by
  unfold do_close
  by_cases range : fd < 2 ∨ fd > 7
  · rw [if_pos range]
    exact .inr ⟨by omega,rfl⟩
  · rw [if_neg range,is_open_iff]
    by_cases taken : (task.files fd).flags &&& FILE_OPEN_BIT = 1
    · rw [if_neg (not_not.mpr taken)]
      exact .inl ⟨by omega,by omega,taken,_,by dsimp only [is_open]; decide,rfl⟩
    · rw [if_pos taken]
      exact .inr ⟨fun all => taken all.2.2,rfl⟩

/-! ### One call -/

theorem table_open {name : List Byte} (table : Table task.files) : Table (do_open file_sys name task).2.files := by
  obtain ⟨dentry,i,-,small,lowest,opened⟩ | ⟨-,failed⟩ := do_open_spec file_sys task name
  · rw [opened]
    refine table_setFile table lowest.1 (fun _ => ⟨?_,rfl⟩)
    rw [Descriptors.opened,ne_eq,type_fops_none,not_not]
    exact small
  · rw [failed]
    exact table

/-- A call to `do_open` answers as expected exactly when it is plain. -/
theorem answers_open_iff (name : Name) :
    Answers file_sys task.files (do_open file_sys name task).2.files (do_open file_sys name task).1 (.open name) ↔
      Plain file_sys task (.open name) := by
  rw [plain_open_iff]
  obtain ⟨dentry,i,found,small,lowest,opened⟩ | ⟨fails,failed⟩ := do_open_spec file_sys task name
  · have room := not_allOpen lowest
    have resolved : Resolved file_sys name := ⟨dentry,found,small⟩
    have ret : i ≠ -1 := by have low := lowest.1; omega
    rw [opened]
    constructor
    · rintro ⟨exact_,-,-,-⟩
      refine .inr ⟨fun _ => resolved,fun _ => ?_⟩
      by_contra unopenable
      exact ret (exact_.mpr (.inl unopenable))
    · intro plain
      have openable := (plain.resolve_left room).mpr resolved
      refine ⟨⟨fun failed => (ret failed).elim,?_⟩,fun failed => (ret failed).elim,fun _ => ⟨lowest,?_⟩,?_⟩
      · rintro (unopenable | full)
        · exact (unopenable openable).elim
        · exact (room full).elim
      · rw [setFile_same]
        exact is_open_opened dentry
      · intro fd other
        exact setFile_other task _ other
  · rw [failed]
    constructor
    · rintro ⟨exact_,-,-,-⟩
      rcases exact_.mp rfl with unopenable | full
      · rcases fails with full | unresolved
        · exact .inl full
        · exact .inr ⟨fun openable => (unopenable openable).elim,fun resolved => (unresolved resolved).elim⟩
      · exact .inl full
    · intro plain
      refine ⟨⟨fun _ => ?_,fun _ => rfl⟩,fun _ => rfl,fun impossible => (impossible rfl).elim,fun _ _ => rfl⟩
      rcases fails with full | unresolved
      · exact .inr full
      · rcases plain with full | agree
        · exact .inr full
        · exact .inl (fun openable => unresolved (agree.mp openable))

/-- Only `do_open` can misbehave. -/
theorem behaves_iff {call : Call} (sound : Sound task.files) : Behaves file_sys task call ↔ Plain file_sys task call := by
  cases call with
  | «open» name =>
    rw [← answers_open_iff]
    constructor
    · rintro ⟨ret,task',returned,-,answers⟩
      obtain ⟨rfl,rfl⟩ := Prod.mk.inj (Option.some.inj returned)
      exact answers
    · intro answers
      exact ⟨_,_,rfl,table_open sound.table,answers⟩
  | close fd =>
    refine ⟨fun _ => trivial,fun _ => ?_⟩
    obtain ⟨low,high,taken,file,closed,done⟩ | ⟨refused,done⟩ := do_close_spec task fd
    · refine ⟨0,task.setFile fd file,congrArg some done,?_,⟨fun _ => ⟨low,high,taken⟩,fun _ => rfl⟩,?_,?_,?_⟩
      · exact table_setFile sound.table low (fun impossible => by rw [closed] at impossible; cases impossible)
      · intro impossible
        exact (impossible rfl).elim
      · intro _
        rw [setFile_same]
        exact closed
      · intro g other
        exact setFile_other task file other
    · refine ⟨-1,task,congrArg some done,sound.table,⟨?_,fun allowed => (refused allowed).elim⟩,?_,?_,fun _ _ => rfl⟩
      · intro impossible
        cases impossible
      · intro _
        exact ⟨rfl,rfl⟩
      · intro impossible
        cases impossible
  | read fd buf nbytes device =>
    refine ⟨fun _ => trivial,fun _ => ?_⟩
    obtain ⟨ret,task',read,advances⟩ := do_read_advances file_sys device fd buf nbytes sound
    exact ⟨ret,task',read,(sound_advances sound advances).table,fun g other => others_advances advances other⟩
  | write fd buf device =>
    refine ⟨fun _ => trivial,fun _ => ?_⟩
    obtain ⟨ret,written⟩ := do_write_keeps device fd buf sound
    exact ⟨ret,task,written,sound.table,fun _ _ => rfl⟩

/-! ### Every run -/

/-- The directory entries name existing inodes. -/
def NamesInodes (file_sys : FileSys) : Prop :=
  ∀ i < file_sys.num_dentries, (file_sys.dentries i).inode_num < file_sys.num_inodes

theorem resolved_inode {name : List Byte} {dentry : Dentry} (image : NamesInodes file_sys)
    (openable : Openable file_sys name) (found : resolve file_sys name = some dentry) :
    dentry.inode_num < file_sys.num_inodes := by
  obtain ⟨i,⟨inside,-⟩,-,-⟩ := openable
  by_cases dot : name.getD 0 0 = 46
  · rw [resolve,if_pos dot] at found
    obtain rfl := Option.some.inj found
    exact image 0 (by omega)
  · rw [resolve,if_neg dot,Option.map_eq_some_iff] at found
    obtain ⟨j,first,rfl⟩ := found
    exact image j (find_dentry_some first).1.1

theorem sound_open {name : Name} (image : NamesInodes file_sys) (sound : Sound task.files)
    (behaves : Behaves file_sys task (.open name)) : Sound (do_open file_sys name task).2.files := by
  obtain ⟨ret,task',returned,-,exact_,-,-,-⟩ := behaves
  obtain ⟨dentry,i,found,small,lowest,opened⟩ | ⟨-,failed⟩ := do_open_spec file_sys task name
  · have openable : Openable file_sys name := by
      by_contra unopenable
      have same := Option.some.inj returned
      rw [opened,exact_.mpr (.inl unopenable)] at same
      have low := lowest.1
      have ret := congrArg Prod.fst same
      dsimp only at ret
      omega
    rw [opened]
    refine sound_setFile sound lowest.1 (fun _ => ⟨?_,rfl⟩) (fun _ => ?_)
    · rw [Descriptors.opened,ne_eq,type_fops_none,not_not]
      exact small
    · rw [Descriptors.opened,get_inode,if_neg (Nat.not_le.mpr (resolved_inode image openable found))]
      exact nofun
  · rw [failed]
    exact sound

theorem sound_step {call : Call} {task' : Task} (image : NamesInodes file_sys) (sound : Sound task.files)
    (behaves : Behaves file_sys task call) (taken : step file_sys task call = some task') : Sound task'.files := by
  cases call with
  | «open» name =>
    obtain rfl := Option.some.inj taken
    exact sound_open image sound behaves
  | close fd =>
    obtain rfl := Option.some.inj taken
    obtain ⟨low,high,-,file,closed,done⟩ | ⟨-,done⟩ := do_close_spec task fd
    · have impossible {P : Prop} (opened : is_open file = true) : P := by
        rw [closed] at opened
        cases opened
      rw [done]
      exact sound_setFile sound low impossible impossible
    · rw [done]
      exact sound
  | read fd buf nbytes device =>
    obtain ⟨ret,after,read,advances⟩ := do_read_advances file_sys device fd buf nbytes sound
    rw [step,Call.result,read] at taken
    obtain rfl := Option.some.inj taken
    exact sound_advances sound advances
  | write fd buf device =>
    obtain ⟨ret,written⟩ := do_write_keeps device fd buf sound
    rw [step,Call.result,written] at taken
    obtain rfl := Option.some.inj taken
    exact sound

theorem sound_init_files (files : Int → File) : Sound (init_files files) := by
  have closed (fd : Int) (low : 2 ≤ fd) (high : fd < 8) : is_open (init_files files fd) = false := by
    rw [init_files,if_neg (by omega),if_pos ⟨low,high⟩]
    dsimp only [is_open]
    decide
  refine ⟨⟨?_,?_⟩,?_⟩
  · intro fd standard
    rw [init_files,if_pos standard]
    exact ⟨by dsimp only [is_open]; decide,rfl⟩
  · intro fd low high opened
    rw [closed fd low high] at opened
    cases opened
  · intro fd low high opened
    rw [closed fd low high] at opened
    cases opened

/-- In every run of calls by a new task, all calls behave exactly when every
    name opened is plain. -/
theorem calls_behave_iff (image : NamesInodes file_sys) (task : Task) (calls : List Call) :
    StepsMeet (step file_sys) (Behaves file_sys) { task with files := init_files task.files } calls ↔
      StepsMeet (step file_sys) (Plain file_sys) { task with files := init_files task.files } calls :=
  stepsMeet_congr (I := fun task => Sound task.files) (fun _ _ sound => behaves_iff sound)
    (fun _ _ _ sound behaves taken => sound_step image sound behaves taken) (sound_init_files task.files)

/-- A directory `.` and no other entry. -/
def lone_directory : FileSys where
  num_dentries := 1
  num_inodes := 1
  num_blocks := 0
  dentries := fun _ => { file_name := fun j => if j = 0 then 46 else 0, file_type := 1, inode_num := 0 }
  inodes := fun _ => { len := 0, dblocks := fun _ => 0 }
  data := fun _ _ => 0

theorem namesInodes_lone_directory : NamesInodes lone_directory := fun _ _ => Nat.zero_lt_one

def new_task : Task := { FileRead.reader with files := init_files FileRead.reader.files }

/-- `.` opens as expected. -/
theorem calls_behave_dot :
    StepsMeet (step lone_directory) (Behaves lone_directory) new_task [.open ⟨[46],by decide⟩,.close 2] := by
  refine (calls_behave_iff namesInodes_lone_directory FileRead.reader _).mpr ⟨.inr (.inr ⟨fun _ => by decide,fun _ => ?_⟩),?_⟩
  · exact ⟨0,⟨by decide,by decide⟩,by omega,by decide⟩
  · exact fun _ _ => ⟨trivial,fun _ _ => trivial⟩

/-- `.x` is not in the directory, but opens. -/
theorem absent_name_opens :
    NamesInodes lone_directory ∧ ¬ Openable lone_directory [46,120] ∧ (do_open lone_directory [46,120] new_task).1 = 2 ∧
      ¬ StepsMeet (step lone_directory) (Behaves lone_directory) new_task [.open ⟨[46,120],by decide⟩] := by
  have absent : ¬ Openable lone_directory [46,120] := by
    rintro ⟨i,⟨-,named⟩,-,-⟩
    have other : same_name (lone_directory.dentries i).file_name (fun j => [46,120].getD j 0) = false := by
      dsimp only [lone_directory]
      decide
    rw [other] at named
    cases named
  have opens : (do_open lone_directory [46,120] new_task).1 = 2 := by decide
  refine ⟨namesInodes_lone_directory,absent,opens,?_⟩
  rintro ⟨⟨ret,task',returned,-,exact_,-⟩,-⟩
  have same : (do_open lone_directory [46,120] new_task).1 = ret := congrArg Prod.fst (Option.some.inj returned)
  have failed := exact_.mpr (.inl absent)
  omega

end Mp3Kernel.Descriptors

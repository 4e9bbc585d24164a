import Mp3Kernel.Kernel.Descriptors

/-!
Listing the directory. A descriptor on the directory counts the entries it has
read, and `directory_read` stops it by the number of inodes: it goes through the
entries as it should as long as that number marks the end of the directory.
-/
namespace Mp3Kernel.DirectoryRead
open Mp3Kernel.Memory Mp3Kernel.Filesys Mp3Kernel.Tasks Mp3Kernel.Descriptors

/-- The task after one call, -/
def next_task (file_sys : FileSys) (fd : Int) (task : Task) : Task :=
  (directory_read file_sys (some task) fd).2.2.getD task

/-- and after `n`. -/
def after_reads (file_sys : FileSys) (fd : Int) (task : Task) : Nat → Task
  | 0 => task
  | n + 1 => next_task file_sys fd (after_reads file_sys fd task n)

/-- What a call returns and stores. -/
def answer (file_sys : FileSys) (fd : Int) (task : Task) : Int × List Byte :=
  ((directory_read file_sys (some task) fd).1,(directory_read file_sys (some task) fd).2.1)

/-- The entry that a call on the descriptor reads. -/
def entry_read (file_sys : FileSys) (file : File) : Option Nat :=
  if file.offset > file_sys.num_inodes then none else some file.offset

/-- The name of an entry: up to its first 0, or all 32 characters. -/
def entry_name (file_sys : FileSys) (i : Nat) : List Byte :=
  ((List.range FILENAME_LEN).map (file_sys.dentries i).file_name).takeWhile (· ≠ 0)

/-- Call `n` returns the name of entry `n` with its length, or 0 past the last
    entry, and no call reads past the array of entries. -/
def ListsAll (file_sys : FileSys) (fd : Int) (task : Task) : Prop :=
  ∀ n, answer file_sys fd (after_reads file_sys fd task n) =
      (if n < file_sys.num_dentries then (((entry_name file_sys n).length : Int),entry_name file_sys n) else (0,[])) ∧
    ∀ i, entry_read file_sys ((after_reads file_sys fd task n).files fd) = some i → i < DENTRY_NUM

/-- The number of inodes reaches the last entry, stays inside the array, and the
    entries up to it that are not in use have no name. -/
structure Ended (file_sys : FileSys) : Prop where
  reaches : file_sys.num_dentries ≤ file_sys.num_inodes + 1
  inside : file_sys.num_inodes < DENTRY_NUM
  unnamed : ∀ i, file_sys.num_dentries ≤ i → i ≤ file_sys.num_inodes → (file_sys.dentries i).file_name 0 = 0

variable {file_sys : FileSys} {fd : Int} {task : Task}

/-- The bytes that `directory_read` stores are the name. -/
theorem name_stored (i : Nat) : (List.range (name_length (file_sys.dentries i).file_name)).map (file_sys.dentries i).file_name =
    entry_name file_sys i := by
  have first := List.takeWhile_prefix (fun j => decide ((file_sys.dentries i).file_name j ≠ 0)) (l := List.range FILENAME_LEN)
  have whole := List.prefix_iff_eq_take.mp first
  have short := first.length_le
  rw [List.length_range] at short
  rw [List.take_range,Nat.min_eq_left short] at whole
  rw [entry_name,List.takeWhile_map,name_length,← whole]
  rfl

theorem entry_name_length (i : Nat) : (entry_name file_sys i).length = name_length (file_sys.dentries i).file_name := by
  rw [← name_stored,List.length_map,List.length_range]

theorem entry_name_le (i : Nat) : (entry_name file_sys i).length ≤ 32 := by
  have short := (List.takeWhile_prefix (fun c : Byte => decide (c ≠ 0))
    (l := (List.range FILENAME_LEN).map (file_sys.dentries i).file_name)).length_le
  simpa [entry_name] using short

theorem entry_name_nil {i : Nat} : entry_name file_sys i = [] ↔ (file_sys.dentries i).file_name 0 = 0 := by
  have split : List.range FILENAME_LEN = 0 :: (List.range 31).map Nat.succ := List.range_succ_eq_map
  rw [entry_name,split,List.map_cons,List.takeWhile_cons]
  by_cases named : (file_sys.dentries i).file_name 0 = 0 <;> simp [named]

/-! ### One call -/

/-- Past the number of inodes a call does nothing, -/
theorem answer_past (open_ : 0 ≤ fd ∧ fd ≤ 7) (past : (task.files fd).offset > file_sys.num_inodes) :
    answer file_sys fd task = (0,[]) ∧ next_task file_sys fd task = task := by
  rw [answer,next_task,directory_read,if_neg (by omega)]
  dsimp only
  rw [if_pos past]
  exact ⟨rfl,rfl⟩

/-- and before it hands out an entry. -/
theorem answer_entry (open_ : 0 ≤ fd ∧ fd ≤ 7) (before : (task.files fd).offset ≤ file_sys.num_inodes) :
    answer file_sys fd task =
        (((entry_name file_sys (task.files fd).offset).length : Int),entry_name file_sys (task.files fd).offset) ∧
      ((next_task file_sys fd task).files fd).offset = u32 ((task.files fd).offset + 1) := by
  rw [answer,next_task,directory_read,if_neg (by omega)]
  dsimp only
  rw [if_neg (Nat.not_lt.mpr before),name_stored,entry_name_length]
  exact ⟨rfl,by simp⟩

/-- The offset counts the calls that handed out an entry. -/
theorem offset_after (open_ : 0 ≤ fd ∧ fd ≤ 7) (start : (task.files fd).offset = 0) (n : Nat)
    (small : n < 4294967296 ∨ file_sys.num_inodes < 4294967295) :
    ((after_reads file_sys fd task n).files fd).offset = min n (file_sys.num_inodes + 1) := by
  induction n with
  | zero => simpa [after_reads] using start
  | succ n ih =>
    have before := ih (by omega)
    rw [after_reads]
    by_cases past : file_sys.num_inodes < n
    · have ended : ((after_reads file_sys fd task n).files fd).offset > file_sys.num_inodes := by omega
      rw [(answer_past open_ ended).2]
      omega
    · have listed : ((after_reads file_sys fd task n).files fd).offset ≤ file_sys.num_inodes := by omega
      rw [(answer_entry open_ listed).2,before,u32_small]
      all_goals omega

theorem do_open_rewinds {filename : List Byte} {opened : Task} (opens : do_open file_sys filename task = (fd,opened))
    (done : fd ≠ -1) : (0 ≤ fd ∧ fd ≤ 7) ∧ (opened.files fd).offset = 0 := by
  rcases do_open_spec file_sys task filename with ⟨dentry,i,-,-,lowest,result⟩ | ⟨-,result⟩
  · obtain ⟨rfl,rfl⟩ := Prod.mk.inj (opens.symm.trans result)
    have := lowest.1
    have := lowest.2.1
    exact ⟨by omega,by rw [setFile_same]; rfl⟩
  · exact absurd (congrArg Prod.fst (opens.symm.trans result)) done

/-! ### The whole listing -/

theorem lists_of_ended (open_ : 0 ≤ fd ∧ fd ≤ 7) (start : (task.files fd).offset = 0) (ended : Ended file_sys) :
    ListsAll file_sys fd task := by
  obtain ⟨reaches,inside,unnamed⟩ := ended
  simp only [DENTRY_NUM] at inside
  intro n
  have small : file_sys.num_inodes < 4294967295 := by omega
  have offset := offset_after open_ start n (.inr small)
  constructor
  · by_cases past : file_sys.num_inodes < n
    · have beyond : ((after_reads file_sys fd task n).files fd).offset > file_sys.num_inodes := by omega
      rw [(answer_past open_ beyond).1,if_neg (by omega)]
    · have here : ((after_reads file_sys fd task n).files fd).offset = n := by omega
      have given := (answer_entry open_ (by omega : ((after_reads file_sys fd task n).files fd).offset ≤ file_sys.num_inodes)).1
      rw [here] at given
      rw [given]
      by_cases used : n < file_sys.num_dentries
      · rw [if_pos used]
      · rw [if_neg used,entry_name_nil.mpr (unnamed n (by omega) (by omega))]
        rfl
  · intro i read
    rw [entry_read] at read
    split at read
    · cases read
    · cases read
      simp only [DENTRY_NUM]
      omega

theorem ended_of_lists (open_ : 0 ≤ fd ∧ fd ≤ 7) (start : (task.files fd).offset = 0)
    (named : ∀ i < file_sys.num_dentries, (file_sys.dentries i).file_name 0 ≠ 0) (lists : ListsAll file_sys fd task) :
    Ended file_sys := by
  have offset (n : Nat) (small : n < 4294967296) :
      ((after_reads file_sys fd task n).files fd).offset = min n (file_sys.num_inodes + 1) :=
    offset_after open_ start n (.inl small)
  have inside : file_sys.num_inodes < DENTRY_NUM := by
    by_contra many
    simp only [DENTRY_NUM] at many
    have here := offset 63 (by decide)
    have past := (lists 63).2 63 (by rw [entry_read,if_neg (by omega),here,Nat.min_eq_left (by omega)])
    exact absurd past (by decide)
  simp only [DENTRY_NUM] at inside
  refine ⟨?_,inside,?_⟩
  · by_contra more
    have here := offset (file_sys.num_inodes + 1) (by omega)
    have given := (lists (file_sys.num_inodes + 1)).1
    have beyond : ((after_reads file_sys fd task (file_sys.num_inodes + 1)).files fd).offset > file_sys.num_inodes := by omega
    rw [(answer_past open_ beyond).1,if_pos (by omega)] at given
    exact named _ (by omega) (entry_name_nil.mp (congrArg Prod.snd given).symm)
  · intro i unused listed
    have here := offset i (by omega)
    have given := (lists i).1
    have within : ((after_reads file_sys fd task i).files fd).offset ≤ file_sys.num_inodes := by omega
    rw [(answer_entry open_ within).1,if_neg (by omega),here,Nat.min_eq_left (by omega)] at given
    exact entry_name_nil.mp (congrArg Prod.snd given)

/-- A directory with named entries is listed as it should be exactly when the
    number of inodes marks its end. -/
theorem directory_listed_iff {filename : List Byte} {opened : Task}
    (named : ∀ i < file_sys.num_dentries, (file_sys.dentries i).file_name 0 ≠ 0)
    (opens : do_open file_sys filename task = (fd,opened)) (done : fd ≠ -1) :
    ListsAll file_sys fd opened ↔ Ended file_sys := by
  obtain ⟨open_,start⟩ := do_open_rewinds opens done
  exact ⟨ended_of_lists open_ start named,lists_of_ended open_ start⟩

/-- The directory itself and `"rtc"`; no other entry has a name. -/
def devices (num_inodes : Nat) : FileSys where
  num_dentries := 2
  num_inodes := num_inodes
  num_blocks := 0
  dentries := fun i =>
    { file_name := fun j => ((([[46],[114,116,99]] : List (List Byte)).getD i []).getD j 0)
      file_type := if i = 0 then 1 else 0
      inode_num := 0 }
  inodes := fun _ => { len := 0, dblocks := fun _ => 0 }
  data := fun _ _ => 0

/-- A task with only the terminal open. -/
def lister : Task := { Mp3Kernel.FileRead.reader with files := init_files Mp3Kernel.FileRead.reader.files }

theorem devices_named (num_inodes : Nat) :
    ∀ i < (devices num_inodes).num_dentries, ((devices num_inodes).dentries i).file_name 0 ≠ 0 := by
  intro i inside
  obtain rfl | rfl : i = 0 ∨ i = 1 := by simp only [devices] at inside; omega
  · simp [devices]
  · simp [devices]

theorem devices_open (num_inodes : Nat) :
    do_open (devices num_inodes) [46] lister = (2,(do_open (devices num_inodes) [46] lister).2) := rfl

theorem directory_listed_one_inode : ListsAll (devices 1) 2 (do_open (devices 1) [46] lister).2 := by
  refine (directory_listed_iff (devices_named 1) (devices_open 1) (by decide)).mpr ⟨by decide,by decide,?_⟩
  intro i unused listed
  simp only [devices] at unused listed
  omega

/-- Without an inode the listing ends before `"rtc"`. -/
theorem device_not_listed : (devices 0).num_dentries ≤ 63 ∧ do_open (devices 0) [46] lister =
      (2,(do_open (devices 0) [46] lister).2) ∧
    ¬ ListsAll (devices 0) 2 (do_open (devices 0) [46] lister).2 := by
  refine ⟨by decide,devices_open 0,?_⟩
  intro lists
  obtain ⟨open_,start⟩ := do_open_rewinds (devices_open 0) (by decide)
  have ended := ended_of_lists open_ start (devices_named 0) lists
  exact absurd ended.reaches (by decide)

end Mp3Kernel.DirectoryRead

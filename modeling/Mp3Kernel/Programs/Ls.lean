import Mp3Kernel.Kernel.DirectoryRead
import Mp3Kernel.Programs.Reading

/-!
The program ls: it opens the directory and writes each name that it reads on a
line of its own, until a read returns 0.
-/
namespace Mp3Kernel.Ls
open Mp3Kernel.Memory Mp3Kernel.CString Mp3Kernel.Filesys Mp3Kernel.Tasks Mp3Kernel.UserLibrary Mp3Kernel.Reading
open Mp3Kernel.Descriptors (resolve AllOpen Lowest is_open table_setFile directory_read)
open Mp3Kernel.DirectoryRead (entry_name entry_name_le entry_name_nil Ended name_stored entry_name_length devices)
open Mp3Kernel.UserPointers (Machine do_read do_write)
open Mp3Kernel.Tty (Console)

section
-- where the buffer, the name "." and the messages of `main` lie
variable (buf dot open_failed read_failed : Nat)

def ls_loop (read : Nat → Int → Machine → Option (Int × Machine)) : Nat → Machine → Option (Int × Machine)
  | 0, _ => none
  | fuel + 1, m =>
    (read buf 32 m).bind fun (cnt,m) =>
      if cnt = 0 then some (0,m)
      else if cnt = -1 then (ece391_fdputs 1 read_failed fuel m).map fun m => (3,m)
      else
        let m := { m with mem := Function.update m.mem (buf + cnt.toNat) (ascii '\n') }
        (do_write 1 buf (cnt + 1) m).bind fun (ret,m) => if ret = -1 then some (3,m) else ls_loop read fuel m

def main (file_sys : FileSys) (wait : Console → Int × List Byte × Console) (fuel : Nat) (m : Machine) :
    Option (Int × Machine) :=
  (ece391_open file_sys dot fuel m).bind fun (fd,m) =>
    if fd = -1 then (ece391_fdputs 1 open_failed fuel m).map fun m => (2,m)
    else ls_loop buf read_failed (do_read file_sys wait fd) fuel m

end

/-- The names from entry `i` on up to the first empty one, among `n` entries. -/
def names (file_sys : FileSys) (i n : Nat) : List (List Byte) :=
  ((List.range' i n).map (entry_name file_sys)).takeWhile (· ≠ [])

/-- Each on a line of its own. -/
def lines (names : List (List Byte)) : List Byte := names.flatMap (· ++ [ascii '\n'])

/-- Descriptor `fd` is open on the directory. -/
structure Lists (fd : Int) (task : Task) : Prop where
  descriptor : 2 ≤ fd ∧ fd ≤ 7
  opened : is_open (task.files fd) = true
  fops : (task.files fd).fops = some .dir_fops

variable {buf dot open_failed read_failed : Nat} {file_sys : FileSys} {fd : Int} {m : Machine}
  {wait : Console → Int × List Byte × Console}

/-- The task after the name at its offset was read. -/
def moved (fd : Int) (task : Task) : Task :=
  task.setFile fd { task.files fd with offset := u32 ((task.files fd).offset + 1) }

theorem lists_moved {task : Task} (lists : Lists fd task) (inside : (task.files fd).offset ≤ file_sys.num_inodes)
    (small : file_sys.num_inodes < DENTRY_NUM) :
    Lists fd (moved fd task) ∧ ((moved fd task).files fd).offset = (task.files fd).offset + 1 := by
  simp only [DENTRY_NUM] at small
  refine ⟨⟨lists.descriptor,by rw [moved,setFile_same]; exact lists.opened,by rw [moved,setFile_same]; exact lists.fops⟩,?_⟩
  rw [moved,setFile_same,u32_small (by omega) (by omega)]
  rfl

theorem running_moved (running : Running m) (lists : Lists fd m.task) (mem : Mem) :
    Running { m with mem := mem, task := moved fd m.task } := by
  have range := lists.descriptor
  exact ⟨running.pid,running.mapped,table_setFile running.table range.1 (running.table.fops fd range.1 (by omega))⟩

/-- One read: the name at the offset, or nothing past the inodes. -/
theorem do_read_name (running : Running m) (lists : Lists fd m.task) (inside : InPage buf 33) :
    do_read file_sys wait fd buf 32 m =
      if (m.task.files fd).offset > file_sys.num_inodes then some (0,{ m with mem := storeBytes m.mem buf [] })
      else some (((entry_name file_sys (m.task.files fd).offset).length : Int),
        { m with
          mem := storeBytes m.mem buf (entry_name file_sys (m.task.files fd).offset)
          task := moved fd m.task }) := by
  have range := lists.descriptor
  have low := inside.1
  have high := inside.2
  have put (task : Task) (stored : List Byte) (room : stored.length ≤ 33) (after : Running { m with task := task }) :
      ({ m with task := task } : Machine).put buf stored =
        some { m with mem := storeBytes m.mem buf stored, task := task } :=
    put_page after ⟨low,by omega⟩
  rw [do_read,if_pos (is_user_ptr_page running low),if_neg (by omega),if_neg (by omega),if_pos lists.opened,lists.fops,
    Option.bind_some,UserPointers.Fops.read,directory_read,if_neg (by omega)]
  dsimp only
  by_cases past : (m.task.files fd).offset > file_sys.num_inodes
  · rw [if_pos past,if_pos past]
    dsimp only
    rw [Option.bind_some,put m.task [] (Nat.zero_le _) running]
    rfl
  · rw [if_neg past,if_neg past]
    dsimp only
    have short : (entry_name file_sys (m.task.files fd).offset).length ≤ 32 := entry_name_le _
    rw [Option.bind_some,name_stored,put _ _ (by omega),← entry_name_length]
    · rfl
    · exact running_moved running lists m.mem

theorem names_cons (i n : Nat) : names file_sys i (n + 1) =
    if entry_name file_sys i = [] then [] else entry_name file_sys i :: names file_sys (i + 1) n := by
  rw [names,List.range'_succ,List.map_cons,List.takeWhile_cons]
  by_cases unnamed : entry_name file_sys i = []
  · simp [unnamed]
  · simp [unnamed,names]

variable (read_failed wait) in
/-- The loop prints the names that are left. -/
theorem ls_loop_lists (inside : InPage buf 33) (small : file_sys.num_inodes < DENTRY_NUM) (fuel : Nat) {m : Machine}
    {n : Nat} (running : Running m) (lists : Lists fd m.task)
    (left : (m.task.files fd).offset + n = file_sys.num_inodes + 1) (enough : n < fuel) :
    ∃ m', ls_loop buf read_failed (do_read file_sys wait fd) fuel m = some (0,m') ∧
      m'.console = (print m (lines (names file_sys (m.task.files fd).offset n))).console := by
  induction fuel generalizing m n with
  | zero => omega
  | succ fuel ih =>
    rw [ls_loop,do_read_name running lists inside]
    cases n with
    | zero =>
      rw [if_pos (by omega),Option.bind_some]
      exact ⟨_,if_pos rfl,rfl⟩
    | succ n =>
      rw [if_neg (by omega),Option.bind_some,names_cons]
      dsimp only
      by_cases unnamed : entry_name file_sys (m.task.files fd).offset = []
      · rw [if_pos unnamed,if_pos (by rw [unnamed]; rfl)]
        exact ⟨_,rfl,rfl⟩
      have positive := List.length_pos_iff.mpr unnamed
      have short : (entry_name file_sys (m.task.files fd).offset).length ≤ 32 := entry_name_le _
      rw [if_neg unnamed,if_neg (by omega),if_neg (by omega),Int.toNat_natCast]
      have after := running_moved running lists
        (storeBytes m.mem buf (entry_name file_sys (m.task.files fd).offset ++ [ascii '\n']))
      obtain ⟨lists',offset⟩ := lists_moved lists (show (m.task.files fd).offset ≤ file_sys.num_inodes by omega) small
      generalize named : entry_name file_sys (m.task.files fd).offset = name at *
      generalize task_eq : moved fd m.task = task at *
      -- the newline is stored behind the name
      have line := update_storeBytes m.mem buf name (ascii '\n')
      have written := do_write_prints after (s := name ++ [ascii '\n'])
        ⟨inside.1,by have high := inside.2; simp only [List.length_append,List.length_singleton]; omega⟩
        (bytes_storeBytes m.mem buf _)
      rw [List.length_append,List.length_singleton,Nat.cast_add,Nat.cast_one] at written
      rw [line,written,Option.bind_some]
      dsimp only
      rw [if_neg (by decide)]
      obtain ⟨m',returned,shows⟩ := ih (n := n) (after.print (name ++ [ascii '\n'])) lists'
        (by rw [print_task,offset]; omega) (by omega)
      refine ⟨m',returned,shows.trans ?_⟩
      rw [print_print,print_task]
      dsimp only
      rw [offset]
      rfl

/-! ### The program -/

/-- What ends the listing: the number of inodes, or an entry without name. -/
def listing (file_sys : FileSys) : List (List Byte) := names file_sys 0 (file_sys.num_inodes + 1)

theorem names_all {i n k : Nat} (named : ∀ j < n, entry_name file_sys (i + j) ≠ [])
    (ends : k = 0 ∨ entry_name file_sys (i + n) = []) :
    names file_sys i (n + k) = (List.range' i n).map (entry_name file_sys) := by
  induction n generalizing i with
  | zero =>
    cases k with
    | zero => rfl
    | succ k =>
      have unnamed : entry_name file_sys i = [] := ends.resolve_left (Nat.succ_ne_zero k)
      rw [Nat.zero_add,names_cons,if_pos unnamed]
      rfl
  | succ n ih =>
    have first : entry_name file_sys i ≠ [] := named 0 (Nat.succ_pos n)
    rw [Nat.add_right_comm,names_cons,if_neg first,List.range'_succ,List.map_cons]
    congr 1
    refine ih ?_ ?_
    · intro j below
      rw [Nat.add_assoc,Nat.add_comm 1 j]
      exact named (j + 1) (by omega)
    · rwa [Nat.add_assoc,Nat.add_comm 1 n]

/-- Where the number of inodes marks the end of the directory, all its names
    are listed. -/
theorem listing_whole (ended : Ended file_sys)
    (named : ∀ i < file_sys.num_dentries, (file_sys.dentries i).file_name 0 ≠ 0) :
    listing file_sys = (List.range file_sys.num_dentries).map (entry_name file_sys) := by
  obtain ⟨k,count⟩ : ∃ k, file_sys.num_inodes + 1 = file_sys.num_dentries + k :=
    ⟨file_sys.num_inodes + 1 - file_sys.num_dentries,by have := ended.reaches; omega⟩
  rw [listing,count,List.range_eq_range']
  refine names_all (fun j below => ?_) ?_
  · rw [Nat.zero_add]
    exact fun unnamed => named j below (entry_name_nil.mp unnamed)
  · by_cases last : k = 0
    · exact .inl last
    · right
      rw [Nat.zero_add]
      exact entry_name_nil.mpr (ended.unnamed _ le_rfl (by omega))

/-- The name "." opens the directory at its start. -/
theorem open_lists (running : Running m) (text : Text m.mem dot [ascii '.']) (directory : (file_sys.dentries 0).file_type = 1)
    (free : ¬ AllOpen m.task.files) {fuel : Nat} (enough : 1 < fuel) :
    ∃ fd file, Lowest m.task.files fd ∧
      ece391_open file_sys dot fuel m = some (fd,{ m with task := m.task.setFile fd file }) ∧
        Running { m with task := m.task.setFile fd file } ∧ Lists fd (m.task.setFile fd file) ∧
          ((m.task.setFile fd file).files fd).offset = 0 := by
  have found : ∃ dentry, resolve file_sys [ascii '.'] = some dentry ∧ dentry.file_type = 1 := ⟨_,if_pos rfl,directory⟩
  obtain ⟨dentry,found,type⟩ := found
  obtain ⟨fd,lowest,opens,after⟩ := open_done running text found (by omega) free enough
  have bounds := And.intro lowest.1 lowest.2.1
  refine ⟨fd,_,lowest,opens,after,⟨by omega,?_,?_⟩,?_⟩
  · rw [setFile_same]
    exact Descriptors.is_open_opened dentry
  · rw [setFile_same,Descriptors.opened,type]
    rfl
  · rw [setFile_same]
    rfl

/-- `ls` prints the listing, which is the whole directory where the number of
    inodes marks its end. -/
theorem ls_prints (wait : Console → Int × List Byte × Console) (running : Running m) (inside : InPage buf 33)
    (text : Text m.mem dot [ascii '.']) (directory : (file_sys.dentries 0).file_type = 1)
    (small : file_sys.num_inodes < DENTRY_NUM) (free : ¬ AllOpen m.task.files) {fuel : Nat}
    (enough : file_sys.num_inodes + 1 < fuel) :
    (∃ m', main buf dot open_failed read_failed file_sys wait fuel m = some (0,m') ∧
      m'.console = (print m (lines (listing file_sys))).console) ∧
    (Ended file_sys → (∀ i < file_sys.num_dentries, (file_sys.dentries i).file_name 0 ≠ 0) →
      listing file_sys = (List.range file_sys.num_dentries).map (entry_name file_sys)) := by
  refine ⟨?_,listing_whole⟩
  obtain ⟨fd,file,lowest,opens,after,lists,start⟩ := open_lists running text directory free (show 1 < fuel by omega)
  have low := lowest.1
  obtain ⟨m',returned,shows⟩ := ls_loop_lists read_failed wait inside small fuel (n := file_sys.num_inodes + 1) after lists
    (by dsimp only; rw [start]; omega) enough
  refine ⟨m',?_,?_⟩
  · rw [main,opens,Option.bind_some]
    dsimp only
    rw [if_neg (by omega)]
    exact returned
  · rw [shows,listing]
    dsimp only
    rw [start]
    rfl

/-- A task whose page holds the name "." behind the buffer. -/
def machine : Machine :=
  { UserPointers.machine with
    task := Descriptors.new_task
    mem := fun a => if a = 0x8000100 then ascii '.' else 0 }

theorem ls_prints_devices : ∃ m', main 0x8000000 0x8000100 0 0 (devices 1) (fun c => (0,[],c)) 5 machine = some (0,m') ∧
    m'.console = (print machine [ascii '.',ascii '\n',ascii 'r',ascii 't',ascii 'c',ascii '\n']).console := by
  have text : Text machine.mem 0x8000100 [ascii '.'] := by
    refine ⟨bytes_cons.mpr ⟨rfl,bytes_nil⟩,rfl,?_⟩
    intro c inside
    obtain rfl := List.mem_singleton.mp inside
    decide
  have running : Running machine :=
    ⟨by decide,fun _ _ _ => rfl,(Descriptors.sound_init_files FileRead.reader.files).table⟩
  obtain ⟨prints,-⟩ := ls_prints (fun c => (0,[],c)) running (show InPage 0x8000000 33 by unfold InPage; decide) text
    (show ((devices 1).dentries 0).file_type = 1 from rfl) (by decide)
    (fun all => absurd (all 2 (by decide) (by decide)) (by decide)) (show (devices 1).num_inodes + 1 < 5 by decide)
  exact prints

end Mp3Kernel.Ls

import Mp3Kernel.Programs.Reading

/-!
The program cat: it opens the file that its argument names and writes what it
reads until a read returns 0.
-/
namespace Mp3Kernel.Cat
open Mp3Kernel.Memory Mp3Kernel.CString Mp3Kernel.Filesys Mp3Kernel.Tasks Mp3Kernel.UserLibrary Mp3Kernel.Reading
open Mp3Kernel.Descriptors (resolve AllOpen)
open Mp3Kernel.UserPointers (Machine do_read do_write do_getargs ArgsLength)
open Mp3Kernel.Tty (Console)

section
-- where the buffer and the messages of `main` lie
variable (buf could_not_read not_found read_failed : Nat)

def cat_loop (read : Nat → Int → Machine → Option (Int × Machine)) : Nat → Machine → Option (Int × Machine)
  | 0, _ => none
  | fuel + 1, m =>
    (read buf 1024 m).bind fun (cnt,m) =>
      if cnt = 0 then some (0,m)
      else if cnt = -1 then (ece391_fdputs 1 read_failed fuel m).map fun m => (3,m)
      else (do_write 1 buf cnt m).bind fun (ret,m) => if ret = -1 then some (3,m) else cat_loop read fuel m

def main (file_sys : FileSys) (wait : Console → Int × List Byte × Console) (fuel : Nat) (m : Machine) :
    Option (Int × Machine) :=
  (do_getargs buf 1024 m).bind fun (ret,m) =>
    if ret ≠ 0 then (ece391_fdputs 1 could_not_read fuel m).map fun m => (3,m) else
      (ece391_open file_sys buf fuel m).bind fun (fd,m) =>
        if fd = -1 then (ece391_fdputs 1 not_found fuel m).map fun m => (2,m)
        else cat_loop buf read_failed (do_read file_sys wait fd) fuel m

end

variable {buf could_not_read not_found read_failed : Nat} {read : Nat → Int → Machine → Option (Int × Machine)}
  {R : Task → Nat → List Byte → Prop} {file_sys : FileSys}

variable (read_failed) in
/-- Over a read that serves a content the loop prints it. The induction is on
    what is left of it. -/
theorem cat_loop_prints (serves : Serves read (· = 1024) R) (inside : InPage buf 1024) (fuel : Nat) {m : Machine}
    {content : List Byte} (running : Running m) (next : R m.task 1024 content) (enough : content.length < fuel) :
    ∃ m', cat_loop buf read_failed read fuel m = some (0,m') ∧ m'.console = (print m content).console := by
  induction fuel generalizing m content with
  | zero => omega
  | succ fuel ih =>
    obtain ⟨stored,task,answered,-,counted,after,later⟩ := serves.answers running inside next
    have answered : read buf 1024 m = _ := answered
    rw [cat_loop,answered,Option.bind_some]
    by_cases done : content = []
    · subst done
      exact ⟨_,if_pos rfl,rfl⟩
    · have some_left := List.length_pos_iff.mpr done
      have bytes : Bytes (storeBytes m.mem buf stored) buf (content.take 1024) :=
        counted ▸ (bytes_storeBytes m.mem buf stored).take _
      have written := do_write_prints after ⟨inside.1,by
        have high := inside.2
        rw [List.length_take]
        omega⟩ bytes
      rw [List.length_take] at written
      dsimp only
      rw [if_neg (by omega),if_neg (by omega),written,Option.bind_some]
      dsimp only
      rw [if_neg (by decide)]
      obtain ⟨m',returned,shows⟩ := ih (after.print _) (later 1024 rfl) (by rw [List.length_drop]; omega)
      refine ⟨m',returned,shows.trans ?_⟩
      rw [print_print,List.take_append_drop]
      rfl

/-- The arguments are stored as a string where a buffer of 1024 bytes has room
    for them. -/
theorem getargs_text {m : Machine} {n : Nat} (running : Running m) (inside : InPage buf 1024)
    (length : ArgsLength m.task.args n) (short : n < 1023) :
    let args := (List.range n).map m.task.args
    do_getargs buf 1024 m = some (0,{ m with mem := storeBytes m.mem buf (args ++ [0]) }) ∧
      Text (storeBytes m.mem buf (args ++ [0])) buf args := by
  have pointer : buf ≠ 0 := by
    have low := inside.1
    dsimp only [EXECUTION_ADDR] at low
    omega
  have size := UserPointers.args_size_length length (show n ≤ Int.toNat 1024 by change n ≤ 1024; omega)
  have stored : (List.range (n + 1)).map m.task.args = (List.range n).map m.task.args ++ [0] := by
    rw [List.range_succ,List.map_append,List.map_singleton,length.1]
  constructor
  · rw [UserPointers.do_getargs_eq 1024 (is_user_ptr_page running inside.1) pointer,size,if_neg (by omega),stored,
      put_page running ⟨inside.1,by have high := inside.2; simp; omega⟩]
    rfl
  · have bytes := bytes_append.mp (bytes_storeBytes m.mem buf ((List.range n).map m.task.args ++ [0]))
    refine ⟨bytes.1,(bytes_cons.mp bytes.2).1,?_⟩
    intro c stored
    obtain ⟨i,below,rfl⟩ := List.mem_map.mp stored
    exact length.2 i (List.mem_range.mp below)

/-- A file `f` with the text `hi`, -/
def note : FileSys where
  num_dentries := 1
  num_inodes := 1
  num_blocks := 1
  dentries := fun _ => { file_name := fun j => if j = 0 then 102 else 0, file_type := 2, inode_num := 0 }
  inodes := fun _ => { len := 3, dblocks := fun _ => 0 }
  data := fun _ i => [104,105,10].getD i 0

/-- and a task that was given its name. -/
def machine : Machine :=
  { UserPointers.machine with
    task := { Descriptors.new_task with args := fun i => if i = 0 then 102 else 0 } }

theorem wellFormed_note : WellFormed note where
  blocks := fun _ _ _ _ => Nat.zero_lt_one
  size := fun _ _ => by dsimp only [note]; decide

theorem running_machine : Running machine :=
  ⟨by decide,fun _ _ _ => rfl,(Descriptors.sound_init_files FileRead.reader.files).table⟩

end Mp3Kernel.Cat

import Mp3Kernel.Kernel.Descriptors
import Mp3Kernel.Terminal.Console

/-!
The system calls that follow a pointer of their caller, with the memory behind
it. `is_user_ptr` answers −1 outside the alias of the task's frame, which is
true in C: all but `do_vidmap` go on exactly with the pointers it turns down,
and `do_vidmap` turns down those it accepts.
-/
namespace Mp3Kernel.UserPointers
open Mp3Kernel.Memory Mp3Kernel.Filesys Mp3Kernel.Tasks
open Mp3Kernel.FileRead (file_read)
open Mp3Kernel.Descriptors (is_user_ptr is_open directory_read)
open Mp3Kernel.Tty (Console terminal_write terminal_read_start)

abbrev VIRTUAL_VID_MEM : Nat := 0x10000000
abbrev VIDEO : Nat := 0xB8000
abbrev INT_MAX : Int := 2147483647

/-- The running task, memory as its page directory maps it, and the console of
    which it executes terminal `cur_ptree`. -/
structure Machine where
  task : Task
  mem : Mem
  mapped : Nat → Bool
  console : Console
  cur_ptree : Int

/-- Every byte of a range is mapped. -/
def Machine.reaches (m : Machine) (ptr n : Nat) : Bool := (List.range n).all (fun i => m.mapped (ptr + i))

/-- Stores through a pointer; nothing is a fault. -/
def Machine.put (m : Machine) (ptr : Nat) (bytes : List Byte) : Option Machine :=
  if m.reaches ptr bytes.length then some { m with mem := storeBytes m.mem ptr bytes } else none

/-! ### rtc.c -/

/-- The sum overflows for an odd factor. -/
def rtc_get_power_of_2 : Nat → Int → Int
  | 0, _ => 0
  | fuel + 1, number =>
    if number = 1 then 0
    else if number % 2 = 1 then INT_MAX
    else i32 (u32 (1 + rtc_get_power_of_2 fuel (number / 2)))

def rtc_set_frequency (frequency : Int) : Int :=
  if frequency < 2 ∨ frequency > 1024 then -1
  else if rtc_get_power_of_2 11 frequency = INT_MAX then -1
  else 0

/-! ### The system calls -/

section
variable (file_sys : FileSys)
-- what the wait for a line comes to: the value returned, the bytes copied, and the console
variable (wait : Console → Int × List Byte × Console)

def terminal_read (buf : Nat) (nbytes : Int) (m : Machine) : Option (Int × Machine) :=
  match terminal_read_start m.cur_ptree (buf == 0) nbytes m.console with
  | (some ret,c) => some (ret,{ m with console := c })
  | (none,c) =>
    let (ret,output,c) := wait c
    ({ m with console := c }.put buf output).map fun m => (ret,m)

def Fops.read (fd : Int) (buf : Nat) (nbytes : Int) (m : Machine) : Fops → Option (Int × Machine)
  | .file_fops =>
    (file_read file_sys (some m.task) fd nbytes).bind fun (r,task) =>
      task.bind fun task => ({ m with task := task }.put buf (r.bytes file_sys)).map fun m => (r.ret,m)
  | .dir_fops =>
    let (ret,name,task) := directory_read file_sys (some m.task) fd
    task.bind fun task => ({ m with task := task }.put buf name).map fun m => (ret,m)
  | .rtc_fops => some (0,m)
  | .term_fops => terminal_read wait buf nbytes m

/-- `terminal_write` reads its buffer, unless it is null or nothing is asked. -/
def Fops.write (buf : Nat) (nbytes : Int) (m : Machine) : Fops → Option (Int × Machine)
  | .file_fops | .dir_fops => some (-1,m)
  | .rtc_fops => if m.reaches buf 4 then some (rtc_set_frequency (load32 m.mem buf).toInt,m) else none
  | .term_fops =>
    if buf = 0 ∨ m.reaches buf nbytes.toNat then
      let buffer := if buf = 0 then none else some fun i : Int => m.mem (buf + i.toNat)
      let (ret,c) := terminal_write m.cur_ptree buffer nbytes m.console
      some (ret,{ m with console := c })
    else none

def do_read (fd : Int) (buf : Nat) (nbytes : Int) (m : Machine) : Option (Int × Machine) :=
  if is_user_ptr m.task buf ≠ 0 then
    if fd < 0 then some (-1,m) else if fd > 7 then some (-1,m)
    else if is_open (m.task.files fd) then (m.task.files fd).fops.bind (Fops.read file_sys wait fd buf nbytes m)
    else some (-1,m)
  else some (-1,m)

end

def do_write (fd : Int) (buf : Nat) (nbytes : Int) (m : Machine) : Option (Int × Machine) :=
  if is_user_ptr m.task buf ≠ 0 then
    if fd < 0 then some (-1,m) else if fd > 7 then some (-1,m)
    else if is_open (m.task.files fd) then (m.task.files fd).fops.bind (Fops.write buf nbytes m)
    else some (-1,m)
  else some (-1,m)

/-- The scan for the end of the arguments from `size` on, with `fuel` tests
    left. -/
def args_size (args : Nat → Byte) (size : Nat) : Nat → Nat
  | 0 => size
  | fuel + 1 => if args size ≠ 0 then args_size args (size + 1) fuel else size

def do_getargs (buf : Nat) (nbytes : Int) (m : Machine) : Option (Int × Machine) :=
  if is_user_ptr m.task buf ≠ 0 then
    if buf = 0 then some (-1,m) else
      let size := args_size m.task.args 0 nbytes.toNat
      if (size : Int) = nbytes - 1 then some (-1,m)
      -- the copy includes `size`
      else (m.put buf ((List.range (size + 1)).map m.task.args)).map fun m => (0,m)
  else some (-1,m)

def word_bytes (v : Word) : List Byte := [v.extractLsb' 0 8,v.extractLsb' 8 8,v.extractLsb' 16 8,v.extractLsb' 24 8]

def do_vidmap (screen_start : Nat) (m : Machine) : Option (Int × Machine) :=
  if is_user_ptr m.task screen_start = 0 then some (-1,m)
  else (m.put screen_start (word_bytes (BitVec.ofNat 32 (VIRTUAL_VID_MEM + VIDEO)))).map fun m => (0,m)

inductive Call where
  | read (fd : Int) (buf : Nat) (nbytes : Int)
  | write (fd : Int) (buf : Nat) (nbytes : Int)
  | getargs (buf : Nat) (nbytes : Int)
  | vidmap (screen_start : Nat)

def Call.pointer : Call → Nat
  | .read _ buf _ => buf
  | .write _ buf _ => buf
  | .getargs buf _ => buf
  | .vidmap screen_start => screen_start

def Call.result (file_sys : FileSys) (wait : Console → Int × List Byte × Console) (m : Machine) :
    Call → Option (Int × Machine)
  | .read fd buf nbytes => do_read file_sys wait fd buf nbytes m
  | .write fd buf nbytes => do_write fd buf nbytes m
  | .getargs buf nbytes => do_getargs buf nbytes m
  | .vidmap screen_start => do_vidmap screen_start m

/-! ### Foreign pointers -/

/-- Neither in the task's page at `EXECUTION_ADDR` nor in the alias of its
    frame. -/
def Foreign (task : Task) (ptr : Nat) : Prop :=
  ¬ (EXECUTION_ADDR ≤ ptr ∧ ptr < EXECUTION_ADDR + SIZE_4MB_PAGE) ∧
    ¬ (get_task_addr task.pid ≤ ptr ∧ ptr < u32 (get_task_addr task.pid + SIZE_4MB_PAGE))

/-- The result is −1, with neither memory nor a descriptor changed. -/
def RefusedBy (m : Machine) (result : Option (Int × Machine)) : Prop :=
  ∃ m', result = some (-1,m') ∧ m'.mem = m.mem ∧ m'.task.files = m.task.files

def Refused (file_sys : FileSys) (wait : Console → Int × List Byte × Console) (m : Machine) (call : Call) : Prop :=
  RefusedBy m (call.result file_sys wait m)

/-- The bytes are there already. -/
def Holds (m : Machine) (ptr : Nat) (bytes : List Byte) : Prop :=
  ∀ i (inside : i < bytes.length), m.mapped (ptr + i) = true ∧ m.mem (ptr + i) = bytes[i]

/-- The operation behind an open descriptor fails without looking at where the
    pointer leads: a read of the terminal that gets no line, or of a file whose
    inode leads nowhere. -/
def ReadFails (file_sys : FileSys) (wait : Console → Int × List Byte × Console) (m : Machine) (fd : Int) (buf : Nat)
    (nbytes : Int) : Fops → Prop
  | .term_fops =>
    buf = 0 ∨ 0 < nbytes ∧
      let outcome := wait (terminal_read_start m.cur_ptree false nbytes m.console).2
      outcome.1 = -1 ∧ Holds m buf outcome.2.1
  | .file_fops =>
    ∃ node, (m.task.files fd).inode = some node ∧ (m.task.files fd).offset < (file_sys.inodes node).len ∧
      let r := read_data file_sys (m.task.files fd).dentry.inode_num (m.task.files fd).offset
        (min (file_sys.inodes node).len (u32 nbytes))
      r.ret = -1 ∧ Holds m buf (r.bytes file_sys)
  | .dir_fops | .rtc_fops => False

def WriteFails (m : Machine) (buf : Nat) : Fops → Prop
  | .term_fops => buf = 0
  | .rtc_fops =>
    m.reaches buf 4 = true ∧
      let frequency := (load32 m.mem buf).toInt
      (frequency < 2 ∨ frequency > 1024 ∨ frequency % 2 = 1)
  | .file_fops | .dir_fops => True

/-- No open descriptor, or one whose operation fails. -/
def Fails (file_sys : FileSys) (wait : Console → Int × List Byte × Console) (m : Machine) : Call → Prop
  | .read fd buf nbytes =>
    fd < 0 ∨ 7 < fd ∨ is_open (m.task.files fd) = false ∨
      ∃ fops, (m.task.files fd).fops = some fops ∧ ReadFails file_sys wait m fd buf nbytes fops
  | .write fd buf _ =>
    fd < 0 ∨ 7 < fd ∨ is_open (m.task.files fd) = false ∨
      ∃ fops, (m.task.files fd).fops = some fops ∧ WriteFails m buf fops
  | .getargs buf nbytes =>
    buf = 0 ∨ 1 ≤ nbytes ∧ m.task.args (nbytes.toNat - 1) = 0 ∧ ∀ i < nbytes.toNat - 1, m.task.args i ≠ 0
  | .vidmap _ => False

variable {file_sys : FileSys} {wait : Console → Int × List Byte × Console} {m : Machine} {ptr : Nat}

/-- The check answers −1 for a foreign pointer, which its callers take for
    true. -/
theorem is_user_ptr_foreign {task : Task} (foreign : Foreign task ptr) : is_user_ptr task ptr ≠ 0 := by
  have outside := foreign.2
  rw [is_user_ptr,if_pos (by omega)]
  decide

theorem reaches_iff {n : Nat} : m.reaches ptr n = true ↔ ∀ i < n, m.mapped (ptr + i) = true := by
  simp [Machine.reaches]

theorem storeBytes_same_iff {mem : Mem} {bytes : List Byte} :
    storeBytes mem ptr bytes = mem ↔ ∀ i (inside : i < bytes.length), mem (ptr + i) = bytes[i] := by
  constructor
  · intro same i inside
    rw [← storeBytes_inside (m := mem) (a := ptr) inside,same]
  · intro there
    funext b
    by_cases inside : ptr ≤ b ∧ b < ptr + bytes.length
    · obtain ⟨i,rfl⟩ : ∃ i, b = ptr + i := ⟨b - ptr,by omega⟩
      rw [storeBytes_inside (by omega),there i (by omega)]
    · exact storeBytes_outside (by omega)

/-- A store that goes through and changes nothing. -/
theorem put_same_iff {bytes : List Byte} : (∃ m', m.put ptr bytes = some m' ∧ m'.mem = m.mem) ↔ Holds m ptr bytes := by
  rw [Machine.put]
  by_cases reached : m.reaches ptr bytes.length = true
  · rw [if_pos reached]
    rw [reaches_iff] at reached
    constructor
    · rintro ⟨m',same,kept⟩
      obtain rfl := Option.some.inj same
      intro i inside
      exact ⟨reached i inside,storeBytes_same_iff.mp kept i inside⟩
    · intro there
      exact ⟨_,rfl,storeBytes_same_iff.mpr fun i inside => (there i inside).2⟩
  · rw [if_neg reached]
    constructor
    · rintro ⟨m',impossible,-⟩
      cases impossible
    · intro there
      exact absurd (reaches_iff.mpr fun i inside => (there i inside).1) reached

theorem put_keeps {bytes : List Byte} {m' : Machine} (done : m.put ptr bytes = some m') :
    m'.task = m.task ∧ m'.console = m.console := by
  rw [Machine.put] at done
  split at done
  · cases done
    exact ⟨rfl,rfl⟩
  · cases done

/-! ### The same calls on the descriptor table -/

theorem put_everywhere (everywhere : ∀ a, m.mapped a = true) (bytes : List Byte) :
    m.put ptr bytes = some { m with mem := storeBytes m.mem ptr bytes } := by
  rw [Machine.put,if_pos (reaches_iff.mpr fun i _ => everywhere _)]

/-- Both models dispatch a read alike. -/
theorem do_read_dispatch {file_sys : FileSys} {wait : Console → Int × List Byte × Console} {fd nbytes device : Int}
    {buf : Nat} (op : ∀ fops, (m.task.files fd).fops = some fops →
      (Fops.read file_sys wait fd buf nbytes m fops).map (fun (ret,m) => (ret,m.task)) =
        Descriptors.Fops.read file_sys device m.task fd nbytes fops) :
    (do_read file_sys wait fd buf nbytes m).map (fun (ret,m) => (ret,m.task)) =
      Descriptors.do_read file_sys device fd buf nbytes m.task := by
  rw [do_read,Descriptors.do_read]
  split
  · split
    · rfl
    · split
      · rfl
      · split
        · cases table : (m.task.files fd).fops with
          | none => rfl
          | some fops => exact op fops table
        · rfl
  · rfl

theorem terminal_read_task (wait : Console → Int × List Byte × Console) (buf : Nat) (nbytes : Int)
    (everywhere : ∀ a, m.mapped a = true) :
    ∃ ret m', terminal_read wait buf nbytes m = some (ret,m') ∧ m'.task = m.task := by
  rw [terminal_read]
  split
  · exact ⟨_,_,rfl,rfl⟩
  · rename_i c _
    have stored : { m with console := (wait c).2.2 }.put buf (wait c).2.1 = some _ :=
      put_everywhere (m := { m with console := (wait c).2.2 }) everywhere _
    exact ⟨_,_,congrArg (Option.map fun m => ((wait c).1,m)) stored,rfl⟩

/-- Where nothing faults, a read does to the table what `Descriptors.do_read`
    says, with whatever a device returns. -/
theorem do_read_task (file_sys : FileSys) (wait : Console → Int × List Byte × Console) (fd : Int) (buf : Nat) (nbytes : Int)
    (everywhere : ∀ a, m.mapped a = true) : ∃ device,
      (do_read file_sys wait fd buf nbytes m).map (fun (ret,m) => (ret,m.task)) =
        Descriptors.do_read file_sys device fd buf nbytes m.task := by
  cases table : (m.task.files fd).fops with
  | none => exact ⟨0,do_read_dispatch fun fops same => by rw [table] at same; cases same⟩
  | some fops =>
    have only {device : Int} (op : (Fops.read file_sys wait fd buf nbytes m fops).map (fun (ret,m) => (ret,m.task)) =
        Descriptors.Fops.read file_sys device m.task fd nbytes fops) := do_read_dispatch fun other same => by
      obtain rfl := Option.some.inj (table.symm.trans same)
      exact op
    cases fops with
    | rtc_fops => exact ⟨0,only rfl⟩
    | term_fops =>
      obtain ⟨ret,m',returned,task⟩ := terminal_read_task wait buf nbytes everywhere
      refine ⟨ret,only ?_⟩
      rw [Fops.read,Descriptors.Fops.read,returned,← task]
      rfl
    | dir_fops =>
      refine ⟨0,only ?_⟩
      rw [Fops.read,Descriptors.Fops.read]
      cases directory_read file_sys (some m.task) fd with
      | mk ret rest =>
        obtain ⟨name,task⟩ := rest
        cases task with
        | none => rfl
        | some task =>
          dsimp only
          rw [Option.bind_some,put_everywhere (m := { m with task := task }) everywhere]
          rfl
    | file_fops =>
      refine ⟨0,only ?_⟩
      rw [Fops.read,Descriptors.Fops.read]
      cases file_read file_sys (some m.task) fd nbytes with
      | none => rfl
      | some outcome =>
        obtain ⟨r,task⟩ := outcome
        cases task with
        | none => rfl
        | some task =>
          dsimp only
          rw [Option.bind_some,Option.bind_some,put_everywhere (m := { m with task := task }) everywhere]
          rfl

/-! ### The frequencies that the RTC refuses -/

theorem i32_u32 {n : Int} (low : -2147483648 ≤ n) (high : n < 2147483648) : i32 (u32 n) = n := by
  rw [i32,BitVec.toInt_eq_toNat_cond,BitVec.toNat_ofNat,u32]
  split <;> omega

theorem rtc_get_power_of_2_bound {fuel : Nat} (few : fuel ≤ 100) (number : Int) :
    rtc_get_power_of_2 fuel number = INT_MAX ∨
      -2147483648 ≤ rtc_get_power_of_2 fuel number ∧ rtc_get_power_of_2 fuel number ≤ fuel := by
  induction fuel generalizing number with
  | zero => exact .inr ⟨show (-2147483648 : Int) ≤ 0 from by decide,le_rfl⟩
  | succ fuel ih =>
    rw [rtc_get_power_of_2]
    by_cases one : number = 1
    · rw [if_pos one]
      exact .inr ⟨by decide,by omega⟩
    · rw [if_neg one]
      by_cases odd : number % 2 = 1
      · rw [if_pos odd]
        exact .inl rfl
      · rw [if_neg odd]
        rcases ih (by omega) (number / 2) with overflow | ⟨low,high⟩
        · rw [overflow]
          exact .inr ⟨by decide,le_trans (b := 0) (by decide) (by omega)⟩
        · rw [i32_u32 (by omega) (by omega)]
          exact .inr ⟨by omega,by omega⟩

theorem rtc_set_frequency_refuses_iff (frequency : Int) :
    rtc_set_frequency frequency = -1 ↔ frequency < 2 ∨ frequency > 1024 ∨ frequency % 2 = 1 := by
  rw [rtc_set_frequency]
  by_cases out : frequency < 2 ∨ frequency > 1024
  · rw [if_pos out]
    exact ⟨fun _ => or_assoc.mp (.inl out),fun _ => rfl⟩
  · have unfolded : rtc_get_power_of_2 11 frequency =
        if frequency % 2 = 1 then INT_MAX else i32 (u32 (1 + rtc_get_power_of_2 10 (frequency / 2))) := by
      rw [rtc_get_power_of_2,if_neg (by omega)]
    rw [if_neg out,unfolded]
    by_cases odd : frequency % 2 = 1
    · rw [if_pos odd,if_pos rfl]
      exact ⟨fun _ => .inr (.inr odd),fun _ => rfl⟩
    · have small : i32 (u32 (1 + rtc_get_power_of_2 10 (frequency / 2))) ≠ INT_MAX := by
        rcases rtc_get_power_of_2_bound (show 10 ≤ 100 by decide) (frequency / 2) with overflow | ⟨low,high⟩
        · rw [overflow]
          decide
        · rw [i32_u32 (by omega) (by omega)]
          simp only [INT_MAX]
          omega
      rw [if_neg odd,if_neg small]
      omega

/-! ### Which calls refuse a foreign pointer -/

theorem refusedBy_same (m : Machine) : RefusedBy m (some (-1,m)) := ⟨m,rfl,rfl,rfl⟩

theorem not_refusedBy_of_ret {m : Machine} {result : Option (Int × Machine)}
    (other : ∀ ret m', result = some (ret,m') → ret ≠ -1) : ¬ RefusedBy m result := by
  rintro ⟨m',returned,-⟩
  exact other _ _ returned rfl

/-- A value after a store. -/
theorem refusedBy_put_iff (m₁ : Machine) {bytes : List Byte} {ret : Int} (mem : m₁.mem = m.mem)
    (mapped : m₁.mapped = m.mapped) (files : m₁.task.files = m.task.files) :
    RefusedBy m ((m₁.put ptr bytes).map fun m => (ret,m)) ↔ ret = -1 ∧ Holds m ptr bytes := by
  have holds : Holds m₁ ptr bytes ↔ Holds m ptr bytes := by rw [Holds,Holds,mem,mapped]
  rw [← holds,← put_same_iff]
  constructor
  · rintro ⟨m',returned,kept,-⟩
    rw [Option.map_eq_some_iff] at returned
    obtain ⟨m₂,done,same⟩ := returned
    obtain ⟨rfl,rfl⟩ := Prod.mk.inj same
    exact ⟨rfl,m₂,done,kept.trans mem.symm⟩
  · rintro ⟨rfl,m',done,kept⟩
    exact ⟨m',by rw [done]; rfl,kept.trans mem,by rw [(put_keeps done).1]; exact files⟩

theorem refusedBy_terminal_read {buf : Nat} {nbytes : Int} (fd : Int) :
    RefusedBy m (terminal_read wait buf nbytes m) ↔ ReadFails file_sys wait m fd buf nbytes .term_fops := by
  rw [terminal_read,ReadFails]
  by_cases null : buf = 0
  · have start : terminal_read_start m.cur_ptree (buf == 0) nbytes m.console = (some (-1),m.console) := by
      rw [null]
      rfl
    rw [start]
    exact ⟨fun _ => .inl null,fun _ => ⟨_,rfl,rfl,rfl⟩⟩
  · have flag : (buf == 0) = false := beq_false_of_ne null
    rw [flag]
    by_cases asked : 0 < nbytes
    · have start : terminal_read_start m.cur_ptree false nbytes m.console =
          (none,(terminal_read_start m.cur_ptree false nbytes m.console).2) := by
        simp only [terminal_read_start]
        rw [if_neg (by decide),if_neg (by omega)]
      rw [start]
      refine (refusedBy_put_iff _ rfl rfl rfl).trans ?_
      exact ⟨fun fails => .inr ⟨asked,fails⟩,fun fails => (fails.resolve_left null).2⟩
    · have start : terminal_read_start m.cur_ptree false nbytes m.console =
          (some 0,(terminal_read_start m.cur_ptree false nbytes m.console).2) := by
        simp only [terminal_read_start]
        rw [if_neg (by decide),if_pos (by omega)]
      rw [start]
      constructor
      · rintro ⟨m',returned,-⟩
        cases returned
      · intro fails
        exact absurd (fails.resolve_left null).1 asked

theorem refusedBy_file_read {fd nbytes : Int} {buf : Nat} (low : 0 ≤ fd) (high : fd ≤ 7) :
    RefusedBy m (Fops.read file_sys wait fd buf nbytes m .file_fops) ↔
      ReadFails file_sys wait m fd buf nbytes .file_fops := by
  rw [Fops.read,ReadFails,file_read,if_neg (by omega)]
  dsimp only
  cases inode : (m.task.files fd).inode with
  | none =>
    constructor
    · rintro ⟨m',impossible,-⟩
      cases impossible
    · rintro ⟨node,impossible,-⟩
      cases impossible
  | some node =>
    rw [Option.bind_some]
    have clamped : (if (file_sys.inodes node).len < u32 nbytes then (file_sys.inodes node).len else u32 nbytes) =
        min (file_sys.inodes node).len (u32 nbytes) := by
      split <;> omega
    rw [clamped]
    by_cases atEnd : (file_sys.inodes node).len ≤ (m.task.files fd).offset
    · rw [if_pos atEnd]
      constructor
      · rintro ⟨m',returned,-⟩
        simp only [Option.bind_some,Option.map_eq_some_iff] at returned
        obtain ⟨m₂,-,same⟩ := returned
        cases same
      · rintro ⟨other,same,before,-⟩
        obtain rfl := Option.some.inj same
        omega
    · rw [if_neg atEnd]
      by_cases failed : (read_data file_sys (m.task.files fd).dentry.inode_num (m.task.files fd).offset
          (min (file_sys.inodes node).len (u32 nbytes))).ret = -1
      · rw [if_neg (not_not.mpr failed)]
        refine (refusedBy_put_iff { m with task := m.task } rfl rfl rfl).trans ?_
        constructor
        · rintro ⟨ret,holds⟩
          exact ⟨node,rfl,by omega,ret,holds⟩
        · rintro ⟨other,same,-,ret,holds⟩
          obtain rfl := Option.some.inj same
          exact ⟨ret,holds⟩
      · rw [if_pos failed]
        constructor
        · rintro ⟨m',returned,-⟩
          simp only [Option.bind_some,Option.map_eq_some_iff] at returned
          obtain ⟨m₂,-,same⟩ := returned
          exact absurd (congrArg Prod.fst same) failed
        · rintro ⟨other,same,-,ret,-⟩
          obtain rfl := Option.some.inj same
          exact absurd ret failed

theorem refusedBy_read_iff {fd nbytes : Int} {buf : Nat} (low : 0 ≤ fd) (high : fd ≤ 7) (fops : Fops) :
    RefusedBy m (Fops.read file_sys wait fd buf nbytes m fops) ↔ ReadFails file_sys wait m fd buf nbytes fops := by
  cases fops with
  | file_fops => exact refusedBy_file_read low high
  | term_fops => exact refusedBy_terminal_read fd
  | rtc_fops =>
    refine iff_of_false ?_ id
    rintro ⟨m',returned,-⟩
    cases returned
  | dir_fops =>
    refine iff_of_false (not_refusedBy_of_ret ?_) id
    intro ret m' returned
    rw [Fops.read,directory_read,if_neg (by omega)] at returned
    dsimp only at returned
    split at returned
    · simp only [Option.bind_some,Option.map_eq_some_iff] at returned
      obtain ⟨m₂,-,same⟩ := returned
      obtain ⟨rfl,-⟩ := Prod.mk.inj same
      decide
    · simp only [Option.bind_some,Option.map_eq_some_iff] at returned
      obtain ⟨m₂,-,same⟩ := returned
      obtain ⟨rfl,-⟩ := Prod.mk.inj same
      omega

theorem refusedBy_write_iff {nbytes : Int} {buf : Nat} (fops : Fops) :
    RefusedBy m (Fops.write buf nbytes m fops) ↔ WriteFails m buf fops := by
  cases fops with
  | file_fops => exact iff_of_true (refusedBy_same m) trivial
  | dir_fops => exact iff_of_true (refusedBy_same m) trivial
  | rtc_fops =>
    rw [Fops.write,WriteFails,← rtc_set_frequency_refuses_iff]
    by_cases reached : m.reaches buf 4 = true
    · rw [if_pos reached]
      constructor
      · rintro ⟨m',returned,-⟩
        exact ⟨reached,congrArg Prod.fst (Option.some.inj returned)⟩
      · rintro ⟨-,refuses⟩
        exact ⟨m,by rw [refuses],rfl,rfl⟩
    · rw [if_neg reached]
      constructor
      · rintro ⟨m',impossible,-⟩
        cases impossible
      · exact fun fails => absurd fails.1 reached
  | term_fops =>
    rw [Fops.write,WriteFails]
    by_cases null : buf = 0
    · rw [if_pos (.inl null)]
      simp only [null,↓reduceIte]
      exact iff_of_true ⟨_,rfl,rfl,rfl⟩ trivial
    · refine iff_of_false (not_refusedBy_of_ret ?_) null
      intro ret m' returned
      split at returned
      · simp only [terminal_write] at returned
        split at returned
        · obtain ⟨rfl,-⟩ := Prod.mk.inj (Option.some.inj returned)
          exact show (0 : Int) ≠ -1 from by decide
        · obtain ⟨rfl,-⟩ := Prod.mk.inj (Option.some.inj returned)
          exact show (0 : Int) ≠ -1 from by decide
      · cases returned

/-- The first `n` arguments' bytes are not the terminator, and the next is. -/
theorem args_size_eq {args : Nat → Byte} {n : Nat} (fuel size : Nat) (within : ∀ i < n, args (size + i) ≠ 0)
    (enough : n ≤ fuel) (ends : n = fuel ∨ args (size + n) = 0) : args_size args size fuel = size + n := by
  induction n generalizing size fuel with
  | zero =>
    cases fuel with
    | zero => rfl
    | succ fuel => exact if_neg (not_not.mpr (ends.resolve_left (by omega)))
  | succ n ih =>
    obtain ⟨rest,rfl⟩ : ∃ rest, fuel = rest + 1 := ⟨fuel - 1,by omega⟩
    have next (i : Nat) : args (size + 1 + i) = args (size + (i + 1)) := congrArg args (by omega)
    have first : args size ≠ 0 := within 0 (by omega)
    rw [args_size,if_pos first,ih _ (size + 1) (fun i below => by rw [next]; exact within _ (by omega))
      (by omega) (ends.imp (by omega) (fun zero => by rw [next]; exact zero))]
    omega

/-- The scan stops at the first terminator or after `fuel` tests. -/
theorem args_size_spec (args : Nat → Byte) (fuel : Nat) : ∃ n ≤ fuel, (∀ i < n, args i ≠ 0) ∧ (n = fuel ∨ args n = 0) ∧
    args_size args 0 fuel = n := by
  obtain ⟨n,bound,within,ends⟩ : ∃ n ≤ fuel, (∀ i < n, args i ≠ 0) ∧ (n = fuel ∨ args n = 0) := by
    induction fuel with
    | zero => exact ⟨0,le_rfl,fun i below => by omega,.inl rfl⟩
    | succ fuel ih =>
      obtain ⟨n,bound,within,ends⟩ := ih
      by_cases stops : args n = 0
      · exact ⟨n,by omega,within,.inr stops⟩
      · obtain rfl := ends.resolve_right stops
        refine ⟨n + 1,le_rfl,?_,.inl rfl⟩
        intro i below
        by_cases last : i = n
        · rw [last]
          exact stops
        · exact within i (by omega)
  refine ⟨n,bound,within,ends,?_⟩
  have counted := args_size_eq fuel 0 (fun i below => by rw [Nat.zero_add]; exact within i below) bound
    (by rw [Nat.zero_add]; exact ends)
  rw [counted,Nat.zero_add]

theorem args_fail_iff {args : Nat → Byte} {nbytes : Int} :
    (args_size args 0 nbytes.toNat : Int) = nbytes - 1 ↔
      1 ≤ nbytes ∧ args (nbytes.toNat - 1) = 0 ∧ ∀ i < nbytes.toNat - 1, args i ≠ 0 := by
  obtain ⟨n,bound,within,ends,counted⟩ := args_size_spec args nbytes.toNat
  rw [counted]
  constructor
  · intro last
    have here : n = nbytes.toNat - 1 := by omega
    subst here
    exact ⟨by omega,ends.resolve_left (by omega),within⟩
  · rintro ⟨asked,zero,before⟩
    have here : n = nbytes.toNat - 1 := by
      by_contra other
      rcases Nat.lt_or_gt_of_ne other with less | more
      · exact before n less (ends.resolve_left (by omega))
      · exact within _ more zero
    omega

/-- The dispatch on a descriptor, for reads and writes alike. -/
theorem refusedBy_dispatch_iff {fd : Int} {op : Fops → Option (Int × Machine)} {OpFails : Fops → Prop}
    (each : 0 ≤ fd → fd ≤ 7 → ∀ fops, RefusedBy m (op fops) ↔ OpFails fops) :
    RefusedBy m (if fd < 0 then some (-1,m) else if fd > 7 then some (-1,m)
        else if is_open (m.task.files fd) then (m.task.files fd).fops.bind op else some (-1,m)) ↔
      fd < 0 ∨ 7 < fd ∨ is_open (m.task.files fd) = false ∨ ∃ fops, (m.task.files fd).fops = some fops ∧ OpFails fops := by
  by_cases low : fd < 0
  · rw [if_pos low]
    exact iff_of_true (refusedBy_same m) (.inl low)
  by_cases high : fd > 7
  · rw [if_neg low,if_pos high]
    exact iff_of_true (refusedBy_same m) (.inr (.inl high))
  rw [if_neg low,if_neg high]
  cases opened : is_open (m.task.files fd) with
  | false => exact iff_of_true (refusedBy_same m) (.inr (.inr (.inl rfl)))
  | true =>
    rw [if_pos rfl]
    cases table : (m.task.files fd).fops with
    | none =>
      refine iff_of_false ?_ ?_
      · rintro ⟨m',impossible,-⟩
        cases impossible
      · rintro (below | above | closed | ⟨fops,impossible,-⟩)
        · exact low below
        · exact high above
        · cases closed
        · cases impossible
    | some fops =>
      refine (each (by omega) (by omega) fops).trans ?_
      constructor
      · intro fails
        exact .inr (.inr (.inr ⟨fops,rfl,fails⟩))
      · rintro (below | above | closed | ⟨other,same,fails⟩)
        · exact absurd below low
        · exact absurd above high
        · cases closed
        · obtain rfl := Option.some.inj same
          exact fails

theorem refusedBy_getargs_iff {buf : Nat} {nbytes : Int} (passes : is_user_ptr m.task buf ≠ 0) :
    RefusedBy m (do_getargs buf nbytes m) ↔
      buf = 0 ∨ 1 ≤ nbytes ∧ m.task.args (nbytes.toNat - 1) = 0 ∧ ∀ i < nbytes.toNat - 1, m.task.args i ≠ 0 := by
  rw [do_getargs,if_pos passes,← args_fail_iff]
  by_cases null : buf = 0
  · rw [if_pos null]
    exact iff_of_true (refusedBy_same m) (.inl null)
  rw [if_neg null]
  dsimp only
  by_cases last : (args_size m.task.args 0 nbytes.toNat : Int) = nbytes - 1
  · rw [if_pos last]
    exact iff_of_true (refusedBy_same m) (.inr last)
  · rw [if_neg last]
    refine (refusedBy_put_iff _ rfl rfl rfl).trans (iff_of_false ?_ (not_or.mpr ⟨null,last⟩))
    rintro ⟨impossible,-⟩
    cases impossible

/-- A call through a pointer outside its caller's memory is refused exactly
    when it names no open descriptor or its operation fails anyway. -/
theorem foreign_refused_iff (file_sys : FileSys) (wait : Console → Int × List Byte × Console) (m : Machine) (call : Call)
    (foreign : Foreign m.task call.pointer) : Refused file_sys wait m call ↔ Fails file_sys wait m call := by
  have passes := is_user_ptr_foreign foreign
  rw [Refused]
  cases call with
  | read fd buf nbytes =>
    have accepted : is_user_ptr m.task buf ≠ 0 := passes
    rw [Call.result,do_read,if_pos accepted]
    exact refusedBy_dispatch_iff fun low high => refusedBy_read_iff low high
  | write fd buf nbytes =>
    have accepted : is_user_ptr m.task buf ≠ 0 := passes
    rw [Call.result,do_write,if_pos accepted]
    exact refusedBy_dispatch_iff fun _ _ => refusedBy_write_iff
  | getargs buf nbytes => exact refusedBy_getargs_iff passes
  | vidmap screen_start =>
    have accepted : is_user_ptr m.task screen_start ≠ 0 := passes
    rw [Call.result,do_vidmap,if_neg accepted]
    refine (refusedBy_put_iff _ rfl rfl rfl).trans (iff_of_false ?_ id)
    rintro ⟨impossible,-⟩
    cases impossible

/-- A running task with all memory mapped and zeroed. -/
def machine : Machine where
  task := FileRead.reader
  mem := fun _ => 0
  mapped := fun _ => true
  console := default
  cur_ptree := 0

theorem foreign_refused_closed :
    Refused FileRead.short_file (fun c => (0,[],c)) machine (.read 9 0x400000 4) ↔
      Fails FileRead.short_file (fun c => (0,[],c)) machine (.read 9 0x400000 4) :=
  foreign_refused_iff _ _ _ _ (by unfold Foreign; decide)

/-- `do_vidmap` writes into the kernel's page. -/
theorem vidmap_writes_kernel : Foreign machine.task 0x400000 ∧
    (∃ m', do_vidmap 0x400000 machine = some (0,m') ∧ load32 m'.mem 0x400000 = 0x100B8000) ∧
    ¬ Refused FileRead.short_file (fun c => (0,[],c)) machine (.vidmap 0x400000) := by
  refine ⟨by unfold Foreign; decide,⟨_,rfl,by decide⟩,?_⟩
  rintro ⟨m',returned,-⟩
  cases returned

/-! ### The arguments of a program -/

/-- The arguments are a string of `n` characters. -/
def ArgsLength (args : Nat → Byte) (n : Nat) : Prop := args n = 0 ∧ ∀ i < n, args i ≠ 0

/-- A buffer with room for the string and its terminator gets both and nothing
    more, and any other call fails. -/
def GetsArgs (m : Machine) (buf : Nat) (nbytes : Int) (n : Nat) : Prop :=
  ∃ ret m', do_getargs buf nbytes m = some (ret,m') ∧
    (n + 1 ≤ nbytes → ret = 0 ∧ (∀ i ≤ n, m'.mem (buf + i) = m.task.args i) ∧
      ∀ b, b < buf ∨ buf + n < b → m'.mem b = m.mem b) ∧
    (¬ n + 1 ≤ nbytes → ret = -1 ∧ m'.mem = m.mem)

theorem args_size_length {args : Nat → Byte} {n fuel : Nat} (length : ArgsLength args n) (enough : n ≤ fuel) :
    args_size args 0 fuel = n := by
  have counted := args_size_eq fuel 0 (fun i below => by rw [Nat.zero_add]; exact length.2 i below) enough
    (.inr (by rw [Nat.zero_add]; exact length.1))
  rw [counted,Nat.zero_add]

theorem do_getargs_eq {buf : Nat} (nbytes : Int) (accepted : is_user_ptr m.task buf ≠ 0) (positive : buf ≠ 0) :
    do_getargs buf nbytes m =
      if (args_size m.task.args 0 nbytes.toNat : Int) = nbytes - 1 then some (-1,m)
      else (m.put buf ((List.range (args_size m.task.args 0 nbytes.toNat + 1)).map m.task.args)).map fun m => (0,m) := by
  rw [do_getargs,if_pos accepted,if_neg positive]

/-- The buffer that just fits is the one that fails the test. -/
theorem exact_fit_fails {args : Nat → Byte} {n : Nat} {nbytes : Int} (length : ArgsLength args n)
    (last : (args_size args 0 nbytes.toNat : Int) = nbytes - 1) : n + 1 = nbytes := by
  obtain ⟨asked,zero,before⟩ := args_fail_iff.mp last
  have exact_fit : nbytes.toNat - 1 = n := by
    by_contra other
    rcases Nat.lt_or_gt_of_ne other with less | more
    · exact length.2 _ less zero
    · exact before n more length.1
  omega

theorem room_of_getsArgs {buf n : Nat} {nbytes : Int} (length : ArgsLength m.task.args n)
    (accepted : is_user_ptr m.task buf ≠ 0) (positive : buf ≠ 0) (gets : GetsArgs m buf nbytes n) : n + 2 ≤ nbytes := by
  obtain ⟨ret,m',returned,fits,short⟩ := gets
  rw [do_getargs_eq nbytes accepted positive] at returned
  by_cases last : (args_size m.task.args 0 nbytes.toNat : Int) = nbytes - 1
  · have fit := exact_fit_fails length last
    rw [if_pos last] at returned
    obtain ⟨rfl,-⟩ := Prod.mk.inj (Option.some.inj returned)
    exact absurd (fits (by omega)).1 (by decide)
  · rw [if_neg last,Option.map_eq_some_iff] at returned
    obtain ⟨m₁,-,same⟩ := returned
    obtain ⟨rfl,-⟩ := Prod.mk.inj same
    by_cases room : n + 1 ≤ nbytes
    · have size := args_size_length length (show n ≤ nbytes.toNat by omega)
      omega
    · exact absurd (short room).1 (by decide)

theorem getsArgs_of_room {buf n : Nat} {nbytes : Int} (length : ArgsLength m.task.args n)
    (accepted : is_user_ptr m.task buf ≠ 0) (positive : buf ≠ 0)
    (mapped : n + 1 ≤ nbytes → m.reaches buf (n + 1) = true) (room : n + 2 ≤ nbytes) : GetsArgs m buf nbytes n := by
  have size := args_size_length length (show n ≤ nbytes.toNat by omega)
  have stored : m.put buf ((List.range (n + 1)).map m.task.args) =
      some { m with mem := storeBytes m.mem buf ((List.range (n + 1)).map m.task.args) } := by
    rw [Machine.put,List.length_map,List.length_range,if_pos (mapped (by omega))]
  rw [GetsArgs,do_getargs_eq nbytes accepted positive,size,if_neg (by omega),stored]
  refine ⟨0,_,rfl,?_,fun short => absurd (show (n : Int) + 1 ≤ nbytes from by omega) short⟩
  intro _
  refine ⟨rfl,?_,?_⟩
  · intro i within
    dsimp only
    rw [storeBytes_inside (by simp; omega)]
    simp
  · intro b outside
    exact storeBytes_outside (by simp; omega)

/-- The call does what is asked exactly when the buffer has a byte more than it
    needs. -/
theorem getargs_iff {buf n : Nat} {nbytes : Int} (length : ArgsLength m.task.args n)
    (accepted : is_user_ptr m.task buf ≠ 0) (positive : buf ≠ 0)
    (mapped : n + 1 ≤ nbytes → m.reaches buf (n + 1) = true) : GetsArgs m buf nbytes n ↔ n + 2 ≤ nbytes :=
  ⟨room_of_getsArgs length accepted positive,getsArgs_of_room length accepted positive mapped⟩

theorem getargs_empty : GetsArgs machine 0x8000000 2 0 :=
  (getargs_iff (m := machine) ⟨rfl,fun i below => absurd below (Nat.not_lt_zero i)⟩ (by decide) (by decide)
    (fun _ => by decide)).mpr (by decide)

/-- A buffer of just the size is refused. -/
theorem getargs_exact_fit : ArgsLength machine.task.args 0 ∧ is_user_ptr machine.task 0x8000000 ≠ 0 ∧
    machine.reaches 0x8000000 1 = true ∧ ¬ GetsArgs machine 0x8000000 1 0 := by
  refine ⟨⟨rfl,fun i below => absurd below (Nat.not_lt_zero i)⟩,by decide,by decide,?_⟩
  rintro ⟨ret,m',returned,fits,-⟩
  obtain ⟨rfl,-⟩ := Prod.mk.inj (Option.some.inj returned)
  exact absurd (fits (by decide)).1 (by decide)

end Mp3Kernel.UserPointers

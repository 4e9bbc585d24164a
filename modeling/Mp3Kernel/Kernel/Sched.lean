import Mp3Kernel.Kernel.Paging
import Mp3Kernel.Kernel.Descriptors
import Mp3Kernel.Terminal.Console

/-!
The scheduler of sched.c with the task functions it calls in task.c, the timer
interrupt of pit.c and the two halves of `do_halt`. A pointer to a task is its
pid. Statements of `execute_task` that a timer tick can come between are
functions of their own; `create_task` and `end_task` run with interrupts off.
-/
namespace Mp3Kernel.Scheduler
open Mp3Kernel.Memory Mp3Kernel.Filesys Mp3Kernel.Tasks Mp3Kernel.Paging
open Mp3Kernel.Tty (Console terminal_write shell_name MAX_SUPPORTED_TERMINALS)
open Mp3Kernel.Descriptors (init_files)

structure Sched where
  task_vector : Word
  max_tasks : Nat
  num_tasks : Nat
  cur_task : Int
  ptree_tasks : Int → Int
  ptree_vector : Word
  max_ptrees : Nat
  num_ptrees : Nat
  cur_ptree : Int
  deriving Inhabited

/-- The initial value of the global. -/
def scheduler : Sched where
  task_vector := 0
  max_tasks := 10
  num_tasks := 0
  cur_task := -1
  ptree_tasks := fun _ => -1
  ptree_vector := 0
  max_ptrees := 3
  num_ptrees := 0
  cur_ptree := -1

/-- The kernel's globals, the tasks at their pids, physical memory, the task
    register's TSS, cr3 and the interrupt flag. -/
structure Kernel where
  scheduler : Sched
  tasks : Int → Task
  mem : Mem
  pd : Nat
  cr3 : Nat
  tss : Tss
  intr : Bool
  console : Console
  deriving Inhabited

def Kernel.setTask (k : Kernel) (pid : Int) (t : Task) : Kernel :=
  { k with tasks := fun q => if q = pid then t else k.tasks q }

@[simp] theorem setTask_same (k : Kernel) (pid : Int) (t : Task) : (k.setTask pid t).tasks pid = t := by
  simp [Kernel.setTask]
@[simp] theorem setTask_other {q pid : Int} (k : Kernel) (t : Task) (other : q ≠ pid) :
    (k.setTask pid t).tasks q = k.tasks q := by simp [Kernel.setTask,other]
@[simp] theorem setTask_scheduler (k : Kernel) (pid : Int) (t : Task) :
    (k.setTask pid t).scheduler = k.scheduler := rfl
@[simp] theorem setTask_mem (k : Kernel) (pid : Int) (t : Task) : (k.setTask pid t).mem = k.mem := rfl
@[simp] theorem setTask_pd (k : Kernel) (pid : Int) (t : Task) : (k.setTask pid t).pd = k.pd := rfl
@[simp] theorem setTask_cr3 (k : Kernel) (pid : Int) (t : Task) : (k.setTask pid t).cr3 = k.cr3 := rfl
@[simp] theorem setTask_tss (k : Kernel) (pid : Int) (t : Task) : (k.setTask pid t).tss = k.tss := rfl
@[simp] theorem setTask_intr (k : Kernel) (pid : Int) (t : Task) : (k.setTask pid t).intr = k.intr := rfl
@[simp] theorem setTask_console (k : Kernel) (pid : Int) (t : Task) : (k.setTask pid t).console = k.console := rfl

/-! ### Pids and process trees -/

/-- `1 << i`. -/
def bit (i : Nat) : Word := 1#32 <<< (i % 32)

/-- The search of `get_new_pid` from `i` on, with `fuel` tests left. -/
def free_pid (task_vector : Word) (i : Nat) : Nat → Option Nat
  | 0 => none
  | fuel + 1 => if task_vector &&& 1 = 0 then some i else free_pid (task_vector >>> 1) (i + 1) fuel

def get_new_pid (k : Kernel) : Int × Kernel :=
  match free_pid k.scheduler.task_vector 0 k.scheduler.max_tasks with
  | none => (-1,k)
  | some i => (i,{ k with scheduler.task_vector := k.scheduler.task_vector ||| bit i })

def clear_pid (pid : Int) (k : Kernel) : Kernel :=
  { k with scheduler.task_vector := k.scheduler.task_vector &&& ~~~ bit pid.toNat }

/-- The search of `get_new_ptid` from `i` on, with `fuel` tests left. -/
def free_ptid (ptree_vector : Word) (i : Nat) : Nat → Option Nat
  | 0 => none
  | fuel + 1 => if ptree_vector &&& bit i = 0 then some i else free_ptid ptree_vector (i + 1) fuel

def get_new_ptid (k : Kernel) : Int × Kernel :=
  match free_ptid k.scheduler.ptree_vector 0 k.scheduler.max_ptrees with
  | none => (-1,k)
  | some i => (i,{ k with scheduler.ptree_vector := k.scheduler.ptree_vector ||| bit i })

def set_ptree_task (ptid pid : Int) (k : Kernel) : Kernel :=
  { k with scheduler.ptree_tasks := fun p => if p = ptid then pid else k.scheduler.ptree_tasks p }

def create_ptree (k : Kernel) : Int × Kernel :=
  let (ptid,k) := get_new_ptid k
  if ptid < 0 then (-1,k) else
    (ptid,set_ptree_task ptid (-1) { k with scheduler.num_ptrees := u32 (k.scheduler.num_ptrees + 1) })

def get_cur_task (k : Kernel) : Int := if k.scheduler.cur_task < 0 then -1 else k.scheduler.cur_task

def set_cur_task (pid : Int) (k : Kernel) : Kernel :=
  { k with scheduler.cur_task := pid, scheduler.cur_ptree := (k.tasks pid).ptid }

/-- The first active process tree from `i` on, with `fuel` tests left. -/
def active_ptree (ptree_vector : Word) (i : Nat) : Nat → Option Nat
  | 0 => none
  | fuel + 1 => if 0 < (ptree_vector &&& bit i).toInt then some i else active_ptree ptree_vector (i + 1) fuel

/-- Both loops count in 32 bits without sign. -/
def get_next_task (k : Kernel) : Int :=
  let s := k.scheduler
  let start := u32 (s.cur_ptree + 1)
  match active_ptree s.ptree_vector start (s.max_ptrees - start) with
  | some i => s.ptree_tasks i
  | none =>
    match active_ptree s.ptree_vector 0 (u32 s.cur_ptree) with
    | some i => s.ptree_tasks i
    | none => s.ptree_tasks s.cur_ptree

def get_cur_task_state (k : Kernel) : TaskState := (k.tasks (get_cur_task k)).state

def set_cur_task_state (state : TaskState) (k : Kernel) : Kernel :=
  k.setTask (get_cur_task k) { k.tasks (get_cur_task k) with state := state }

def load_tss (pid : Int) (k : Kernel) : Kernel := { k with tss := (k.tasks pid).tss }

/-- `map_page_directory` of a 4 MB user page through the global `pd`. -/
def map_user (phys_addr virt_addr : Nat) (k : Kernel) : Kernel :=
  { k with mem := map_page_directory k.pd phys_addr virt_addr 1 1 k.mem }

/-- `set_task_cr3`. -/
def set_task_cr3 (pid : Int) (k : Kernel) : Kernel := { k with cr3 := (k.tasks pid).page_directory }
/-- `get_cr3(pd)`. -/
def get_cr3 (k : Kernel) : Kernel := { k with pd := k.cr3 }

/-! ### Creation -/

/-- The record that `init_task` leaves; the name, the ptid and the state of an
    earlier task of the pid stay. -/
def init_record (pid : Int) (t : Task) : Task :=
  { t with
    parent_task := -1
    pid := pid
    files := init_files t.files
    tss := { t.tss with
      esp := BitVec.ofNat 32 (EXECUTION_ADDR + SIZE_4MB_PAGE - 4)
      ebp := 0
      esp0 := get_task_stack_addr pid
      ss0 := KERNEL_DS
      ss := USER_DS
      cs := USER_CS
      ds := USER_DS
      cr3 := BitVec.ofNat 32 (get_task_addr pid)
      eip := 0
      ldt_segment_selector := 0
      eflags := ELAGS_IF }
    ret_eip := 0xBADF00D
    ret_ebp := 0xBADF00D
    ret_esp := 0xBADF00D
    ret_eflags := 0xBADF00D
    page_directory := get_task_addr pid
    page_table := get_task_addr pid + 4 * NUM_PAGES
    args := fun i => if i < 128 then 0 else t.args i }

def init_task (pid : Int) (k : Kernel) : Kernel :=
  { k.setTask pid (init_record pid (k.tasks pid)) with mem := init_task_pd (get_task_addr pid) k.mem }

/-- A child of the current task, if there is one. -/
def inherit_parent (pid : Int) (k : Kernel) : Kernel :=
  if k.scheduler.cur_task ≠ -1 then
    k.setTask pid { k.tasks pid with
      parent_task := k.scheduler.cur_task
      ptid := (k.tasks k.scheduler.cur_task).ptid }
  else k

/-- The record of a loaded program. -/
def loaded_record (exe_addr : Int) (fname args : Nat → Byte) (t : Task) : Task :=
  { t with
    tss := { t.tss with eip := BitVec.ofInt 32 exe_addr }
    args := fun i => if i < 128 then args i else t.args i
    pName := fun i => if i < 32 then (if i = 31 then 0 else fname i) else t.pName i }

section
variable (file_sys : FileSys)

def load_program_to_task (pid : Int) (addr : Nat) (fname args : Nat → Byte) (k : Kernel) : Int × Kernel :=
  let (exe_addr,m) := load_program file_sys fname addr k.mem
  let k := { k with mem := m }
  -- an entry point of 0xFFFFFFFF reads as a failure
  if exe_addr = -1 then (-1,k) else (0,k.setTask pid (loaded_record exe_addr fname args (k.tasks pid)))

/-- The middle of `create_task`: the new pid's frame, directory and record. -/
def set_up_task (pid : Int) (k : Kernel) : Kernel :=
  inherit_parent pid (init_task pid (map_user (get_task_addr pid) (get_task_addr pid) (get_cr3 k)))

def create_task (fname args : Nat → Byte) (k : Kernel) : Int × Kernel :=
  let flags := k.intr
  let (pid,k) := get_new_pid { k with intr := false }
  -- this exit does not restore the flags
  if pid < 0 then (-1,k) else
    let (loaded,k) := load_program_to_task file_sys pid (get_task_addr pid + PROGRAM_IMAGE) fname args
      (set_up_task pid k)
    if loaded = -1 then (-1,{ clear_pid pid k with intr := flags })
    else (pid,{ k with scheduler.num_tasks := u32 (k.scheduler.num_tasks + 1), intr := flags })

/-- The shell of terminal `ptid`, as the loop of `tasks_init` sets it up. -/
def init_shell (k : Kernel) : Option Kernel :=
  let (pid,k) := create_task file_sys shell_name (fun _ => 0) k
  if pid < 0 then none else
    let (ptid,k) := create_ptree k
    let t := k.tasks pid
    some (set_ptree_task ptid t.pid (k.setTask pid
      { t with
        ptid := ptid
        ret_eip := t.tss.eip
        ret_esp := t.tss.esp
        ret_ebp := t.tss.ebp
        ret_eflags := 0x200 }))

/-- The last statements of `tasks_init`: task 0 is the idle loop of the kernel. -/
def idle_task (k : Kernel) : Kernel :=
  k.setTask 0 { k.tasks 0 with
    tss := { (k.tasks 0).tss with
      cs := KERNEL_CS, ds := KERNEL_DS, ss := KERNEL_DS, ldt_segment_selector := KERNEL_LDT } }

/-- Nothing once a `create_task` fails: the source goes on with the record of
    pid −1. -/
def tasks_init (k : Kernel) : Option Kernel :=
  let (pid,k) := create_task file_sys shell_name (fun _ => 0) k
  if pid < 0 then none else
  (init_shell file_sys (set_cur_task 0 k)).bind fun k =>
  (init_shell file_sys k).bind fun k =>
  (init_shell file_sys k).map idle_task

end

/-! ### Switching -/

/-- `switch_task` to `new_pid`; the old pid is not looked at. -/
def switch_task (new_pid : Int) (k : Kernel) : Kernel :=
  let k := map_user GARBAGE_VID_MEM VIRTUAL_VID_MEM (get_cr3 k)
  let k := get_cr3 (set_task_cr3 new_pid (load_tss new_pid (set_cur_task new_pid k)))
  if (k.tasks new_pid).ptid = (k.console.terminal_list k.console.current_terminal_index).ptid then
    map_user VIDEO VIRTUAL_VID_MEM k
  else k

/-- What `iret` pops on a change of privilege. -/
structure IretFrame where
  eip : Word
  cs : Half
  eflags : Word
  esp : Word
  ss : Half
  deriving DecidableEq, Repr, Inhabited

/-- The registers that `idt_pit` hands to `save_state`. -/
structure Regs where
  esp : Word
  ebp : Word
  eax : Word
  ebx : Word
  ecx : Word
  edx : Word
  esi : Word
  edi : Word
  deriving DecidableEq, Repr, Inhabited

/-- `esp` is moved past the frame that an interrupt of the kernel pushed. -/
def save_state (regs : Regs) (t : Task) : Task :=
  { t with tss := { t.tss with
      esp := regs.esp + 12, ebp := regs.ebp, eax := regs.eax, ebx := regs.ebx, ecx := regs.ecx
      edx := regs.edx, esi := regs.esi, edi := regs.edi } }

/-- The stack slots that `load_state` overwrites, and its return value. -/
def load_state (t : Task) (cs : Half) : Regs × Word :=
  ({ esp := t.tss.esp, ebp := t.tss.ebp, eax := t.tss.eax, ebx := t.tss.ebx, ecx := t.tss.ecx
     edx := t.tss.edx, esi := t.tss.esi, edi := t.tss.edi },if cs = USER_CS then 0 else 1)

/-- pit.c's macros on the frame. -/
def save_task_state (frame : IretFrame) (t : Task) : Task :=
  { t with tss := { t.tss with
      ss := frame.ss, esp := frame.esp, eflags := frame.eflags, cs := frame.cs, eip := frame.eip } }

def save_syscall_state (frame : IretFrame) (t : Task) : Task :=
  { t with tss := { t.tss with eflags := frame.eflags, cs := frame.cs, eip := frame.eip } }

def setup_task_stack (t : Task) : IretFrame :=
  { eip := t.tss.eip, cs := t.tss.cs, eflags := t.tss.eflags, esp := t.tss.esp, ss := t.tss.ss }

def setup_syscall_stack (t : Task) (frame : IretFrame) : IretFrame :=
  { frame with eip := t.tss.eip, cs := t.tss.cs, eflags := t.tss.eflags }

/-- The first half of `pit_process_interrupt`: the context of the current task. -/
def save_context (frame : IretFrame) (k : Kernel) : Kernel :=
  let cur_task := get_cur_task k
  if frame.cs = USER_CS then
    let k := set_cur_task_state .TASK_RUNNING k
    k.setTask cur_task (save_task_state frame (k.tasks cur_task))
  else if frame.cs = KERNEL_CS then
    let k := set_cur_task_state .TASK_SYS_CALL k
    k.setTask cur_task (save_syscall_state frame (k.tasks cur_task))
  else k

def pit_process_interrupt (frame : IretFrame) (k : Kernel) : IretFrame × Kernel :=
  let k := save_context frame k
  let new_pid := (k.tasks (get_next_task k)).pid
  let k := switch_task new_pid k
  let cur_task := k.tasks new_pid
  (if cur_task.state = .TASK_RUNNING then setup_task_stack cur_task else setup_syscall_stack cur_task frame,k)

/-- The timer interrupt as the scheduler sees it. -/
def timer_tick (regs : Regs) (frame : IretFrame) (k : Kernel) : Kernel :=
  let cur_task := get_cur_task k
  (pit_process_interrupt frame (k.setTask cur_task (save_state regs (k.tasks cur_task)))).2

/-! ### Execution -/

def mark_running (pid : Int) (k : Kernel) : Kernel :=
  k.setTask pid { k.tasks pid with state := .TASK_RUNNING }

def set_ret_eip (pid : Int) (halt_addr : Word) (k : Kernel) : Kernel :=
  k.setTask pid { k.tasks pid with ret_eip := halt_addr }

/-- sched.c's `save_task_state`: the stack of the caller of `execute_task`. -/
def save_return (pid : Int) (esp ebp : Word) (k : Kernel) : Kernel :=
  k.setTask pid { k.tasks pid with ret_esp := esp, ret_ebp := ebp }

/-- `execute_task` up to its `iret`, with no tick in between: the frame it
    pops. -/
def execute_task (halt_addr esp ebp : Word) (pid : Int) (k : Kernel) : IretFrame × Kernel :=
  let k := map_user GARBAGE_VID_MEM VIRTUAL_VID_MEM k
  let k := set_ret_eip pid halt_addr (mark_running pid k)
  let k := set_cur_task pid k
  let k := set_ptree_task (k.tasks pid).ptid pid k
  let k := load_tss pid (save_return pid esp ebp k)
  (setup_task_stack (k.tasks pid),get_cr3 (set_task_cr3 pid k))

/-- `do_execute` once the command is parsed; no frame is a return value of −1. -/
def do_execute (file_sys : FileSys) (halt_addr esp ebp : Word) (programName argsBuffer : Nat → Byte)
    (k : Kernel) : Option IretFrame × Kernel :=
  let (pid,k) := create_task file_sys programName argsBuffer k
  if pid < 0 then (none,k) else
    let (frame,k) := execute_task halt_addr esp ebp pid k
    (some frame,k)

def end_task (pid : Int) (k : Kernel) : Kernel :=
  let flags := k.intr
  let parent := (k.tasks pid).parent_task
  let k := get_cr3 (set_task_cr3 parent { k with intr := false })
  let k := map_user VIDEO VIRTUAL_VID_MEM k
  let k := clear_pid pid k
  let k := { k with mem := clear_pde k.pd (get_task_addr pid) k.mem
                    scheduler.num_tasks := u32 (k.scheduler.num_tasks - 1) }
  let k := set_ptree_task (k.tasks parent).ptid (k.tasks parent).pid k
  { set_cur_task (k.tasks parent).pid k with intr := flags }

/-- How `do_halt` leaves the halting task. -/
inductive HaltExit where
  | restart_shell (frame : IretFrame)
  | return_from_halt (status : Byte) (ebp esp eip : Word)
  deriving DecidableEq, Repr

def do_halt (status : Byte) (k : Kernel) : HaltExit × Kernel :=
  let k := if 0 < k.console.screen_x then
      { k with console := (terminal_write k.scheduler.cur_ptree (some fun _ => Screen.NEWLINE) 1 k.console).2 }
    else k
  let cur := get_cur_task k
  let t := k.tasks cur
  if t.pid = 1 ∨ t.pid = 2 ∨ t.pid = 3 then
    let t := { t with tss := { t.tss with eip := t.ret_eip, eflags := t.ret_eflags, esp := t.ret_esp } }
    (.restart_shell { eip := t.ret_eip, cs := USER_CS, eflags := t.ret_eflags, esp := t.ret_esp, ss := USER_DS },
      load_tss cur (k.setTask cur t))
  else (.return_from_halt status t.ret_ebp t.ret_esp t.ret_eip,k)

/-- `execute_task` from `halt_addr` on, with no tick in between. -/
def execute_task_return (status : Byte) (k : Kernel) : Int × Kernel :=
  let ret : Int := if get_cur_task_state k = .TASK_EXCEPTION then 256 else status.toNat
  let k := end_task (k.tasks (get_cur_task k)).pid k
  (ret,load_tss (get_cur_task k) k)

end Mp3Kernel.Scheduler

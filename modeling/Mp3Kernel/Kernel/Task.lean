import Mp3Kernel.Filesys.Image

/-!
The records of task.h and x86_desc.h. A `task_t` lies at the bottom of the
8 KB kernel stack of its pid, so a pointer to one is a pid, and −1 is the null
pointer.
-/
namespace Mp3Kernel.Tasks
open Mp3Kernel.Memory Mp3Kernel.Filesys

abbrev KERNEL_CS : Half := 0x10
abbrev KERNEL_DS : Half := 0x18
abbrev USER_CS : Half := 0x23
abbrev USER_DS : Half := 0x2B
abbrev KERNEL_LDT : Half := 0x38

abbrev KERNEL_STACK_MASK : Word := 0x7FE000
abbrev KERNEL_STACK_SIZE : Int := 0x2000
abbrev INIT_TASK_ADDR : Int := 0x800000
abbrev EXECUTION_ADDR : Nat := 0x8000000
abbrev PROGRAM_IMAGE : Nat := 0x48000
abbrev ELAGS_IF : Word := 0x200
abbrev SIZE_4KB_PAGE : Nat := 0x1000
abbrev SIZE_4MB_PAGE : Nat := 0x400000

inductive TaskState where
  | TASK_RUNNING
  | TASK_SYS_CALL
  | TASK_EXCEPTION
  deriving DecidableEq, Repr, Inhabited

inductive Fops where
  | rtc_fops
  | dir_fops
  | file_fops
  | term_fops
  deriving DecidableEq, Repr

structure File where
  fops : Option Fops
  dentry : Dentry
  inode : Option Nat
  offset : Nat
  flags : Word
  deriving Inhabited

/-- The fields of the TSS that the kernel sets. -/
structure Tss where
  esp0 : Word
  ss0 : Half
  cr3 : Word
  eip : Word
  eflags : Word
  eax : Word
  ecx : Word
  edx : Word
  ebx : Word
  esp : Word
  ebp : Word
  esi : Word
  edi : Word
  cs : Half
  ss : Half
  ds : Half
  ldt_segment_selector : Half
  deriving DecidableEq, Repr, Inhabited

structure Task where
  parent_task : Int
  pName : Nat → Byte
  pid : Int
  ptid : Int
  files : Int → File
  tss : Tss
  ret_ebp : Word
  ret_esp : Word
  ret_eip : Word
  ret_eflags : Word
  page_directory : Nat
  page_table : Nat
  state : TaskState
  args : Nat → Byte
  deriving Inhabited

def Task.setFile (t : Task) (fd : Int) (f : File) : Task :=
  { t with files := fun i => if i = fd then f else t.files i }

@[simp] theorem setFile_same (t : Task) (fd : Int) (f : File) : (t.setFile fd f).files fd = f := by
  simp [Task.setFile]
@[simp] theorem setFile_other {i fd : Int} (t : Task) (f : File) (other : i ≠ fd) :
    (t.setFile fd f).files i = t.files i := by simp [Task.setFile,other]

/-- The first byte of a pid's 4 MB frame. -/
def get_task_addr (pid : Int) : Nat := u32 (INIT_TASK_ADDR + pid * SIZE_4MB_PAGE)

def get_task_stack_addr (pid : Int) : Word := BitVec.ofInt 32 (INIT_TASK_ADDR - KERNEL_STACK_SIZE * pid - 4)

/-- Where the `task_t` of a pid lies. -/
def get_task (pid : Int) : Word :=
  BitVec.ofInt 32 (INIT_TASK_ADDR - KERNEL_STACK_SIZE * pid - 4) &&& KERNEL_STACK_MASK

theorem get_task_addr_small {pid : Int} (low : 0 ≤ pid) (high : pid < 32) :
    get_task_addr pid = 0x800000 + pid.toNat * 0x400000 := by
  simp only [get_task_addr,INIT_TASK_ADDR,SIZE_4MB_PAGE]
  rw [u32_small (by omega) (by omega)]
  omega

theorem get_task_addr_eq {pid : Int} (low : 0 ≤ pid) (high : pid < 10) :
    get_task_addr pid = 0x800000 + pid.toNat * 0x400000 := get_task_addr_small low (by omega)

/-- Different pids have different `task_t`s. -/
theorem get_task_injective : ∀ p q : Fin 10, get_task p.val = get_task q.val → p = q := by
  decide

end Mp3Kernel.Tasks

import Mp3Kernel.Kernel.SchedRules

/-!
The timer's assembly stub of hardware_intr.S with the stack it works on. The
processor pushes a frame of three words from the kernel and of five from user
code; `idt_pit` makes both five, saves the registers through `save_state`, lets
`pit_process_interrupt` rewrite the frame, loads the next task's registers over
the arguments of `load_state`, and leaves by one of two ways. The C functions
it calls keep to the stack below their arguments.
-/
namespace Mp3Kernel.IdtPit
open Mp3Kernel.Memory Mp3Kernel.Tasks Mp3Kernel.Paging Mp3Kernel.Scheduler

/-- The context that an interrupt meets. -/
structure Cpu where
  eip : Word
  cs : Half
  eflags : Word
  ss : Half
  regs : Regs
  deriving DecidableEq, Repr, Inhabited

/-- What the processor pushes, and the stack pointer after it. -/
def interrupt_entry (cpu : Cpu) (k : Kernel) : Nat × Mem :=
  if cpu.cs = USER_CS then
    let top := k.tss.esp0.toNat
    let m := store32 k.mem (top - 4) (cpu.ss.setWidth 32)
    let m := store32 m (top - 8) cpu.regs.esp
    let m := store32 m (top - 12) cpu.eflags
    let m := store32 m (top - 16) (cpu.cs.setWidth 32)
    (top - 20,store32 m (top - 20) cpu.eip)
  else
    let top := cpu.regs.esp.toNat
    let m := store32 k.mem (top - 4) cpu.eflags
    let m := store32 m (top - 8) (cpu.cs.setWidth 32)
    (top - 12,store32 m (top - 12) cpu.eip)

/-- A frame from the kernel is copied two words down; `eax` is kept on the
    stack meanwhile. -/
def build_frame (esp : Nat) (eax : Word) (m : Mem) : Nat × Word × Mem :=
  if load32 m (esp + 4) = 0x10 then
    let m := store32 m (esp - 12) eax
    let m := store32 m (esp - 8) (load32 m esp)
    let m := store32 m (esp - 4) (load32 m (esp + 4))
    let m := store32 m esp (load32 m (esp + 8))
    (esp - 8,load32 m (esp - 12),m)
  else (esp,eax,m)

/-- The pushes at `from_user_space` below the frame pointer, which are the
    arguments of `save_state`. -/
def push_registers (ebp : Nat) (regs : Regs) (local_esp task : Word) (m : Mem) : Mem :=
  let m := store32 m ebp regs.ebp
  let m := store32 m (ebp - 8) regs.edi
  let m := store32 m (ebp - 12) regs.esi
  let m := store32 m (ebp - 16) regs.edx
  let m := store32 m (ebp - 20) regs.ecx
  let m := store32 m (ebp - 24) regs.ebx
  let m := store32 m (ebp - 28) regs.eax
  let m := store32 m (ebp - 32) (load32 m ebp)
  let m := store32 m (ebp - 36) local_esp
  store32 m (ebp - 40) task

/-- The eight slots that `save_state` reads and `load_state` overwrites. -/
def register_slots (ebp : Nat) (m : Mem) : Regs where
  esp := load32 m (ebp - 36)
  ebp := load32 m (ebp - 32)
  eax := load32 m (ebp - 28)
  ebx := load32 m (ebp - 24)
  ecx := load32 m (ebp - 20)
  edx := load32 m (ebp - 16)
  esi := load32 m (ebp - 12)
  edi := load32 m (ebp - 8)

/-- The frame as the macros of pit.c address it. -/
def read_frame (ebp : Nat) (m : Mem) : IretFrame where
  eip := load32 m (ebp + 4)
  cs := load16 m (ebp + 8)
  eflags := load32 m (ebp + 12)
  esp := load32 m (ebp + 16)
  ss := load16 m (ebp + 20)

def write_task_stack (ebp : Nat) (t : Task) (m : Mem) : Mem :=
  let m := store16 m (ebp + 20) t.tss.ss
  let m := store32 m (ebp + 16) t.tss.esp
  let m := store32 m (ebp + 12) t.tss.eflags
  let m := store16 m (ebp + 8) t.tss.cs
  store32 m (ebp + 4) t.tss.eip

def write_syscall_stack (ebp : Nat) (t : Task) (m : Mem) : Mem :=
  let m := store32 m (ebp + 12) t.tss.eflags
  let m := store16 m (ebp + 8) t.tss.cs
  store32 m (ebp + 4) t.tss.eip

/-- `pit_process_interrupt` on the frame in memory. -/
def process_interrupt (ebp : Nat) (k : Kernel) : Kernel :=
  let k := (pit_process_interrupt (read_frame ebp k.mem) k).2
  let cur_task := k.tasks (get_cur_task k)
  { k with mem := if cur_task.state = .TASK_RUNNING then write_task_stack ebp cur_task k.mem
                  else write_syscall_stack ebp cur_task k.mem }

/-- The call of `load_state`: its arguments, the slots it overwrites, and its
    return value behind the frame pointer. -/
def load_registers (ebp : Nat) (k : Kernel) : Mem :=
  let m := store32 k.mem (ebp - 40) (load32 k.mem (ebp + 8))
  let m := store32 m (ebp - 44) (get_task (get_cur_task k))
  let (regs,ret) := load_state (k.tasks (get_cur_task k)) (load16 m (ebp - 40))
  let m := store32 m (ebp - 36) regs.esp
  let m := store32 m (ebp - 32) regs.ebp
  let m := store32 m (ebp - 28) regs.eax
  let m := store32 m (ebp - 24) regs.ebx
  let m := store32 m (ebp - 20) regs.ecx
  let m := store32 m (ebp - 16) regs.edx
  let m := store32 m (ebp - 12) regs.esi
  let m := store32 m (ebp - 8) regs.edi
  store32 m (ebp - 4) ret

/-- The pops and the way out: over the frame to user code, or over a frame
    pushed on the next task's stack to the kernel. -/
def leave (ebp : Nat) (ss : Half) (m : Mem) : Cpu × Mem :=
  let regs := register_slots ebp m
  if load32 m (ebp - 4) = 0 then
    ({ eip := load32 m (ebp + 4), cs := load16 m (ebp + 8), eflags := load32 m (ebp + 12), ss := load16 m (ebp + 20)
       regs := { regs with esp := load32 m (ebp + 16) } },m)
  else
    let local_esp := regs.esp.toNat
    let m := store32 m ebp regs.eax
    let m := store32 m (ebp - 4) regs.ebx
    let m := store32 m (local_esp - 4) (load32 m (ebp + 12))
    let m := store32 m (local_esp - 8) (load32 m (ebp + 8))
    let m := store32 m (local_esp - 12) (load32 m (ebp + 4))
    ({ eip := load32 m (local_esp - 12), cs := load16 m (local_esp - 8), eflags := load32 m (local_esp - 4), ss := ss
       regs := { regs with eax := load32 m ebp, ebx := load32 m (ebp - 4) } },m)

/-- A timer interrupt, from the context it meets to the context it leaves. -/
def idt_pit (cpu : Cpu) (k : Kernel) : Cpu × Kernel :=
  let (esp,m) := interrupt_entry cpu k
  let (frame,eax,m) := build_frame esp cpu.regs.eax m
  let ebp := frame - 4
  let cur_task := get_cur_task k
  let m := push_registers ebp { cpu.regs with eax := eax } (BitVec.ofNat 32 esp) (get_task cur_task) m
  let k' := { k with mem := m }.setTask cur_task (save_state (register_slots ebp m) (k.tasks cur_task))
  let k' := process_interrupt ebp k'
  let (resumed,m) := leave ebp (if cpu.cs = USER_CS then k.tss.ss0 else cpu.ss) (load_registers ebp k')
  (resumed,{ k' with mem := m })

/-! ### What each part does to the stack -/

variable {m : Mem} {a b ebp : Nat}

theorem load32_store32_here (v : Word) (same : b = a) : load32 (store32 m a v) b = v := by
  rw [same,load32_store32_same]

theorem load16_store16_here (v : Half) (same : b = a) : load16 (store16 m a v) b = v := by
  rw [same,load16_store16_same]

theorem load16_store32_here (v : Word) (same : b = a) : load16 (store32 m a v) b = v.setWidth 16 := by
  rw [same,load16_store32_same]

/-- The pushes lie below the frame and read back as they were pushed. -/
theorem push_registers_slots {regs : Regs} {local_esp task : Word} (room : 44 ≤ ebp) :
    register_slots ebp (push_registers ebp regs local_esp task m) = { regs with esp := local_esp } := by
  simp (disch := omega) only [register_slots,push_registers,load32_store32_apart,load32_store32_here]

theorem push_registers_frame {regs : Regs} {local_esp task : Word} (room : 44 ≤ ebp) :
    read_frame ebp (push_registers ebp regs local_esp task m) = read_frame ebp m := by
  simp (disch := omega) only [read_frame,push_registers,load32_store32_apart,load16_store32_apart]

/-! ### The way out -/

/-- The registers that a record holds, -/
def saved_regs (t : Task) : Regs := (load_state t t.tss.cs).1

/-- and the context. -/
def context (t : Task) : Cpu where
  eip := t.tss.eip
  cs := t.tss.cs
  eflags := t.tss.eflags
  ss := t.tss.ss
  regs := saved_regs t

/-- `load_state` fills the slots from the record. -/
theorem load_registers_slots (k : Kernel) (room : 44 ≤ ebp) :
    register_slots ebp (load_registers ebp k) = saved_regs (k.tasks (get_cur_task k)) := by
  simp only [load_registers,load_state]
  generalize k.tasks (get_cur_task k) = t
  simp (disch := omega) only [register_slots,saved_regs,load_state,load32_store32_apart,load32_store32_here]

theorem load_registers_result (k : Kernel) (room : 44 ≤ ebp) :
    load32 (load_registers ebp k) (ebp - 4) = if load16 k.mem (ebp + 8) = USER_CS then 0 else 1 := by
  have cs : load16 (store32 (store32 k.mem (ebp - 40) (load32 k.mem (ebp + 8))) (ebp - 44) (get_task (get_cur_task k)))
      (ebp - 40) = load16 k.mem (ebp + 8) := by
    rw [load16_store32_apart _ (by omega),load16_store32_same,← load16_eq]
  simp only [load_registers]
  rw [load32_store32_same,load_state,cs]

theorem load_registers_above (k : Kernel) (room : 44 ≤ ebp) (above : ebp ≤ a) :
    load32 (load_registers ebp k) a = load32 k.mem a := by
  simp only [load_registers]
  simp (disch := omega) only [load32_store32_apart]

theorem load_registers_above_half (k : Kernel) (room : 44 ≤ ebp) (above : ebp ≤ a) :
    load16 (load_registers ebp k) a = load16 k.mem a := by
  rw [load16_eq,load16_eq,load_registers_above k room above]

/-- To user code everything comes off the frame and the slots. -/
theorem leave_user (k : Kernel) (ss : Half) (room : 44 ≤ ebp) (written : k.mem = write_task_stack ebp (k.tasks (get_cur_task k)) m)
    (user : (k.tasks (get_cur_task k)).tss.cs = USER_CS) :
    (leave ebp ss (load_registers ebp k)).1 = context (k.tasks (get_cur_task k)) := by
  have cs : load16 k.mem (ebp + 8) = (k.tasks (get_cur_task k)).tss.cs := by
    rw [written,write_task_stack,load16_store32_apart _ (by omega),load16_store16_same]
  have flag := load_registers_result k room
  rw [if_pos (cs.trans user)] at flag
  rw [leave,load_registers_slots k room]
  refine (congrArg Prod.fst (if_pos flag)).trans ?_
  rw [load_registers_above k room (by omega),load_registers_above k room (by omega),load_registers_above k room (by omega),
    load_registers_above_half k room (by omega),load_registers_above_half k room (by omega),cs,written]
  generalize k.tasks (get_cur_task k) = t
  simp (disch := omega) only [write_task_stack,context,load32_store32_apart,load32_store16_apart,load16_store32_apart,
    load16_store16_apart,load32_store32_here,load16_store16_here]
  rfl

/-- To the kernel the frame is pushed on the stack of the next task. -/
theorem leave_kernel (k : Kernel) (ss : Half) (room : 44 ≤ ebp)
    (written : k.mem = write_syscall_stack ebp (k.tasks (get_cur_task k)) m)
    (kernel : (k.tasks (get_cur_task k)).tss.cs ≠ USER_CS) (low : 12 ≤ (k.tasks (get_cur_task k)).tss.esp.toNat)
    (apart : (k.tasks (get_cur_task k)).tss.esp.toNat ≤ ebp - 4 ∨ ebp + 28 ≤ (k.tasks (get_cur_task k)).tss.esp.toNat) :
    (leave ebp ss (load_registers ebp k)).1 = { context (k.tasks (get_cur_task k)) with ss := ss } := by
  have cs : load16 k.mem (ebp + 8) = (k.tasks (get_cur_task k)).tss.cs := by
    rw [written,write_syscall_stack,load16_store32_apart _ (by omega),load16_store16_same]
  have flag := load_registers_result k room
  rw [if_neg (fun user => kernel (cs.symm.trans user))] at flag
  have eip : load32 k.mem (ebp + 4) = (k.tasks (get_cur_task k)).tss.eip := by
    rw [written,write_syscall_stack,load32_store32_same]
  have eflags : load32 k.mem (ebp + 12) = (k.tasks (get_cur_task k)).tss.eflags := by
    rw [written,write_syscall_stack,load32_store32_apart _ (by omega),load32_store16_apart _ (by omega),load32_store32_same]
  have above {a : Nat} (above : ebp ≤ a) := load_registers_above k room above
  rw [leave,load_registers_slots k room]
  refine (congrArg Prod.fst (if_neg (by rw [flag]; decide))).trans ?_
  dsimp only
  have eip := (above (by omega : ebp ≤ ebp + 4)).trans eip
  have eflags := (above (by omega : ebp ≤ ebp + 12)).trans eflags
  have cs := (load_registers_above_half k room (by omega : ebp ≤ ebp + 8)).trans cs
  rw [load16_eq] at cs
  generalize load_registers ebp k = loaded at *
  generalize k.tasks (get_cur_task k) = t at *
  have esp : (saved_regs t).esp = t.tss.esp := rfl
  rw [esp]
  generalize t.tss.esp.toNat = top at *
  simp (disch := omega) only [context,load32_store32_apart,load32_store32_here,load16_store32_apart,load16_store32_here,
    eip,eflags,cs]
  rfl

/-! ### The way in -/

/-- Where the processor leaves the stack pointer, -/
def entry_esp (cpu : Cpu) (k : Kernel) : Nat :=
  if cpu.cs = USER_CS then k.tss.esp0.toNat - 20 else cpu.regs.esp.toNat - 12

/-- and where the frame of five words starts. -/
def frame_at (cpu : Cpu) (k : Kernel) : Nat :=
  if cpu.cs = USER_CS then k.tss.esp0.toNat - 20 else cpu.regs.esp.toNat - 20

/-- A frame holds what the processor saved of a context. -/
def Holds (frame : IretFrame) (cpu : Cpu) : Prop :=
  frame.eip = cpu.eip ∧ frame.cs = cpu.cs ∧ frame.eflags = cpu.eflags ∧
    (cpu.cs = USER_CS → frame.esp = cpu.regs.esp ∧ frame.ss = cpu.ss)

theorem half_of_word (v : Half) : (v.setWidth 32 : Word).setWidth 16 = v := by simp

theorem frame_built {cpu : Cpu} {k : Kernel} (known : cpu.cs = USER_CS ∨ cpu.cs = KERNEL_CS)
    (room : 128 ≤ entry_esp cpu k) : ∃ m₁ m, interrupt_entry cpu k = (entry_esp cpu k,m₁) ∧
      build_frame (entry_esp cpu k) cpu.regs.eax m₁ = (frame_at cpu k,cpu.regs.eax,m) ∧
      Holds (read_frame (frame_at cpu k - 4) m) cpu := by
  rcases known with user | kernel
  · rw [entry_esp,if_pos user] at room
    rw [frame_at,if_pos user,entry_esp,if_pos user]
    have cs : (cpu.cs.setWidth 32 : Word) ≠ 0x10 := by rw [user]; decide
    refine ⟨_,_,if_pos user,if_neg ?_,?_⟩
    · simp (disch := omega) only [load32_store32_apart,load32_store32_here]
      exact cs
    · simp (disch := omega) only [Holds,read_frame,load32_store32_apart,load32_store32_here,load16_store32_apart,
        load16_store32_here,half_of_word]
      exact ⟨trivial,trivial,trivial,fun _ => ⟨trivial,trivial⟩⟩
  · have other : ¬ cpu.cs = USER_CS := by rw [kernel]; decide
    rw [entry_esp,if_neg other] at room
    rw [frame_at,if_neg other,entry_esp,if_neg other]
    have cs : (cpu.cs.setWidth 32 : Word) = 0x10 := by rw [kernel]; decide
    refine ⟨_,_,if_neg other,(if_pos ?_).trans (Prod.ext ?_ (Prod.ext ?_ rfl)),?_⟩
    · simp (disch := omega) only [load32_store32_apart,load32_store32_here]
      exact cs
    · dsimp only
      omega
    · simp (disch := omega) only [load32_store32_apart,load32_store32_here]
    · simp (disch := omega) only [Holds,read_frame,load32_store32_apart,load32_store32_here,load16_store32_apart,
        load16_store32_here,half_of_word]
      exact ⟨trivial,trivial,trivial,fun user => absurd user other⟩

/-! ### The whole interrupt -/

/-- The record of the interrupted task and the stack, once the registers are
    saved. -/
def entered (esp frame : Nat) (cpu : Cpu) (m : Mem) (k : Kernel) : Kernel :=
  let pushed := push_registers (frame - 4) cpu.regs (BitVec.ofNat 32 esp) (get_task (get_cur_task k)) m
  { k with mem := pushed }.setTask (get_cur_task k)
    (save_state { cpu.regs with esp := BitVec.ofNat 32 esp } (k.tasks (get_cur_task k)))

theorem idt_pit_eq {cpu : Cpu} {k : Kernel} {esp frame : Nat} {m₁ : Mem} (entry : interrupt_entry cpu k = (esp,m₁))
    (built : build_frame esp cpu.regs.eax m₁ = (frame,cpu.regs.eax,m)) (room : 120 ≤ frame) :
    idt_pit cpu k =
      ((leave (frame - 4) (if cpu.cs = USER_CS then k.tss.ss0 else cpu.ss)
        (load_registers (frame - 4) (process_interrupt (frame - 4) (entered esp frame cpu m k)))).1,
       { process_interrupt (frame - 4) (entered esp frame cpu m k) with
         mem := (leave (frame - 4) (if cpu.cs = USER_CS then k.tss.ss0 else cpu.ss)
          (load_registers (frame - 4) (process_interrupt (frame - 4) (entered esp frame cpu m k)))).2 }) := by
  have slots : register_slots (frame - 4) (push_registers (frame - 4) cpu.regs (BitVec.ofNat 32 esp)
      (get_task (get_cur_task k)) m) = { cpu.regs with esp := BitVec.ofNat 32 esp } := push_registers_slots (by omega)
  rw [entered,← slots,idt_pit,entry]
  dsimp only
  rw [built]

/-- `idt_pit` is a tick of the scheduler that saves the context it meets and
    leaves by the context of the task it goes to. -/
theorem idt_pit_ticks {cpu : Cpu} {k : Kernel} (known : cpu.cs = USER_CS ∨ cpu.cs = KERNEL_CS)
    (room : 128 ≤ entry_esp cpu k) : ∃ frame m m' k' next, Holds frame cpu ∧
      k' = timer_tick { cpu.regs with esp := BitVec.ofNat 32 (entry_esp cpu k) } frame { k with mem := m } ∧
      next = k'.tasks (get_cur_task k') ∧ (idt_pit cpu k).2 = { k' with mem := m' } ∧
      (next.state = .TASK_RUNNING → next.tss.cs = USER_CS → (idt_pit cpu k).1 = context next) ∧
      (next.state ≠ .TASK_RUNNING → next.tss.cs ≠ USER_CS → 12 ≤ next.tss.esp.toNat →
        next.tss.esp.toNat ≤ frame_at cpu k - 8 ∨ frame_at cpu k + 24 ≤ next.tss.esp.toNat →
        ∃ ss, (idt_pit cpu k).1 = { context next with ss := ss }) := by
  obtain ⟨m₁,m,entry,built,holds⟩ := frame_built known room
  have high : 120 ≤ frame_at cpu k := by
    rw [entry_esp] at room
    rw [frame_at]
    split at room <;> rename_i way
    · rw [if_pos way]
      omega
    · rw [if_neg way]
      omega
  have frame : read_frame (frame_at cpu k - 4) (entered (entry_esp cpu k) (frame_at cpu k) cpu m k).mem =
    read_frame (frame_at cpu k - 4) m := push_registers_frame (by omega)
  obtain ⟨pushed,ticks⟩ : ∃ pushed, (pit_process_interrupt (read_frame (frame_at cpu k - 4) m)
      (entered (entry_esp cpu k) (frame_at cpu k) cpu m k)).2 = timer_tick
        { cpu.regs with esp := BitVec.ofNat 32 (entry_esp cpu k) } (read_frame (frame_at cpu k - 4) m)
        { k with mem := pushed } := ⟨_,rfl⟩
  have left := idt_pit_eq entry built high
  generalize ticked : timer_tick { cpu.regs with esp := BitVec.ofNat 32 (entry_esp cpu k) }
    (read_frame (frame_at cpu k - 4) m) { k with mem := pushed } = k' at ticks
  have process : process_interrupt (frame_at cpu k - 4) (entered (entry_esp cpu k) (frame_at cpu k) cpu m k) =
      { k' with mem := if (k'.tasks (get_cur_task k')).state = .TASK_RUNNING then
          write_task_stack (frame_at cpu k - 4) (k'.tasks (get_cur_task k')) k'.mem
        else write_syscall_stack (frame_at cpu k - 4) (k'.tasks (get_cur_task k')) k'.mem } := by
    rw [process_interrupt,frame,ticks]
  rw [process] at left
  refine ⟨read_frame (frame_at cpu k - 4) m,pushed,_,k',_,holds,ticked.symm,rfl,congrArg Prod.snd left,?_,?_⟩
  · intro running user
    rw [left]
    exact leave_user _ _ (by omega) (if_pos running) user
  · intro call kernel low apart
    have apart : (k'.tasks (get_cur_task k')).tss.esp.toNat ≤ frame_at cpu k - 4 - 4 ∨
      frame_at cpu k - 4 + 28 ≤ (k'.tasks (get_cur_task k')).tss.esp.toNat := by omega
    rw [left]
    exact ⟨_,leave_kernel _ _ (by omega) (if_neg call) kernel low apart⟩

end Mp3Kernel.IdtPit

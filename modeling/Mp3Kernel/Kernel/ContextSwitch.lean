import Mp3Kernel.Kernel.IdtPit
import Mp3Kernel.Kernel.TaskForest

/-!
What a task finds when the timer resumes it. A machine takes the system calls
whole, lets the running task do in its slice whatever leaves the scheduler and
the other records alone, and takes timer interrupts through `idt_pit`; a log
pairs each resumed context with the one in which the task was last preempted.
-/
namespace Mp3Kernel.ContextSwitch
open Mp3Kernel.Memory Mp3Kernel.Filesys Mp3Kernel.Tasks Mp3Kernel.Scheduler Mp3Kernel.Stacks
open Mp3Kernel.Runs Mp3Kernel.TaskForest Mp3Kernel.IdtPit

structure Machine where
  k : Kernel
  /-- The context in which a task was last preempted. -/
  last : Int → Option Cpu
  /-- The contexts resumed so far, each after the one preempted. -/
  log : List (Cpu × Cpu)

/-- On the kernel stack of a task, above its record and with room for what
    `idt_pit` pushes. -/
def OnStack (pid : Int) (esp : Word) : Prop :=
  (get_task pid).toNat + 144 ≤ esp.toNat ∧ esp.toNat ≤ (get_task_stack_addr pid).toNat

/-- Where a tick can hit the current task: in user code, or in the kernel on its
    own stack. Task 0 stays in the kernel. -/
def Interrupted (k : Kernel) (cpu : Cpu) : Prop :=
  cpu.cs = USER_CS ∧ k.scheduler.cur_task ≠ 0 ∨ cpu.cs = KERNEL_CS ∧ OnStack k.scheduler.cur_task cpu.regs.esp

instance (k : Kernel) (cpu : Cpu) : Decidable (Interrupted k cpu) :=
  inferInstanceAs (Decidable (_ ∨ _ ∧ _ ∧ _))

inductive Event where
  | execute (programName argsBuffer : Nat → Byte) (esp ebp : Word)
  | halt (status : Byte)
  /-- What the current task does up to the next call or tick: the memory, the
      terminals, its files and its state are taken from `after`. -/
  | slice (after : Kernel)
  | tick (cpu : Cpu)

/-- The kernel after a slice of the current task. -/
def sliced (after k : Kernel) : Kernel :=
  { k with mem := after.mem, intr := after.intr, console := after.console }.setTask k.scheduler.cur_task
    { k.tasks k.scheduler.cur_task with
      files := (after.tasks k.scheduler.cur_task).files
      state := (after.tasks k.scheduler.cur_task).state }

section
variable (file_sys : FileSys) (halt_addr : Word)

def step (s : Machine) : Event → Option Machine
  | .execute programName argsBuffer esp ebp =>
    (TaskForest.step file_sys halt_addr s.k (.execute programName argsBuffer esp ebp)).map fun k => { s with k := k }
  | .halt status => (TaskForest.step file_sys halt_addr s.k (.halt status)).map fun k => { s with k := k }
  | .slice after => some { s with k := sliced after s.k }
  | .tick cpu =>
    if Interrupted s.k cpu then
      let (resumed,k) := idt_pit cpu s.k
      some {
        k := k
        last := fun pid => if pid = s.k.scheduler.cur_task then some cpu else s.last pid
        log := match s.last k.scheduler.cur_task with
          | some preempted => (preempted,resumed) :: s.log
          | none => s.log }
    else none

end

/-- The same registers, and the same stack segment in user code. -/
def SameContext (preempted resumed : Cpu) : Prop :=
  resumed.eip = preempted.eip ∧ resumed.cs = preempted.cs ∧ resumed.eflags = preempted.eflags ∧
    resumed.regs = preempted.regs ∧ (preempted.cs = USER_CS → resumed.ss = preempted.ss)

/-- Every context resumed so far is the one that was preempted. -/
def Restored (s : Machine) : Prop := ∀ pair ∈ s.log, SameContext pair.1 pair.2

/-! ### The stacks of the tasks -/

theorem stack_bounds {pid : Int} (low : 0 ≤ pid) (high : pid < 10) :
    ((get_task pid).toNat : Int) = 0x7FE000 - 8192 * pid ∧
      ((get_task_stack_addr pid).toNat : Int) = 0x7FFFFC - 8192 * pid := by
  have all : ∀ p : Fin 10, ((get_task p.val).toNat : Int) = 0x7FE000 - 8192 * p.val ∧
      ((get_task_stack_addr p.val).toNat : Int) = 0x7FFFFC - 8192 * p.val := by decide
  obtain ⟨p,rfl⟩ : ∃ p : Fin 10, pid = p.val := ⟨⟨pid.toNat,by omega⟩,by dsimp only; omega⟩
  exact all p

/-! ### Saving -/

/-- The record of a preempted task. -/
structure Saved (t : Task) (cpu : Cpu) : Prop where
  user : cpu.cs = USER_CS → t.state = .TASK_RUNNING ∧ context t = cpu
  kernel : cpu.cs = KERNEL_CS → t.state = .TASK_SYS_CALL ∧ ∃ ss, context t = { cpu with ss := ss }

variable {k k' : Kernel} {cpu : Cpu} {frame : IretFrame} {halt_addr : Word} {trees : Fin 3 → List Int} {pid : Int}

/-- A tick saves the context it meets, in one of two ways, and leaves `esp0`. -/
theorem tick_saves (known : Interrupted k cpu) (holds : Holds frame cpu)
    (room : cpu.cs = KERNEL_CS → 12 ≤ cpu.regs.esp.toNat) :
    Saved ((saved_tick { cpu.regs with esp := BitVec.ofNat 32 (entry_esp cpu k) } frame k).tasks (get_cur_task k)) cpu ∧
      ((saved_tick { cpu.regs with esp := BitVec.ofNat 32 (entry_esp cpu k) } frame k).tasks (get_cur_task k)).tss.esp0 =
        (k.tasks (get_cur_task k)).tss.esp0 := by
  obtain ⟨eip,cs,eflags,user_only⟩ := holds
  rcases known with ⟨user,-⟩ | ⟨kernel,-⟩
  · obtain ⟨esp,ss⟩ := user_only user
    rw [saved_tick_user (cs.trans user)]
    refine ⟨⟨fun _ => ⟨rfl,?_⟩,fun kernel => absurd (user.symm.trans kernel) (by decide)⟩,rfl⟩
    have regs : ({ cpu.regs with esp := frame.esp } : Regs) = cpu.regs := by rw [esp]
    have whole : Cpu.mk frame.eip frame.cs frame.eflags frame.ss { cpu.regs with esp := frame.esp } = cpu := by
      rw [eip,cs,eflags,ss,regs]
    exact whole
  · have other : ¬ cpu.cs = USER_CS := by rw [kernel]; decide
    rw [saved_tick_kernel (cs.trans kernel)]
    refine ⟨⟨fun user => absurd user other,fun _ => ⟨rfl,(k.tasks (get_cur_task k)).tss.ss,?_⟩⟩,rfl⟩
    have esp : BitVec.ofNat 32 (entry_esp cpu k) + 12 = cpu.regs.esp := by
      rw [entry_esp,if_neg other]
      have low := room kernel
      bv_omega
    have regs : ({ cpu.regs with esp := BitVec.ofNat 32 (entry_esp cpu k) + 12 } : Regs) = cpu.regs := by rw [esp]
    have whole : Cpu.mk frame.eip frame.cs frame.eflags (k.tasks (get_cur_task k)).tss.ss
        { cpu.regs with esp := BitVec.ofNat 32 (entry_esp cpu k) + 12 } =
          { cpu with ss := (k.tasks (get_cur_task k)).tss.ss } := by
      rw [eip,cs,eflags,regs]
    exact whole

/-! ### The invariant -/

/-- Every task has the top of its stack in `esp0`, and every leaf that is not
    running has the context of its last preemption in its record. -/
structure Switching (halt_addr : Word) (trees : Fin 3 → List Int) (s : Machine) : Prop where
  leaves : Leaves halt_addr s.k trees
  ptree : 0 ≤ s.k.scheduler.cur_ptree ∧ s.k.scheduler.cur_ptree < 3
  phase : s.k.scheduler.cur_task = 0 ∨ Scheduled halt_addr s.k trees
  esp0 : ∀ pid, Held trees pid → (s.k.tasks pid).tss.esp0 = get_task_stack_addr pid
  tss : s.k.scheduler.cur_task ≠ 0 → s.k.tss.esp0 = get_task_stack_addr s.k.scheduler.cur_task
  saved : ∀ q : Fin 3, s.k.scheduler.ptree_tasks q.val ≠ s.k.scheduler.cur_task →
    ∀ cpu, s.last (s.k.scheduler.ptree_tasks q.val) = some cpu →
      Saved (s.k.tasks (s.k.scheduler.ptree_tasks q.val)) cpu ∧
        (cpu.cs = USER_CS ∨ cpu.cs = KERNEL_CS ∧ OnStack (s.k.scheduler.ptree_tasks q.val) cpu.regs.esp)
  restored : Restored s

variable {s s' : Machine} {file_sys : FileSys}

theorem Switching.current (switching : Switching halt_addr trees s) :
    0 ≤ s.k.scheduler.cur_task ∧ s.k.scheduler.cur_task < 10 ∧ get_cur_task s.k = s.k.scheduler.cur_task := by
  rcases switching.phase with idle | scheduled
  · rw [get_cur_task,idle]
    exact ⟨le_rfl,by decide,if_neg (by decide)⟩
  · obtain ⟨p,rest,-,top,cur,-⟩ := scheduled.running
    have live := scheduled.forest.held_live (show s.k.scheduler.cur_task ∈ trees p by rw [top]; exact List.mem_cons_self)
    exact ⟨live.1,scheduled.forest.bound _ live,cur⟩

/-- The leaf of the next process tree is another task. -/
theorem Switching.next_other (switching : Switching halt_addr trees s) {q : Fin 3}
    (next : (s.k.scheduler.cur_ptree + 1) % 3 = q.val) : s.k.scheduler.ptree_tasks q.val ≠ s.k.scheduler.cur_task := by
  have leaf := switching.leaves.leaf_held q
  have record := switching.leaves.forest.record q _ leaf
  intro same
  rcases switching.phase with idle | scheduled
  · exact record.positive (same.trans idle)
  · obtain ⟨p,rest,ptree,top,-,-⟩ := scheduled.running
    have held : s.k.scheduler.cur_task ∈ trees p := by rw [top]; exact List.mem_cons_self
    rw [same] at leaf
    have tree := switching.leaves.forest.apart.disjoint p q _ held leaf
    have below := p.isLt
    rw [ptree,tree] at next
    omega

/-- An interrupt leaves room below for everything that `idt_pit` pushes. -/
theorem Switching.room (switching : Switching halt_addr trees s) (hit : Interrupted s.k cpu) :
    128 ≤ entry_esp cpu s.k ∧ (cpu.cs = KERNEL_CS → 12 ≤ cpu.regs.esp.toNat) ∧
      0x7FE000 - 8192 * s.k.scheduler.cur_task + 124 ≤ frame_at cpu s.k ∧
      frame_at cpu s.k + 20 ≤ 0x7FFFFC - 8192 * s.k.scheduler.cur_task := by
  obtain ⟨low,high,-⟩ := switching.current
  obtain ⟨bottom,top⟩ := stack_bounds low high
  rcases hit with ⟨user,program⟩ | ⟨kernel,above,below⟩
  · have esp0 := switching.tss program
    rw [entry_esp,frame_at,if_pos user,if_pos user,esp0]
    refine ⟨by omega,fun kernel => absurd (user.symm.trans kernel) (by decide),by omega,by omega⟩
  · have other : ¬ cpu.cs = USER_CS := by rw [kernel]; decide
    rw [entry_esp,frame_at,if_neg other,if_neg other]
    exact ⟨by omega,fun _ => by omega,by omega,by omega⟩

/-- A task resumed in the kernel has its stack apart from the frame. -/
theorem resumed_apart {next cur : Int} {esp : Word} {frame : Nat} (low : 0 ≤ next) (high : next < 10) (other : next ≠ cur)
    (on_stack : OnStack next esp) (above : 0x7FE000 - 8192 * cur + 124 ≤ frame)
    (below : frame + 20 ≤ 0x7FFFFC - 8192 * cur) : 12 ≤ esp.toNat ∧ (esp.toNat ≤ frame - 8 ∨ frame + 24 ≤ esp.toNat) := by
  obtain ⟨bottom,top⟩ := stack_bounds low high
  obtain ⟨above',below'⟩ := on_stack
  refine ⟨by omega,?_⟩
  rcases lt_or_gt_of_ne other with lower | higher
  · right
    omega
  · left
    omega

/-! ### Steps -/

/-- The context that `idt_pit` leaves by is the one that the record holds. -/
theorem resumed_same {next : Task} {preempted resumed : Cpu} {at_frame : Nat} (saved : Saved next preempted)
    (place : preempted.cs = USER_CS ∨ preempted.cs = KERNEL_CS ∧ OnStack pid preempted.regs.esp)
    (user : next.state = .TASK_RUNNING → next.tss.cs = USER_CS → resumed = context next)
    (kernel : next.state ≠ .TASK_RUNNING → next.tss.cs ≠ USER_CS → 12 ≤ next.tss.esp.toNat →
      next.tss.esp.toNat ≤ at_frame - 8 ∨ at_frame + 24 ≤ next.tss.esp.toNat →
        ∃ ss, resumed = { context next with ss := ss })
    (apart : OnStack pid preempted.regs.esp → 12 ≤ preempted.regs.esp.toNat ∧
      (preempted.regs.esp.toNat ≤ at_frame - 8 ∨ at_frame + 24 ≤ preempted.regs.esp.toNat)) :
    SameContext preempted resumed := by
  rcases place with in_user | ⟨in_kernel,on_stack⟩
  · obtain ⟨running,held⟩ := saved.user in_user
    have cs : next.tss.cs = preempted.cs := congrArg Cpu.cs held
    rw [user running (cs.trans in_user),held]
    exact ⟨rfl,rfl,rfl,rfl,fun _ => rfl⟩
  · obtain ⟨call,ss,held⟩ := saved.kernel in_kernel
    have cs : next.tss.cs = preempted.cs := congrArg Cpu.cs held
    have esp : next.tss.esp = preempted.regs.esp := congrArg (fun c => c.regs.esp) held
    obtain ⟨deep,clear⟩ := apart on_stack
    obtain ⟨ss',left⟩ := kernel (by rw [call]; decide) (by rw [cs,in_kernel]; decide) (by rw [esp]; exact deep)
      (by rw [esp]; exact clear)
    rw [left,held]
    exact ⟨rfl,rfl,rfl,rfl,fun user => absurd (in_kernel.symm.trans user) (by decide)⟩

/-- What a tick makes of the kernel, and the context that it resumes. -/
structure Ticked (halt_addr : Word) (trees : Fin 3 → List Int) (cpu resumed : Cpu) (k k' : Kernel) (q : Fin 3) : Prop where
  scheduled : Scheduled halt_addr k' trees
  scheduler : k'.scheduler = { k.scheduler with cur_task := k.scheduler.ptree_tasks q.val, cur_ptree := q.val }
  other : k.scheduler.ptree_tasks q.val ≠ k.scheduler.cur_task
  tss : k'.tss = (k.tasks (k.scheduler.ptree_tasks q.val)).tss
  saved : Saved (k'.tasks k.scheduler.cur_task) cpu
  esp0 : (k'.tasks k.scheduler.cur_task).tss.esp0 = (k.tasks k.scheduler.cur_task).tss.esp0
  others : ∀ pid, pid ≠ k.scheduler.cur_task → k'.tasks pid = k.tasks pid
  resumes : ∀ preempted, Saved (k.tasks (k.scheduler.ptree_tasks q.val)) preempted →
    (preempted.cs = USER_CS ∨ preempted.cs = KERNEL_CS ∧ OnStack (k.scheduler.ptree_tasks q.val) preempted.regs.esp) →
      SameContext preempted resumed

theorem idt_pit_ticked (switching : Switching halt_addr trees s) (hit : Interrupted s.k cpu) :
    ∃ q, Ticked halt_addr trees cpu (idt_pit cpu s.k).1 s.k (idt_pit cpu s.k).2 q := by
  obtain ⟨low,high,cur⟩ := switching.current
  obtain ⟨deep,room,above,below⟩ := switching.room hit
  have known : cpu.cs = USER_CS ∨ cpu.cs = KERNEL_CS := hit.imp And.left And.left
  obtain ⟨frame,m,m',k',next,holds,ticked,task,result,user,kernel⟩ := idt_pit_ticks known deep
  have leaves : Leaves halt_addr { s.k with mem := m } trees := switching.leaves.keep rfl (fun _ => .refl _) (fun _ => rfl)
  obtain ⟨q,turn,switched,scheduler⟩ := tick_switches
    { cpu.regs with esp := BitVec.ofNat 32 (entry_esp cpu s.k) } frame leaves switching.ptree.1 switching.ptree.2
  have scheduled := tick_scheduled { cpu.regs with esp := BitVec.ofNat 32 (entry_esp cpu s.k) } frame leaves
    switching.ptree.1 switching.ptree.2
  have saves := tick_saves (k := { s.k with mem := m }) hit holds room
  rw [← ticked] at switched scheduler scheduled
  have tasks : k'.tasks = (saved_tick { cpu.regs with esp := BitVec.ofNat 32 (entry_esp cpu s.k) } frame
    { s.k with mem := m }).tasks := by rw [switched,switch_task_tasks]
  have others (pid : Int) (other : pid ≠ s.k.scheduler.cur_task) : k'.tasks pid = s.k.tasks pid := by
    rw [tasks]
    exact saved_tick_other _ _ _ (other.trans_eq cur.symm)
  have next_other := switching.next_other turn
  have live := switching.leaves.forest.held_live (switching.leaves.leaf_held q)
  have next_task : next = s.k.tasks (s.k.scheduler.ptree_tasks q.val) := by
    have resumed : get_cur_task k' = s.k.scheduler.ptree_tasks q.val := by
      rw [get_cur_task,scheduler,if_neg (by have := live.1; dsimp only; omega)]
    rw [task,resumed,others _ next_other]
  have mine : Saved (k'.tasks s.k.scheduler.cur_task) cpu ∧
      (k'.tasks s.k.scheduler.cur_task).tss.esp0 = (s.k.tasks s.k.scheduler.cur_task).tss.esp0 := by
    rw [tasks,← cur]
    exact saves
  rw [result]
  refine ⟨q,scheduled.keep rfl (fun _ => .refl _) (fun _ => rfl) rfl rfl,scheduler,next_other,?_,mine.1,mine.2,others,?_⟩
  · change k'.tss = _
    rw [switched,switch_task_tss,← tasks,others _ next_other]
  · intro preempted saved place
    rw [← next_task] at saved
    refine resumed_same saved place user kernel ?_
    intro on_stack
    exact resumed_apart live.1 (switching.leaves.forest.bound _ live) next_other on_stack above below

theorem tick_switching (switching : Switching halt_addr trees s) (taken : step file_sys halt_addr s (.tick cpu) = some s') :
    Switching halt_addr trees s' := by
  rw [step] at taken
  split at taken
  case isFalse => cases taken
  rename_i hit
  obtain ⟨q,ticked⟩ := idt_pit_ticked switching hit
  generalize idt_pit cpu s.k = left at taken ticked
  obtain ⟨resumed,k'⟩ := left
  obtain rfl := Option.some.inj taken
  have held := switching.leaves.leaf_held q
  refine ⟨ticked.scheduled.toLeaves,?_,.inr ticked.scheduled,?_,?_,?_,?_⟩
  · rw [ticked.scheduler]
    dsimp only
    omega
  · intro pid held
    have before := switching.esp0 pid held
    by_cases same : pid = s.k.scheduler.cur_task
    · subst same
      exact ticked.esp0.trans before
    · exact (congrArg (fun t => t.tss.esp0) (ticked.others pid same)).trans before
  · intro _
    rw [ticked.tss,ticked.scheduler]
    exact switching.esp0 _ ⟨q,held⟩
  · intro p
    dsimp only
    rw [ticked.scheduler]
    intro left c found
    by_cases same : s.k.scheduler.ptree_tasks p.val = s.k.scheduler.cur_task
    · rw [if_pos same] at found
      obtain rfl := Option.some.inj found
      dsimp only
      rw [same]
      exact ⟨ticked.saved,hit.imp And.left id⟩
    · rw [if_neg same] at found
      dsimp only
      rw [ticked.others _ same]
      exact switching.saved p same c found
  · rw [Restored]
    dsimp only
    rw [ticked.scheduler]
    dsimp only
    cases found : s.last (s.k.scheduler.ptree_tasks q.val) with
    | none => exact switching.restored
    | some preempted =>
      obtain ⟨saved,place⟩ := switching.saved q ticked.other preempted found
      rintro pair (_ | ⟨_,earlier⟩)
      · exact ticked.resumes preempted saved place
      · exact switching.restored pair earlier

/-- A step of the running task keeps the invariant when it leaves the other
    leaves and their records alone. -/
theorem Switching.carry {trees' : Fin 3 → List Int} (switching : Switching halt_addr trees s)
    (scheduled : Scheduled halt_addr k' trees')
    (esp0 : ∀ pid, Held trees' pid → (k'.tasks pid).tss.esp0 = get_task_stack_addr pid)
    (tss : k'.tss.esp0 = get_task_stack_addr k'.scheduler.cur_task)
    (still : ∀ q : Fin 3, k'.scheduler.ptree_tasks q.val ≠ k'.scheduler.cur_task →
      k'.scheduler.ptree_tasks q.val = s.k.scheduler.ptree_tasks q.val ∧
        s.k.scheduler.ptree_tasks q.val ≠ s.k.scheduler.cur_task ∧
        k'.tasks (s.k.scheduler.ptree_tasks q.val) = s.k.tasks (s.k.scheduler.ptree_tasks q.val)) :
    Switching halt_addr trees' { s with k := k' } := by
  obtain ⟨p,ptree,-⟩ := scheduled.current
  have below := p.isLt
  refine ⟨scheduled.toLeaves,⟨by dsimp only; omega,by dsimp only; omega⟩,.inr scheduled,esp0,fun _ => tss,?_,
    switching.restored⟩
  intro q
  dsimp only
  intro other c found
  obtain ⟨leaf,before,record⟩ := still q other
  rw [leaf] at found ⊢
  rw [record]
  exact switching.saved q before c found

/-- The leaves of the other process trees are other tasks. -/
theorem leaf_other (scheduled : Scheduled halt_addr k trees) {q : Fin 3} (other : k.scheduler.cur_ptree ≠ q.val) :
    k.scheduler.ptree_tasks q.val ≠ k.scheduler.cur_task := by
  obtain ⟨p,rest,ptree,top,-,-⟩ := scheduled.running
  intro same
  have leaf := scheduled.leaf_held q
  rw [same] at leaf
  have tree := scheduled.forest.apart.disjoint p q _ (by rw [top]; exact List.mem_cons_self) leaf
  exact other (by rw [ptree,tree])

theorem slice_switching (after : Kernel) (switching : Switching halt_addr trees s) :
    Switching halt_addr trees { s with k := sliced after s.k } := by
  have others {pid : Int} (other : pid ≠ s.k.scheduler.cur_task) : (sliced after s.k).tasks pid = s.k.tasks pid :=
    setTask_other _ _ other
  have own : (sliced after s.k).tasks s.k.scheduler.cur_task = { s.k.tasks s.k.scheduler.cur_task with
      files := (after.tasks s.k.scheduler.cur_task).files
      state := (after.tasks s.k.scheduler.cur_task).state } := setTask_same _ _ _
  have links (pid : Int) : SameLinks ((sliced after s.k).tasks pid) (s.k.tasks pid) ∧
      ((sliced after s.k).tasks pid).ret_eip = (s.k.tasks pid).ret_eip ∧
      ((sliced after s.k).tasks pid).tss = (s.k.tasks pid).tss := by
    by_cases same : pid = s.k.scheduler.cur_task
    · rw [same,own]
      exact ⟨⟨rfl,rfl,rfl,rfl⟩,rfl,rfl⟩
    · rw [others same]
      exact ⟨⟨rfl,rfl,rfl,rfl⟩,rfl,rfl⟩
  refine ⟨switching.leaves.keep rfl (fun pid => (links pid).1) (fun pid => (links pid).2.1),switching.ptree,
    switching.phase.imp id ?_,?_,switching.tss,?_,switching.restored⟩
  · intro scheduled
    exact scheduled.keep rfl (fun pid => (links pid).1) (fun pid => (links pid).2.1) rfl rfl
  · intro pid held
    dsimp only
    rw [(links pid).2.2]
    exact switching.esp0 pid held
  · intro q other c found
    dsimp only
    rw [show (sliced after s.k).scheduler = s.k.scheduler from rfl,
      others (show s.k.scheduler.ptree_tasks q.val ≠ s.k.scheduler.cur_task from other)]
    exact switching.saved q other c found

theorem execute_switching {programName argsBuffer : Nat → Byte} {esp ebp : Word} (switching : Switching halt_addr trees s)
    (scheduled : Scheduled halt_addr s.k trees) : ∃ trees', Switching halt_addr trees'
      { s with k := (do_execute file_sys halt_addr esp ebp programName argsBuffer s.k).2 } := by
  obtain ⟨p,rest,ptree,top,cur,record⟩ := scheduled.running
  have held : s.k.scheduler.cur_task ∈ trees p := by rw [top]; exact List.mem_cons_self
  have busy : s.k.scheduler.cur_task ≠ 0 := record.positive
  have parent_live := (scheduled.forest.held_live held).1
  obtain ⟨pid,k₁,outcome,created | ⟨failed,refused⟩⟩ := create_task_cases file_sys programName argsBuffer (k := s.k)
    (by rw [scheduled.forest.max_tasks]; omega)
  · obtain ⟨q,pushed⟩ := execute_scheduled esp ebp scheduled created
    obtain ⟨positive,fresh⟩ := scheduled.forest.fresh created.fresh
    obtain ⟨exe_addr,-,-,made⟩ := created.loaded
    rw [new_record,if_pos (by omega)] at made
    have ptid : (k₁.tasks pid).ptid = p.val := by
      rw [made]
      exact record.ptid
    have stack : (k₁.tasks pid).tss.esp0 = get_task_stack_addr pid := by rw [made]; rfl
    have new := execute_task_started halt_addr esp ebp pid k₁
    have others {r : Int} (inside : Held trees r) :
        (execute_task halt_addr esp ebp pid k₁).2.tasks r = s.k.tasks r := by
      have other : r ≠ pid := fun same => fresh (same ▸ inside)
      rw [execute_task_other halt_addr esp ebp pid k₁ other,created.others r other]
    have scheduler := execute_task_scheduler halt_addr esp ebp pid k₁
    rw [ptid,created.scheduler] at scheduler
    rw [do_execute_done outcome created.low]
    refine ⟨_,switching.carry pushed ?_ ?_ ?_⟩
    · intro r inside
      rcases held_push.mp inside with before | rfl
      · rw [others before]
        exact switching.esp0 r before
      · rw [new]
        exact stack
    · rw [scheduler,execute_task_eq]
      exact stack
    · intro r
      rw [scheduler]
      dsimp only
      by_cases own : (r.val : Int) = p.val
      · rw [if_pos own]
        exact fun other => absurd rfl other
      · rw [if_neg own]
        exact fun _ => ⟨rfl,leaf_other scheduled (by omega),others ⟨r,scheduled.leaf_held r⟩⟩
  · have after := refused_scheduled scheduled refused
    have tasks {r : Int} (inside : Held trees r) : k₁.tasks r = s.k.tasks r := scheduled.forest.refused refused inside
    rw [do_execute_failed outcome (by omega)]
    refine ⟨trees,switching.carry after ?_ ?_ ?_⟩
    · intro r inside
      rw [tasks inside]
      exact switching.esp0 r inside
    · rw [refused.tss,refused.scheduler]
      exact switching.tss busy
    · intro r other
      rw [refused.scheduler] at other ⊢
      exact ⟨rfl,other,tasks ⟨r,scheduled.leaf_held r⟩⟩

theorem halt_switching {status : Byte} (switching : Switching halt_addr trees s)
    (scheduled : Scheduled halt_addr s.k trees)
    (taken : TaskForest.step file_sys halt_addr s.k (.halt status) = some k') :
    ∃ trees', Switching halt_addr trees' { s with k := k' } := by
  obtain ⟨p,rest,ptree,top,cur,record⟩ := scheduled.running
  have busy : s.k.scheduler.cur_task ≠ 0 := record.positive
  obtain ⟨c,restarts | ⟨q,parent,below,top',returns⟩⟩ := halt_outcome file_sys status scheduled
  · obtain rfl := Option.some.inj (restarts.symm.trans taken)
    rw [cur]
    have restarted_same := setTask_same { s.k with console := c } s.k.scheduler.cur_task
      (restarted (s.k.tasks s.k.scheduler.cur_task))
    have after := restart_scheduled c scheduled
    rw [cur] at after
    refine ⟨trees,switching.carry after ?_ ?_ ?_⟩
    · intro pid inside
      have before := switching.esp0 pid inside
      by_cases same : pid = s.k.scheduler.cur_task
      · rw [same] at before ⊢
        exact (congrArg (fun t => t.tss.esp0) restarted_same).trans before
      · exact (congrArg (fun t => t.tss.esp0) (setTask_other _ _ same)).trans before
    · exact (congrArg (fun t => t.tss.esp0) restarted_same).trans
        (switching.esp0 _ ⟨p,by rw [top]; exact List.mem_cons_self⟩)
    · intro r other
      exact ⟨rfl,other,setTask_other _ _ other⟩
  · obtain rfl := Option.some.inj (returns.symm.trans taken)
    have after := return_scheduled status (console_scheduled c scheduled) top'
    obtain ⟨-,ended,scheduler⟩ := return_ended status (console_scheduled c scheduled) top'
    have held : s.k.scheduler.cur_task ∈ trees q := by rw [top']; exact List.mem_cons_self
    have tree := scheduled.forest.apart.disjoint p q _ (by rw [top]; exact List.mem_cons_self) held
    refine ⟨_,switching.carry after ?_ ?_ ?_⟩
    · intro pid inside
      rw [ended]
      exact switching.esp0 pid ((held_pop scheduled.forest.apart top').mp inside).1
    · rw [ended]
      change (s.k.tasks parent).tss.esp0 = get_task_stack_addr (end_task _ { s.k with console := c }).scheduler.cur_task
      rw [scheduler]
      exact switching.esp0 parent ⟨q,by rw [top']; simp⟩
    · intro r
      rw [ended]
      change (end_task _ { s.k with console := c }).scheduler.ptree_tasks r.val ≠
        (end_task _ { s.k with console := c }).scheduler.cur_task →
          (end_task _ { s.k with console := c }).scheduler.ptree_tasks r.val = _ ∧ _
      rw [scheduler]
      dsimp only
      by_cases own : (r.val : Int) = q.val
      · rw [if_pos own]
        exact fun other => absurd rfl other
      · rw [if_neg own]
        exact fun _ => ⟨rfl,leaf_other scheduled (by rw [ptree,tree]; exact fun same => own same.symm),rfl⟩

theorem step_switching {ev : Event} (switching : ∃ trees, Switching halt_addr trees s)
    (taken : step file_sys halt_addr s ev = some s') : ∃ trees, Switching halt_addr trees s' := by
  obtain ⟨trees,switching⟩ := switching
  cases ev with
  | tick cpu => exact ⟨trees,tick_switching switching taken⟩
  | slice after =>
    obtain rfl := Option.some.inj taken
    exact ⟨trees,slice_switching after switching⟩
  | execute programName argsBuffer esp ebp =>
    rw [step,Option.map_eq_some_iff] at taken
    obtain ⟨k,taken,rfl⟩ := taken
    rcases switching.phase with idle | scheduled
    · rw [TaskForest.step,if_pos idle] at taken
      cases taken
    · have busy : s.k.scheduler.cur_task ≠ 0 := by
        obtain ⟨p,rest,-,-,-,record⟩ := scheduled.running
        exact record.positive
      rw [TaskForest.step,if_neg busy] at taken
      obtain rfl := Option.some.inj taken
      exact execute_switching switching scheduled
  | halt status =>
    rw [step,Option.map_eq_some_iff] at taken
    obtain ⟨k,taken,rfl⟩ := taken
    rcases switching.phase with idle | scheduled
    · rw [TaskForest.step,if_pos idle] at taken
      cases taken
    · exact halt_switching switching scheduled taken

/-! ### From the boot on -/

/-- The kernel after the boot, before any task is preempted. -/
def begin_machine (k : Kernel) : Machine := { k := k, last := fun _ => none, log := [] }

/-- The shells created so far have the tops of their stacks in `esp0`. -/
def Stacked (n : Nat) (k : Kernel) : Prop := ∀ p < n, (k.tasks (p + 1)).tss.esp0 = get_task_stack_addr (p + 1)

theorem init_shell_stacked {n : Nat} (few : n < 3) (booted : Booting k n) (stacked : Stacked n k)
    (done : init_shell file_sys k = some k') : Stacked (n + 1) k' := by
  obtain ⟨pid,k₁,ptid,_,_,_,created,rfl⟩ := init_shell_created (by rw [booted.max_tasks]; omega) done
  have number := created_shell few booted created
  obtain ⟨exe_addr,-,-,made⟩ := created.loaded
  have stack : (k₁.tasks pid).tss.esp0 = get_task_stack_addr pid := by
    rw [made,new_record]
    split <;> rfl
  intro p below
  by_cases last : p = n
  · have same := setTask_same k₁ pid (shell_record ptid (k₁.tasks pid))
    rw [last,← number]
    exact (congrArg (fun t => t.tss.esp0) same).trans stack
  · have other := setTask_other k₁ (shell_record ptid (k₁.tasks pid)) (show (p + 1 : Int) ≠ pid from by omega)
    refine (congrArg (fun t => t.tss.esp0) other).trans ?_
    rw [created.others _ (by omega)]
    exact stacked p (by omega)

variable (halt_addr) in
theorem begin_switching {k₁ : Kernel} (start : k.scheduler = scheduler) (unwritten : (k.tasks 0).ptid = 0)
    (booted : tasks_init file_sys k = some k₁) : Switching halt_addr shells (begin_machine k₁) := by
  obtain ⟨leaves,cur_task,cur_ptree,-⟩ := tasks_init_leaves halt_addr start unwritten booted
  obtain ⟨k₂,-,stacked,rfl⟩ := tasks_init_rule (P := Stacked) start unwritten booted
    (fun _ _ _ p below => absurd below (Nat.not_lt_zero p))
    (fun _ _ _ few ready stacked done => init_shell_stacked few ready stacked done)
  refine ⟨leaves,⟨by rw [begin_machine,cur_ptree],by rw [begin_machine,cur_ptree]; decide⟩,.inl cur_task,?_,
    fun busy => absurd cur_task busy,fun _ _ _ found => (by cases found),fun _ inside => (by cases inside)⟩
  rintro pid ⟨p,inside⟩
  obtain rfl := List.mem_singleton.mp inside
  have other : ((p.val : Int) + 1) ≠ 0 := by omega
  exact (congrArg (fun t => t.tss.esp0) (setTask_other k₂ _ other)).trans (stacked p.val p.isLt)

/-- The idle loop on the stack of task 0. -/
def idling : Cpu := { (default : Cpu) with cs := KERNEL_CS, regs := { (default : Regs) with esp := 0x7FFF00 } }

end Mp3Kernel.ContextSwitch

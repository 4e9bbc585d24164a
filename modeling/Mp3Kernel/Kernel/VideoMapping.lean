import Mp3Kernel.Kernel.Isolation
import Mp3Kernel.Terminal.LogicalScreen

/-!
What a running program's video page shows. The entry at VIRTUAL_VID_MEM is set
when a directory is built, by `execute_task`, by `end_task` and by a switch of
tasks, and a switch of the display sets none; `Follows` says which of these
leave it in step with the displayed terminal.
-/
namespace Mp3Kernel.VideoMapping
open Mp3Kernel.Memory Mp3Kernel.Filesys Mp3Kernel.Tasks Mp3Kernel.Paging
open Mp3Kernel.Scheduler Mp3Kernel.Stacks Mp3Kernel.Runs Mp3Kernel.TaskForest Mp3Kernel.Isolation
open Mp3Kernel.Tty (Console set_current_terminal terminal_write terminal_open)

/-- For user code the entry maps the 4 MB frame of the address. -/
def Maps (e : Word) (phys_addr : Nat) : Prop :=
  Present e ∧ UserAccessible e ∧ Large e ∧ e &&& FIRST_10_BITS = BitVec.ofNat 32 phys_addr &&& FIRST_10_BITS

/-- The video entry in the directory of a task. -/
def video_entry (k : Kernel) (pid : Int) : Word :=
  entry k.mem (k.tasks pid).page_directory (pd_index VIRTUAL_VID_MEM)

def Displayed (k : Kernel) (pid : Int) : Prop :=
  (k.tasks pid).ptid = (k.console.terminal_list k.console.current_terminal_index).ptid

/-- The running program draws on the screen when its terminal is displayed, and
    on the garbage frame otherwise. Task 0 is no program. -/
def Shown (k : Kernel) : Prop :=
  k.scheduler.cur_task ≠ 0 →
    (Displayed k k.scheduler.cur_task → Maps (video_entry k k.scheduler.cur_task) VIDEO) ∧
    (¬ Displayed k k.scheduler.cur_task → Maps (video_entry k k.scheduler.cur_task) GARBAGE_VID_MEM)

inductive Event where
  | call (op : Op)
  /-- Alt and a function key -/
  | switch (d : Int)

section
variable (file_sys : FileSys) (halt_addr : Word)

/-- An execute starts its program. -/
def Succeeds (k : Kernel) : Op → Prop
  | .execute programName argsBuffer esp ebp =>
    (do_execute file_sys halt_addr esp ebp programName argsBuffer k).1.isSome = true
  | _ => True

instance (k : Kernel) (op : Op) : Decidable (Succeeds file_sys halt_addr k op) := by
  cases op <;> unfold Succeeds <;> infer_instance

def step (k : Kernel) : Event → Option Kernel
  | .call op => if Succeeds file_sys halt_addr k op then TaskForest.step file_sys halt_addr k op else none
  | .switch d => some { k with console := set_current_terminal d k.console }

/-- The steps that leave the entry right: a tick to a task that is displayed or
    whose entry maps the garbage frame by now, a call that starts a program or
    goes back to a parent on the displayed terminal, and a switch of the display
    that neither shows nor hides the running program. -/
def Follows (k : Kernel) : Event → Prop
  | .call (.tick _ _) => Displayed k (get_next_task k) ∨ Maps (video_entry k (get_next_task k)) GARBAGE_VID_MEM
  | .call (.execute programName argsBuffer esp ebp) =>
    k.scheduler.cur_task ≠ 0 ∧ Succeeds file_sys halt_addr k (.execute programName argsBuffer esp ebp) →
      Displayed k k.scheduler.cur_task
  | .call (.halt _) => 3 < k.scheduler.cur_task → Displayed k k.scheduler.cur_task
  | .switch d => k.scheduler.cur_task ≠ 0 →
    (Displayed { k with console := set_current_terminal d k.console } k.scheduler.cur_task ↔
      Displayed k k.scheduler.cur_task)

end

variable {k k' : Kernel} {trees : Fin 3 → List Int} {halt_addr : Word} {file_sys : FileSys} {pid : Int}

/-! ### Entries -/

theorem maps_large (phys_addr : Nat) : Maps (large_entry phys_addr 1) phys_addr := by
  obtain ⟨present,large,user,base⟩ := large_entry_decoded phys_addr (by decide : (1 : Nat) < 2)
  exact ⟨present,user.mpr rfl,large,base⟩

theorem video_not_garbage : ¬ Maps (large_entry VIDEO 1) GARBAGE_VID_MEM := by
  intro maps
  exact absurd ((maps_large VIDEO).2.2.2.symm.trans maps.2.2.2) (by decide)

theorem video_not_garbage_of {e : Word} (garbage : Maps e GARBAGE_VID_MEM) : ¬ Maps e VIDEO := by
  intro screen
  exact absurd (garbage.2.2.2.symm.trans screen.2.2.2) (by decide)

theorem video_index : pd_index VIRTUAL_VID_MEM = 64 := pd_index_eq (by decide)

/-- Where the entry maps the screen, the program has to be displayed. -/
theorem shown_iff_displayed (running : k.scheduler.cur_task = pid) (program : pid ≠ 0)
    (entry : video_entry k pid = large_entry VIDEO 1) : Shown k ↔ Displayed k pid := by
  subst running
  constructor
  · intro shown
    by_contra hidden
    have garbage := (shown program).2 hidden
    rw [entry] at garbage
    exact video_not_garbage garbage
  · intro displayed _
    rw [entry]
    exact ⟨fun _ => maps_large VIDEO,fun hidden => absurd displayed hidden⟩

/-- A mapping of video memory sets the entry of one directory. -/
theorem video_map {m : Mem} {pd phys_addr : Nat} {p : Int} (directory : Directory pd) (low : 0 ≤ p) (high : p < 10) :
    entry (map_page_directory pd phys_addr VIRTUAL_VID_MEM 1 1 m) (get_task_addr p) 64 =
      if pd = get_task_addr p then large_entry phys_addr 1 else entry m (get_task_addr p) 64 := by
  rw [entry_map directory phys_addr (by decide) low high (by decide)]
  exact if_congr (and_iff_left rfl) rfl rfl

/-- What a live task on a stack is known by. -/
theorem held_task {p : Fin 3} (forest : Forest k trees) (inside : pid ∈ trees p) :
    0 ≤ pid ∧ pid < 10 ∧ (k.tasks pid).page_directory = get_task_addr pid ∧ (k.tasks pid).ptid = p.val ∧ pid ≠ 0 := by
  have live := forest.held_live inside
  have record := forest.record p pid inside
  exact ⟨live.1,forest.bound pid live,record.page_directory,record.ptid,record.positive⟩

/-! ### Ticks -/

/-- A tick leaves the terminals and the numbers of the process trees alone. -/
theorem tick_keeps (regs : Regs) (frame : IretFrame) (leaves : Leaves halt_addr k trees)
    (low : 0 ≤ k.scheduler.cur_ptree) (high : k.scheduler.cur_ptree < 3) :
    (timer_tick regs frame k).console = k.console ∧
      ∀ pid, ((timer_tick regs frame k).tasks pid).ptid = (k.tasks pid).ptid := by
  obtain ⟨q,-,ticked,-⟩ := tick_switches regs frame leaves low high
  refine ⟨timer_tick_console regs frame k,?_⟩
  intro pid
  rw [ticked,switch_task_tasks]
  exact (sameLinks_of_sameTask (saved_tick_same regs frame k pid)).2.2.1

/-- A tick maps the screen for a displayed task and leaves the entry of a hidden
    one. -/
theorem tick_video (regs : Regs) (frame : IretFrame) {q : Fin 3} (leaves : Leaves halt_addr k trees)
    (ticked : timer_tick regs frame k = switch_task (k.scheduler.ptree_tasks q.val) (saved_tick regs frame k))
    (home : Directory k.cr3) (away : k.cr3 ≠ get_task_addr (k.scheduler.ptree_tasks q.val)) :
    (Displayed (timer_tick regs frame k) (k.scheduler.ptree_tasks q.val) ↔ Displayed k (k.scheduler.ptree_tasks q.val)) ∧
    (Displayed k (k.scheduler.ptree_tasks q.val) →
      video_entry (timer_tick regs frame k) (k.scheduler.ptree_tasks q.val) = large_entry VIDEO 1) ∧
    (¬ Displayed k (k.scheduler.ptree_tasks q.val) →
      video_entry (timer_tick regs frame k) (k.scheduler.ptree_tasks q.val) =
        video_entry k (k.scheduler.ptree_tasks q.val)) := by
  obtain ⟨low,high,directory,-,-⟩ := held_task leaves.forest (leaves.leaf_held q)
  generalize k.scheduler.ptree_tasks q.val = next at *
  have links := sameLinks_of_sameTask (saved_tick_same regs frame k next)
  have console : (saved_tick regs frame k).console = k.console := by
    obtain ⟨tss,state,saved⟩ := saved_tick_eq regs frame k
    rw [saved,setTask_console]
  have displayed : Displayed (saved_tick regs frame k) next ↔ Displayed k next := by
    rw [Displayed,Displayed,console,links.2.2.1]
  have after : Displayed (timer_tick regs frame k) next ↔ Displayed k next := by
    rw [← displayed,Displayed,Displayed,ticked,switch_task_tasks,switch_task_console]
  have place : ((timer_tick regs frame k).tasks next).page_directory = get_task_addr next := by
    rw [ticked,switch_task_tasks,links.2.2.2,directory]
  have before : ((saved_tick regs frame k).tasks next).page_directory = get_task_addr next :=
    links.2.2.2.trans directory
  refine ⟨after,?_,?_⟩
  · intro shown
    have mem : (timer_tick regs frame k).mem = map_page_directory (get_task_addr next) VIDEO VIRTUAL_VID_MEM 1 1
        (map_page_directory k.cr3 GARBAGE_VID_MEM VIRTUAL_VID_MEM 1 1 k.mem) := by
      rw [ticked,switch_task]
      refine (congrArg Kernel.mem (if_pos (displayed.mpr shown))).trans ?_
      rw [← before,← saved_tick_cr3 regs frame k,← saved_tick_mem regs frame k]
      rfl
    rw [video_entry,video_index,place,mem,video_map (.inl ⟨next,low,high,rfl⟩) low high,if_pos rfl]
  · intro hidden
    have mem : (timer_tick regs frame k).mem = map_page_directory k.cr3 GARBAGE_VID_MEM VIRTUAL_VID_MEM 1 1 k.mem := by
      rw [ticked,switch_task]
      refine (congrArg Kernel.mem (if_neg fun shown => hidden (displayed.mp shown))).trans ?_
      rw [← saved_tick_cr3 regs frame k,← saved_tick_mem regs frame k]
      rfl
    rw [video_entry,video_index,place,mem,video_map home low high,if_neg away,video_entry,video_index,directory]

theorem tick_shown_iff (regs : Regs) (frame : IretFrame) (leaves : Leaves halt_addr k trees)
    (low : 0 ≤ k.scheduler.cur_ptree) (high : k.scheduler.cur_ptree < 3) (home : Directory k.cr3)
    (away : ∀ q : Fin 3, (k.scheduler.cur_ptree + 1) % 3 = q.val → k.cr3 ≠ get_task_addr (k.scheduler.ptree_tasks q.val)) :
    Shown (timer_tick regs frame k) ↔ Follows file_sys halt_addr k (.call (.tick regs frame)) := by
  obtain ⟨q,next,ticked,scheduler⟩ := tick_switches regs frame leaves low high
  have chosen : get_next_task k = k.scheduler.ptree_tasks q.val := by
    rw [get_next_task_eq leaves.forest.ptree_vector leaves.forest.max_ptrees low high,next]
  have running : (timer_tick regs frame k).scheduler.cur_task = k.scheduler.ptree_tasks q.val := by rw [scheduler]
  have program := (leaves.forest.record q _ (leaves.leaf_held q)).positive
  obtain ⟨after,screen,same⟩ := tick_video regs frame leaves ticked home (away q next)
  rw [Follows,chosen]
  by_cases displayed : Displayed k (k.scheduler.ptree_tasks q.val)
  · rw [shown_iff_displayed running program (screen displayed),after]
    exact ⟨.inl,fun _ => displayed⟩
  · rw [Shown,running,after,same displayed]
    constructor
    · intro shown
      exact .inr ((shown program).2 displayed)
    · intro maps _
      exact ⟨fun shown => absurd shown displayed,fun _ => maps.resolve_left displayed⟩

theorem tick_scheduled_iff (regs : Regs) (frame : IretFrame) (scheduled : Scheduled halt_addr k trees) :
    Shown (timer_tick regs frame k) ↔ Follows file_sys halt_addr k (.call (.tick regs frame)) := by
  obtain ⟨p,rest,ptree,top,-,record⟩ := scheduled.running
  have below := p.isLt
  refine tick_shown_iff regs frame scheduled.toLeaves (by omega) (by omega) (home_of_scheduled scheduled).directory ?_
  intro q next same
  have held : k.scheduler.cur_task ∈ trees p := by rw [top]; exact List.mem_cons_self
  obtain ⟨low,high,directory,-⟩ := held_task scheduled.forest held
  obtain ⟨low',high',-⟩ := held_task scheduled.forest (scheduled.leaf_held q)
  rw [scheduled.directory.2,directory,get_task_addr_eq low high,get_task_addr_eq low' high'] at same
  have equal : k.scheduler.ptree_tasks q.val = k.scheduler.cur_task := by omega
  have leaf := scheduled.leaf_held q
  rw [equal] at leaf
  have tree := scheduled.forest.apart.disjoint p q _ held leaf
  rw [tree] at ptree
  omega

theorem tick_idle_iff (regs : Regs) (frame : IretFrame) (idle : Idle halt_addr k) :
    Shown (timer_tick regs frame k) ↔ Follows file_sys halt_addr k (.call (.tick regs frame)) := by
  have ptree := idle.cur_ptree
  refine tick_shown_iff regs frame idle.leaves (by omega) (by omega) (.inr idle.boot) ?_
  intro q next same
  obtain ⟨low,high,-⟩ := held_task idle.leaves.forest (idle.leaves.leaf_held q)
  have boot := idle.boot
  rw [same,get_task_addr_eq low high] at boot
  omega

/-! ### Calls -/

/-- A started program has the entry that its directory was built with. -/
theorem execute_shown_iff {fname args : Nat → Byte} (esp ebp : Word) (scheduled : Scheduled halt_addr k trees)
    (created : Created file_sys fname args k pid k') :
    Shown (execute_task halt_addr esp ebp pid k').2 ↔ Displayed k k.scheduler.cur_task := by
  obtain ⟨p,rest,-,top,-,record⟩ := scheduled.running
  have held : k.scheduler.cur_task ∈ trees p := by rw [top]; exact List.mem_cons_self
  have parent_live := (scheduled.forest.held_live held).1
  have low := created.low
  have high : pid < 10 := by have bound := created.bound; rw [scheduled.forest.max_tasks] at bound; omega
  obtain ⟨program,fresh⟩ := scheduled.forest.fresh created.fresh
  have other : k.scheduler.cur_task ≠ pid := fun same => fresh ⟨p,same ▸ held⟩
  obtain ⟨exe_addr,loaded,-,made⟩ := created.loaded
  rw [new_record,if_pos (by omega)] at made
  have directory : (k'.tasks pid).page_directory = get_task_addr pid := by rw [made]; rfl
  have ptid : (k'.tasks pid).ptid = (k.tasks k.scheduler.cur_task).ptid := by rw [made]; rfl
  have image : entry k'.mem (get_task_addr pid) 64 = large_entry VIDEO 1 := by
    have built : entry (new_frame pid k) (get_task_addr pid) 64 = large_entry VIDEO 1 := by
      rw [new_frame,entry_init_task_pd _ (by decide),if_pos rfl]
    rcases load_program_writes loaded with same | ⟨bytes,written,-⟩
    · rw [same,built]
    · rw [written,entry,load32_storeBytes_apart (by rw [PROGRAM_IMAGE]; omega)]
      exact built
  have mem : (execute_task halt_addr esp ebp pid k').2.mem =
      map_page_directory k.cr3 GARBAGE_VID_MEM VIRTUAL_VID_MEM 1 1 k'.mem := by
    rw [execute_task_eq,created.pd]
  have away : k.cr3 ≠ get_task_addr pid := by
    obtain ⟨low',high',_⟩ := held_task scheduled.forest held
    rw [scheduled.directory.2,record.page_directory,get_task_addr_eq low' high',get_task_addr_eq low high]
    omega
  have task := execute_task_started halt_addr esp ebp pid k'
  have video : video_entry (execute_task halt_addr esp ebp pid k').2 pid = large_entry VIDEO 1 := by
    have place : ((execute_task halt_addr esp ebp pid k').2.tasks pid).page_directory = get_task_addr pid := by
      rw [task]
      exact directory
    rw [video_entry,video_index,place,mem,video_map (home_of_scheduled scheduled).directory low high,if_neg away,image]
  have running : (execute_task halt_addr esp ebp pid k').2.scheduler.cur_task = pid := by rw [execute_task_scheduler]
  have console : (execute_task halt_addr esp ebp pid k').2.console = k.console := by
    rw [execute_task_eq]
    exact created.console
  rw [shown_iff_displayed running program video,Displayed,Displayed,console,task,← ptid]
  rfl

/-- The console once `do_halt` has ended the line. -/
def line_ended (k : Kernel) : Console :=
  if 0 < k.console.screen_x then
    (terminal_write k.scheduler.cur_ptree (some fun _ => Screen.NEWLINE) 1 k.console).2
  else k.console

/-- Ending the line shows no other terminal. -/
theorem displayed_line_ended : ((line_ended k).terminal_list (line_ended k).current_terminal_index).ptid =
    (k.console.terminal_list k.console.current_terminal_index).ptid := by
  unfold line_ended
  split
  · rw [LogicalScreen.terminal_write_eq]
    have only := LogicalScreen.onlyPrints_write_loop k.scheduler.cur_ptree
      (LogicalScreen.written (some fun _ => Screen.NEWLINE) 1) k.console
    rw [only.index]
    by_cases own : k.console.current_terminal_index = k.scheduler.cur_ptree
    · have rest := congrArg Tty.Terminal.ptid only.rest
      rw [own]
      exact rest.symm
    · rw [(only.others _ own).1]
  · rfl

theorem do_halt_console (status : Byte) (k : Kernel) : (do_halt status k).2.console = line_ended k := by
  unfold do_halt line_ended
  dsimp only
  by_cases pending : 0 < k.console.screen_x
  · rw [if_pos pending,if_pos pending]
    split <;> rfl
  · rw [if_neg pending,if_neg pending]
    split <;> rfl

/-- A halt restarts one of the first shells, or pops a program. -/
theorem halt_step {status : Byte} (scheduled : Scheduled halt_addr k trees)
    (taken : TaskForest.step file_sys halt_addr k (.halt status) = some k') :
    (k.scheduler.cur_task ≤ 3 ∧ k' = load_tss (get_cur_task k)
      ({ k with console := line_ended k }.setTask (get_cur_task k) (restarted (k.tasks (get_cur_task k))))) ∨
    (3 < k.scheduler.cur_task ∧ ∃ p parent rest, trees p = k.scheduler.cur_task :: parent :: rest ∧
      k' = (execute_task_return status { k with console := line_ended k }).2) := by
  obtain ⟨p,rest,-,top,cur,record⟩ := scheduled.running
  have held : k.scheduler.cur_task ∈ trees p := by rw [top]; exact List.mem_cons_self
  obtain ⟨low,-,-,-,program⟩ := held_task scheduled.forest held
  rw [TaskForest.step,if_neg program] at taken
  obtain ⟨c,⟨shell,frame,restarts⟩ | ⟨other,returns⟩⟩ := do_halt_cases status k
  · have line : c = line_ended k := by
      rw [← do_halt_console status k,restarts]
      rfl
    rw [restarts,line] at taken
    rw [cur,record.number] at shell
    exact .inl ⟨by omega,(Option.some.inj taken).symm⟩
  · have line : c = line_ended k := by
      rw [← do_halt_console status k,returns]
    rw [cur,record.number] at other
    have ret_eip := scheduled.returns p _ held (by omega) (by omega) (by omega)
    rw [returns,line] at taken
    dsimp only at taken
    rw [cur,if_pos ret_eip] at taken
    refine .inr ⟨by omega,?_⟩
    cases rest with
    | nil =>
      have last := scheduled.forest.shell p
      rw [top] at last
      have shell : k.scheduler.cur_task = p.val + 1 := by simpa using last
      omega
    | cons parent rest => exact ⟨p,parent,rest,top,(Option.some.inj taken).symm⟩

/-- A restarted shell keeps its entry. -/
theorem restart_shown {c : Console} (shown : Shown k) (running : get_cur_task k = k.scheduler.cur_task)
    (same : (c.terminal_list c.current_terminal_index).ptid =
      (k.console.terminal_list k.console.current_terminal_index).ptid) :
    Shown (load_tss (get_cur_task k)
      ({ k with console := c }.setTask (get_cur_task k) (restarted (k.tasks (get_cur_task k))))) := by
  intro program
  have before := shown program
  rw [running]
  have task := setTask_same { k with console := c } k.scheduler.cur_task (restarted (k.tasks k.scheduler.cur_task))
  have displayed : Displayed (load_tss k.scheduler.cur_task ({ k with console := c }.setTask k.scheduler.cur_task
      (restarted (k.tasks k.scheduler.cur_task)))) k.scheduler.cur_task ↔ Displayed k k.scheduler.cur_task := by
    have ptid : ((load_tss k.scheduler.cur_task ({ k with console := c }.setTask k.scheduler.cur_task
        (restarted (k.tasks k.scheduler.cur_task)))).tasks k.scheduler.cur_task).ptid =
        (k.tasks k.scheduler.cur_task).ptid := (congrArg Task.ptid task).trans rfl
    rw [Displayed,Displayed,← same,ptid]
    exact Iff.rfl
  have entry : video_entry (load_tss k.scheduler.cur_task ({ k with console := c }.setTask k.scheduler.cur_task
      (restarted (k.tasks k.scheduler.cur_task)))) k.scheduler.cur_task = video_entry k k.scheduler.cur_task := by
    have directory := congrArg Task.page_directory task
    exact congrArg (fun table => Paging.entry k.mem table (pd_index VIRTUAL_VID_MEM)) directory
  change (Displayed _ k.scheduler.cur_task → Maps (video_entry _ k.scheduler.cur_task) _) ∧
    (¬ Displayed _ k.scheduler.cur_task → Maps (video_entry _ k.scheduler.cur_task) _)
  rw [displayed,entry]
  exact before

/-- The parent of a halted program draws on the screen. -/
theorem return_shown_iff {c : Console} {status : Byte} {p : Fin 3} {parent : Int} {rest : List Int}
    (scheduled : Scheduled halt_addr k trees) (top : trees p = k.scheduler.cur_task :: parent :: rest)
    (same : (c.terminal_list c.current_terminal_index).ptid =
      (k.console.terminal_list k.console.current_terminal_index).ptid) :
    Shown (execute_task_return status { k with console := c }).2 ↔ Displayed k k.scheduler.cur_task := by
  have held : k.scheduler.cur_task ∈ trees p := by rw [top]; exact List.mem_cons_self
  have below : parent ∈ trees p := by rw [top]; simp
  obtain ⟨parent_task,ended,scheduler⟩ := return_ended status (console_scheduled c scheduled) top
  obtain ⟨low,high,-,ptid,-⟩ := held_task scheduled.forest held
  obtain ⟨low',high',directory,ptid',program⟩ := held_task scheduled.forest below
  have running : (execute_task_return status { k with console := c }).2.scheduler.cur_task = parent := by
    rw [ended]
    exact congrArg Sched.cur_task scheduler
  have video : video_entry (execute_task_return status { k with console := c }).2 parent = large_entry VIDEO 1 := by
    have mem : (execute_task_return status { k with console := c }).2.mem =
        clear_pde (get_task_addr parent) (get_task_addr k.scheduler.cur_task)
          (map_page_directory (get_task_addr parent) VIDEO VIRTUAL_VID_MEM 1 1 k.mem) := by
      rw [ended,← directory,← parent_task]
      rfl
    have place : ((execute_task_return status { k with console := c }).2.tasks parent).page_directory =
        get_task_addr parent := by
      rw [ended]
      exact directory
    rw [video_entry,video_index,place,mem,clear_pde,pd_index_frame low high,entry_store,if_neg (by omega),
      video_map (.inl ⟨parent,low',high',rfl⟩) low' high',if_pos rfl]
  rw [shown_iff_displayed running program video,Displayed,Displayed,← same,ptid,← ptid',ended]
  exact Iff.rfl

/-! ### Runs -/

/-- The idle task is running, or the top of a stack is. -/
def Running (halt_addr : Word) (k : Kernel) : Prop := Idle halt_addr k ∨ ∃ trees, Scheduled halt_addr k trees

theorem idle_console (c : Console) (idle : Idle halt_addr k) : Idle halt_addr { k with console := c } :=
  ⟨idle.leaves.keep rfl (fun _ => ⟨rfl,rfl,rfl,rfl⟩) (fun _ => rfl),idle.cur_task,idle.cur_ptree,idle.page_directory,
    idle.boot⟩

theorem running_step {ev : Event} (running : Running halt_addr k) (taken : step file_sys halt_addr k ev = some k') :
    Running halt_addr k' := by
  cases ev with
  | switch d =>
    cases taken
    rcases running with idle | ⟨trees,scheduled⟩
    · exact .inl (idle_console _ idle)
    · exact .inr ⟨trees,console_scheduled _ scheduled⟩
  | call op =>
    rw [step] at taken
    split at taken
    case isFalse => cases taken
    rcases running with idle | scheduled
    · cases op with
      | execute programName argsBuffer esp ebp =>
        rw [TaskForest.step,if_pos idle.cur_task] at taken
        cases taken
      | halt status =>
        rw [TaskForest.step,if_pos idle.cur_task] at taken
        cases taken
      | tick regs frame =>
        obtain rfl := Option.some.inj taken
        have ptree := idle.cur_ptree
        exact .inr ⟨shells,tick_scheduled regs frame idle.leaves (by omega) (by omega)⟩
    · exact .inr (step_scheduled scheduled taken)

/-- A switch of the display sets no entry. -/
theorem switch_shown_iff {d : Int} (shown : Shown k) :
    Shown { k with console := set_current_terminal d k.console } ↔ (k.scheduler.cur_task ≠ 0 →
      (Displayed { k with console := set_current_terminal d k.console } k.scheduler.cur_task ↔
        Displayed k k.scheduler.cur_task)) := by
  constructor
  · intro after program
    obtain ⟨screen,garbage⟩ := shown program
    obtain ⟨screen',garbage'⟩ := after program
    constructor
    · intro now
      by_contra hidden
      exact video_not_garbage_of (garbage hidden) (screen' now)
    · intro before
      by_contra hidden
      exact video_not_garbage_of (garbage' hidden) (screen before)
  · intro same program
    obtain ⟨screen,garbage⟩ := shown program
    have unchanged := same program
    exact ⟨fun now => screen (unchanged.mp now),fun hidden => garbage fun before => hidden (unchanged.mpr before)⟩

/-- One step leaves the entry right exactly when it follows the display. -/
theorem shown_step_iff {ev : Event} (running : Running halt_addr k) (shown : Shown k)
    (taken : step file_sys halt_addr k ev = some k') : Shown k' ↔ Follows file_sys halt_addr k ev := by
  cases ev with
  | switch d =>
    cases taken
    exact switch_shown_iff shown
  | call op =>
    rw [step] at taken
    split at taken
    case isFalse => cases taken
    rename_i succeeds
    rcases running with idle | ⟨trees,scheduled⟩
    · cases op with
      | execute programName argsBuffer esp ebp =>
        rw [TaskForest.step,if_pos idle.cur_task] at taken
        cases taken
      | halt status =>
        rw [TaskForest.step,if_pos idle.cur_task] at taken
        cases taken
      | tick regs frame =>
        obtain rfl := Option.some.inj taken
        exact tick_idle_iff regs frame idle
    · obtain ⟨p,rest,-,top,cur,record⟩ := scheduled.running
      cases op with
      | execute programName argsBuffer esp ebp =>
        rw [TaskForest.step,if_neg record.positive] at taken
        obtain rfl := Option.some.inj taken
        obtain ⟨pid,k₁,outcome,created | ⟨failed,-⟩⟩ := create_task_cases file_sys programName argsBuffer (k := k)
          (by rw [scheduled.forest.max_tasks]; omega)
        · rw [do_execute_done outcome created.low,execute_shown_iff esp ebp scheduled created,Follows]
          exact ⟨fun displayed _ => displayed,fun follows => follows ⟨record.positive,succeeds⟩⟩
        · rw [Succeeds,do_execute_failed outcome (by omega)] at succeeds
          cases succeeds
      | halt status =>
        rw [Follows]
        rcases halt_step scheduled taken with ⟨shell,rfl⟩ | ⟨program,p,parent,rest,top,rfl⟩
        · exact ⟨fun _ program => by omega,fun _ => restart_shown shown cur displayed_line_ended⟩
        · rw [return_shown_iff scheduled top displayed_line_ended]
          exact ⟨fun displayed _ => displayed,fun follows => follows program⟩
      | tick regs frame =>
        obtain rfl := Option.some.inj taken
        exact tick_scheduled_iff regs frame scheduled

/-- A step that is not enabled meets the condition. -/
theorem follows_blocked {ev : Event} (running : Running halt_addr k) (blocked : step file_sys halt_addr k ev = none) :
    Follows file_sys halt_addr k ev := by
  cases ev with
  | switch d => cases blocked
  | call op =>
    rw [step] at blocked
    cases op with
    | execute programName argsBuffer esp ebp =>
      rintro ⟨busy,succeeds⟩
      rw [if_pos succeeds,TaskForest.step,if_neg busy] at blocked
      cases blocked
    | halt status =>
      rw [if_pos (show Succeeds file_sys halt_addr k (.halt status) from trivial)] at blocked
      intro program
      rcases running with idle | ⟨trees,scheduled⟩
      · rw [idle.cur_task] at program
        omega
      · obtain ⟨c,restarts | ⟨_,_,_,-,returns⟩⟩ := halt_outcome file_sys status scheduled
        · cases restarts.symm.trans blocked
        · cases returns.symm.trans blocked
    | tick regs frame =>
      rw [if_pos (show Succeeds file_sys halt_addr k (.tick regs frame) from trivial)] at blocked
      cases blocked

/-! ### From the boot on -/

/-- The boot stays in its directory and leaves the terminals alone. -/
theorem tasks_init_keeps (start : k.scheduler = scheduler) (unwritten : (k.tasks 0).ptid = 0)
    (booted : tasks_init file_sys k = some k') : k'.cr3 = k.cr3 ∧ k'.console = k.console := by
  have next (n : Nat) (k₁ k₂ : Kernel) (_ : n < 3) (ready : Booting k₁ n)
      (same : k₁.cr3 = k.cr3 ∧ k₁.console = k.console) (done : init_shell file_sys k₁ = some k₂) :
      k₂.cr3 = k.cr3 ∧ k₂.console = k.console := by
    obtain ⟨pid,k₃,_,_,_,_,created,rfl⟩ := init_shell_created (by rw [ready.max_tasks]; omega) done
    exact ⟨created.cr3.trans same.1,created.console.trans same.2⟩
  obtain ⟨k₁,-,kept,rfl⟩ := tasks_init_rule (P := fun _ k₁ => k₁.cr3 = k.cr3 ∧ k₁.console = k.console) start unwritten
    booted (fun _ _ created => ⟨created.cr3,created.console⟩) next
  exact kept

variable (halt_addr) in
theorem tasks_init_idle (boot : k.cr3 + 4096 ≤ 0x800000) (start : k.scheduler = scheduler)
    (unwritten : (k.tasks 0).ptid = 0) (booted : tasks_init file_sys k = some k') : Idle halt_addr k' := by
  obtain ⟨leaves,cur_task,cur_ptree,page_directory⟩ := tasks_init_leaves halt_addr start unwritten booted
  obtain ⟨cr3,-⟩ := tasks_init_keeps start unwritten booted
  exact ⟨leaves,cur_task,cur_ptree,page_directory,by omega⟩

/-- The running program's entry is right in every state of a run from the boot
    on exactly when every step of the run follows the display. -/
theorem shown_iff_follows {evs : List Event} {k₁ : Kernel} (boot : k.cr3 + 4096 ≤ 0x800000)
    (start : k.scheduler = scheduler) (unwritten : (k.tasks 0).ptid = 0) (booted : tasks_init file_sys k = some k₁) :
    StatesMeet (step file_sys halt_addr) Shown k₁ evs ↔
      StepsMeet (step file_sys halt_addr) (Follows file_sys halt_addr) k₁ evs := by
  have idle := tasks_init_idle halt_addr boot start unwritten booted
  have running : StatesMeet (step file_sys halt_addr) (Running halt_addr) k₁ evs :=
    statesMeet_invariant (fun _ _ _ running taken => running_step running taken) (.inl idle)
  refine (and_iff_left running).symm.trans (statesMeet_and.symm.trans ?_)
  refine statesMeet_iff_stepsMeet ?_ ?_ ⟨fun busy => absurd idle.cur_task busy,.inl idle⟩
  · intro k ev good blocked
    exact follows_blocked good.2 blocked
  · intro k ev k' good taken
    exact (and_iff_left (running_step good.2 taken)).trans (shown_step_iff good.2 good.1 taken)

/-- The kernel before the boot, its terminals open. -/
def open_kernel : Kernel := { bare_kernel with console := terminal_open LogicalScreen.blank_console }

/-- After the boot the next task is the shell of terminal 1. -/
theorem second_shell_next {c : Console} (booted : tasks_init shell_image open_kernel = some k) :
    get_next_task { k with console := c } = 2 ∧ (k.tasks 2).ptid = 1 ∧ k.console = open_kernel.console := by
  have idle := idle_console c (tasks_init_idle 0 (k := open_kernel) (by decide) rfl rfl booted)
  have forest := idle.leaves.forest
  have ptree := idle.cur_ptree
  refine ⟨?_,(forest.record 1 2 (by decide)).ptid,(tasks_init_keeps rfl rfl booted).2⟩
  rw [get_next_task_eq forest.ptree_vector forest.max_ptrees (by omega) (by omega),ptree]
  exact Option.some.inj (idle.leaves.leaf 1).symm

/-- It is displayed once terminal 1 is. -/
theorem second_shell_displayed (booted : tasks_init shell_image open_kernel = some k) :
    Displayed { k with console := set_current_terminal 1 k.console } 2 := by
  obtain ⟨-,ptid,console⟩ := second_shell_next (c := k.console) booted
  have shown : (1 : Int) = ((set_current_terminal 1 open_kernel.console).terminal_list
    (set_current_terminal 1 open_kernel.console).current_terminal_index).ptid := by decide
  rw [Displayed,ptid,console]
  exact shown

theorem shown_iff_follows_displayed : ∃ k, tasks_init shell_image open_kernel = some k ∧
    StatesMeet (step shell_image 0) Shown k [.switch 1,.call (.tick default default)] := by
  obtain ⟨k,booted⟩ := tasks_init_completes shell_image_loads (k := open_kernel) rfl rfl
  have idle := tasks_init_idle 0 (k := open_kernel) (by decide) rfl rfl booted
  refine ⟨k,booted,(shown_iff_follows (by decide) rfl rfl booted).mpr ⟨fun busy => absurd idle.cur_task busy,?_⟩⟩
  rintro k₁ taken
  cases taken
  refine ⟨.inl ?_,fun _ _ => trivial⟩
  rw [(second_shell_next booted).1]
  exact second_shell_displayed booted

/-- A program that runs while another terminal is brought to the screen still
    draws on the screen. -/
theorem hidden_program_draws : ∃ k k', tasks_init shell_image open_kernel = some k ∧
    run (step shell_image 0) k [.switch 1,.call (.tick default default),.switch 0] = some k' ∧ ¬ Shown k' := by
  obtain ⟨k,booted⟩ := tasks_init_completes shell_image_loads (k := open_kernel) rfl rfl
  have idle := idle_console (set_current_terminal 1 k.console)
    (tasks_init_idle 0 (k := open_kernel) (by decide) rfl rfl booted)
  obtain ⟨next,ptid,console⟩ := second_shell_next (c := set_current_terminal 1 k.console) booted
  have displayed := second_shell_displayed booted
  refine ⟨k,{ timer_tick default default { k with console := set_current_terminal 1 k.console } with
    console := set_current_terminal 0
      (timer_tick default default { k with console := set_current_terminal 1 k.console }).console },booted,rfl,?_⟩
  generalize shown : ({ k with console := set_current_terminal 1 k.console } : Kernel) = k₁ at *
  have tasks : (k₁.tasks 2).ptid = 1 := by rw [← shown]; exact ptid
  have console₁ : k₁.console = set_current_terminal 1 open_kernel.console := by rw [← shown,← console]
  have ptree := idle.cur_ptree
  obtain ⟨kept,ptids⟩ := tick_keeps default default idle.leaves (by omega) (by omega)
  have first : Shown (timer_tick default default k₁) ↔ Follows shell_image 0 k₁ (.call (.tick default default)) :=
    tick_idle_iff default default idle
  have follows := first.mpr (.inl (by rw [next]; exact displayed))
  have running : (timer_tick default default k₁).scheduler.cur_task = 2 := by
    rw [tick_turn default default idle.leaves ptree (by decide) (by decide)]
    exact Option.some.inj (idle.leaves.leaf 1).symm
  intro after
  have busy : (timer_tick default default k₁).scheduler.cur_task ≠ 0 := by omega
  have same := (switch_shown_iff (d := 0) follows).mp after busy
  have hidden := same.mpr (by rw [running,Displayed,ptids,kept]; exact displayed)
  rw [running,Displayed,ptids,tasks] at hidden
  dsimp only at hidden
  rw [kept,console₁] at hidden
  exact absurd hidden (by decide)

end Mp3Kernel.VideoMapping

import Mp3Kernel.Filesys.Lookup
import Mp3Kernel.Kernel.Command
import Mp3Kernel.Kernel.UserPointers
import Mp3Kernel.Kernel.VideoMapping
import Mp3Kernel.Kernel.Preemption

/-!
What is running on the terminals, as a user sees it: each has a stack of command
lines, the shell at the bottom. A command that starts a program is pushed, a
halt pops it, and whatever is scheduled in between, `getargs` hands a program
the words behind its own name.
-/
namespace Mp3Kernel.Sessions
open Mp3Kernel.Memory Mp3Kernel.Words Mp3Kernel.Stacks Mp3Kernel.Runs Mp3Kernel.Filesys Mp3Kernel.Tasks
open Mp3Kernel.Scheduler Mp3Kernel.Command Mp3Kernel.UserPointers
open Mp3Kernel.Descriptors (is_user_ptr)
open Mp3Kernel.Tty (shell_name)
open Mp3Kernel.Preemption (sliced)
open Mp3Kernel.Lookup (First find_dentry_first)
open Mp3Kernel.VideoMapping (halt_step held_task line_ended)
open Mp3Kernel.TaskForest (Booting tasks_init_rule created_first init_shell_created created_shell shell_record Leaves
  Scheduled tick_scheduled tick_switches refused_scheduled execute_scheduled restart_scheduled return_scheduled
  console_scheduled tasks_init_leaves shells shell_image shell_image_loads bare_kernel
  named_image_loads tasks_init_completes)

/-- A command line. -/
structure Line where
  program : List Byte
  arguments : List Byte
  deriving DecidableEq, Repr

def line (text : List Byte) : Line := ⟨program text,arguments text⟩

/-- The shells that the boot starts. -/
def shell : Line := ⟨[115,104,101,108,108],[]⟩

/-- The kernel and, for each terminal, what runs on it. -/
structure Watched where
  k : Kernel
  sessions : Fin 3 → List Line

inductive Op where
  /-- `command` holds `text`; the two buffers are as the stack has them. -/
  | execute (text : List Byte) (command programName argsBuffer : Nat → Byte) (esp ebp : Word)
  | halt (status : Byte)
  | tick (regs : Regs) (frame : IretFrame)
  /-- what user code and the other system calls do -/
  | slice (after : Kernel)

/-- A command as a shell passes it on: no spaces around it, and a first word
    that fits a file name. -/
def Typed : Op → Prop
  | .execute text command _ _ _ _ => Holds command text ∧ (program text).length < 32 ∧
    text.head? ≠ some SPACE ∧ Trimmed SPACE text
  | _ => True

/-- The terminal of the running task. -/
def terminal (k : Kernel) : Fin 3 := ⟨k.scheduler.cur_ptree.toNat % 3,Nat.mod_lt _ (by decide)⟩

section
variable (file_sys : FileSys) (halt_addr : Word) (fuel : Nat)

/-- `do_execute` from its command on; nothing when the fuel of the parse is used
    up. -/
def execute_command (command programName argsBuffer : Nat → Byte) (esp ebp : Word) (k : Kernel) :
    Option (Option IretFrame × Kernel) :=
  (parse_command command programName argsBuffer fuel).map fun s =>
    do_execute file_sys halt_addr esp ebp s.programName s.argsBuffer k

/-- Task 0 only waits for ticks. A halt of the last line of a terminal starts
    its shell over. -/
def step (w : Watched) : Op → Option Watched
  | .execute text command programName argsBuffer esp ebp =>
    if w.k.scheduler.cur_task = 0 then none else
      (execute_command file_sys halt_addr fuel command programName argsBuffer esp ebp w.k).map fun (frame,k) =>
        { k := k, sessions := if frame.isSome then push w.sessions (terminal w.k) (line text) else w.sessions }
  | .halt status =>
    (TaskForest.step file_sys halt_addr w.k (.halt status)).map fun k =>
      { k := k
        sessions := if 1 < (w.sessions (terminal w.k)).length then pop w.sessions (terminal w.k) else w.sessions }
  | .tick regs frame => some { w with k := timer_tick regs frame w.k }
  | .slice after => if w.k.scheduler.cur_task = 0 then none else some { w with k := sliced after w.k }

end

/-- The record of a task that runs a line. -/
structure Runs (t : Task) (l : Line) : Prop where
  name : ∀ i < 32, t.pName i = l.program.getD i 0
  args : ∀ i ≤ l.arguments.length, t.args i = l.arguments.getD i 0
  plain : ∀ c ∈ l.arguments, c ≠ 0

/-- The tasks of each terminal run the lines of its session. -/
structure Shows (halt_addr : Word) (w : Watched) (trees : Fin 3 → List Int) : Prop where
  scheduled : Scheduled halt_addr w.k trees
  lines : Matched (fun pid l => Runs (w.k.tasks pid) l) trees w.sessions

variable {file_sys : FileSys} {halt_addr : Word} {fuel : Nat} {w w' : Watched} {k k' : Kernel} {trees : Fin 3 → List Int}
variable {t u : Task} {l : Line} {text : List Byte} {p : Fin 3} {pid : Int}

/-! ### Records and lines -/

theorem Runs.congr (runs : Runs t l) (name : u.pName = t.pName) (args : u.args = t.args) : Runs u l :=
  ⟨fun i inside => by rw [name]; exact runs.name i inside,fun i inside => by rw [args]; exact runs.args i inside,runs.plain⟩

theorem Runs.same (runs : Runs t l) (same : SameTask u t) : Runs u l := by
  obtain ⟨tss,state,rfl⟩ := same
  exact runs.congr rfl rfl

/-- The arguments are a string of their length. -/
theorem Runs.length (runs : Runs t l) : ArgsLength t.args l.arguments.length := by
  refine ⟨?_,?_⟩
  · rw [runs.args _ le_rfl,List.getD_eq_default _ _ le_rfl]
  · intro i inside
    rw [runs.args i (Nat.le_of_lt inside),List.getD_eq_getElem _ _ inside]
    exact runs.plain _ (List.getElem_mem inside)

theorem Runs.stored (runs : Runs t l) : (List.range (l.arguments.length + 1)).map t.args = l.arguments ++ [0] := by
  refine List.ext_getElem (by simp) ?_
  intro i left right
  have inside : i ≤ l.arguments.length := by
    simp at left
    omega
  simp only [List.getElem_map,List.getElem_range,runs.args i inside]
  by_cases last : i = l.arguments.length
  · simp [last]
  · rw [List.getElem_append_left (by omega),List.getD_eq_getElem]

theorem plain_arguments {command : Nat → Byte} (holds : Holds command text) : ∀ c ∈ arguments text, c ≠ 0 := by
  intro c inside
  rcases mem_joined inside with rfl | ⟨word,listed,within⟩
  · decide
  · exact (holds.plain c (mem_words (List.mem_of_mem_tail listed) within)).1

/-- The record of a loaded program. -/
theorem created_runs {fname args : Nat → Byte} (created : Created file_sys fname args k pid k')
    (short : l.program.length < 32) (fits : l.arguments.length < 128) (name : ∀ i < 32, fname i = l.program.getD i 0)
    (given : ∀ i ≤ l.arguments.length, args i = l.arguments.getD i 0) (plain : ∀ c ∈ l.arguments, c ≠ 0) :
    Runs (k'.tasks pid) l := by
  obtain ⟨exe_addr,-,-,made⟩ := created.loaded
  rw [made]
  refine ⟨?_,?_,plain⟩
  · intro i inside
    simp only [loaded_record,inside,↓reduceIte]
    by_cases last : i = 31
    · rw [if_pos last,List.getD_eq_default _ _ (by omega)]
    · rw [if_neg last,name i inside]
  · intro i inside
    simp only [loaded_record,show i < 128 by omega,↓reduceIte,given i inside]

/-- `getargs` with room for the string and a byte more. -/
theorem do_getargs_runs {m : Machine} {buf : Nat} {nbytes : Int} (runs : Runs m.task l)
    (accepted : is_user_ptr m.task buf ≠ 0) (positive : buf ≠ 0) (mapped : m.reaches buf (l.arguments.length + 1) = true)
    (room : l.arguments.length + 2 ≤ nbytes) :
    do_getargs buf nbytes m = some (0,{ m with mem := storeBytes m.mem buf (l.arguments ++ [0]) }) := by
  have size := args_size_length runs.length (show l.arguments.length ≤ nbytes.toNat by omega)
  have full : (l.arguments ++ [0]).length = l.arguments.length + 1 := by simp
  rw [do_getargs_eq nbytes accepted positive,size,if_neg (by omega),runs.stored,Machine.put,full,if_pos mapped]
  rfl

/-! ### Steps -/

theorem terminal_eq (ptree : k.scheduler.cur_ptree = p.val) : terminal k = p := by
  apply Fin.ext
  simp only [terminal,ptree,Int.toNat_natCast]
  exact Nat.mod_eq_of_lt p.isLt

/-- The running task is the top of its terminal's stack. -/
theorem Shows.top (shows : Shows halt_addr w trees) : ∃ rest l below, trees (terminal w.k) = w.k.scheduler.cur_task :: rest ∧
    w.sessions (terminal w.k) = l :: below ∧ Runs (w.k.tasks w.k.scheduler.cur_task) l ∧ below.length = rest.length := by
  obtain ⟨p,rest,ptree,top,-,-⟩ := shows.scheduled.running
  obtain ⟨l,below,session,runs,length⟩ := shows.lines.top top
  rw [terminal_eq ptree]
  exact ⟨rest,l,below,top,session,runs,length⟩

/-- A step that leaves the names and arguments of the tasks alone. -/
theorem Shows.keep {halt_addr : Word} (shows : Shows halt_addr w trees) (scheduled : Scheduled halt_addr k trees)
    (same : ∀ pid, Held trees pid → (k.tasks pid).pName = (w.k.tasks pid).pName ∧ (k.tasks pid).args = (w.k.tasks pid).args) :
    Shows halt_addr { w with k := k } trees :=
  ⟨scheduled,shows.lines.imp fun pid _ held runs => runs.congr (same pid held).1 (same pid held).2⟩

theorem tick_shows (regs : Regs) (frame : IretFrame) (leaves : Leaves halt_addr w.k trees)
    (lines : Matched (fun pid l => Runs (w.k.tasks pid) l) trees w.sessions) (low : 0 ≤ w.k.scheduler.cur_ptree)
    (high : w.k.scheduler.cur_ptree < 3) : Shows halt_addr { w with k := timer_tick regs frame w.k } trees := by
  obtain ⟨q,-,ticked,-⟩ := tick_switches regs frame leaves low high
  refine ⟨tick_scheduled regs frame leaves low high,lines.imp ?_⟩
  intro pid l _ runs
  have same : (timer_tick regs frame w.k).tasks pid = (saved_tick regs frame w.k).tasks pid := by
    rw [ticked,switch_task_tasks]
  exact same ▸ runs.same (saved_tick_same regs frame w.k pid)

theorem slice_shows (after : Kernel) (shows : Shows halt_addr w trees) :
    Shows halt_addr { w with k := sliced after w.k } trees := by
  have same (pid : Int) : ∃ files, (sliced after w.k).tasks pid = { w.k.tasks pid with files := files } := by
    by_cases current : pid = w.k.scheduler.cur_task
    · subst current
      exact ⟨_,setTask_same _ _ _⟩
    · exact ⟨_,setTask_other _ _ current⟩
  refine shows.keep (shows.scheduled.keep rfl ?_ ?_ rfl rfl) ?_
  · intro pid
    obtain ⟨files,same⟩ := same pid
    rw [same]
    exact ⟨rfl,rfl,rfl,rfl⟩
  · intro pid
    obtain ⟨files,same⟩ := same pid
    rw [same]
  · intro pid _
    obtain ⟨files,same⟩ := same pid
    rw [same]
    exact ⟨rfl,rfl⟩

/-- A started program is pushed on the stack of the terminal that it is started
    on. -/
theorem created_shows {fname args : Nat → Byte} (esp ebp : Word) (shows : Shows halt_addr w trees)
    (created : Created file_sys fname args w.k pid k) (runs : Runs (k.tasks pid) l) :
    Shows halt_addr
      ⟨(execute_task halt_addr esp ebp pid k).2,push w.sessions (terminal w.k) l⟩ (push trees (terminal w.k) pid) := by
  obtain ⟨p,pushed⟩ := execute_scheduled esp ebp shows.scheduled created
  obtain ⟨positive,fresh⟩ := shows.scheduled.forest.fresh created.fresh
  obtain ⟨q,rest,ptree,top,-,record⟩ := shows.scheduled.running
  have child : (k.tasks pid).ptid = q.val := by
    have busy := (held_task shows.scheduled.forest (by rw [top]; exact List.mem_cons_self)).1
    exact (TaskForest.created_record created positive (by omega) record.ptid).2.ptid
  -- the stack that the program is on is that of its parent
  obtain ⟨r,rest',ptree',top',-,-⟩ := pushed.running
  rw [execute_task_scheduler] at ptree' top'
  have same : r = q := Fin.ext (by have := ptree'.symm.trans child; omega)
  have here : p = q := by
    by_contra other
    rw [same,push_other (Ne.symm other)] at top'
    exact fresh ⟨q,by rw [top']; exact List.mem_cons_self⟩
  rw [terminal_eq ptree,← here]
  refine ⟨pushed,Matched.push ?_ ?_⟩
  · refine shows.lines.imp ?_
    intro pid' l held runs
    have other : pid' ≠ pid := fun equal => fresh (equal ▸ held)
    rw [execute_task_other _ _ _ _ _ other,created.others _ other]
    exact runs
  · rw [execute_task_started]
    exact runs.congr rfl rfl

theorem execute_shows {command programName argsBuffer : Nat → Byte} {esp ebp : Word} (shows : Shows halt_addr w trees)
    (typed : Typed (.execute text command programName argsBuffer esp ebp)) (enough : 128 ≤ fuel)
    (taken : step file_sys halt_addr fuel w (.execute text command programName argsBuffer esp ebp) = some w') :
    ∃ trees, Shows halt_addr w' trees := by
  obtain ⟨holds,named,first,trimmed⟩ := typed
  obtain ⟨p,rest,-,-,-,record⟩ := shows.scheduled.running
  obtain ⟨s,parsed,names,given,-,short⟩ := parse_trimmed programName argsBuffer holds named first trimmed
    (show text.length < fuel by have := holds.short; omega)
  rw [step,if_neg record.positive,execute_command,parsed] at taken
  obtain rfl := Option.some.inj taken
  obtain ⟨pid,k,outcome,created | ⟨failed,refused⟩⟩ := create_task_cases file_sys s.programName s.argsBuffer (k := w.k)
    (by rw [shows.scheduled.forest.max_tasks]; omega)
  · dsimp only
    rw [do_execute_done outcome created.low]
    have runs : Runs (k.tasks pid) (line text) := created_runs created named
      (show (arguments text).length < 128 by have := holds.short; omega) names given (plain_arguments holds)
    exact ⟨_,created_shows esp ebp shows created runs⟩
  · dsimp only
    rw [do_execute_failed outcome (by omega)]
    refine ⟨trees,shows.keep (refused_scheduled shows.scheduled refused) ?_⟩
    intro pid held
    rw [shows.scheduled.forest.refused refused held]
    exact ⟨rfl,rfl⟩

/-- A first shell is alone on its terminal. -/
theorem shell_alone (scheduled : Scheduled halt_addr k trees) {rest : List Int} (top : trees p = k.scheduler.cur_task :: rest)
    (low : k.scheduler.cur_task ≤ 3) : rest = [] := by
  have forest := scheduled.forest
  have held : k.scheduler.cur_task ∈ trees p := by rw [top]; exact List.mem_cons_self
  obtain ⟨natural,-,-,-,positive⟩ := held_task forest held
  obtain ⟨q,shell⟩ : ∃ q : Fin 3, k.scheduler.cur_task = q.val + 1 :=
    ⟨⟨(k.scheduler.cur_task - 1).toNat,by omega⟩,by dsimp only; omega⟩
  have same : p = q := forest.apart.disjoint p q _ held (shell ▸ forest.shell_held q)
  have nodup := forest.apart.nodup p
  have last := forest.shell p
  rw [top] at nodup last
  cases rest with
  | nil => rfl
  | cons below rest =>
    have lower : (p.val + 1 : Int) ∈ below :: rest := List.mem_of_getLast? (List.getLast?_cons_cons ▸ last)
    rw [same,← shell] at lower
    exact absurd lower (List.nodup_cons.mp nodup).1

theorem halt_shows {status : Byte} (shows : Shows halt_addr w trees)
    (taken : step file_sys halt_addr fuel w (.halt status) = some w') : ∃ trees, Shows halt_addr w' trees := by
  obtain ⟨rest,l,below,top,session,-,length⟩ := shows.top
  rw [step,Option.map_eq_some_iff] at taken
  obtain ⟨k,taken,rfl⟩ := taken
  rcases halt_step shows.scheduled taken with ⟨low,rfl⟩ | ⟨high,p,parent,rest',top',rfl⟩
  · obtain rfl := shell_alone shows.scheduled top low
    rw [session,List.length_cons,length,if_neg (by simp)]
    refine ⟨trees,shows.keep (restart_scheduled _ shows.scheduled) ?_⟩
    intro pid _
    by_cases current : pid = get_cur_task w.k
    · subst current
      rw [load_tss,setTask_same]
      exact ⟨rfl,rfl⟩
    · rw [load_tss,setTask_other _ _ current]
      exact ⟨rfl,rfl⟩
  · have same : p = terminal w.k := shows.scheduled.forest.apart.disjoint p _ w.k.scheduler.cur_task
      (by rw [top']; exact List.mem_cons_self) (by rw [top]; exact List.mem_cons_self)
    subst same
    obtain rfl : rest = parent :: rest' := (List.cons.inj (top.symm.trans top')).2
    rw [session,List.length_cons,length,if_pos (by simp)]
    refine ⟨_,return_scheduled status (console_scheduled _ shows.scheduled) top',Matched.pop ?_⟩
    exact shows.lines.imp fun _ _ _ runs => runs

theorem step_shows {op : Op} (enough : 128 ≤ fuel) (typed : Typed op) (shows : ∃ trees, Shows halt_addr w trees)
    (taken : step file_sys halt_addr fuel w op = some w') : ∃ trees, Shows halt_addr w' trees := by
  obtain ⟨trees,shows⟩ := shows
  cases op with
  | execute text command programName argsBuffer esp ebp => exact execute_shows shows typed enough taken
  | halt status => exact halt_shows shows taken
  | tick regs frame =>
    obtain ⟨p,ptree,-⟩ := shows.scheduled.current
    obtain rfl := Option.some.inj taken
    exact ⟨trees,tick_shows regs frame shows.scheduled.toLeaves shows.lines (by omega) (by omega)⟩
  | slice after =>
    obtain ⟨p,rest,-,-,-,record⟩ := shows.scheduled.running
    rw [step,if_neg record.positive] at taken
    obtain rfl := Option.some.inj taken
    exact ⟨trees,slice_shows after shows⟩

/-! ### From the boot on -/

/-- The boot leaves a shell without arguments at every pid it uses. -/
theorem tasks_init_runs (start : k.scheduler = scheduler) (unwritten : (k.tasks 0).ptid = 0)
    (booted : tasks_init file_sys k = some k') {pid : Int} (low : 1 ≤ pid) (high : pid ≤ 3) : Runs (k'.tasks pid) shell := by
  have loaded {k k' : Kernel} {pid : Int} (created : Created file_sys shell_name (fun _ => 0) k pid k') :
      Runs (k'.tasks pid) shell :=
    created_runs created (by decide) (by decide) (by decide) (by simp [shell]) (by simp [shell])
  have next (n : Nat) (k k' : Kernel) (few : n < 3) (ready : Booting k n)
      (before : ∀ pid : Int, 1 ≤ pid → pid ≤ n → Runs (k.tasks pid) shell) (done : init_shell file_sys k = some k') :
      ∀ pid : Int, 1 ≤ pid → pid ≤ ((n + 1 : Nat) : Int) → Runs (k'.tasks pid) shell := by
    intro pid low high
    obtain ⟨q,k₁,ptid,_,_,_,created,rfl⟩ := init_shell_created (by rw [ready.max_tasks]; omega) done
    obtain rfl := created_shell few ready created
    by_cases last : pid = n + 1
    · subst last
      exact (setTask_same k₁ _ _).symm ▸ (loaded created).congr rfl rfl
    · have other := (setTask_other k₁ (shell_record ptid (k₁.tasks (n + 1))) last).trans (created.others pid last)
      exact other.symm ▸ before pid low (by omega)
  obtain ⟨k₁,-,runs,rfl⟩ := tasks_init_rule (P := fun n k => ∀ pid : Int, 1 ≤ pid → pid ≤ n → Runs (k.tasks pid) shell)
    start unwritten booted (fun _ _ _ pid low high => by omega) next
  rw [idle_task,setTask_other _ _ (by omega)]
  exact runs pid low high

/-- Only a tick gets the idle task out of the boot. -/
theorem first_step {op : Op} (start : k.scheduler = scheduler) (unwritten : (k.tasks 0).ptid = 0)
    (booted : tasks_init file_sys k = some k') (taken : step file_sys halt_addr fuel ⟨k',fun _ => [shell]⟩ op = some w) :
    ∃ trees, Shows halt_addr w trees := by
  obtain ⟨leaves,cur_task,cur_ptree,-⟩ := tasks_init_leaves halt_addr start unwritten booted
  cases op with
  | tick regs frame =>
    obtain rfl := Option.some.inj taken
    have lines : Matched (fun pid l => Runs (k'.tasks pid) l) shells (fun _ => [shell]) := by
      intro p
      exact .cons (tasks_init_runs start unwritten booted (by omega) (by omega)) .nil
    exact ⟨_,tick_shows (w := ⟨k',fun _ => [shell]⟩) regs frame leaves lines (by dsimp only; omega) (by dsimp only; omega)⟩
  | halt status =>
    have idle : TaskForest.step file_sys halt_addr k' (.halt status) = none := if_pos cur_task
    rw [step,idle] at taken
    cases taken
  | _ =>
    rw [step,if_pos cur_task] at taken
    cases taken

/-- In every run from the boot on, the running task is on top of its terminal's
    stack of command lines: it goes by the first word of its line, and `getargs`
    stores the other words, one space between two, with a terminator. -/
theorem sessions_kept {op : Op} {ops : List Op} (enough : 128 ≤ fuel) (start : k.scheduler = scheduler)
    (unwritten : (k.tasks 0).ptid = 0) (booted : tasks_init file_sys k = some k') (typed : ∀ op ∈ ops, Typed op)
    (reached : run (step file_sys halt_addr fuel) ⟨k',fun _ => [shell]⟩ (op :: ops) = some w) :
    ∃ l below, w.sessions (terminal w.k) = l :: below ∧
      (∀ i < 32, (w.k.tasks w.k.scheduler.cur_task).pName i = l.program.getD i 0) ∧
      ∀ m buf nbytes, m.task = w.k.tasks w.k.scheduler.cur_task → is_user_ptr m.task buf ≠ 0 → buf ≠ 0 →
        m.reaches buf (l.arguments.length + 1) = true → (l.arguments.length : Int) + 2 ≤ nbytes →
        do_getargs buf nbytes m = some (0,{ m with mem := storeBytes m.mem buf (l.arguments ++ [0]) }) := by
  obtain ⟨w₁,taken,rest⟩ := run_cons_eq_some.mp reached
  have states : StatesMeet (step file_sys halt_addr fuel) (fun w => ∃ trees, Shows halt_addr w trees) w₁ ops :=
    statesMeet_of_stepsMeet (fun _ _ _ shows typed => step_shows enough typed shows)
      (first_step start unwritten booted taken) (stepsMeet_of_always (fun _ => typed) w₁)
  obtain ⟨trees,shows⟩ := statesMeet_last states rest
  obtain ⟨-,l,below,-,session,runs,-⟩ := shows.top
  refine ⟨l,below,session,runs.name,?_⟩
  intro m buf nbytes task accepted positive mapped room
  exact do_getargs_runs (task.symm ▸ runs) accepted positive mapped room

/-- `"shell  hi"`, on the terminal that the first tick goes to. -/
def greeting : List Byte := [115,104,101,108,108,32,32,104,105]

def greeting_run : List Op :=
  [.tick default default,.execute greeting (fun i => greeting.getD i 0) (fun _ => 0) (fun _ => 0) 0 0]

theorem sessions_kept_greeting : ∃ k w, tasks_init shell_image bare_kernel = some k ∧
    run (step shell_image 0 128) ⟨k,fun _ => [shell]⟩ greeting_run = some w ∧
    w.sessions 1 = [⟨[115,104,101,108,108],[104,105]⟩,shell] ∧
    ∃ l below, w.sessions (terminal w.k) = l :: below ∧
      (∀ i < 32, (w.k.tasks w.k.scheduler.cur_task).pName i = l.program.getD i 0) := by
  obtain ⟨k,booted⟩ := tasks_init_completes shell_image_loads (k := bare_kernel) rfl rfl
  have typed : ∀ op ∈ greeting_run.tail, Typed op := by
    simp only [greeting_run,List.tail_cons,List.mem_singleton,forall_eq]
    exact ⟨holds_text (by decide) (by decide),by decide,by decide,show greeting.getLast? ≠ some SPACE by decide⟩
  obtain ⟨holds,named,first,trimmed⟩ := typed _ List.mem_cons_self
  obtain ⟨s,parsed,names,-⟩ := parse_trimmed (fun _ => 0) (fun _ => 0) holds named first trimmed
    (show greeting.length < 128 by decide)
  obtain ⟨leaves,-,ptree,-⟩ := tasks_init_leaves 0 (k := bare_kernel) rfl rfl booted
  obtain ⟨q,next,-,scheduler⟩ := tick_switches default default leaves (by omega) (by omega)
  have scheduled := tick_scheduled default default leaves (by omega) (by omega)
  have here : terminal (timer_tick default default k) = 1 := by
    refine terminal_eq ?_
    rw [scheduler]
    rw [ptree] at next
    exact next.symm
  have running : (timer_tick default default k).scheduler.cur_task ≠ 0 := by
    obtain ⟨_,_,-,-,-,record⟩ := scheduled.running
    exact record.positive
  -- the image has the program, and there are free pids
  have loads (addr : Nat) (m : Mem) (positive : 0 < addr) : (load_program shell_image s.programName addr m).1 ≠ -1 := by
    have found : First shell_image s.programName 0 := by
      refine ⟨⟨Nat.one_pos,?_⟩,fun j below => absurd below (Nat.not_lt_zero j)⟩
      intro j inside
      rw [names j inside]
      exact (by decide : ∀ j < FILENAME_LEN, shell_name j = (program greeting).getD j 0) j inside
    exact named_image_loads (n := 1) (by rw [names 0 (by decide)]; decide)
      (find_dentry_first found) ⟨rfl,rfl⟩ addr m positive
  have free : (timer_tick default default k).scheduler.task_vector.getLsbD 4 = false := by
    by_contra used
    have live : Live (timer_tick default default k).scheduler.task_vector 4 :=
      ⟨by decide,by decide,by simpa using used⟩
    rcases (scheduled.forest.live 4).mp live with idle | ⟨p,held⟩
    · exact absurd idle (by decide)
    · have shell : (4 : Int) = p.val + 1 := List.mem_singleton.mp held
      omega
  obtain ⟨pid,k₁,outcome,created⟩ := create_task_succeeds (k := timer_tick default default k) (i := 4) s.argsBuffer
    (by rw [scheduled.forest.max_tasks]; decide) loads (by rw [scheduled.forest.max_tasks]; decide) free
  have reached : run (step shell_image 0 128) ⟨k,fun _ => [shell]⟩ greeting_run =
      some ⟨(execute_task 0 0 0 pid k₁).2,push (fun _ => [shell]) 1 (line greeting)⟩ := by
    refine run_cons_eq_some.mpr ⟨_,rfl,run_cons_eq_some.mpr ⟨_,?_,rfl⟩⟩
    rw [step,if_neg running,execute_command,parsed,here]
    dsimp only [Option.map_some]
    rw [do_execute_done outcome created.low]
    rfl
  obtain ⟨l,below,session,name,-⟩ := sessions_kept le_rfl rfl rfl booted typed reached
  exact ⟨k,_,booted,reached,rfl,l,below,session,name⟩

end Mp3Kernel.Sessions

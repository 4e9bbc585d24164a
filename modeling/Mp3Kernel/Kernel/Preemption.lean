import Mp3Kernel.Kernel.TaskForest

/-!
`execute_task` and a halt statement by statement, with timer ticks in between.
Every terminal has a point in the code where its current task goes on; a tick
saves the running one under `cur_task` and goes on with the one saved under the
next leaf. `create_task`, `end_task` and the interrupt itself run with
interrupts off.
-/
namespace Mp3Kernel.Preemption
open Mp3Kernel.Memory Mp3Kernel.Filesys Mp3Kernel.Tasks Mp3Kernel.Paging Mp3Kernel.Scheduler
open Mp3Kernel.Stacks Mp3Kernel.Runs Mp3Kernel.TaskForest
open Mp3Kernel.Tty (Console)

/-- The statements of `execute_task`, by what they do. -/
inductive Stage where
  | map_garbage
  | mark_running
  | set_ret_eip
  | set_cur_task
  | set_ptree_task
  | save_task_state
  | load_tss
  | setup_task_stack
  | set_task_cr3
  | get_cr3
  | iret
  deriving DecidableEq, Repr

def Stage.rank : Stage → Nat
  | map_garbage => 0
  | mark_running => 1
  | set_ret_eip => 2
  | set_cur_task => 3
  | set_ptree_task => 4
  | save_task_state => 5
  | load_tss => 6
  | setup_task_stack => 7
  | set_task_cr3 => 8
  | get_cr3 => 9
  | iret => 10

/-- The statement after this one. -/
def Stage.next : Stage → Option Stage
  | map_garbage => some mark_running
  | mark_running => some set_ret_eip
  | set_ret_eip => some set_cur_task
  | set_cur_task => some set_ptree_task
  | set_ptree_task => some save_task_state
  | save_task_state => some load_tss
  | load_tss => some setup_task_stack
  | setup_task_stack => some set_task_cr3
  | set_task_cr3 => some get_cr3
  | get_cr3 => some iret
  | iret => none

/-- Who called `execute_task`, and the stack it runs on. -/
structure Call where
  maker : Int
  esp : Word
  ebp : Word
  deriving DecidableEq, Repr, Inhabited

/-- What a statement does to the kernel; the frame that `setup_task_stack`
    pushes and `iret` pops lies on the stack. -/
def statement (halt_addr : Word) (call : Call) (pid : Int) : Stage → Kernel → Kernel
  | .map_garbage, k => map_user GARBAGE_VID_MEM VIRTUAL_VID_MEM k
  | .mark_running, k => mark_running pid k
  | .set_ret_eip, k => set_ret_eip pid halt_addr k
  | .set_cur_task, k => set_cur_task pid k
  | .set_ptree_task, k => set_ptree_task (k.tasks pid).ptid pid k
  | .save_task_state, k => save_return pid call.esp call.ebp k
  | .load_tss, k => load_tss pid k
  | .setup_task_stack, k => k
  | .set_task_cr3, k => set_task_cr3 pid k
  | .get_cr3, k => get_cr3 k
  | .iret, k => k

/-- All statements, in order. -/
def stages : List Stage :=
  [.map_garbage,.mark_running,.set_ret_eip,.set_cur_task,.set_ptree_task,.save_task_state,.load_tss,.setup_task_stack,
    .set_task_cr3,.get_cr3,.iret]

/-- Without a tick in between they are `execute_task`. -/
theorem execute_task_statements (halt_addr : Word) (call : Call) (pid : Int) (k : Kernel) :
    (execute_task halt_addr call.esp call.ebp pid k).2 =
      stages.foldl (fun k stage => statement halt_addr call pid stage k) k := rfl

/-- The newline that `do_halt` starts with, -/
def end_line (k : Kernel) : Kernel :=
  if 0 < k.console.screen_x then
    { k with console := (Tty.terminal_write k.scheduler.cur_ptree (some fun _ => Screen.NEWLINE) 1 k.console).2 }
  else k

/-- and the rest of it. -/
def leave_task (status : Byte) (k : Kernel) : HaltExit × Kernel :=
  let cur := get_cur_task k
  let t := k.tasks cur
  if t.pid = 1 ∨ t.pid = 2 ∨ t.pid = 3 then
    let t := { t with tss := { t.tss with eip := t.ret_eip, eflags := t.ret_eflags, esp := t.ret_esp } }
    (.restart_shell { eip := t.ret_eip, cs := USER_CS, eflags := t.ret_eflags, esp := t.ret_esp, ss := USER_DS },
      load_tss cur (k.setTask cur t))
  else (.return_from_halt status t.ret_ebp t.ret_esp t.ret_eip,k)

theorem do_halt_statements (status : Byte) (k : Kernel) : do_halt status k = leave_task status (end_line k) := rfl

/-- Where a terminal's current task goes on. `fault` is whether the exception
    handler ended the task, `esp` and `ebp` are the registers of the
    `execute_task` that a halt returns to. -/
inductive Point where
  /-- user code, or a system call other than execute and halt -/
  | user
  /-- before a statement of `execute_task(pid)`, the program's entry point being `eip` -/
  | executing (stage : Stage) (pid : Int) (eip : Word)
  /-- before `do_halt` -/
  | halting (status : Byte) (fault : Bool)
  /-- behind its newline -/
  | leaving (status : Byte) (fault : Bool)
  /-- at `halt_addr`, the status in `al` -/
  | checking (status : Byte) (fault : Bool) (esp ebp : Word)
  /-- before `end_task` -/
  | ending (ret : Int) (status : Byte) (fault : Bool) (esp ebp : Word)
  /-- before `load_tss` and the return of the value -/
  | returning (ret : Int) (call : Call) (status : Byte) (fault : Bool) (esp ebp : Word)
  deriving DecidableEq, Repr

/-- `saved` has the point that a task's TSS holds; `made` remembers the call of
    `execute_task` for every program. -/
structure Machine where
  k : Kernel
  point : Point
  saved : Int → Point
  made : Int → Call

inductive Event where
  /-- What user code and the other system calls do to memory, the terminals and
      the task's files. -/
  | slice (after : Kernel)
  | execute (programName argsBuffer : Nat → Byte) (esp ebp : Word)
  | halt (status : Byte)
  /-- `do_common_intr` marks the task and halts it with status 0. -/
  | fault
  /-- the next statement -/
  | advance
  | tick (regs : Regs) (frame : IretFrame)

/-- The kernel after a slice of the current task. -/
def sliced (after k : Kernel) : Kernel :=
  { k with mem := after.mem, intr := after.intr, console := after.console }.setTask k.scheduler.cur_task
    { k.tasks k.scheduler.cur_task with files := (after.tasks k.scheduler.cur_task).files }

section
variable (file_sys : FileSys) (halt_addr : Word)

/-- A call of `execute_task` begins once `create_task` has made the program. -/
def begin_execute (programName argsBuffer : Nat → Byte) (esp ebp : Word) (s : Machine) : Machine :=
  let (pid,k) := create_task file_sys programName argsBuffer s.k
  if pid < 0 then { s with k := k } else
    { k := k
      point := .executing .map_garbage pid (k.tasks pid).tss.eip
      saved := fun q => if q = pid then .user else s.saved q
      made := fun q => if q = pid then ⟨get_cur_task s.k,esp,ebp⟩ else s.made q }

/-- The next statement of the current task. A frame of the kernel that
    `setup_task_stack` pushes is not followed. -/
def advance (s : Machine) : Option Machine :=
  match s.point with
  | .user => none
  | .executing stage pid eip =>
    let k := statement halt_addr (s.made pid) pid stage s.k
    match stage.next with
    | some stage' =>
      if stage = .setup_task_stack ∧ (s.k.tasks pid).tss.cs ≠ USER_CS then none
      else some { s with k := k, point := .executing stage' pid eip }
    | none => some { s with k := k, point := .user }
  | .halting status fault => some { s with k := end_line s.k, point := .leaving status fault }
  | .leaving status fault =>
    match leave_task status s.k with
    | (.restart_shell _,k) => some { s with k := k, point := .user }
    | (.return_from_halt status ebp esp eip,k) =>
      if eip = halt_addr then some { s with k := k, point := .checking status fault esp ebp } else none
  | .checking status fault esp ebp =>
    let ret : Int := if get_cur_task_state s.k = .TASK_EXCEPTION then 256 else status.toNat
    some { s with point := .ending ret status fault esp ebp }
  | .ending ret status fault esp ebp =>
    let pid := (s.k.tasks (get_cur_task s.k)).pid
    some { s with k := end_task pid s.k, point := .returning ret (s.made pid) status fault esp ebp }
  | .returning _ _ _ _ _ _ => some { s with k := load_tss (get_cur_task s.k) s.k, point := .user }

/-- A tick interrupts user code or the kernel, but other statements only in the
    kernel. Task 0 only waits for ticks. -/
def step (s : Machine) : Event → Option Machine
  | .slice after => if s.point = .user ∧ s.k.scheduler.cur_task ≠ 0 then some { s with k := sliced after s.k } else none
  | .execute programName argsBuffer esp ebp =>
    if s.point = .user ∧ s.k.scheduler.cur_task ≠ 0 then some (begin_execute file_sys programName argsBuffer esp ebp s)
    else none
  | .halt status =>
    if s.point = .user ∧ s.k.scheduler.cur_task ≠ 0 then some { s with point := .halting status false } else none
  | .fault =>
    if s.point = .user ∧ s.k.scheduler.cur_task ≠ 0 then
      some { s with k := set_cur_task_state .TASK_EXCEPTION s.k, point := .halting 0 true }
    else none
  | .advance => advance halt_addr s
  | .tick regs frame =>
    if frame.cs = KERNEL_CS ∨ frame.cs = USER_CS ∧ s.point = .user then
      let k := timer_tick regs frame s.k
      let saved := fun pid => if pid = s.k.scheduler.cur_task then s.point else s.saved pid
      some { s with k := k, point := saved k.scheduler.cur_task, saved := saved }
    else none

end

/-- The entry context of a program. -/
def entry_context (eip : Word) : IretFrame where
  eip := eip
  cs := USER_CS
  eflags := ELAGS_IF
  esp := BitVec.ofNat 32 (EXECUTION_ADDR + SIZE_4MB_PAGE - 4)
  ss := USER_DS

/-- A tick finds the task that it saves in the leaf table, and the frame that is
    pushed for a program is its entry context. -/
def Sound (s : Machine) : Event → Prop
  | .tick _ _ => s.k.scheduler.cur_task ≠ 0 →
    s.k.scheduler.cur_task = s.k.scheduler.ptree_tasks s.k.scheduler.cur_ptree
  | .advance => ∀ pid eip, s.point = .executing .setup_task_stack pid eip →
    setup_task_stack (s.k.tasks pid) = entry_context eip
  | _ => True

/-- Inside `execute_task`. -/
def Executing : Point → Prop
  | .executing _ _ _ => True
  | _ => False

/-- The new program is current, and its frame is not pushed yet. -/
def Half : Point → Prop
  | .executing stage _ _ => 4 ≤ stage.rank ∧ stage.rank ≤ 7
  | _ => False

/-- No tick comes between `set_cur_task` and the end of `setup_task_stack`. -/
def Clear (s : Machine) : Event → Prop
  | .tick _ _ => ¬ Half s.point
  | _ => True

/-! ### Statements -/

variable {k k' : Kernel} {halt_addr : Word} {call : Call} {stage stage' : Stage} {pid : Int} {trees : Fin 3 → List Int}
variable {points : Fin 3 → Point} {s s' : Machine} {p : Fin 3} {file_sys : FileSys}

theorem Stage.rank_next (next : stage.next = some stage') : stage'.rank = stage.rank + 1 := by
  cases stage <;> cases next <;> rfl

theorem Stage.rank_last (last : stage.next = none) : stage.rank = 10 := by
  cases stage <;> cases last
  rfl

/-- A statement keeps the links and the saved contexts of all tasks. -/
theorem statement_tasks (halt_addr : Word) (call : Call) (pid : Int) (stage : Stage) (k : Kernel) (q : Int) :
    SameLinks ((statement halt_addr call pid stage k).tasks q) (k.tasks q) ∧
      ((statement halt_addr call pid stage k).tasks q).tss = (k.tasks q).tss := by
  have record (t : Task) (links : SameLinks t (k.tasks pid)) (tss : t.tss = (k.tasks pid).tss) :
      SameLinks ((k.setTask pid t).tasks q) (k.tasks q) ∧ ((k.setTask pid t).tasks q).tss = (k.tasks q).tss :=
    ⟨setTask_keeps k pid .refl links q,setTask_keeps (R := fun t u => t.tss = u.tss) k pid (fun _ => rfl) tss q⟩
  cases stage with
  | mark_running => exact record _ (.refl _) rfl
  | set_ret_eip => exact record _ (.refl _) rfl
  | save_task_state => exact record _ (.refl _) rfl
  | _ => exact ⟨.refl _,rfl⟩

/-- Of the scheduler only `set_cur_task` and `set_ptree_task` change something. -/
theorem statement_scheduler (halt_addr : Word) (call : Call) (pid : Int) (stage : Stage) (k : Kernel) :
    (statement halt_addr call pid stage k).scheduler = { k.scheduler with
    cur_task := if stage.rank = 3 then pid else k.scheduler.cur_task
    cur_ptree := if stage.rank = 3 then (k.tasks pid).ptid else k.scheduler.cur_ptree
    ptree_tasks := fun r => if stage.rank = 4 ∧ r = (k.tasks pid).ptid then pid else k.scheduler.ptree_tasks r } := by
  cases stage with
  | set_ptree_task =>
    simp only [statement,set_ptree_task,Stage.rank,true_and]
    rfl
  | _ => rfl

/-- The point behind a statement of `execute_task`. -/
def after_statement (stage : Stage) (pid : Int) (eip : Word) : Point :=
  match stage.next with
  | some stage' => .executing stage' pid eip
  | none => .user

/-- A statement is taken unless it is to push a frame of the kernel. -/
theorem statement_step {eip : Word} (here : s.point = .executing stage pid eip)
    (user : stage = .setup_task_stack → (s.k.tasks pid).tss.cs = USER_CS) :
    advance halt_addr s = some { s with
      k := statement halt_addr (s.made pid) pid stage s.k, point := after_statement stage pid eip } := by
  rw [advance,here,after_statement]
  dsimp only
  cases next : stage.next with
  | none => rfl
  | some stage' => exact if_neg fun foreign => foreign.2 (user foreign.1)

/-- From any statement on, with no tick in between. -/
theorem statements_taken {n : Nat} {eip : Word} (left : stage.rank + n = 10) (here : s.point = .executing stage pid eip)
    (user : (s.k.tasks pid).tss.cs = USER_CS) : run (step file_sys halt_addr) s (List.replicate (n + 1) .advance) =
      some { s with
        k := (stages.drop stage.rank).foldl (fun k stage => statement halt_addr (s.made pid) pid stage k) s.k
        point := .user } := by
  induction n generalizing s stage with
  | zero =>
    obtain rfl : stage = .iret := by
      cases stage <;> cases left
      rfl
    exact run_cons_eq_some.mpr ⟨_,statement_step here (fun last => by cases last),rfl⟩
  | succ n ih =>
    have next : ∃ stage', stage.next = some stage' ∧ stages.drop stage.rank = stage :: stages.drop stage'.rank := by
      cases stage with
      | iret => simp [Stage.rank] at left
      | _ => exact ⟨_,rfl,rfl⟩
    obtain ⟨stage',next,rest⟩ := next
    have rank := Stage.rank_next next
    refine run_cons_eq_some.mpr ⟨_,statement_step here (fun _ => user),?_⟩
    rw [rest]
    refine ih (by omega) ?_ ?_
    · dsimp only
      rw [after_statement,next]
    · exact (congrArg Tss.cs (statement_tasks ..).2).trans user

theorem forest_statement (forest : Forest k trees) : Forest (statement halt_addr call pid stage k) trees := by
  refine forest.keep ?_ ?_ ?_ ?_ ?_ (fun q _ => (statement_tasks _ _ _ _ _ q).1)
  all_goals rw [statement_scheduler]

/-! ### Where the terminals stand -/

/-- The task that is current while a terminal runs. -/
def runner (leaf : Int) : Point → Int
  | .executing stage pid _ => if 4 ≤ stage.rank then pid else leaf
  | _ => leaf

/-- A terminal's stack and its leaf, at each point: a program that is being
    executed lies on its parent and has its entry context up to the push, a
    program that is being ended has a parent. -/
def Seated (k : Kernel) (tree : List Int) (leaf : Int) : Point → Prop
  | .executing stage pid eip => ∃ parent rest, tree = pid :: parent :: rest ∧
      leaf = (if stage.rank ≤ 4 then parent else pid) ∧
      (stage.rank ≤ 7 → setup_task_stack (k.tasks pid) = entry_context eip)
  | .checking _ _ _ _ | .ending _ _ _ _ _ => ∃ parent rest, tree = leaf :: parent :: rest
  | _ => tree.head? = some leaf

/-- The other terminals have their points saved under their leaves. -/
def Waiting (s : Machine) (points : Fin 3 → Point) (q : Fin 3) : Prop :=
  s.saved (s.k.scheduler.ptree_tasks q.val) = points q ∧ ¬ Half (points q)

/-- The terminal that is running. -/
structure Mine (s : Machine) (points : Fin 3 → Point) (p : Fin 3) : Prop where
  ptree : s.k.scheduler.cur_ptree = p.val
  point : s.point = points p
  current : s.k.scheduler.cur_task = runner (s.k.scheduler.ptree_tasks p.val) (points p)
  others : ∀ q, q ≠ p → Waiting s points q

/-- The idle task is running, before the first tick. -/
structure Resting (s : Machine) (points : Fin 3 → Point) : Prop where
  current : s.k.scheduler.cur_task = 0
  ptree : s.k.scheduler.cur_ptree = 0
  point : s.point = .user
  waiting : ∀ q, Waiting s points q

structure Standing (s : Machine) (trees : Fin 3 → List Int) (points : Fin 3 → Point) : Prop where
  forest : Forest s.k trees
  seated : ∀ p : Fin 3, Seated s.k (trees p) (s.k.scheduler.ptree_tasks p.val) (points p)
  running : Resting s points ∨ ∃ p, Mine s points p

/-- A program that is being executed is in the terminal that is running, -/
theorem Standing.executes {eip : Word} (standing : Standing s trees points) (here : s.point = .executing stage pid eip) :
    ∃ p, Mine s points p ∧ points p = .executing stage pid eip := by
  rcases standing.running with rests | ⟨p,mine⟩
  · cases rests.point.symm.trans here
  · exact ⟨p,mine,mine.point.symm.trans here⟩

/-- with its entry context in the frame up to the push. -/
theorem Standing.entry {eip : Word} (standing : Standing s trees points) (here : s.point = .executing stage pid eip)
    (before : stage.rank ≤ 7) : setup_task_stack (s.k.tasks pid) = entry_context eip := by
  obtain ⟨p,-,point⟩ := standing.executes here
  have seated := standing.seated p
  rw [point] at seated
  obtain ⟨-,-,-,-,entry⟩ := seated
  exact entry before

theorem Seated.leaf_held {tree : List Int} {leaf : Int} {point : Point} (seated : Seated k tree leaf point) :
    leaf ∈ tree := by
  cases point with
  | executing stage pid eip =>
    obtain ⟨parent,rest,rfl,rfl,-⟩ := seated
    split <;> simp
  | checking status fault esp ebp =>
    obtain ⟨parent,rest,rfl⟩ := seated
    exact List.mem_cons_self
  | ending ret status fault esp ebp =>
    obtain ⟨parent,rest,rfl⟩ := seated
    exact List.mem_cons_self
  | _ => exact List.mem_of_head? seated

theorem Seated.runner_held {tree : List Int} {leaf : Int} {point : Point} (seated : Seated k tree leaf point) :
    runner leaf point ∈ tree := by
  cases point with
  | executing stage pid eip =>
    obtain ⟨parent,rest,rfl,rfl,-⟩ := seated
    rw [runner]
    split_ifs <;> simp
  | _ => exact seated.leaf_held

/-- Only the context of a program whose frame is not pushed yet matters. -/
theorem Seated.congr {tree : List Int} {leaf : Int} {point : Point} (seated : Seated k tree leaf point)
    (tss : ∀ stage pid eip, point = .executing stage pid eip → stage.rank ≤ 7 → pid ∈ tree →
      (k'.tasks pid).tss = (k.tasks pid).tss) : Seated k' tree leaf point := by
  cases point with
  | executing stage pid eip =>
    obtain ⟨parent,rest,top,here,entry⟩ := seated
    refine ⟨parent,rest,top,here,?_⟩
    intro early
    rw [← entry early,setup_task_stack,setup_task_stack,
      tss stage pid eip rfl early (by rw [top]; exact List.mem_cons_self)]
  | _ => exact seated

/-- Outside the gap the leaf is what runs. -/
theorem Seated.runner_leaf {tree : List Int} {leaf : Int} {point : Point} (seated : Seated k tree leaf point)
    (whole : ¬ Half point) : runner leaf point = leaf := by
  cases point with
  | executing stage pid eip =>
    obtain ⟨parent,rest,-,here,-⟩ := seated
    have ranks : ¬ (4 ≤ stage.rank ∧ stage.rank ≤ 7) := whole
    rw [runner,here]
    split_ifs <;> first | rfl | omega
  | _ => rfl

/-! ### Steps -/

theorem Standing.ptree_ne (standing : Standing s trees points) {q : Fin 3} (other : q ≠ p) :
    s.k.scheduler.ptree_tasks q.val ≠ s.k.scheduler.ptree_tasks p.val := by
  intro same
  have left := (standing.seated q).leaf_held
  rw [same] at left
  exact other (standing.forest.apart.disjoint q p _ left (standing.seated p).leaf_held)

/-- A step of one terminal that leaves the stacks, leaves and saved contexts of
    the others alone. -/
theorem Standing.moves {trees' : Fin 3 → List Int} {point : Point} (mine : Mine s points p)
    (standing : Standing s trees points) (forest : Forest s'.k trees') (ptree : s'.k.scheduler.cur_ptree = p.val)
    (now : s'.point = point) (seated : Seated s'.k (trees' p) (s'.k.scheduler.ptree_tasks p.val) point)
    (runs : s'.k.scheduler.cur_task = runner (s'.k.scheduler.ptree_tasks p.val) point)
    (still : ∀ q, q ≠ p → trees' q = trees q ∧ s'.k.scheduler.ptree_tasks q.val = s.k.scheduler.ptree_tasks q.val ∧
      s'.saved (s.k.scheduler.ptree_tasks q.val) = s.saved (s.k.scheduler.ptree_tasks q.val) ∧
      ∀ pid ∈ trees q, (s'.k.tasks pid).tss = (s.k.tasks pid).tss) :
    Standing s' trees' (Function.update points p point) := by
  refine ⟨forest,?_,.inr ⟨p,ptree,?_,?_,?_⟩⟩
  · intro q
    by_cases same : q = p
    · rw [same,Function.update_self]
      exact seated
    · obtain ⟨tree,leaf,-,tss⟩ := still q same
      rw [Function.update_of_ne same,tree,leaf]
      exact (standing.seated q).congr fun _ pid _ _ _ inside => tss pid inside
  · rw [Function.update_self,now]
  · rw [Function.update_self,runs]
  · intro q other
    obtain ⟨-,leaf,saved,-⟩ := still q other
    rw [Waiting,Function.update_of_ne other,leaf,saved]
    exact mine.others q other

/-- Where only the running terminal's point and the kernel's memory, records and
    terminals change. -/
theorem Standing.stays {point : Point} (mine : Mine s points p) (standing : Standing s trees points)
    (scheduler : s'.k.scheduler = s.k.scheduler) (saved : s'.saved = s.saved) (now : s'.point = point)
    (links : ∀ pid, Held trees pid → SameLinks (s'.k.tasks pid) (s.k.tasks pid))
    (tss : ∀ pid, Held trees pid → pid ≠ s.k.scheduler.cur_task → (s'.k.tasks pid).tss = (s.k.tasks pid).tss)
    (seated : Seated s'.k (trees p) (s.k.scheduler.ptree_tasks p.val) point)
    (runs : s.k.scheduler.cur_task = runner (s.k.scheduler.ptree_tasks p.val) point) (here : s.k.scheduler.cur_task ∈ trees p) :
    Standing s' trees (Function.update points p point) := by
  refine standing.moves mine ?_ ?_ now ?_ ?_ ?_
  · refine standing.forest.keep ?_ ?_ ?_ ?_ ?_ links
    all_goals rw [scheduler]
  · rw [scheduler]
    exact mine.ptree
  · rw [scheduler]
    exact seated
  · rw [scheduler]
    exact runs
  · intro q other
    rw [scheduler,saved]
    refine ⟨rfl,rfl,rfl,?_⟩
    intro pid inside
    refine tss pid ⟨q,inside⟩ ?_
    rintro rfl
    exact other (standing.forest.apart.disjoint q p _ inside here)

theorem executing_standing {eip : Word} (standing : Standing s trees points) (mine : Mine s points p)
    (here : s.point = .executing stage pid eip) :
    Standing { s with k := statement halt_addr (s.made pid) pid stage s.k, point := after_statement stage pid eip } trees
      (Function.update points p (after_statement stage pid eip)) := by
  have seated := standing.seated p
  have current := mine.current
  rw [← mine.point,here] at seated current
  obtain ⟨parent,rest,top,leaf,entry⟩ := seated
  have held : pid ∈ trees p := by rw [top]; exact List.mem_cons_self
  have ptid := (standing.forest.record p pid held).ptid
  have scheduler := statement_scheduler halt_addr (s.made pid) pid stage s.k
  rw [ptid] at scheduler
  have tss (q : Int) := (statement_tasks halt_addr (s.made pid) pid stage s.k q).2
  have leaf' : (statement halt_addr (s.made pid) pid stage s.k).scheduler.ptree_tasks p.val =
      if stage.rank + 1 ≤ 4 then parent else pid := by
    rw [scheduler]
    dsimp only
    rw [leaf]
    split_ifs <;> first | rfl | omega
  have current' : (statement halt_addr (s.made pid) pid stage s.k).scheduler.cur_task =
      if 4 ≤ stage.rank + 1 then pid else parent := by
    rw [scheduler]
    dsimp only
    rw [current,runner,leaf]
    split_ifs <;> first | rfl | omega
  refine standing.moves mine (forest_statement standing.forest) ?_ rfl ?_ ?_ ?_
  · dsimp only
    rw [scheduler,mine.ptree]
    exact ite_self _
  · dsimp only
    rw [leaf',after_statement]
    cases next : stage.next with
    | none =>
      have rank := Stage.rank_last next
      rw [if_neg (by omega),top]
      rfl
    | some stage' =>
      have rank := Stage.rank_next next
      refine ⟨parent,rest,top,by rw [rank],?_⟩
      intro early
      rw [← entry (by omega),setup_task_stack,setup_task_stack,tss]
  · dsimp only
    rw [leaf',current',after_statement]
    cases next : stage.next with
    | none =>
      have rank := Stage.rank_last next
      rw [if_pos (by omega),if_neg (by omega)]
      rfl
    | some stage' =>
      have rank := Stage.rank_next next
      dsimp only [runner]
      rw [rank]
      split_ifs <;> first | rfl | omega
  · intro q other
    dsimp only
    rw [scheduler]
    have apart : (q.val : Int) ≠ p.val := fun same => other (Fin.ext (by omega))
    exact ⟨rfl,if_neg fun both => apart both.2,rfl,fun r _ => tss r⟩

/-- Outside `execute_task` the running task is the leaf. -/
structure AtLeaf (s : Machine) (trees : Fin 3 → List Int) (p : Fin 3) : Prop where
  current : s.k.scheduler.cur_task = s.k.scheduler.ptree_tasks p.val
  top : ∃ rest, trees p = s.k.scheduler.cur_task :: rest
  cur : get_cur_task s.k = s.k.scheduler.cur_task

theorem at_leaf (standing : Standing s trees points) (mine : Mine s points p)
    (outside : ¬ Executing s.point) : AtLeaf s trees p := by
  have seated := standing.seated p
  have current := mine.current
  rw [← mine.point] at seated current
  have leaf : s.k.scheduler.cur_task = s.k.scheduler.ptree_tasks p.val := by
    rw [current]
    cases point : s.point with
    | executing stage pid eip => exact absurd (point ▸ trivial) outside
    | _ => rfl
  have head : (trees p).head? = some (s.k.scheduler.ptree_tasks p.val) := by
    cases point : s.point with
    | executing stage pid eip => exact absurd (point ▸ trivial) outside
    | checking status fault esp ebp =>
      rw [point] at seated
      obtain ⟨parent,rest,top⟩ := seated
      rw [top]
      rfl
    | ending ret status fault esp ebp =>
      rw [point] at seated
      obtain ⟨parent,rest,top⟩ := seated
      rw [top]
      rfl
    | _ =>
      rw [point] at seated
      exact seated
  have live := standing.forest.held_live (standing.seated p).leaf_held
  refine ⟨leaf,?_,?_⟩
  · rw [leaf]
    exact List.head?_eq_some_iff.mp head
  · rw [get_cur_task,leaf,if_neg (by have := live.1; omega)]

theorem AtLeaf.held (at_leaf : AtLeaf s trees p) : s.k.scheduler.cur_task ∈ trees p := by
  obtain ⟨rest,top⟩ := at_leaf.top
  rw [top]
  exact List.mem_cons_self

theorem AtLeaf.head (at_leaf : AtLeaf s trees p) : (trees p).head? = some (s.k.scheduler.ptree_tasks p.val) := by
  obtain ⟨rest,top⟩ := at_leaf.top
  rw [top,at_leaf.current]
  rfl

theorem AtLeaf.number (at_leaf : AtLeaf s trees p) (standing : Standing s trees points) :
    (s.k.tasks s.k.scheduler.cur_task).pid = s.k.scheduler.cur_task :=
  (standing.forest.record p _ at_leaf.held).number

/-- A created program is pushed on its maker. -/
theorem created_standing {fname args : Nat → Byte} (esp ebp : Word) (standing : Standing s trees points)
    (mine : Mine s points p) (user : s.point = .user) (created : Created file_sys fname args s.k pid k') :
    Standing {
        k := k'
        point := .executing .map_garbage pid (k'.tasks pid).tss.eip
        saved := fun q => if q = pid then .user else s.saved q
        made := fun q => if q = pid then ⟨get_cur_task s.k,esp,ebp⟩ else s.made q } (push trees p pid)
      (Function.update points p (.executing .map_garbage pid (k'.tasks pid).tss.eip)) := by
  obtain ⟨leaf,⟨rest,top⟩,-⟩ := at_leaf standing mine (by rw [user]; exact id)
  obtain ⟨-,fresh⟩ := standing.forest.fresh created.fresh
  have other {q : Fin 3} {r : Int} (inside : r ∈ trees q) : r ≠ pid := fun same => fresh ⟨q,same ▸ inside⟩
  have scheduler := created.scheduler
  have context : setup_task_stack (k'.tasks pid) = entry_context (k'.tasks pid).tss.eip := by
    obtain ⟨exe_addr,-,-,made⟩ := created.loaded
    rw [made,new_record]
    split <;> rfl
  refine standing.moves mine (standing.forest.create created top rfl) ?_ rfl ?_ ?_ ?_
  · dsimp only
    rw [scheduler]
    exact mine.ptree
  · dsimp only
    rw [scheduler,push_same,top,← leaf]
    exact ⟨_,rest,rfl,(if_pos (Nat.zero_le 4)).symm,fun _ => context⟩
  · dsimp only
    rw [scheduler]
    exact leaf
  · intro q apart
    dsimp only
    rw [scheduler,push_other apart,if_neg (other (standing.seated q).leaf_held)]
    exact ⟨rfl,rfl,rfl,fun r inside => by rw [created.others r (other inside)]⟩

/-- The first shells start over when they halt. -/
def FirstShell (pid : Int) : Prop := pid = 1 ∨ pid = 2 ∨ pid = 3

theorem advance_leaving {status : Byte} {fault : Bool} (here : s.point = .leaving status fault)
    (taken : advance halt_addr s = some s') :
    (FirstShell (s.k.tasks (get_cur_task s.k)).pid ∧ s' = { s with
        k := load_tss (get_cur_task s.k) (s.k.setTask (get_cur_task s.k) (restarted (s.k.tasks (get_cur_task s.k))))
        point := .user }) ∨
      ¬ FirstShell (s.k.tasks (get_cur_task s.k)).pid ∧ s' = { s with
        point := .checking status fault (s.k.tasks (get_cur_task s.k)).ret_esp (s.k.tasks (get_cur_task s.k)).ret_ebp } := by
  rw [advance,here] at taken
  dsimp only at taken
  by_cases shell : FirstShell (s.k.tasks (get_cur_task s.k)).pid
  · have left : leave_task status s.k = (.restart_shell _,load_tss (get_cur_task s.k) (s.k.setTask (get_cur_task s.k)
      (restarted (s.k.tasks (get_cur_task s.k))))) := if_pos shell
    rw [left] at taken
    exact .inl ⟨shell,(Option.some.inj taken).symm⟩
  · have left : leave_task status s.k = (.return_from_halt status _ _ _,s.k) := if_neg shell
    rw [left] at taken
    dsimp only at taken
    split at taken
    case isFalse => cases taken
    exact .inr ⟨shell,(Option.some.inj taken).symm⟩

/-- A first shell starts over, -/
theorem restart_standing {status : Byte} {fault : Bool} (standing : Standing s trees points) (mine : Mine s points p)
    (here : s.point = .leaving status fault) : Standing { s with
      k := load_tss (get_cur_task s.k) (s.k.setTask (get_cur_task s.k) (restarted (s.k.tasks (get_cur_task s.k))))
      point := .user } trees (Function.update points p .user) := by
  have leaf := at_leaf standing mine (by rw [here]; exact id)
  rw [leaf.cur]
  refine standing.stays mine rfl rfl rfl ?_ ?_ leaf.head leaf.current leaf.held
  · intro q _
    exact setTask_keeps s.k s.k.scheduler.cur_task .refl ⟨rfl,rfl,rfl,rfl⟩ q
  · intro q _ other
    exact congrArg Task.tss (setTask_other s.k _ other)

/-- and any other program has a parent to go on with. -/
theorem checking_standing {status : Byte} {fault : Bool} {esp ebp : Word} (standing : Standing s trees points)
    (mine : Mine s points p) (here : s.point = .leaving status fault)
    (program : ¬ FirstShell (s.k.tasks (get_cur_task s.k)).pid) :
    Standing { s with point := .checking status fault esp ebp } trees
      (Function.update points p (.checking status fault esp ebp)) := by
  have leaf := at_leaf standing mine (by rw [here]; exact id)
  obtain ⟨rest,top⟩ := leaf.top
  refine standing.stays mine rfl rfl rfl (fun _ _ => .refl _) (fun _ _ _ => rfl) ?_ leaf.current leaf.held
  have last := standing.forest.shell p
  rw [top] at last
  rw [leaf.cur,leaf.number standing,FirstShell] at program
  cases rest with
  | nil =>
    have first : s.k.scheduler.cur_task = p.val + 1 := by simpa using last
    omega
  | cons parent rest => exact ⟨parent,rest,by rw [top,leaf.current]⟩

/-- The end of a program goes on with its parent. -/
theorem ending_standing {ret : Int} {status : Byte} {fault : Bool} {esp ebp : Word} {call : Call}
    (standing : Standing s trees points) (mine : Mine s points p) (here : s.point = .ending ret status fault esp ebp) :
    Standing { s with
        k := end_task s.k.scheduler.cur_task s.k
        point := .returning ret call status fault esp ebp } (pop trees p)
      (Function.update points p (.returning ret call status fault esp ebp)) := by
  have leaf := at_leaf standing mine (by rw [here]; exact id)
  have seated := standing.seated p
  rw [← mine.point,here] at seated
  obtain ⟨parent,rest,top⟩ := seated
  rw [← leaf.current] at top
  have scheduler := (standing.forest.ended top).2
  refine standing.moves mine (standing.forest.end_task top) ?_ rfl ?_ ?_ ?_
  · dsimp only
    rw [scheduler]
  · dsimp only
    rw [scheduler,pop_same,top]
    dsimp only
    rw [if_pos rfl]
    rfl
  · dsimp only
    rw [scheduler]
    exact (if_pos rfl).symm
  · intro q other
    have apart : (q.val : Int) ≠ p.val := fun same => other (Fin.ext (by omega))
    dsimp only
    rw [scheduler,pop_other other]
    exact ⟨rfl,if_neg apart,rfl,fun _ _ => rfl⟩

/-- A program that is not pushed yet is not current, outside the gap. -/
theorem Standing.not_pushed (standing : Standing s trees points) {r : Fin 3} {eip : Word}
    (here : points r = .executing stage (get_cur_task s.k) eip) (early : stage.rank ≤ 7) (whole : ¬ Half (points r))
    (inside : get_cur_task s.k ∈ trees r) : False := by
  have live := (standing.forest.held_live inside).1
  have cur : get_cur_task s.k = s.k.scheduler.cur_task := by
    rw [get_cur_task] at live ⊢
    split at live
    · omega
    · rename_i low
      exact if_neg low
  rcases standing.running with rests | ⟨p,mine⟩
  · exact (standing.forest.record r _ inside).positive (cur.trans rests.current)
  · have runs := (standing.seated p).runner_held
    rw [← mine.current,← cur] at runs
    obtain rfl := standing.forest.apart.disjoint p r _ runs inside
    have seated := standing.seated p
    have current := mine.current
    rw [here] at seated current whole
    obtain ⟨parent,rest,top,leaf,-⟩ := seated
    have ranks : ¬ (4 ≤ stage.rank ∧ stage.rank ≤ 7) := whole
    rw [runner,if_neg (by omega),leaf,if_pos (by omega),← cur] at current
    have distinct := standing.forest.apart.nodup p
    rw [top,current] at distinct
    exact (List.nodup_cons.mp distinct).1 List.mem_cons_self

/-- What a tick makes of the kernel, wherever it comes. -/
theorem tick_eq (regs : Regs) (frame : IretFrame) (standing : Standing s trees points) : ∃ q : Fin 3,
    (s.k.scheduler.cur_ptree + 1) % 3 = q.val ∧
      (timer_tick regs frame s.k).tasks = (saved_tick regs frame s.k).tasks ∧
      (timer_tick regs frame s.k).scheduler =
        { s.k.scheduler with cur_task := s.k.scheduler.ptree_tasks q.val, cur_ptree := q.val } := by
  have range : 0 ≤ s.k.scheduler.cur_ptree ∧ s.k.scheduler.cur_ptree < 3 := by
    rcases standing.running with rests | ⟨p,mine⟩
    · rw [rests.ptree]
      exact ⟨le_rfl,by decide⟩
    · have := p.isLt
      rw [mine.ptree]
      omega
  obtain ⟨q,turn,ticked,scheduler⟩ := tick_goes regs frame standing.forest (fun r => (standing.seated r).leaf_held)
    range.1 range.2
  exact ⟨q,turn,by rw [ticked,switch_task_tasks],scheduler⟩

/-- A tick outside the gap saves the running task's point under its leaf and
    goes on with the next leaf's. -/
theorem tick_turns {regs : Regs} {frame : IretFrame} (standing : Standing s trees points) (whole : ¬ Half s.point)
    (taken : step file_sys halt_addr s (.tick regs frame) = some s') : Standing s' trees points ∧
      s'.k.scheduler.ptree_tasks = s.k.scheduler.ptree_tasks ∧
      ∃ q : Fin 3, (s.k.scheduler.cur_ptree + 1) % 3 = q.val ∧ Mine s' points q := by
  rw [step] at taken
  split at taken
  case isFalse => cases taken
  obtain rfl := Option.some.inj taken
  have held (r : Fin 3) := (standing.seated r).leaf_held
  have calm (r : Fin 3) : ¬ Half (points r) := by
    rcases standing.running with rests | ⟨p,mine⟩
    · exact (rests.waiting r).2
    · by_cases same : r = p
      · rw [same,← mine.point]
        exact whole
      · exact (mine.others r same).2
  have leaves (r : Fin 3) : (if s.k.scheduler.ptree_tasks r.val = s.k.scheduler.cur_task then s.point
      else s.saved (s.k.scheduler.ptree_tasks r.val)) = points r := by
    rcases standing.running with rests | ⟨p,mine⟩
    · rw [if_neg (by rw [rests.current]; exact (standing.forest.record r _ (held r)).positive)]
      exact (rests.waiting r).1
    · have leaf : s.k.scheduler.cur_task = s.k.scheduler.ptree_tasks p.val := by
        rw [mine.current,(standing.seated p).runner_leaf (calm p)]
      by_cases same : r = p
      · rw [same,if_pos leaf.symm,mine.point]
      · rw [leaf,if_neg (standing.ptree_ne same)]
        exact (mine.others r same).1
  obtain ⟨q,turn,tasks,scheduler⟩ := tick_eq regs frame standing
  have mine : Mine { s with
      k := timer_tick regs frame s.k
      point := if (timer_tick regs frame s.k).scheduler.cur_task = s.k.scheduler.cur_task then s.point
        else s.saved (timer_tick regs frame s.k).scheduler.cur_task
      saved := fun pid => if pid = s.k.scheduler.cur_task then s.point else s.saved pid } points q := by
    refine ⟨?_,?_,?_,?_⟩
    · dsimp only
      rw [scheduler]
    · dsimp only
      rw [scheduler]
      exact leaves q
    · dsimp only
      rw [scheduler,(standing.seated q).runner_leaf (calm q)]
    · intro r _
      rw [Waiting]
      dsimp only
      rw [scheduler]
      exact ⟨leaves r,calm r⟩
  refine ⟨⟨?_,?_,.inr ⟨q,mine⟩⟩,by dsimp only; rw [scheduler],q,turn,mine⟩
  · refine standing.forest.keep ?_ ?_ ?_ ?_ ?_ ?_
    iterate 5 · dsimp only; rw [scheduler]
    intro pid _
    dsimp only
    rw [tasks]
    exact sameLinks_of_sameTask (saved_tick_same regs frame s.k pid)
  · intro r
    dsimp only
    rw [scheduler]
    refine (standing.seated r).congr ?_
    intro stage pid eip here early inside
    rw [tasks,saved_tick_other regs frame s.k]
    rintro rfl
    exact standing.not_pushed here early (calm r) inside

theorem tick_standing {regs : Regs} {frame : IretFrame} (standing : Standing s trees points) (whole : ¬ Half s.point)
    (taken : step file_sys halt_addr s (.tick regs frame) = some s') : Standing s' trees points :=
  (tick_turns standing whole taken).1

theorem slice_standing (after : Kernel) (standing : Standing s trees points) (mine : Mine s points p)
    (user : s.point = .user) : Standing { s with k := sliced after s.k } trees (Function.update points p .user) := by
  have leaf := at_leaf standing mine (by rw [user]; exact id)
  refine standing.stays mine rfl rfl user ?_ ?_ leaf.head leaf.current leaf.held
  · intro pid _
    exact setTask_keeps { s.k with mem := after.mem, intr := after.intr, console := after.console }
      s.k.scheduler.cur_task .refl ⟨rfl,rfl,rfl,rfl⟩ pid
  · intro pid _ other
    exact congrArg Task.tss (setTask_other _ _ other)

theorem begin_execute_done {fname args : Nat → Byte} {esp ebp : Word}
    (outcome : create_task file_sys fname args s.k = (pid,k')) (done : 0 ≤ pid) :
    begin_execute file_sys fname args esp ebp s = {
      k := k'
      point := .executing .map_garbage pid (k'.tasks pid).tss.eip
      saved := fun q => if q = pid then .user else s.saved q
      made := fun q => if q = pid then ⟨get_cur_task s.k,esp,ebp⟩ else s.made q } := by
  rw [begin_execute,outcome]
  exact if_neg (Int.not_lt.mpr done)

theorem begin_execute_failed {fname args : Nat → Byte} {esp ebp : Word}
    (outcome : create_task file_sys fname args s.k = (pid,k')) (failed : pid < 0) :
    begin_execute file_sys fname args esp ebp s = { s with k := k' } := by
  rw [begin_execute,outcome]
  exact if_pos failed

/-- Where the creation fails its maker goes on. -/
theorem refused_standing {fname : Nat → Byte} (standing : Standing s trees points) (mine : Mine s points p)
    (user : s.point = .user) (refused : Refused file_sys fname s.k k') :
    Standing { s with k := k' } trees (Function.update points p .user) := by
  have leaf := at_leaf standing mine (by rw [user]; exact id)
  refine standing.stays mine refused.scheduler rfl user ?_ ?_ leaf.head leaf.current leaf.held
  · intro pid inside
    dsimp only
    rw [standing.forest.refused refused inside]
    exact .refl _
  · intro pid inside _
    dsimp only
    rw [standing.forest.refused refused inside]

theorem execute_standing {programName argsBuffer : Nat → Byte} {esp ebp : Word} (standing : Standing s trees points)
    (mine : Mine s points p) (user : s.point = .user) :
    ∃ trees' points', Standing (begin_execute file_sys programName argsBuffer esp ebp s) trees' points' := by
  obtain ⟨pid,k₁,outcome,created | ⟨failed,refused⟩⟩ := create_task_cases file_sys programName argsBuffer (k := s.k)
    (by rw [standing.forest.max_tasks]; omega)
  · rw [begin_execute_done outcome created.low]
    exact ⟨_,_,created_standing esp ebp standing mine user created⟩
  · rw [begin_execute_failed outcome (by omega)]
    exact ⟨_,_,refused_standing standing mine user refused⟩

/-- The frame that is pushed for a program can be popped, so that
    `execute_task` gets to its end. -/
theorem statement_taken {eip : Word} (standing : Standing s trees points) (here : s.point = .executing stage pid eip) :
    advance halt_addr s = some { s with
      k := statement halt_addr (s.made pid) pid stage s.k, point := after_statement stage pid eip } := by
  refine statement_step here ?_
  rintro rfl
  exact congrArg IretFrame.cs (standing.entry here (by decide))

variable (halt_addr) in
/-- With no tick in between, a program that can be created runs. -/
theorem execute_runs {fname args : Nat → Byte} (esp ebp : Word) (standing : Standing s trees points)
    (mine : Mine s points p) (user : s.point = .user) (busy : s.k.scheduler.cur_task ≠ 0)
    (outcome : create_task file_sys fname args s.k = (pid,k')) (created : Created file_sys fname args s.k pid k') :
    (k'.tasks pid).ptid = p.val ∧
      ∃ s', run (step file_sys halt_addr) s (.execute fname args esp ebp :: List.replicate 11 .advance) = some s' ∧
        s'.k = (execute_task halt_addr esp ebp pid k').2 := by
  have stands := created_standing esp ebp standing mine user created
  have top : pid ∈ push trees p pid p := by
    rw [push_same]
    exact List.mem_cons_self
  have seated := stands.seated p
  rw [Function.update_self] at seated
  obtain ⟨-,-,-,-,entry⟩ := seated
  have begun : step file_sys halt_addr s (.execute fname args esp ebp) = some _ :=
    (if_pos ⟨user,busy⟩).trans (congrArg some (begin_execute_done outcome created.low))
  have runs : run (step file_sys halt_addr) _ (List.replicate 11 .advance) = some _ :=
    statements_taken (n := 10) rfl rfl (congrArg IretFrame.cs (entry (by decide)))
  refine ⟨(stands.forest.record p pid top).ptid,_,run_cons_eq_some.mpr ⟨_,begun,runs⟩,?_⟩
  dsimp only
  rw [if_pos rfl]
  exact (execute_task_statements halt_addr ⟨get_cur_task s.k,esp,ebp⟩ pid k').symm

theorem end_line_eq (k : Kernel) : ∃ c, end_line k = { k with console := c } := by
  unfold end_line
  split
  · exact ⟨_,rfl⟩
  · exact ⟨k.console,rfl⟩

/-- What `advance` can do, by the point of the running terminal. -/
inductive Advanced (halt_addr : Word) (s : Machine) : Machine → Prop where
  | statement {stage : Stage} {pid : Int} {eip : Word} (here : s.point = .executing stage pid eip) :
    Advanced halt_addr s
      { s with k := statement halt_addr (s.made pid) pid stage s.k, point := after_statement stage pid eip }
  | line {status : Byte} {fault : Bool} (here : s.point = .halting status fault) (c : Console) :
    Advanced halt_addr s { s with k := { s.k with console := c }, point := .leaving status fault }
  | restart {status : Byte} {fault : Bool} (here : s.point = .leaving status fault)
    (shell : FirstShell (s.k.tasks (get_cur_task s.k)).pid) : Advanced halt_addr s { s with
      k := load_tss (get_cur_task s.k) (s.k.setTask (get_cur_task s.k) (restarted (s.k.tasks (get_cur_task s.k))))
      point := .user }
  | leave {status : Byte} {fault : Bool} (here : s.point = .leaving status fault)
    (program : ¬ FirstShell (s.k.tasks (get_cur_task s.k)).pid) : Advanced halt_addr s { s with
      point := .checking status fault (s.k.tasks (get_cur_task s.k)).ret_esp (s.k.tasks (get_cur_task s.k)).ret_ebp }
  | check {status : Byte} {fault : Bool} {esp ebp : Word} (here : s.point = .checking status fault esp ebp) :
    Advanced halt_addr s { s with
      point := .ending (if get_cur_task_state s.k = .TASK_EXCEPTION then 256 else status.toNat) status fault esp ebp }
  | ends {ret : Int} {status : Byte} {fault : Bool} {esp ebp : Word} (here : s.point = .ending ret status fault esp ebp) :
    Advanced halt_addr s { s with
      k := end_task s.k.scheduler.cur_task s.k
      point := .returning ret (s.made s.k.scheduler.cur_task) status fault esp ebp }
  | returns {ret : Int} {call : Call} {status : Byte} {fault : Bool} {esp ebp : Word}
    (here : s.point = .returning ret call status fault esp ebp) :
    Advanced halt_addr s { s with k := load_tss (get_cur_task s.k) s.k, point := .user }

theorem advance_cases (standing : Standing s trees points) (mine : Mine s points p)
    (taken : advance halt_addr s = some s') : Advanced halt_addr s s' := by
  cases here : s.point with
  | user =>
    rw [advance,here] at taken
    cases taken
  | executing stage pid eip =>
    obtain rfl := Option.some.inj ((statement_taken standing here).symm.trans taken)
    exact .statement here
  | halting status fault =>
    obtain ⟨c,line⟩ := end_line_eq s.k
    rw [advance,here] at taken
    dsimp only at taken
    rw [line] at taken
    obtain rfl := Option.some.inj taken
    exact .line here c
  | leaving status fault =>
    rcases advance_leaving here taken with ⟨shell,rfl⟩ | ⟨program,rfl⟩
    · exact .restart here shell
    · exact .leave here program
  | checking status fault esp ebp =>
    rw [advance,here] at taken
    obtain rfl := Option.some.inj taken
    exact .check here
  | ending ret status fault esp ebp =>
    have leaf := at_leaf standing mine (by rw [here]; exact id)
    rw [advance,here,leaf.cur] at taken
    dsimp only at taken
    rw [leaf.number standing] at taken
    obtain rfl := Option.some.inj taken
    exact .ends here
  | returning ret call status fault esp ebp =>
    rw [advance,here] at taken
    obtain rfl := Option.some.inj taken
    exact .returns here

/-- A statement that writes no record of a task leaves the stacks in place. -/
theorem quiet_standing {point : Point} {k' : Kernel} (standing : Standing s trees points) (mine : Mine s points p)
    (outside : ¬ Executing s.point) (scheduler : k'.scheduler = s.k.scheduler)
    (tasks : k'.tasks = s.k.tasks)
    (seated : Seated k' (trees p) (s.k.scheduler.ptree_tasks p.val) point)
    (runs : ∀ leaf, runner leaf point = leaf) :
    Standing { s with k := k', point := point } trees (Function.update points p point) := by
  have leaf := at_leaf standing mine outside
  refine standing.stays mine scheduler rfl rfl ?_ ?_ seated ((runs _).symm ▸ leaf.current) leaf.held
  · intro pid _
    dsimp only
    rw [tasks]
    exact .refl _
  · intro pid _ _
    dsimp only
    rw [tasks]

theorem line_standing {status : Byte} {fault : Bool} (standing : Standing s trees points) (mine : Mine s points p)
    (here : s.point = .halting status fault) (c : Console) :
    Standing { s with k := { s.k with console := c }, point := .leaving status fault } trees
      (Function.update points p (.leaving status fault)) :=
  have outside : ¬ Executing s.point := by rw [here]; exact id
  quiet_standing standing mine outside rfl rfl (at_leaf standing mine outside).head (fun _ => rfl)

theorem checked_standing {ret : Int} {status : Byte} {fault : Bool} {esp ebp : Word} (standing : Standing s trees points)
    (mine : Mine s points p) (here : s.point = .checking status fault esp ebp) :
    Standing { s with point := .ending ret status fault esp ebp } trees
      (Function.update points p (.ending ret status fault esp ebp)) := by
  have seated := standing.seated p
  rw [← mine.point,here] at seated
  exact quiet_standing standing mine (by rw [here]; exact id) rfl rfl seated (fun _ => rfl)

theorem returned_standing {ret : Int} {call : Call} {status : Byte} {fault : Bool} {esp ebp : Word}
    (standing : Standing s trees points) (mine : Mine s points p)
    (here : s.point = .returning ret call status fault esp ebp) :
    Standing { s with k := load_tss (get_cur_task s.k) s.k, point := .user } trees (Function.update points p .user) :=
  have outside : ¬ Executing s.point := by rw [here]; exact id
  quiet_standing standing mine outside rfl rfl (at_leaf standing mine outside).head (fun _ => rfl)

theorem advance_standing (standing : Standing s trees points) (mine : Mine s points p)
    (taken : advance halt_addr s = some s') : ∃ trees' points', Standing s' trees' points' := by
  cases advance_cases standing mine taken with
  | statement here => exact ⟨_,_,executing_standing standing mine here⟩
  | line here c => exact ⟨_,_,line_standing standing mine here c⟩
  | restart here shell => exact ⟨_,_,restart_standing standing mine here⟩
  | leave here program => exact ⟨_,_,checking_standing standing mine here program⟩
  | check here => exact ⟨_,_,checked_standing standing mine here⟩
  | ends here => exact ⟨_,_,ending_standing standing mine here⟩
  | returns here => exact ⟨_,_,returned_standing standing mine here⟩

theorem halt_standing (status : Byte) (standing : Standing s trees points) (mine : Mine s points p) (user : s.point = .user) :
    Standing { s with point := .halting status false } trees (Function.update points p (.halting status false)) :=
  have outside : ¬ Executing s.point := by rw [user]; exact id
  quiet_standing standing mine outside rfl rfl (at_leaf standing mine outside).head (fun _ => rfl)

theorem fault_standing (standing : Standing s trees points) (mine : Mine s points p) (user : s.point = .user) :
    Standing { s with k := set_cur_task_state .TASK_EXCEPTION s.k, point := .halting 0 true } trees
      (Function.update points p (.halting 0 true)) := by
  have leaf := at_leaf standing mine (by rw [user]; exact id)
  refine standing.stays mine rfl rfl rfl ?_ ?_ leaf.head leaf.current leaf.held
  · intro pid _
    exact setTask_keeps s.k (get_cur_task s.k) .refl ⟨rfl,rfl,rfl,rfl⟩ pid
  · intro pid _ other
    rw [← leaf.cur] at other
    exact congrArg Task.tss (setTask_other s.k _ other)

/-- What user code asks for is taken by the running terminal. -/
theorem user_step {t : Machine} (standing : Standing s trees points)
    (taken : (if s.point = .user ∧ s.k.scheduler.cur_task ≠ 0 then some t else none) = some s') :
    s' = t ∧ ∃ p, Mine s points p ∧ s.point = .user := by
  split at taken
  case isFalse => cases taken
  rename_i ready
  rcases standing.running with rests | ⟨p,mine⟩
  · exact absurd rests.current ready.2
  · exact ⟨(Option.some.inj taken).symm,p,mine,ready.1⟩

theorem step_standing (ev : Event) (standing : Standing s trees points) (clear : Clear s ev)
    (taken : step file_sys halt_addr s ev = some s') : ∃ trees' points', Standing s' trees' points' := by
  cases ev with
  | tick regs frame => exact ⟨trees,points,tick_standing standing clear taken⟩
  | advance =>
    rcases standing.running with rests | ⟨p,mine⟩
    · rw [step,advance,rests.point] at taken
      cases taken
    · exact advance_standing standing mine taken
  | slice after =>
    obtain ⟨rfl,p,mine,user⟩ := user_step standing taken
    exact ⟨_,_,slice_standing after standing mine user⟩
  | execute programName argsBuffer esp ebp =>
    obtain ⟨rfl,p,mine,user⟩ := user_step standing taken
    exact execute_standing standing mine user
  | halt status =>
    obtain ⟨rfl,p,mine,user⟩ := user_step standing taken
    exact ⟨_,_,halt_standing status standing mine user⟩
  | fault =>
    obtain ⟨rfl,p,mine,user⟩ := user_step standing taken
    exact ⟨_,_,fault_standing standing mine user⟩

/-! ### From the boot on -/

/-- A step that comes between no halves finds the scheduler's data sound. -/
theorem sound_of_standing {ev : Event} (standing : Standing s trees points) (clear : Clear s ev) : Sound s ev := by
  cases ev with
  | tick regs frame =>
    intro busy
    rcases standing.running with rests | ⟨p,mine⟩
    · exact absurd rests.current busy
    · have whole : ¬ Half s.point := clear
      rw [mine.point] at whole
      rw [mine.ptree,mine.current,(standing.seated p).runner_leaf whole]
  | advance =>
    intro pid eip here
    exact standing.entry here (by decide)
  | _ => trivial

/-- The kernel after the boot, with no program executed. -/
def begin_machine (k : Kernel) : Machine := { k := k, point := .user, saved := fun _ => .user, made := fun _ => ⟨0,0,0⟩ }

theorem begin_standing {k₁ : Kernel} (start : k.scheduler = scheduler) (unwritten : (k.tasks 0).ptid = 0)
    (booted : tasks_init file_sys k = some k₁) : Standing (begin_machine k₁) shells (fun _ => .user) := by
  obtain ⟨leaves,cur_task,cur_ptree,-⟩ := tasks_init_leaves 0 start unwritten booted
  exact ⟨leaves.forest,leaves.leaf,.inl ⟨cur_task,cur_ptree,rfl,fun _ => ⟨rfl,id⟩⟩⟩

/-- In every run from the boot on in which no tick comes between `set_cur_task`
    and the end of `setup_task_stack`, every tick finds the task that it saves
    in the leaf table, and every program starts in its entry context. -/
theorem executes_sound {evs : List Event} {k₁ : Kernel} (start : k.scheduler = scheduler)
    (unwritten : (k.tasks 0).ptid = 0) (booted : tasks_init file_sys k = some k₁)
    (clear : StepsMeet (step file_sys halt_addr) Clear (begin_machine k₁) evs) :
    StepsMeet (step file_sys halt_addr) Sound (begin_machine k₁) evs := by
  refine stepsMeet_of_invariant (I := fun s => ∃ trees points, Standing s trees points) ?_ ?_
    ⟨_,_,begin_standing start unwritten booted⟩ clear
  · rintro s ev ⟨trees,points,standing⟩ allowed
    exact sound_of_standing standing allowed
  · rintro s ev s' ⟨trees,points,standing⟩ allowed taken
    exact step_standing ev standing allowed taken

/-- The first tick starts one of the shells. -/
theorem first_tick (halt_addr : Word) (regs : Regs) (frame : IretFrame) {k₁ : Kernel} (start : k.scheduler = scheduler)
    (unwritten : (k.tasks 0).ptid = 0) (booted : tasks_init file_sys k = some k₁) (kernel : frame.cs = KERNEL_CS) :
    ∃ s₁, step file_sys halt_addr (begin_machine k₁) (.tick regs frame) = some s₁ ∧ s₁.point = .user ∧
      s₁.k.scheduler.cur_task ≠ 0 ∧ s₁.k.scheduler.task_vector = 15 ∧ s₁.k.scheduler.max_tasks = 10 := by
  obtain ⟨leaves,-,cur_ptree,-⟩ := tasks_init_leaves 0 start unwritten booted
  obtain ⟨k₂,ready,rfl⟩ := tasks_init_booting start unwritten booted
  obtain ⟨q,-,-,scheduler⟩ := tick_switches regs frame leaves (by omega) (by omega)
  refine ⟨_,if_pos (.inl kernel),ite_self _,?_⟩
  change (timer_tick regs frame (idle_task k₂)).scheduler.cur_task ≠ 0 ∧
    (timer_tick regs frame (idle_task k₂)).scheduler.task_vector = 15 ∧
    (timer_tick regs frame (idle_task k₂)).scheduler.max_tasks = 10
  rw [scheduler]
  refine ⟨(leaves.forest.record q _ (leaves.leaf_held q)).positive,?_,leaves.forest.max_tasks⟩
  exact (congrArg Sched.task_vector ready.scheduler).trans (by decide)

theorem begin_execute_point (file_sys : FileSys) (fname args : Nat → Byte) (esp ebp : Word) (s : Machine) :
    (begin_execute file_sys fname args esp ebp s).point = s.point ∨
      ∃ pid eip, (begin_execute file_sys fname args esp ebp s).point = .executing .map_garbage pid eip := by
  unfold begin_execute
  dsimp only
  split
  · exact .inl rfl
  · exact .inr ⟨_,_,rfl⟩

/-- An interrupt of the kernel. -/
def kernel_frame : IretFrame := { (default : IretFrame) with cs := KERNEL_CS }

/-- A tick comes at boot and another one right behind the creation of a
    program. -/
theorem executes_sound_created : ∃ k, tasks_init shell_image bare_kernel = some k ∧
    StepsMeet (step shell_image 0) Sound (begin_machine k)
      [.tick default kernel_frame,.execute Tty.shell_name (fun _ => 0) 0 0,.tick default kernel_frame] := by
  obtain ⟨k,booted⟩ := tasks_init_completes shell_image_loads (k := bare_kernel) rfl rfl
  obtain ⟨s₁,first,user,-⟩ := first_tick 0 default kernel_frame (k := bare_kernel) rfl rfl booted rfl
  refine ⟨k,booted,executes_sound rfl rfl booted ⟨id,?_⟩⟩
  intro s taken
  obtain rfl := Option.some.inj (first.symm.trans taken)
  refine ⟨trivial,?_⟩
  intro s₂ second
  refine ⟨?_,fun _ _ => trivial⟩
  rw [step] at second
  split at second
  case isFalse => cases second
  obtain rfl := Option.some.inj second
  rw [Clear]
  rcases begin_execute_point shell_image Tty.shell_name (fun _ => 0) 0 0 s₁ with same | ⟨pid,eip,begun⟩
  · rw [same,user]
    exact id
  · rw [begun]
    exact fun half => absurd half.1 (by decide)

/-! ### A tick in between -/

/-- Between `set_cur_task` and `set_ptree_task` a tick saves the new program's
    context while the leaf table still names its parent. -/
theorem half_unsound {eip : Word} {regs : Regs} {frame : IretFrame} (standing : Standing s trees points)
    (here : s.point = .executing .set_ptree_task pid eip) : ¬ Sound s (.tick regs frame) := by
  intro sound
  obtain ⟨p,mine,point⟩ := standing.executes here
  have seated := standing.seated p
  have current := mine.current
  have distinct := standing.forest.apart.nodup p
  rw [point] at seated current
  obtain ⟨parent,rest,top,leaf,-⟩ := seated
  have program : s.k.scheduler.cur_task = pid := current
  have parent_leaf : s.k.scheduler.ptree_tasks p.val = parent := leaf
  have record := standing.forest.record p pid (by rw [top]; exact List.mem_cons_self)
  have same := sound (by rw [program]; exact record.positive)
  rw [mine.ptree,program,parent_leaf] at same
  rw [top,same] at distinct
  exact (List.nodup_cons.mp distinct).1 List.mem_cons_self

/-- `execute_task` up to `set_cur_task`, and a tick. -/
def tick_behind_set_cur_task : List Event :=
  [.execute Tty.shell_name (fun _ => 0) 0 0,.advance,.advance,.advance,.advance,.tick default kernel_frame]

/-- The tick in `tick_behind_set_cur_task` is not sound, wherever the program was
    executed. -/
theorem tick_behind_unsound {k₂ : Kernel} (standing : Standing s trees points) (user : s.point = .user)
    (busy : s.k.scheduler.cur_task ≠ 0) (outcome : create_task file_sys Tty.shell_name (fun _ => 0) s.k = (pid,k₂))
    (done : 0 ≤ pid) : ¬ StepsMeet (step file_sys halt_addr) Sound s tick_behind_set_cur_task := by
  intro sound
  have executed : step file_sys halt_addr s (.execute Tty.shell_name (fun _ => 0) 0 0) = some _ :=
    (if_pos ⟨user,busy⟩).trans (congrArg some (begin_execute_done outcome done))
  have next {t : Machine} {q : Int} {eip : Word} {stage stage' : Stage} {es : List Event}
      (here : t.point = .executing stage q eip) (follows : stage.next = some stage')
      (held : (∃ trees points, Standing t trees points) ∧
        StepsMeet (step file_sys halt_addr) Sound t (.advance :: es)) :
      ∃ t', t'.point = .executing stage' q eip ∧ (∃ trees points, Standing t' trees points) ∧
        StepsMeet (step file_sys halt_addr) Sound t' es := by
    obtain ⟨⟨trees,points,stands⟩,meets⟩ := held
    have taken : step file_sys halt_addr t .advance = some _ := statement_taken stands here
    refine ⟨_,?_,step_standing .advance stands trivial taken,((stepsMeet_cons taken).mp meets).2⟩
    dsimp only
    rw [after_statement,follows]
  obtain ⟨s₁,point₁,held₁⟩ := next rfl rfl
    ⟨step_standing (.execute Tty.shell_name (fun _ => 0) 0 0) standing trivial executed,
      ((stepsMeet_cons executed).mp sound).2⟩
  obtain ⟨s₂,point₂,held₂⟩ := next point₁ rfl held₁
  obtain ⟨s₃,point₃,held₃⟩ := next point₂ rfl held₂
  obtain ⟨s₄,point₄,⟨trees₄,points₄,standing₄⟩,meets⟩ := next point₃ rfl held₃
  exact half_unsound standing₄ point₄ meets.1

/-- The shell of a terminal executes a shell, and a tick comes right behind
    `set_cur_task`. -/
theorem tick_inside_execute : ∃ k, tasks_init shell_image bare_kernel = some k ∧
    ¬ StepsMeet (step shell_image 0) Sound (begin_machine k) (.tick default kernel_frame :: tick_behind_set_cur_task) := by
  obtain ⟨k,booted⟩ := tasks_init_completes shell_image_loads (k := bare_kernel) rfl rfl
  obtain ⟨s₁,first,user,busy,vector,ten⟩ := first_tick 0 default kernel_frame (k := bare_kernel) rfl rfl
    booted rfl
  obtain ⟨pid,k₂,outcome,created⟩ := create_task_succeeds (k := s₁.k) (i := 4) (fun _ => 0) (by omega) shell_image_loads
    (by omega) (by rw [vector]; decide)
  obtain ⟨trees,points,standing⟩ := step_standing (.tick default kernel_frame) (begin_standing rfl rfl booted) id
    first
  refine ⟨k,booted,?_⟩
  intro sound
  exact tick_behind_unsound standing user busy outcome created.low ((stepsMeet_cons first).mp sound).2

end Mp3Kernel.Preemption

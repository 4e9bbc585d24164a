import Mp3Kernel.Kernel.SchedRules
import Mp3Kernel.Lib.Stacks
import Mp3Kernel.Lib.Runs

/-!
The tasks of the three terminals as three stacks of pids. Between system calls
each active process tree is one stack: `do_execute` pushes the program it
starts, a halt pops it, and a tick moves from the top of one stack to the top
of the next. The pid vector, the counters, the parent pointers and the leaf
table describe these stacks in every state.
-/
namespace Mp3Kernel.TaskForest
open Mp3Kernel.Memory Mp3Kernel.Filesys Mp3Kernel.Tasks Mp3Kernel.Paging
open Mp3Kernel.Scheduler Mp3Kernel.Stacks Mp3Kernel.Runs
open Mp3Kernel.Tty (Console shell_name)

/-- A system call or a timer interrupt, taken whole. -/
inductive Op where
  | execute (programName argsBuffer : Nat → Byte) (esp ebp : Word)
  | halt (status : Byte)
  | tick (regs : Regs) (frame : IretFrame)

section
variable (file_sys : FileSys) (halt_addr : Word)

/-- Task 0 is the idle loop and makes no system call. A halted child continues
    its parent's `execute_task`. -/
def step (k : Kernel) : Op → Option Kernel
  | .execute programName argsBuffer esp ebp =>
    if k.scheduler.cur_task = 0 then none
    else some (do_execute file_sys halt_addr esp ebp programName argsBuffer k).2
  | .halt status =>
    if k.scheduler.cur_task = 0 then none else
      match do_halt status k with
      | (.restart_shell _,k) => some k
      | (.return_from_halt status _ _ eip,k) =>
        if eip = halt_addr then some (execute_task_return status k).2 else none
  | .tick regs frame => some (timer_tick regs frame k)
end

/-- What the scheduler's data say after the first tick. -/
structure Consistent (k : Kernel) : Prop where
  below : ∀ i, k.scheduler.task_vector.getLsbD i = true → i < k.scheduler.max_tasks
  shells : ∀ i < 4, k.scheduler.task_vector.getLsbD i = true
  count : popcount k.scheduler.task_vector = k.scheduler.num_tasks
  leaf : ∀ p : Fin 3, Live k.scheduler.task_vector (k.scheduler.ptree_tasks p.val) ∧
    (k.tasks (k.scheduler.ptree_tasks p.val)).ptid = p.val
  current : k.scheduler.cur_task = k.scheduler.ptree_tasks k.scheduler.cur_ptree ∧
    k.scheduler.cur_ptree = (k.tasks k.scheduler.cur_task).ptid
  directory : k.pd = (k.tasks k.scheduler.cur_task).page_directory
  chains : ∃ chain : Fin 3 → List Int,
    (∀ p, (chain p).head? = some (k.scheduler.ptree_tasks p.val) ∧
      Linked (fun pid => (k.tasks pid).parent_task) 0 (chain p) ∧ (chain p).getLast? = some (p.val + 1)) ∧
    ∀ pid, Live k.scheduler.task_vector pid → pid ≠ 0 → ∃! p, pid ∈ chain p

/-! ### The stacks behind the scheduler -/

/-- A task of terminal `p`. -/
structure Record (k : Kernel) (p : Fin 3) (pid : Int) : Prop where
  positive : pid ≠ 0
  number : (k.tasks pid).pid = pid
  ptid : (k.tasks pid).ptid = p.val
  page_directory : (k.tasks pid).page_directory = get_task_addr pid

/-- The live tasks other than task 0 are on the stacks, each linked to its
    parent. -/
structure Forest (k : Kernel) (trees : Fin 3 → List Int) : Prop where
  apart : Apart trees
  linked : ∀ p, Linked (fun pid => (k.tasks pid).parent_task) 0 (trees p)
  shell : ∀ p, (trees p).getLast? = some (p.val + 1)
  live : ∀ pid, Live k.scheduler.task_vector pid ↔ pid = 0 ∨ Held trees pid
  record : ∀ p, ∀ pid ∈ trees p, Record k p pid
  bound : ∀ pid, Live k.scheduler.task_vector pid → pid < 10
  count : k.scheduler.num_tasks = popcount k.scheduler.task_vector
  max_tasks : k.scheduler.max_tasks = 10
  max_ptrees : k.scheduler.max_ptrees = 3
  ptree_vector : k.scheduler.ptree_vector = 7

/-- The fields of a record that the forest is made of. -/
def SameLinks (t u : Task) : Prop :=
  t.parent_task = u.parent_task ∧ t.pid = u.pid ∧ t.ptid = u.ptid ∧ t.page_directory = u.page_directory

theorem SameLinks.refl (t : Task) : SameLinks t t := ⟨rfl,rfl,rfl,rfl⟩

theorem sameLinks_of_sameTask {t u : Task} (same : SameTask t u) : SameLinks t u := by
  obtain ⟨tss,state,rfl⟩ := same
  exact ⟨rfl,rfl,rfl,rfl⟩

variable {k k' : Kernel} {trees : Fin 3 → List Int} {p : Fin 3} {pid : Int}

theorem Forest.held_live (forest : Forest k trees) (inside : pid ∈ trees p) :
    Live k.scheduler.task_vector pid := (forest.live pid).mpr (.inr ⟨p,inside⟩)

theorem Forest.shell_held (forest : Forest k trees) (p : Fin 3) : (p.val + 1 : Int) ∈ trees p :=
  List.mem_of_getLast? (forest.shell p)

/-- What leaves the vector, the counters and the links alone keeps the forest. -/
theorem Forest.keep (forest : Forest k trees) (vector : k'.scheduler.task_vector = k.scheduler.task_vector)
    (count : k'.scheduler.num_tasks = k.scheduler.num_tasks) (max_tasks : k'.scheduler.max_tasks = k.scheduler.max_tasks)
    (max_ptrees : k'.scheduler.max_ptrees = k.scheduler.max_ptrees)
    (ptree_vector : k'.scheduler.ptree_vector = k.scheduler.ptree_vector)
    (links : ∀ pid, Held trees pid → SameLinks (k'.tasks pid) (k.tasks pid)) : Forest k' trees where
  apart := forest.apart
  linked p := linked_congr (fun pid inside => (links pid ⟨p,inside⟩).1) (forest.linked p)
  shell := forest.shell
  live pid := by rw [vector]; exact forest.live pid
  record p pid inside := by
    obtain ⟨positive,number,ptid,directory⟩ := forest.record p pid inside
    obtain ⟨-,number',ptid',directory'⟩ := links pid ⟨p,inside⟩
    exact ⟨positive,number'.trans number,ptid'.trans ptid,directory'.trans directory⟩
  bound pid := by rw [vector]; exact forest.bound pid
  count := by rw [count,vector]; exact forest.count
  max_tasks := max_tasks.trans forest.max_tasks
  max_ptrees := max_ptrees.trans forest.max_ptrees
  ptree_vector := ptree_vector.trans forest.ptree_vector

/-- A free pid is on no stack. -/
theorem Forest.fresh (forest : Forest k trees)
    (free : k.scheduler.task_vector.getLsbD pid.toNat = false) : pid ≠ 0 ∧ ¬ Held trees pid := by
  have dead : ¬ Live k.scheduler.task_vector pid := not_live_of_free free
  rw [forest.live] at dead
  exact ⟨fun zero => dead (.inl zero),fun held => dead (.inr held)⟩

/-- The record of a task that another one creates. -/
theorem created_record {file_sys : FileSys} {fname args : Nat → Byte} (created : Created file_sys fname args k pid k')
    (positive : pid ≠ 0) (busy : k.scheduler.cur_task ≠ -1) (ptid : (k.tasks k.scheduler.cur_task).ptid = p.val) :
    (k'.tasks pid).parent_task = k.scheduler.cur_task ∧ Record k' p pid := by
  obtain ⟨exe_addr,-,-,made⟩ := created.loaded
  rw [new_record,if_pos busy] at made
  have same : (k'.tasks pid).ptid = p.val := by
    rw [made]
    exact ptid
  exact ⟨by rw [made]; rfl,positive,by rw [made]; rfl,same,by rw [made]; rfl⟩

/-- A task created by the top of a stack goes on that stack. -/
theorem Forest.create {file_sys : FileSys} {fname args : Nat → Byte} {parent : Int} {rest : List Int}
    (forest : Forest k trees) (created : Created file_sys fname args k pid k') (top : trees p = parent :: rest)
    (current : k.scheduler.cur_task = parent) : Forest k' (push trees p pid) := by
  have ten := forest.max_tasks
  have low := created.low
  have bound := created.bound
  obtain ⟨positive,free⟩ := forest.fresh created.fresh
  have held : parent ∈ trees p := by rw [top]; exact List.mem_cons_self
  have parent_live := forest.held_live held
  obtain ⟨parent_task,record⟩ := created_record created positive (by rw [current]; have := parent_live.1; omega)
    (by rw [current]; exact (forest.record p parent held).ptid)
  have others {q : Int} (inside : Held trees q) : k'.tasks q = k.tasks q :=
    created.others q (fun equal => free (equal ▸ inside))
  have live := created.live ten
  refine ⟨apart_push forest.apart free,?_,?_,?_,?_,?_,?_,?_,?_,?_⟩
  · intro q
    have below : Linked (fun pid => (k'.tasks pid).parent_task) 0 (trees q) :=
      linked_congr (fun a inside => by rw [others ⟨q,inside⟩]) (forest.linked q)
    by_cases same : q = p
    · subst same
      rw [push_same]
      refine ⟨(parent_task.trans current).trans ?_,below⟩
      rw [top]
      rfl
    · rw [push_other same]
      exact below
  · intro q
    by_cases same : q = p
    · subst same
      rw [push_same,List.getLast?_cons,forest.shell]
      rfl
    · rw [push_other same]
      exact forest.shell q
  · intro q
    rw [live,forest.live,held_push,or_assoc]
  · intro q r inside
    rcases mem_push.mp inside with before | ⟨rfl,rfl⟩
    · obtain ⟨positive',number,ptid,directory⟩ := forest.record q r before
      have same := others ⟨q,before⟩
      exact ⟨positive',by rw [same]; exact number,by rw [same]; exact ptid,by rw [same]; exact directory⟩
    · exact record
  · intro q alive
    rcases (live q).mp alive with before | rfl
    · exact forest.bound q before
    · omega
  · have few := popcount_le k.scheduler.task_vector
    rw [created.scheduler]
    dsimp only
    rw [popcount_claimed (by omega) created.fresh,forest.count,u32_small (by omega) (by omega)]
    omega
  · rw [created.scheduler]; exact forest.max_tasks
  · rw [created.scheduler]; exact forest.max_ptrees
  · rw [created.scheduler]; exact forest.ptree_vector

/-- `end_task` takes the top off its stack. -/
theorem Forest.end_task {parent : Int} {rest : List Int} (forest : Forest k trees)
    (top : trees p = pid :: parent :: rest) : Forest (end_task pid k) (pop trees p) := by
  have held : pid ∈ trees p := by rw [top]; exact List.mem_cons_self
  have alive := forest.held_live held
  have bound := forest.bound pid alive
  have natural : ((pid.toNat : Nat) : Int) = pid := Int.toNat_of_nonneg alive.1
  have low : pid.toNat < 32 := by omega
  have live (q : Int) : Live (Scheduler.end_task pid k).scheduler.task_vector q ↔
      Live k.scheduler.task_vector q ∧ q ≠ pid := by
    have cleared := live_cleared (v := k.scheduler.task_vector) low q
    rw [natural] at cleared
    exact cleared
  have still {q : Fin 3} {r : Int} (inside : r ∈ pop trees p q) : r ∈ trees q :=
    ((mem_pop forest.apart top).mp inside).1
  refine ⟨apart_pop forest.apart,?_,?_,?_,?_,?_,?_,forest.max_tasks,forest.max_ptrees,forest.ptree_vector⟩
  · intro q
    by_cases same : q = p
    · subst same
      have linked := forest.linked q
      rw [top] at linked
      rw [pop_same,top]
      exact linked.2
    · rw [pop_other same]
      exact forest.linked q
  · intro q
    by_cases same : q = p
    · subst same
      have last := forest.shell q
      rw [top,List.getLast?_cons_cons] at last
      rw [pop_same,top]
      exact last
    · rw [pop_other same]
      exact forest.shell q
  · intro q
    rw [live,forest.live,held_pop forest.apart top]
    constructor
    · rintro ⟨zero | inside,other⟩
      · exact .inl zero
      · exact .inr ⟨inside,other⟩
    · rintro (rfl | ⟨inside,other⟩)
      · exact ⟨.inl rfl,fun equal => (forest.record p pid held).positive equal.symm⟩
      · exact ⟨.inr inside,other⟩
  · intro q r inside
    obtain ⟨positive,number,ptid,directory⟩ := forest.record q r (still inside)
    exact ⟨positive,number,ptid,directory⟩
  · intro q alive'
    exact forest.bound q ((live q).mp alive').1
  · have fewer := popcount_cleared low alive.2.2
    change u32 (k.scheduler.num_tasks - 1) = popcount (k.scheduler.task_vector &&& ~~~ bit pid.toNat)
    rw [forest.count,u32_small (by omega) (by have := popcount_le k.scheduler.task_vector; omega)]
    omega

/-- It goes on with the task below. -/
theorem Forest.ended {parent : Int} {rest : List Int} (forest : Forest k trees) (top : trees p = pid :: parent :: rest) :
    (k.tasks pid).parent_task = parent ∧ (Scheduler.end_task pid k).scheduler = { k.scheduler with
      task_vector := k.scheduler.task_vector &&& ~~~ bit pid.toNat
      num_tasks := u32 (k.scheduler.num_tasks - 1)
      ptree_tasks := fun r => if r = p.val then parent else k.scheduler.ptree_tasks r
      cur_task := parent
      cur_ptree := p.val } := by
  have linked := forest.linked p
  rw [top] at linked
  have parent_task : (k.tasks pid).parent_task = parent := linked.1
  have above := forest.record p parent (by rw [top]; simp)
  have scheduler := end_task_scheduler parent_task above.number
  rw [above.ptid] at scheduler
  exact ⟨parent_task,scheduler⟩

/-! ### States of the scheduler between system calls -/

/-- The leaf table names the tops of the stacks, and every program but the
    first shells was started by `execute_task`. -/
structure Leaves (halt_addr : Word) (k : Kernel) (trees : Fin 3 → List Int) : Prop where
  forest : Forest k trees
  leaf : ∀ p : Fin 3, (trees p).head? = some (k.scheduler.ptree_tasks p.val)
  returns : ∀ p, ∀ pid ∈ trees p, pid ≠ 1 → pid ≠ 2 → pid ≠ 3 → (k.tasks pid).ret_eip = halt_addr

/-- After the first tick the top of the current stack is running. -/
structure Scheduled (halt_addr : Word) (k : Kernel) (trees : Fin 3 → List Int) : Prop
    extends Leaves halt_addr k trees where
  current : ∃ p : Fin 3, k.scheduler.cur_ptree = p.val ∧ k.scheduler.cur_task = k.scheduler.ptree_tasks p.val
  directory : k.pd = (k.tasks k.scheduler.cur_task).page_directory ∧
    k.cr3 = (k.tasks k.scheduler.cur_task).page_directory

variable {halt_addr : Word}

/-- What leaves the scheduler, the links and the return addresses alone keeps
    the leaves, -/
theorem Leaves.keep (leaves : Leaves halt_addr k trees) (scheduler : k'.scheduler = k.scheduler)
    (links : ∀ pid, SameLinks (k'.tasks pid) (k.tasks pid)) (ret_eip : ∀ pid, (k'.tasks pid).ret_eip = (k.tasks pid).ret_eip) :
    Leaves halt_addr k' trees where
  forest := by
    refine leaves.forest.keep ?_ ?_ ?_ ?_ ?_ (fun pid _ => links pid)
    all_goals rw [scheduler]
  leaf p := by rw [scheduler]; exact leaves.leaf p
  returns p pid inside first second third := (ret_eip pid).trans (leaves.returns p pid inside first second third)

/-- and with the directories also what is running. -/
theorem Scheduled.keep (scheduled : Scheduled halt_addr k trees) (scheduler : k'.scheduler = k.scheduler)
    (links : ∀ pid, SameLinks (k'.tasks pid) (k.tasks pid)) (ret_eip : ∀ pid, (k'.tasks pid).ret_eip = (k.tasks pid).ret_eip)
    (pd : k'.pd = k.pd) (cr3 : k'.cr3 = k.cr3) : Scheduled halt_addr k' trees where
  toLeaves := scheduled.toLeaves.keep scheduler links ret_eip
  current := by rw [scheduler]; exact scheduled.current
  directory := by
    rw [scheduler,pd,cr3,(links k.scheduler.cur_task).2.2.2]
    exact scheduled.directory

theorem Leaves.leaf_held (leaves : Leaves halt_addr k trees) (p : Fin 3) :
    k.scheduler.ptree_tasks p.val ∈ trees p := List.mem_of_head? (leaves.leaf p)

/-- The running task, the top of its stack. -/
theorem Scheduled.running (scheduled : Scheduled halt_addr k trees) : ∃ p rest,
    k.scheduler.cur_ptree = p.val ∧ trees p = k.scheduler.cur_task :: rest ∧ get_cur_task k = k.scheduler.cur_task ∧
      Record k p k.scheduler.cur_task := by
  obtain ⟨p,ptree,current⟩ := scheduled.current
  have held := scheduled.leaf_held p
  rw [← current] at held
  have alive := (scheduled.forest.held_live held).1
  have first := scheduled.leaf p
  rw [← current,List.head?_eq_some_iff] at first
  obtain ⟨rest,top⟩ := first
  exact ⟨p,rest,ptree,top,if_neg (by omega),scheduled.forest.record p _ held⟩

theorem scheduled_consistent (scheduled : Scheduled halt_addr k trees) : Consistent k := by
  obtain ⟨p,rest,ptree,top,-,record⟩ := scheduled.running
  have forest := scheduled.forest
  refine ⟨?_,?_,forest.count.symm,?_,?_,scheduled.directory.1,trees,?_,?_⟩
  · intro i set
    have inside : i < 32 := by
      by_contra outside
      rw [BitVec.getLsbD_of_ge _ _ (by omega)] at set
      exact Bool.false_ne_true set
    have bound := forest.bound i ⟨by omega,by omega,by simpa using set⟩
    rw [forest.max_tasks]
    omega
  · intro i shell
    have alive : Live k.scheduler.task_vector i := by
      by_cases idle : i = 0
      · exact (forest.live i).mpr (.inl (by omega))
      · have held := forest.shell_held ⟨i - 1,by omega⟩
        rw [show (((⟨i - 1,by omega⟩ : Fin 3).val : Int) + 1) = i from by dsimp only; omega] at held
        exact forest.held_live held
    simpa using alive.2.2
  · intro p
    have held := scheduled.leaf_held p
    exact ⟨forest.held_live held,(forest.record p _ held).ptid⟩
  · obtain ⟨q,ptree',current⟩ := scheduled.current
    exact ⟨by rw [ptree']; exact current,by rw [ptree]; exact record.ptid.symm⟩
  · intro p
    exact ⟨scheduled.leaf p,forest.linked p,forest.shell p⟩
  · intro pid alive positive
    rcases (forest.live pid).mp alive with idle | ⟨p,held⟩
    · exact absurd idle positive
    · exact ⟨p,held,fun q held' => forest.apart.disjoint q p pid held' held⟩

/-! ### Steps -/

/-- Any tick switches to the leaf of the next process tree. -/
theorem tick_goes (regs : Regs) (frame : IretFrame) (forest : Forest k trees)
    (held : ∀ p : Fin 3, k.scheduler.ptree_tasks p.val ∈ trees p) (low : 0 ≤ k.scheduler.cur_ptree) (high : k.scheduler.cur_ptree < 3) : ∃ q : Fin 3,
      (k.scheduler.cur_ptree + 1) % 3 = q.val ∧
      timer_tick regs frame k = switch_task (k.scheduler.ptree_tasks q.val) (saved_tick regs frame k) ∧
      (timer_tick regs frame k).scheduler =
        { k.scheduler with cur_task := k.scheduler.ptree_tasks q.val, cur_ptree := q.val } := by
  obtain ⟨q,next⟩ : ∃ q : Fin 3, (k.scheduler.cur_ptree + 1) % 3 = q.val :=
    ⟨⟨((k.scheduler.cur_ptree + 1) % 3).toNat,by omega⟩,by dsimp only; omega⟩
  have links := sameLinks_of_sameTask (saved_tick_same regs frame k (k.scheduler.ptree_tasks q.val))
  have record := forest.record q _ (held q)
  have chosen : get_next_task (saved_tick regs frame k) = k.scheduler.ptree_tasks q.val := by
    rw [get_next_task_eq (by simpa using forest.ptree_vector) (by simpa using forest.max_ptrees) (by simpa using low)
      (by simpa using high),saved_tick_scheduler,next]
  have ticked : timer_tick regs frame k = switch_task (k.scheduler.ptree_tasks q.val) (saved_tick regs frame k) := by
    rw [timer_tick_eq,chosen,links.2.1,record.number]
  refine ⟨q,next,ticked,?_⟩
  rw [ticked,switch_task_scheduler,set_cur_task,saved_tick_scheduler,links.2.2.1,record.ptid]

theorem tick_switches (regs : Regs) (frame : IretFrame) (leaves : Leaves halt_addr k trees)
    (low : 0 ≤ k.scheduler.cur_ptree) (high : k.scheduler.cur_ptree < 3) : ∃ q : Fin 3,
      (k.scheduler.cur_ptree + 1) % 3 = q.val ∧
      timer_tick regs frame k = switch_task (k.scheduler.ptree_tasks q.val) (saved_tick regs frame k) ∧
      (timer_tick regs frame k).scheduler =
        { k.scheduler with cur_task := k.scheduler.ptree_tasks q.val, cur_ptree := q.val } :=
  tick_goes regs frame leaves.forest leaves.leaf_held low high

theorem tick_scheduled (regs : Regs) (frame : IretFrame) (leaves : Leaves halt_addr k trees) (low : 0 ≤ k.scheduler.cur_ptree)
    (high : k.scheduler.cur_ptree < 3) : Scheduled halt_addr (timer_tick regs frame k) trees := by
  obtain ⟨q,-,ticked,scheduler⟩ := tick_switches regs frame leaves low high
  have same := saved_tick_same regs frame k
  have links (pid : Int) := sameLinks_of_sameTask (same pid)
  have tasks : (timer_tick regs frame k).tasks = (saved_tick regs frame k).tasks := by
    rw [ticked,switch_task_tasks]
  refine ⟨⟨?_,?_,?_⟩,⟨q,by rw [scheduler],by rw [scheduler]⟩,?_⟩
  · refine leaves.forest.keep ?_ ?_ ?_ ?_ ?_ (fun pid _ => by rw [tasks]; exact links pid)
    all_goals rw [scheduler]
  · intro p
    rw [scheduler]
    exact leaves.leaf p
  · intro p pid inside first second third
    rw [tasks]
    obtain ⟨tss,state,unchanged⟩ := same pid
    rw [unchanged]
    exact leaves.returns p pid inside first second third
  · rw [tasks,scheduler,ticked,switch_task_pd,switch_task_cr3]
    exact ⟨rfl,rfl⟩

/-- A failing `create_task` writes no record of a held task. -/
theorem Forest.refused {file_sys : FileSys} {fname : Nat → Byte} (forest : Forest k trees)
    (refused : Refused file_sys fname k k') (inside : Held trees pid) : k'.tasks pid = k.tasks pid := by
  rcases refused.rest with ⟨-,same,-⟩ | ⟨other,-,-,free,same,-⟩
  · rw [same]
  · exact same pid (fun equal => (forest.fresh free).2 (equal ▸ inside))

/-- A failing `do_execute` leaves everything in place. -/
theorem refused_scheduled {file_sys : FileSys} {fname : Nat → Byte} (scheduled : Scheduled halt_addr k trees)
    (refused : Refused file_sys fname k k') : Scheduled halt_addr k' trees := by
  have forest := scheduled.forest
  have running : k'.tasks k.scheduler.cur_task = k.tasks k.scheduler.cur_task := by
    obtain ⟨p,-,current⟩ := scheduled.current
    exact forest.refused refused ⟨p,by rw [current]; exact scheduled.leaf_held p⟩
  refine ⟨⟨?_,?_,?_⟩,?_,?_⟩
  · refine forest.keep ?_ ?_ ?_ ?_ ?_ (fun pid inside => by rw [forest.refused refused inside]; exact ⟨rfl,rfl,rfl,rfl⟩)
    all_goals rw [refused.scheduler]
  · intro p
    rw [refused.scheduler]
    exact scheduled.leaf p
  · intro p pid inside first second third
    rw [forest.refused refused ⟨p,inside⟩]
    exact scheduled.returns p pid inside first second third
  · rw [refused.scheduler]
    exact scheduled.current
  · rw [refused.scheduler,running,refused.cr3]
    refine ⟨?_,scheduled.directory.2⟩
    rcases refused.rest with ⟨-,-,-,pd,-⟩ | ⟨-,-,-,-,-,-,pd,-,-⟩
    · rw [pd]; exact scheduled.directory.1
    · rw [pd]; exact scheduled.directory.2

/-- A started program is pushed on the stack of its parent. -/
theorem execute_scheduled {file_sys : FileSys} {fname args : Nat → Byte} (esp ebp : Word)
    (scheduled : Scheduled halt_addr k trees) (created : Created file_sys fname args k pid k') :
    ∃ p, Scheduled halt_addr (execute_task halt_addr esp ebp pid k').2 (push trees p pid) := by
  obtain ⟨p,rest,ptree,top,-,-⟩ := scheduled.running
  have forest := scheduled.forest.create created top rfl
  have record := forest.record p pid (by rw [push_same]; exact List.mem_cons_self)
  have fresh := (scheduled.forest.fresh created.fresh).2
  have ptid := record.ptid
  have leaf : k'.scheduler.ptree_tasks = k.scheduler.ptree_tasks := by rw [created.scheduler]
  have scheduler := execute_task_scheduler halt_addr esp ebp pid k'
  have new := execute_task_started halt_addr esp ebp pid k'
  have others {q : Int} (other : q ≠ pid) := execute_task_other halt_addr esp ebp pid k' other
  rw [record.ptid,leaf] at scheduler
  refine ⟨p,⟨?_,?_,?_⟩,⟨p,by rw [scheduler],?_⟩,?_⟩
  · refine forest.keep ?_ ?_ ?_ ?_ ?_ ?_
    · rw [scheduler]
    · rw [scheduler]
    · rw [scheduler]
    · rw [scheduler]
    · rw [scheduler]
    · intro q _
      by_cases same : q = pid
      · rw [same,new]
        exact ⟨rfl,rfl,rfl,rfl⟩
      · rw [others same]
        exact ⟨rfl,rfl,rfl,rfl⟩
  · intro q
    rw [scheduler]
    by_cases same : q = p
    · rw [same,push_same]
      simp
    · rw [push_other same,scheduled.leaf q]
      have : (q.val : Int) ≠ p.val := by
        intro equal
        exact same (Fin.ext (by omega))
      simp [this]
  · intro q r inside first second third
    rcases mem_push.mp inside with before | ⟨-,rfl⟩
    · have other : r ≠ pid := fun equal => fresh (equal ▸ ⟨q,before⟩)
      rw [others other,created.others r other]
      exact scheduled.returns q r before first second third
    · rw [new]
      rfl
  · rw [scheduler]
    simp
  · rw [scheduler]
    dsimp only
    rw [new]
    exact execute_task_directory halt_addr esp ebp pid k'

/-- A halted first shell starts over on its stack. -/
theorem restart_scheduled (c : Console) (scheduled : Scheduled halt_addr k trees) :
    Scheduled halt_addr (load_tss (get_cur_task k)
      ({ k with console := c }.setTask (get_cur_task k) (restarted (k.tasks (get_cur_task k))))) trees := by
  have same (pid : Int) : SameTask (({ k with console := c }.setTask (get_cur_task k)
      (restarted (k.tasks (get_cur_task k)))).tasks pid) (k.tasks pid) :=
    setTask_keeps { k with console := c } (get_cur_task k) SameTask.refl ⟨_,_,rfl⟩ pid
  refine scheduled.keep rfl (fun pid => sameLinks_of_sameTask (same pid)) ?_ rfl rfl
  intro pid
  obtain ⟨tss,state,unchanged⟩ := same pid
  exact (congrArg Task.ret_eip unchanged).trans rfl

/-- A halted program's `execute_task` ends it and goes on with the parent. -/
theorem return_ended (status : Byte) (scheduled : Scheduled halt_addr k trees) {p : Fin 3} {parent : Int}
    {rest : List Int} (top : trees p = k.scheduler.cur_task :: parent :: rest) :
    (k.tasks k.scheduler.cur_task).parent_task = parent ∧
    (execute_task_return status k).2 = load_tss parent (end_task k.scheduler.cur_task k) ∧
    (end_task k.scheduler.cur_task k).scheduler = { k.scheduler with
      task_vector := k.scheduler.task_vector &&& ~~~ bit k.scheduler.cur_task.toNat
      num_tasks := u32 (k.scheduler.num_tasks - 1)
      ptree_tasks := fun r => if r = p.val then parent else k.scheduler.ptree_tasks r
      cur_task := parent
      cur_ptree := p.val } := by
  obtain ⟨q,rest',ptree,top',cur,record⟩ := scheduled.running
  obtain ⟨parent_task,scheduler⟩ := scheduled.forest.ended top
  have live := scheduled.forest.held_live (show parent ∈ trees p by rw [top]; simp)
  have next : get_cur_task (end_task k.scheduler.cur_task k) = parent := by
    rw [get_cur_task,scheduler]
    exact if_neg (Int.not_lt.mpr live.1)
  refine ⟨parent_task,?_,scheduler⟩
  rw [execute_task_return,cur,record.number,next]

/-- Any other halted program is popped and its parent goes on. -/
theorem return_scheduled (status : Byte) (scheduled : Scheduled halt_addr k trees) {p : Fin 3} {parent : Int}
    {rest : List Int} (top : trees p = k.scheduler.cur_task :: parent :: rest) :
    Scheduled halt_addr (execute_task_return status k).2 (pop trees p) := by
  obtain ⟨parent_task,ended,scheduler⟩ := return_ended status scheduled top
  have forest := scheduled.forest.end_task top
  have directory := end_task_directory k.scheduler.cur_task k
  rw [parent_task] at directory
  rw [ended]
  refine ⟨⟨?_,?_,?_⟩,⟨p,?_,?_⟩,?_⟩
  · exact forest.keep rfl rfl rfl rfl rfl (fun pid _ => ⟨rfl,rfl,rfl,rfl⟩)
  · intro q
    rw [show (load_tss _ (end_task k.scheduler.cur_task k)).scheduler =
      (end_task k.scheduler.cur_task k).scheduler from rfl,scheduler]
    by_cases same : q = p
    · rw [same,pop_same,top]
      simp
    · rw [pop_other same,scheduled.leaf q]
      have : (q.val : Int) ≠ p.val := by
        intro equal
        exact same (Fin.ext (by omega))
      simp [this]
  · intro q pid inside first second third
    exact scheduled.returns q pid ((mem_pop scheduled.forest.apart top).mp inside).1 first second third
  · exact congrArg Sched.cur_ptree scheduler
  · change (end_task k.scheduler.cur_task k).scheduler.cur_task =
      (end_task k.scheduler.cur_task k).scheduler.ptree_tasks p.val
    rw [scheduler]
    simp
  · change (end_task k.scheduler.cur_task k).pd =
        (k.tasks (end_task k.scheduler.cur_task k).scheduler.cur_task).page_directory ∧
      (end_task k.scheduler.cur_task k).cr3 =
        (k.tasks (end_task k.scheduler.cur_task k).scheduler.cur_task).page_directory
    rw [scheduler]
    exact directory

section
variable (file_sys : FileSys)

/-- A halt is always taken: a first shell starts over, any other program
    returns to its parent's `execute_task`. -/
theorem halt_outcome (status : Byte) (scheduled : Scheduled halt_addr k trees) : ∃ c,
    step file_sys halt_addr k (.halt status) = some (load_tss (get_cur_task k)
      ({ k with console := c }.setTask (get_cur_task k) (restarted (k.tasks (get_cur_task k))))) ∨
    ∃ p parent rest, trees p = k.scheduler.cur_task :: parent :: rest ∧
      step file_sys halt_addr k (.halt status) = some (execute_task_return status { k with console := c }).2 := by
  obtain ⟨p,rest,ptree,top,cur,record⟩ := scheduled.running
  have held : k.scheduler.cur_task ∈ trees p := by rw [top]; exact List.mem_cons_self
  have busy : ¬ k.scheduler.cur_task = 0 := record.positive
  obtain ⟨c,⟨shell,frame,restarts⟩ | ⟨program,returns⟩⟩ := do_halt_cases status k
  · refine ⟨c,.inl ?_⟩
    rw [step,if_neg busy,restarts]
  · rw [cur,record.number,not_or,not_or] at program
    obtain ⟨first,second,third⟩ := program
    have ret_eip := scheduled.returns p _ held first second third
    have last := scheduled.forest.shell p
    rw [top] at last
    cases rest with
    | nil =>
      have shell : k.scheduler.cur_task = p.val + 1 := by simpa using last
      omega
    | cons parent rest =>
      refine ⟨c,.inr ⟨p,parent,rest,top,?_⟩⟩
      rw [step,if_neg busy,returns]
      dsimp only
      rw [cur,if_pos ret_eip]

variable {file_sys}

theorem console_scheduled (c : Console) (scheduled : Scheduled halt_addr k trees) :
    Scheduled halt_addr { k with console := c } trees :=
  scheduled.keep rfl (fun _ => ⟨rfl,rfl,rfl,rfl⟩) (fun _ => rfl) rfl rfl

/-- Every step keeps the stacks. -/
theorem step_scheduled {op : Op} (scheduled : ∃ trees, Scheduled halt_addr k trees)
    (taken : step file_sys halt_addr k op = some k') : ∃ trees, Scheduled halt_addr k' trees := by
  obtain ⟨trees,scheduled⟩ := scheduled
  cases op with
  | execute programName argsBuffer esp ebp =>
    obtain ⟨p,rest,ptree,top,cur,record⟩ := scheduled.running
    obtain ⟨pid,k₁,outcome,made⟩ := create_task_cases file_sys programName argsBuffer (k := k)
      (by rw [scheduled.forest.max_tasks]; omega)
    rw [step,if_neg record.positive] at taken
    obtain rfl := Option.some.inj taken
    rcases made with created | ⟨failed,refused⟩
    · rw [do_execute_done outcome created.low]
      obtain ⟨q,pushed⟩ := execute_scheduled esp ebp scheduled created
      exact ⟨_,pushed⟩
    · rw [do_execute_failed outcome (by omega)]
      exact ⟨trees,refused_scheduled scheduled refused⟩
  | halt status =>
    obtain ⟨c,restarts | ⟨p,parent,rest,top,returns⟩⟩ := halt_outcome file_sys status scheduled
    · obtain rfl := Option.some.inj (restarts.symm.trans taken)
      exact ⟨trees,restart_scheduled c scheduled⟩
    · obtain rfl := Option.some.inj (returns.symm.trans taken)
      exact ⟨_,return_scheduled status (console_scheduled c scheduled) top⟩
  | tick regs frame =>
    obtain ⟨p,ptree,-⟩ := scheduled.current
    obtain rfl := Option.some.inj taken
    exact ⟨trees,tick_scheduled regs frame scheduled.toLeaves (by omega) (by omega)⟩

end

/-! ### tasks_init -/

/-- The scheduler once task 0 and `n` shells are created. -/
def booting (n : Nat) : Sched :=
  { scheduler with
    task_vector := BitVec.ofNat 32 (2 ^ (n + 1) - 1)
    num_tasks := n + 1
    cur_task := 0
    ptree_tasks := fun p => if 0 ≤ p ∧ p < n then p + 1 else -1
    ptree_vector := BitVec.ofNat 32 (2 ^ n - 1)
    num_ptrees := n
    cur_ptree := 0 }

/-- The kernel at that point. -/
structure Booting (k : Kernel) (n : Nat) : Prop where
  scheduler : k.scheduler = booting n
  idle : (k.tasks 0).ptid = 0 ∧ (k.tasks 0).page_directory = get_task_addr 0
  shells : ∀ p < n, (k.tasks (p + 1)).parent_task = 0 ∧ (k.tasks (p + 1)).pid = p + 1 ∧
    (k.tasks (p + 1)).ptid = p ∧ (k.tasks (p + 1)).page_directory = get_task_addr (p + 1)

theorem created_shell {file_sys : FileSys} {fname args : Nat → Byte} {n : Nat} (few : n < 3)
    (booted : Booting k n) (created : Created file_sys fname args k pid k') : pid = n + 1 := by
  have vector : k.scheduler.task_vector = BitVec.ofNat 32 (2 ^ (n + 1) - 1) := by rw [booted.scheduler]; rfl
  have bits : ∀ m < 3, (∀ i < m + 1, (BitVec.ofNat 32 (2 ^ (m + 1) - 1)).getLsbD i = true) ∧
      (BitVec.ofNat 32 (2 ^ (m + 1) - 1)).getLsbD (m + 1) = false := by decide
  obtain ⟨below,above⟩ := bits n few
  have low := created.low
  have fresh := created.fresh
  have lowest := created.lowest
  rw [vector] at fresh lowest
  have notBelow : ¬ pid.toNat < n + 1 := fun lower => Bool.false_ne_true (fresh.symm.trans (below _ lower))
  have notAbove : ¬ n + 1 < pid.toNat := fun higher => Bool.false_ne_true (above.symm.trans (lowest _ higher))
  omega

theorem create_ptree_eq {i : Nat} (free : free_ptid k.scheduler.ptree_vector 0 k.scheduler.max_ptrees = some i) :
    ∃ k', create_ptree k = ((i : Int),k') ∧ k'.tasks = k.tasks ∧ k'.scheduler = { k.scheduler with
      ptree_vector := k.scheduler.ptree_vector ||| bit i
      num_ptrees := u32 (k.scheduler.num_ptrees + 1)
      ptree_tasks := fun p => if p = i then -1 else k.scheduler.ptree_tasks p } := by
  have claimed : get_new_ptid k = ((i : Int),
      { k with scheduler.ptree_vector := k.scheduler.ptree_vector ||| bit i }) := by
    rw [get_new_ptid,free]
  refine ⟨{ k with scheduler := { k.scheduler with
      ptree_vector := k.scheduler.ptree_vector ||| bit i
      num_ptrees := u32 (k.scheduler.num_ptrees + 1)
      ptree_tasks := fun p => if p = i then -1 else k.scheduler.ptree_tasks p } },?_,rfl,rfl⟩
  rw [create_ptree,claimed]
  exact if_neg (by omega)

/-- The record of a first shell. -/
def shell_record (ptid : Int) (t : Task) : Task :=
  { t with ptid := ptid, ret_eip := t.tss.eip, ret_esp := t.tss.esp, ret_ebp := t.tss.ebp, ret_eflags := 0x200 }

theorem init_shell_eq {file_sys : FileSys} {k₁ k₂ : Kernel} {ptid : Int}
    (created : create_task file_sys shell_name (fun _ => 0) k = (pid,k₁)) (done : 0 ≤ pid)
    (tree : create_ptree k₁ = (ptid,k₂)) :
    init_shell file_sys k = some (set_ptree_task ptid (k₂.tasks pid).pid
      (k₂.setTask pid (shell_record ptid (k₂.tasks pid)))) := by
  rw [init_shell,created]
  refine (if_neg (by omega)).trans ?_
  rw [tree]
  rfl

/-- `create_ptree` leaves everything but the process trees alone. -/
theorem create_ptree_keeps (k : Kernel) : ∃ ptid ptree_tasks ptree_vector num_ptrees, create_ptree k =
    (ptid,{ k with scheduler := { k.scheduler with
        ptree_tasks := ptree_tasks, ptree_vector := ptree_vector, num_ptrees := num_ptrees } }) := by
  cases free : free_ptid k.scheduler.ptree_vector 0 k.scheduler.max_ptrees with
  | none =>
    have full : get_new_ptid k = (-1,k) := by rw [get_new_ptid,free]
    refine ⟨-1,k.scheduler.ptree_tasks,k.scheduler.ptree_vector,k.scheduler.num_ptrees,?_⟩
    rw [create_ptree,full]
    exact if_pos (by decide)
  | some i =>
    have claimed : get_new_ptid k = ((i : Int),
        { k with scheduler.ptree_vector := k.scheduler.ptree_vector ||| bit i }) := by
      rw [get_new_ptid,free]
    have natural : ¬ (i : Int) < 0 := by omega
    rw [create_ptree,claimed]
    exact ⟨_,_,_,_,if_neg natural⟩

/-- Besides the creation of its task a turn of the loop only numbers the process
    tree. -/
theorem init_shell_created {file_sys : FileSys} (few : k.scheduler.max_tasks ≤ 32)
    (done : init_shell file_sys k = some k') : ∃ pid k₁ ptid ptree_tasks ptree_vector num_ptrees,
      Created file_sys shell_name (fun _ => 0) k pid k₁ ∧
      k' = { k₁.setTask pid (shell_record ptid (k₁.tasks pid)) with scheduler := { k₁.scheduler with
        ptree_tasks := ptree_tasks, ptree_vector := ptree_vector, num_ptrees := num_ptrees } } := by
  obtain ⟨pid,k₁,outcome,created | ⟨failed,-⟩⟩ := create_task_cases file_sys shell_name (fun _ => 0) few
  · obtain ⟨ptid,ptree_tasks,ptree_vector,num_ptrees,tree⟩ := create_ptree_keeps k₁
    have made := Option.some.inj (done.symm.trans (init_shell_eq outcome created.low tree))
    exact ⟨pid,k₁,ptid,_,_,_,created,made⟩
  · rw [init_shell,outcome] at done
    exact absurd ((if_pos (by omega)).symm.trans done) (by simp)

theorem Booting.max_tasks {n : Nat} (booted : Booting k n) : k.scheduler.max_tasks = 10 := by
  rw [booted.scheduler]
  rfl

/-- Each turn of the loop adds a shell with a process tree of its own. -/
theorem init_shell_booting {file_sys : FileSys} {n : Nat} (few : n < 3) (booted : Booting k n)
    (done : init_shell file_sys k = some k') : Booting k' (n + 1) := by
  have max_tasks : k.scheduler.max_tasks = 10 := by rw [booted.scheduler]; rfl
  obtain ⟨pid,k₁,outcome,created | ⟨failed,-⟩⟩ := create_task_cases file_sys shell_name (fun _ => 0) (k := k)
    (by rw [max_tasks]; omega)
  · obtain rfl := created_shell few booted created
    have vectors : ∀ m < 3, free_ptid (BitVec.ofNat 32 (2 ^ m - 1)) 0 3 = some m ∧
        BitVec.ofNat 32 (2 ^ m - 1) ||| bit m = BitVec.ofNat 32 (2 ^ (m + 1) - 1) ∧
        BitVec.ofNat 32 (2 ^ (m + 1) - 1) ||| bit (m + 1) = BitVec.ofNat 32 (2 ^ (m + 2) - 1) := by decide
    obtain ⟨free,ptree_vector,task_vector⟩ := vectors n few
    have scheduler₁ : k₁.scheduler = { booting n with
        task_vector := BitVec.ofNat 32 (2 ^ (n + 2) - 1), num_tasks := n + 2 } := by
      have count : u32 ((booting n).num_tasks + 1) = n + 2 := by
        rw [booting,u32_small (by dsimp only; omega) (by dsimp only; omega)]
        dsimp only
        omega
      rw [created.scheduler,booted.scheduler,count,← task_vector]
      rfl
    obtain ⟨k₂,tree,tasks₂,scheduler₂⟩ := create_ptree_eq (k := k₁) (i := n) (by rw [scheduler₁]; exact free)
    have result := Option.some.inj (done.symm.trans (init_shell_eq outcome created.low tree))
    rw [tasks₂] at result
    have tasks (q : Int) : k'.tasks q = (k₂.setTask (n + 1) (shell_record n (k₁.tasks (n + 1)))).tasks q := by
      rw [result]
      rfl
    have others (q : Int) (other : q ≠ n + 1) : k'.tasks q = k.tasks q := by
      rw [tasks,setTask_other _ _ other,tasks₂]
      exact created.others q other
    obtain ⟨exe_addr,-,-,made⟩ := created.loaded
    have child : k.scheduler.cur_task = 0 := by rw [booted.scheduler]; rfl
    rw [new_record,if_pos (by rw [child]; decide),child] at made
    refine ⟨?_,?_,?_⟩
    · have number : (k₁.tasks (n + 1)).pid = n + 1 := by rw [made]; rfl
      have count : u32 ((n : Int) + 1) = n + 1 := by rw [u32_small (by omega) (by omega)]; omega
      rw [result]
      simp only [set_ptree_task,setTask_scheduler,scheduler₂,scheduler₁,number]
      simp only [booting,ptree_vector,count]
      congr 1
      funext p
      by_cases last : p = n
      · simp [last]
      · by_cases before : 0 ≤ p ∧ p < n
        · rw [if_neg last,if_neg last,if_pos before,if_pos (by omega)]
        · rw [if_neg last,if_neg last,if_neg before,if_neg (by omega)]
    · rw [others 0 (by omega)]
      exact booted.idle
    · intro p below
      by_cases last : p = n
      · subst last
        rw [tasks,setTask_same,made]
        exact ⟨rfl,rfl,rfl,rfl⟩
      · rw [others _ (by omega)]
        exact booted.shells p (by omega)
  · rw [init_shell,outcome] at done
    exact absurd ((if_pos (by omega)).symm.trans done) (by simp)

theorem created_first {file_sys : FileSys} {fname args : Nat → Byte} (start : k.scheduler = scheduler)
    (created : Created file_sys fname args k pid k') : pid = 0 := by
  have low := created.low
  have lowest := created.lowest 0
  rw [start] at lowest
  by_contra other
  exact absurd (lowest (by omega)) (by decide)

/-- Task 0 is created first, without a parent. -/
theorem idle_booting {file_sys : FileSys} {fname args : Nat → Byte} (start : k.scheduler = scheduler)
    (unwritten : (k.tasks 0).ptid = 0) (created : Created file_sys fname args k pid k') :
    Booting (set_cur_task 0 k') 0 := by
  obtain rfl := created_first start created
  have idle : (k'.tasks 0).ptid = 0 ∧ (k'.tasks 0).page_directory = get_task_addr 0 := by
    obtain ⟨exe_addr,-,-,made⟩ := created.loaded
    rw [new_record,if_neg (by rw [start]; decide)] at made
    rw [made]
    exact ⟨unwritten,rfl⟩
  have ptid := idle.1
  refine ⟨?_,idle,fun p below => by omega⟩
  rw [set_cur_task,created.scheduler,ptid,start]
  simp only [booting,scheduler,Sched.mk.injEq,true_and]
  refine ⟨by decide,by decide,?_,by decide,trivial⟩
  funext p
  rw [if_neg (by omega)]

/-- What the creation of task 0 establishes and every turn of the loop keeps
    holds at the end of the boot. -/
theorem tasks_init_rule {file_sys : FileSys} {P : Nat → Kernel → Prop} (start : k.scheduler = scheduler)
    (unwritten : (k.tasks 0).ptid = 0) (booted : tasks_init file_sys k = some k')
    (first : ∀ pid k₁, Created file_sys shell_name (fun _ => 0) k pid k₁ → P 0 (set_cur_task 0 k₁))
    (next : ∀ n k k', n < 3 → Booting k n → P n k → init_shell file_sys k = some k' → P (n + 1) k') :
    ∃ k₁, Booting k₁ 3 ∧ P 3 k₁ ∧ k' = idle_task k₁ := by
  have max_tasks : k.scheduler.max_tasks = 10 := by rw [start]; rfl
  have turn {n : Nat} {k k' : Kernel} (few : n < 3) (ready : Booting k n ∧ P n k) (done : init_shell file_sys k = some k') :
      Booting k' (n + 1) ∧ P (n + 1) k' :=
    ⟨init_shell_booting few ready.1 done,next n k k' few ready.1 ready.2 done⟩
  obtain ⟨pid,k₁,outcome,created | ⟨failed,-⟩⟩ := create_task_cases file_sys shell_name (fun _ => 0) (k := k)
    (by rw [max_tasks]; omega)
  · rw [tasks_init,outcome] at booted
    have booted := (if_neg (by have := created.low; omega)).symm.trans booted
    simp only [Option.bind_eq_some_iff,Option.map_eq_some_iff] at booted
    obtain ⟨k₂,made₂,k₃,made₃,k₄,made₄,rfl⟩ := booted
    have ready₁ : Booting (set_cur_task 0 k₁) 0 ∧ P 0 (set_cur_task 0 k₁) :=
      ⟨idle_booting start unwritten created,first pid k₁ created⟩
    have ready₂ := turn (by decide) ready₁ made₂
    have ready₃ := turn (by decide) ready₂ made₃
    have ready₄ := turn (by decide) ready₃ made₄
    exact ⟨k₄,ready₄.1,ready₄.2,rfl⟩
  · rw [tasks_init,outcome] at booted
    exact absurd ((if_pos (by omega)).symm.trans booted) (by simp)

theorem tasks_init_booting {file_sys : FileSys} (start : k.scheduler = scheduler) (unwritten : (k.tasks 0).ptid = 0)
    (booted : tasks_init file_sys k = some k') : ∃ k₁, Booting k₁ 3 ∧ k' = idle_task k₁ := by
  obtain ⟨k₁,ready,-,idle⟩ := tasks_init_rule (P := fun _ _ => True) start unwritten booted (fun _ _ _ => trivial)
    (fun _ _ _ _ _ _ _ => trivial)
  exact ⟨k₁,ready,idle⟩

/-- The boot completes whenever the shell loads. -/
theorem tasks_init_completes {file_sys : FileSys}
    (loads : ∀ addr m, 0 < addr → (load_program file_sys shell_name addr m).1 ≠ -1) (start : k.scheduler = scheduler)
    (unwritten : (k.tasks 0).ptid = 0) : ∃ k', tasks_init file_sys k = some k' := by
  have next {k : Kernel} {n : Nat} (few : n < 3) (booted : Booting k n) :
      ∃ k', init_shell file_sys k = some k' ∧ Booting k' (n + 1) := by
    have spare : ∀ m < 3, (BitVec.ofNat 32 (2 ^ (m + 1) - 1)).getLsbD (m + 1) = false := by decide
    have max_tasks : k.scheduler.max_tasks = 10 := by rw [booted.scheduler]; rfl
    obtain ⟨pid,k₁,outcome,created⟩ := create_task_succeeds (k := k) (i := n + 1) (fun _ => 0) (by omega) loads
      (by omega) (by rw [booted.scheduler]; exact spare n few)
    have free : ∀ m < 3, free_ptid (BitVec.ofNat 32 (2 ^ m - 1)) 0 3 = some m := by decide
    obtain ⟨k₂,tree,-,-⟩ := create_ptree_eq (k := k₁) (i := n)
      (by rw [created.scheduler,booted.scheduler]; exact free n few)
    have made := init_shell_eq outcome created.low tree
    exact ⟨_,made,init_shell_booting few booted made⟩
  obtain ⟨pid,k₁,outcome,created⟩ := create_task_succeeds (k := k) (i := 0) (fun _ => 0) (by rw [start]; decide) loads
    (by rw [start]; decide) (by rw [start]; decide)
  obtain ⟨k₂,first,booted₂⟩ := next (by decide) (idle_booting start unwritten created)
  obtain ⟨k₃,second,booted₃⟩ := next (by decide) booted₂
  obtain ⟨k₄,third,-⟩ := next (by decide) booted₃
  refine ⟨idle_task k₄,?_⟩
  rw [tasks_init,outcome]
  refine (if_neg (by have := created.low; omega)).trans ?_
  rw [first,Option.bind_some,second,Option.bind_some,third]
  rfl

/-- The stacks at boot: one shell on each. -/
def shells : Fin 3 → List Int := fun p => [p.val + 1]

/-- The idle task and the three shells are live. -/
theorem booting_live (booted : Booting k 3) (pid : Int) : Live k.scheduler.task_vector pid ↔ 0 ≤ pid ∧ pid < 4 := by
  have bits : ∀ i : Fin 32, (BitVec.ofNat 32 (2 ^ 4 - 1)).getLsbD i.val = decide (i.val < 4) := by decide
  have vector : k.scheduler.task_vector = BitVec.ofNat 32 (2 ^ 4 - 1) := by rw [booted.scheduler]; rfl
  rw [vector]
  constructor
  · rintro ⟨low,high,set⟩
    rw [bits ⟨pid.toNat,by omega⟩,decide_eq_true_eq] at set
    dsimp only at set
    omega
  · rintro ⟨low,high⟩
    refine ⟨low,by omega,?_⟩
    rw [bits ⟨pid.toNat,by omega⟩,decide_eq_true_eq]
    dsimp only
    omega

variable (halt_addr) in
theorem booting_leaves (booted : Booting k 3) : Leaves halt_addr k shells := by
  have live := booting_live booted
  have held {p : Fin 3} {pid : Int} (inside : pid ∈ shells p) : pid = p.val + 1 := List.mem_singleton.mp inside
  have records (p : Fin 3) := booted.shells p.val p.isLt
  refine ⟨⟨⟨?_,?_⟩,?_,?_,?_,?_,?_,?_,?_,?_,?_⟩,?_,?_⟩
  · intro p
    exact List.nodup_singleton _
  · intro p q pid left right
    have left := held left
    have right := held right
    exact Fin.ext (by omega)
  · intro p
    exact ⟨(records p).1,trivial⟩
  · intro p
    rfl
  · intro pid
    rw [live]
    constructor
    · rintro ⟨low,high⟩
      by_cases zero : pid = 0
      · exact .inl zero
      · refine .inr ⟨⟨(pid - 1).toNat,by omega⟩,?_⟩
        rw [shells,List.mem_singleton]
        dsimp only
        omega
    · rintro (rfl | ⟨p,inside⟩)
      · omega
      · have := held inside
        omega
  · intro p pid inside
    obtain rfl := held inside
    obtain ⟨-,number,ptid,directory⟩ := records p
    exact ⟨by omega,number,ptid,directory⟩
  · intro pid alive
    have := (live pid).mp alive
    omega
  · rw [booted.scheduler]
    decide
  · rw [booted.scheduler]
    rfl
  · rw [booted.scheduler]
    rfl
  · rw [booted.scheduler]
    rfl
  · intro p
    rw [booted.scheduler,shells,booting]
    dsimp only
    rw [if_pos (by omega)]
    rfl
  · intro p pid inside first second third
    have := held inside
    omega

variable (halt_addr) in
/-- After `tasks_init` every shell is ready, and the idle task is running on
    the first process tree. -/
theorem tasks_init_leaves {file_sys : FileSys} (start : k.scheduler = scheduler) (unwritten : (k.tasks 0).ptid = 0)
    (booted : tasks_init file_sys k = some k') :
    Leaves halt_addr k' shells ∧ k'.scheduler.cur_task = 0 ∧ k'.scheduler.cur_ptree = 0 ∧
      (k'.tasks 0).page_directory = get_task_addr 0 := by
  obtain ⟨k₁,ready,rfl⟩ := tasks_init_booting start unwritten booted
  have leaves := booting_leaves halt_addr ready
  have others (pid : Int) (positive : pid ≠ 0) : (idle_task k₁).tasks pid = k₁.tasks pid := setTask_other _ _ positive
  have positive {p : Fin 3} {pid : Int} (inside : pid ∈ shells p) : pid ≠ 0 :=
    (leaves.forest.record p pid inside).positive
  refine ⟨⟨?_,leaves.leaf,?_⟩,?_,?_,?_⟩
  · refine leaves.forest.keep rfl rfl rfl rfl rfl ?_
    rintro pid ⟨p,inside⟩
    rw [others pid (positive inside)]
    exact ⟨rfl,rfl,rfl,rfl⟩
  · intro p pid inside first second third
    rw [others pid (positive inside)]
    exact leaves.returns p pid inside first second third
  · exact congrArg Sched.cur_task ready.scheduler
  · exact congrArg Sched.cur_ptree ready.scheduler
  · have idle := setTask_same k₁ 0 { k₁.tasks 0 with
      tss := { (k₁.tasks 0).tss with
        cs := KERNEL_CS, ds := KERNEL_DS, ss := KERNEL_DS, ldt_segment_selector := KERNEL_LDT } }
    exact (congrArg Task.page_directory idle).trans ready.idle.2

/-- From `tasks_init` on, in every state after the first tick, the scheduler's
    data are consistent, whatever the terminals have executed and halted. -/
theorem consistent_after_tick {file_sys : FileSys} {op : Op} {ops : List Op} {k₁ : Kernel} (start : k.scheduler = scheduler)
    (unwritten : (k.tasks 0).ptid = 0) (booted : tasks_init file_sys k = some k₁)
    (reached : run (step file_sys halt_addr) k₁ (op :: ops) = some k') : Consistent k' := by
  obtain ⟨leaves,cur_task,cur_ptree,-⟩ := tasks_init_leaves halt_addr start unwritten booted
  obtain ⟨k₂,taken,rest⟩ := run_cons_eq_some.mp reached
  have first : ∃ trees, Scheduled halt_addr k₂ trees := by
    cases op with
    | execute programName argsBuffer esp ebp =>
      rw [step,if_pos cur_task] at taken
      cases taken
    | halt status =>
      rw [step,if_pos cur_task] at taken
      cases taken
    | tick regs frame =>
      obtain rfl := Option.some.inj taken
      exact ⟨_,tick_scheduled regs frame leaves (by omega) (by omega)⟩
  obtain ⟨trees,scheduled⟩ := run_invariant (fun _ _ _ => step_scheduled) first rest
  exact scheduled_consistent scheduled

/-- An image that holds the shell and nothing else, an ELF header followed by
    zeros. -/
def shell_image : FileSys where
  num_dentries := 1
  num_inodes := 1
  num_blocks := 1
  dentries := fun _ => { file_name := shell_name, file_type := 2, inode_num := 0 }
  inodes := fun _ => { len := 4000, dblocks := fun _ => 0 }
  data := fun _ j => [0x7F,0x45,0x4C,0x46].getD j 0

/-- The same file under other names. -/
def named_image (n : Nat) (dentries : Nat → Dentry) : FileSys :=
  { shell_image with num_dentries := n, dentries := dentries }

theorem named_image_loads {n i : Nat} {dentries : Nat → Dentry} {fname : Nat → Byte} (plain : fname 0 ≠ 46)
    (entry : find_dentry (named_image n dentries) fname = some i)
    (regular : (dentries i).inode_num = 0 ∧ (dentries i).file_type = 2) (addr : Nat) (m : Mem) (positive : 0 < addr) :
    (load_program (named_image n dentries) fname addr m).1 ≠ -1 := by
  have found : read_dentry_by_name (named_image n dentries) fname uninitialized =
      (0,copy_dentry (dentries i) uninitialized) := by
    rw [read_dentry_by_name,if_neg plain,entry]
    rfl
  have header : read_data (named_image n dentries) 0 0 ELF_MAGIC_SIZE = ⟨4,[(0,0),(0,1),(0,2),(0,3)],[0]⟩ := rfl
  have magic : load32 (storeBytes (fun _ => 0) 0
      ((⟨4,[(0,0),(0,1),(0,2),(0,3)],[0]⟩ : ReadResult).bytes (named_image n dentries))) 0 = ELF_MAGIC := by
    have bytes : ReadResult.bytes (named_image n dentries) = ReadResult.bytes shell_image := rfl
    rw [bytes]
    decide
  have image : (read_data (named_image n dentries) 0 0 (u32 (-1))).bytes (named_image n dentries) =
      (cells 0 0 4096).map (fun cell => shell_image.data cell.1 cell.2) := by
    have stored : (read_data (named_image n dentries) 0 0 (u32 (-1))).stored = cells 0 0 4096 :=
      read_data_block Nat.one_pos (show 4000 < 4096 by decide) Nat.one_pos (by decide)
    rw [ReadResult.bytes,stored]
    rfl
  have length : ((cells 0 0 4096).map (fun cell => shell_image.data cell.1 cell.2)).length = 4096 := by
    simp [cells]
  have byte (i : Nat) (low : 4 ≤ i) (inside : i < 4096) :
      storeBytes m addr ((cells 0 0 4096).map (fun cell => shell_image.data cell.1 cell.2)) (addr + i) = 0 := by
    rw [storeBytes_inside (by omega)]
    have zero : [127#8,69#8,76#8,70#8][i]? = none := List.getElem?_eq_none low
    simp [cells,shell_image,zero]
  have entry_point : load32 (storeBytes m addr
      ((cells 0 0 4096).map (fun cell => shell_image.data cell.1 cell.2))) (addr + 24) = 0 := by
    simp only [load32,Nat.add_assoc]
    rw [byte _ (by omega) (by omega),byte _ (by omega) (by omega),byte _ (by omega) (by omega),
      byte _ (by omega) (by omega)]
    rfl
  rw [load_program,if_neg (by omega),found]
  have program : (copy_dentry (dentries i) uninitialized).inode_num = 0 ∧
      (copy_dentry (dentries i) uninitialized).file_type = 2 := regular
  simp only [program,header,magic,image,entry_point]
  rw [if_neg (by decide),if_neg (by decide),if_neg (by decide),if_neg (by decide)]
  dsimp only
  decide

theorem shell_image_loads (addr : Nat) (m : Mem) (positive : 0 < addr) :
    (load_program shell_image shell_name addr m).1 ≠ -1 := by
  have loads : (load_program (named_image 1 shell_image.dentries) shell_name addr m).1 ≠ -1 :=
    named_image_loads (i := 0) (by decide) (by decide) ⟨rfl,rfl⟩ addr m positive
  exact loads

/-- The kernel before boot, with nothing in memory. -/
def bare_kernel : Kernel := { (default : Kernel) with scheduler := scheduler }

theorem consistent_after_tick_booted : ∃ k k', tasks_init shell_image bare_kernel = some k ∧
    run (step shell_image 0) k [.tick default default] = some k' ∧ Consistent k' := by
  obtain ⟨k,booted⟩ := tasks_init_completes shell_image_loads (k := bare_kernel) rfl rfl
  have reached : run (step shell_image 0) k [.tick default default] = some (timer_tick default default k) := rfl
  exact ⟨k,_,booted,reached,consistent_after_tick rfl rfl booted reached⟩

end Mp3Kernel.TaskForest

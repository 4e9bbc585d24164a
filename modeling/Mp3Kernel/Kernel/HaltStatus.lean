import Mp3Kernel.Kernel.Preemption

/-!
What an `execute_task` call returns, and to whom. The exception mark of a
program lies in the state field that every tick overwrites; the status of a
halt travels with the point of its terminal.
-/
namespace Mp3Kernel.HaltStatus
open Mp3Kernel.Memory Mp3Kernel.Filesys Mp3Kernel.Tasks Mp3Kernel.Paging Mp3Kernel.Scheduler
open Mp3Kernel.Stacks Mp3Kernel.Runs Mp3Kernel.Preemption
open Mp3Kernel.TaskForest hiding step

/-- The value of a call whose program was ended by the exception handler, and of
    one whose program called halt. -/
def result (status : Byte) (fault : Bool) : Int := if fault = true then 256 else status.toNat

/-- The exception handler has marked the program, and the mark is not read yet. -/
def Faulted : Point → Prop
  | .halting _ fault | .leaving _ fault | .checking _ fault _ _ => fault = true
  | _ => False

/-- The mark may be there. -/
def Blamed : Point → Prop
  | .halting _ fault | .leaving _ fault | .checking _ fault _ _ | .ending _ _ fault _ _ => fault = true
  | _ => False

/-- No tick comes while a mark is to be read, nor between `set_cur_task` and the
    end of `setup_task_stack`. -/
def Calm (s : Machine) : Event → Prop
  | .tick _ _ => ¬ Half s.point ∧ ¬ Faulted s.point
  | _ => True

/-- The halt of a program gets to `halt_addr`, and a call returns to its maker,
    on the stack it was made on, with the result of its program. -/
def Returns (halt_addr : Word) (s : Machine) : Event → Prop
  | .advance =>
    (∀ status fault, s.point = .leaving status fault → advance halt_addr s ≠ none) ∧
    ∀ ret call status fault esp ebp, s.point = .returning ret call status fault esp ebp →
      s.k.scheduler.cur_task = call.maker ∧ esp = call.esp ∧ ebp = call.ebp ∧ ret = result status fault
  | _ => True

/-- How far the execution of a program is. -/
def reach (pid : Int) : Point → Nat
  | .executing stage new _ => if pid = new then stage.rank else 11
  | _ => 11

/-- What `execute_task` has written into the record of its program, and who may
    have marked it. -/
structure Called (halt_addr : Word) (call : Call) (rank : Nat) (blamed : Prop) (t : Task) : Prop where
  maker : call.maker = t.parent_task
  ret_eip : 3 ≤ rank → t.ret_eip = halt_addr
  stack : 6 ≤ rank → t.ret_esp = call.esp ∧ t.ret_ebp = call.ebp
  mark : 2 ≤ rank → t.state = .TASK_EXCEPTION → blamed

/-- What a point carries, where `t` is the leaf of its terminal and `call` the
    one that made it. -/
def Carries (leaf : Int) (call : Call) (t : Task) : Point → Prop
  | .halting _ fault | .leaving _ fault => fault = true → t.state = .TASK_EXCEPTION
  | .checking _ fault esp ebp => (fault = true → t.state = .TASK_EXCEPTION) ∧ esp = call.esp ∧ ebp = call.ebp
  | .ending ret status fault esp ebp => ret = result status fault ∧ esp = call.esp ∧ ebp = call.ebp
  | .returning ret made status fault esp ebp =>
    made.maker = leaf ∧ esp = made.esp ∧ ebp = made.ebp ∧ ret = result status fault
  | _ => True

/-- The programs on the stacks and the points of the terminals. -/
structure Marked (halt_addr : Word) (s : Machine) (trees : Fin 3 → List Int) (points : Fin 3 → Point) : Prop where
  called : ∀ p, ∀ pid ∈ trees p, 3 < pid → Called halt_addr (s.made pid) (reach pid (points p))
    (Blamed (points p) ∧ pid = s.k.scheduler.ptree_tasks p.val) (s.k.tasks pid)
  carries : ∀ p : Fin 3, Carries (s.k.scheduler.ptree_tasks p.val) (s.made (s.k.scheduler.ptree_tasks p.val))
    (s.k.tasks (s.k.scheduler.ptree_tasks p.val)) (points p)

/-- The fields of a record that matter here. -/
def SameCall (t u : Task) : Prop :=
  t.parent_task = u.parent_task ∧ t.ret_eip = u.ret_eip ∧ t.ret_esp = u.ret_esp ∧ t.ret_ebp = u.ret_ebp ∧
    t.state = u.state

variable {k k' : Kernel} {halt_addr : Word} {call : Call} {stage : Stage} {pid : Int} {trees : Fin 3 → List Int}
variable {points : Fin 3 → Point} {s s' : Machine} {p : Fin 3} {file_sys : FileSys} {t u : Task} {rank : Nat}

theorem SameCall.refl (t : Task) : SameCall t t := ⟨rfl,rfl,rfl,rfl,rfl⟩

theorem Called.congr {blamed blamed' : Prop} (called : Called halt_addr call rank blamed u) (same : SameCall t u)
    (blames : blamed → blamed') : Called halt_addr call rank blamed' t := by
  obtain ⟨parent_task,ret_eip,ret_esp,ret_ebp,state⟩ := same
  refine ⟨called.maker.trans parent_task.symm,?_,?_,?_⟩
  · rw [ret_eip]
    exact called.ret_eip
  · rw [ret_esp,ret_ebp]
    exact called.stack
  · rw [state]
    exact fun early mark => blames (called.mark early mark)

theorem Carries.congr {leaf : Int} {point : Point} (carries : Carries leaf call u point) (state : t.state = u.state) :
    Carries leaf call t point := by
  cases point with
  | halting status fault => exact fun marked => state.trans (carries marked)
  | leaving status fault => exact fun marked => state.trans (carries marked)
  | checking status fault esp ebp => exact ⟨fun marked => state.trans (carries.1 marked),carries.2⟩
  | _ => exact carries

/-- Outside the handler's way a point carries nothing of the record. -/
theorem Carries.calm {leaf : Int} {point : Point} (carries : Carries leaf call u point) (calm : ¬ Faulted point) :
    Carries leaf call t point := by
  cases point with
  | halting status fault => exact fun marked => absurd marked calm
  | leaving status fault => exact fun marked => absurd marked calm
  | checking status fault esp ebp => exact ⟨fun marked => absurd marked calm,carries.2⟩
  | _ => exact carries

/-- A step of one terminal that leaves the others alone. -/
theorem Marked.moves {trees' : Fin 3 → List Int} {point : Point} (marked : Marked halt_addr s trees points)
    (standing : Standing s trees points)
    (still : ∀ q, q ≠ p → trees' q = trees q ∧ s'.k.scheduler.ptree_tasks q.val = s.k.scheduler.ptree_tasks q.val ∧
      ∀ pid ∈ trees q, s'.made pid = s.made pid ∧ SameCall (s'.k.tasks pid) (s.k.tasks pid))
    (called : ∀ pid ∈ trees' p, 3 < pid → Called halt_addr (s'.made pid) (reach pid point)
      (Blamed point ∧ pid = s'.k.scheduler.ptree_tasks p.val) (s'.k.tasks pid))
    (carries : Carries (s'.k.scheduler.ptree_tasks p.val) (s'.made (s'.k.scheduler.ptree_tasks p.val))
      (s'.k.tasks (s'.k.scheduler.ptree_tasks p.val)) point) :
    Marked halt_addr s' trees' (Function.update points p point) := by
  constructor
  · intro q
    by_cases same : q = p
    · subst same
      rw [Function.update_self]
      exact called
    · obtain ⟨tree,leaf,records⟩ := still q same
      rw [Function.update_of_ne same,tree,leaf]
      intro pid inside program
      rw [(records pid inside).1]
      exact (marked.called q pid inside program).congr (records pid inside).2 id
  · intro q
    by_cases same : q = p
    · subst same
      rw [Function.update_self]
      exact carries
    · obtain ⟨-,leaf,records⟩ := still q same
      have leaf_record := records _ (standing.seated q).leaf_held
      rw [Function.update_of_ne same,leaf,leaf_record.1]
      exact (marked.carries q).congr leaf_record.2.2.2.2.2

/-- Where the stacks, the leaves and the calls stay, and a mark comes only with
    the blame. -/
theorem Marked.stays {point : Point} (marked : Marked halt_addr s trees points) (standing : Standing s trees points)
    (scheduler : s'.k.scheduler = s.k.scheduler) (made : s'.made = s.made)
    (records : ∀ pid, Held trees pid → SameCall (s'.k.tasks pid) (s.k.tasks pid))
    (reaches : ∀ pid, reach pid point = reach pid (points p)) (blames : Blamed (points p) → Blamed point)
    (carries : Carries (s.k.scheduler.ptree_tasks p.val) (s.made (s.k.scheduler.ptree_tasks p.val))
      (s.k.tasks (s.k.scheduler.ptree_tasks p.val)) point) :
    Marked halt_addr s' trees (Function.update points p point) := by
  refine marked.moves standing ?_ ?_ ?_
  · intro q other
    rw [scheduler,made]
    exact ⟨rfl,rfl,fun pid inside => ⟨rfl,records pid ⟨q,inside⟩⟩⟩
  · intro pid inside program
    rw [scheduler,made,reaches]
    exact (marked.called p pid inside program).congr (records pid ⟨p,inside⟩) (And.imp_left blames)
  · rw [scheduler,made]
    exact carries.congr (records _ ⟨p,(standing.seated p).leaf_held⟩).2.2.2.2

/-! ### Steps -/

theorem statement_other {q : Int} (other : q ≠ pid) :
    (statement halt_addr call pid stage k).tasks q = k.tasks q := by
  cases stage with
  | mark_running => exact setTask_other _ _ other
  | set_ret_eip => exact setTask_other _ _ other
  | save_task_state => exact setTask_other _ _ other
  | _ => rfl

/-- Each statement writes its field of the record. -/
theorem statement_called {blamed : Prop} (called : Called halt_addr call stage.rank blamed (k.tasks pid)) :
    Called halt_addr call (stage.rank + 1) blamed ((statement halt_addr call pid stage k).tasks pid) := by
  obtain ⟨maker,ret_eip,stack,mark⟩ := called
  cases stage with
  | mark_running =>
    have own : (statement halt_addr call pid .mark_running k).tasks pid =
      { k.tasks pid with state := .TASK_RUNNING } := setTask_same _ _ _
    rw [own]
    exact ⟨maker,fun early => absurd early (by decide),fun early => absurd early (by decide),fun _ marked => nomatch marked⟩
  | set_ret_eip =>
    have own : (statement halt_addr call pid .set_ret_eip k).tasks pid =
      { k.tasks pid with ret_eip := halt_addr } := setTask_same _ _ _
    rw [own]
    exact ⟨maker,fun _ => rfl,fun early => absurd early (by decide),fun _ => mark le_rfl⟩
  | save_task_state =>
    have own : (statement halt_addr call pid .save_task_state k).tasks pid =
      { k.tasks pid with ret_esp := call.esp, ret_ebp := call.ebp } := setTask_same _ _ _
    rw [own]
    exact ⟨maker,fun _ => ret_eip (by decide),fun _ => ⟨rfl,rfl⟩,fun _ => mark (by decide)⟩
  | map_garbage =>
    exact ⟨maker,fun early => absurd early (by decide),fun early => absurd early (by decide),
      fun early => absurd early (by decide)⟩
  | set_cur_task =>
    exact ⟨maker,fun _ => ret_eip (by decide),fun early => absurd early (by decide),fun _ => mark (by decide)⟩
  | set_ptree_task =>
    exact ⟨maker,fun _ => ret_eip (by decide),fun early => absurd early (by decide),fun _ => mark (by decide)⟩
  | _ => exact ⟨maker,fun _ => ret_eip (by decide),fun _ => stack (by decide),fun _ => mark (by decide)⟩

theorem reach_after_statement (eip : Word) : reach pid (after_statement stage pid eip) = stage.rank + 1 := by
  rw [after_statement]
  cases next : stage.next with
  | none =>
    rw [Stage.rank_last next]
    rfl
  | some stage' =>
    rw [← Stage.rank_next next]
    exact if_pos rfl

/-- Only the program of the call is on its way. -/
theorem reach_after_other {q : Int} (other : q ≠ pid) (eip : Word) : reach q (after_statement stage pid eip) = 11 := by
  rw [after_statement]
  cases stage.next with
  | none => rfl
  | some stage' => exact if_neg other

theorem executing_marked {eip : Word} (standing : Standing s trees points) (marked : Marked halt_addr s trees points)
    (mine : Mine s points p) (here : s.point = .executing stage pid eip) :
    Marked halt_addr { s with k := statement halt_addr (s.made pid) pid stage s.k, point := after_statement stage pid eip }
      trees (Function.update points p (after_statement stage pid eip)) := by
  have seated := standing.seated p
  have point : points p = .executing stage pid eip := mine.point.symm.trans here
  rw [point] at seated
  obtain ⟨parent,rest,top,-,-⟩ := seated
  have held : pid ∈ trees p := by rw [top]; exact List.mem_cons_self
  have scheduler := statement_scheduler halt_addr (s.made pid) pid stage s.k
  rw [(standing.forest.record p pid held).ptid] at scheduler
  refine marked.moves standing ?_ ?_ ?_
  · intro q other
    have apart : (q.val : Int) ≠ p.val := fun same => other (Fin.ext (by omega))
    dsimp only
    rw [scheduler]
    refine ⟨rfl,if_neg fun both => apart both.2,?_⟩
    intro r inside
    have new : r ≠ pid := fun same => other (standing.forest.apart.disjoint q p r inside (same ▸ held))
    rw [statement_other new]
    exact ⟨rfl,rfl,rfl,rfl,rfl,rfl⟩
  · intro q inside program
    have called := marked.called p q inside program
    rw [point] at called
    dsimp only
    by_cases same : q = pid
    · subst same
      rw [reach_after_statement]
      rw [reach,if_pos rfl] at called
      exact (statement_called called).congr (.refl _) (fun blamed => blamed.1.elim)
    · rw [reach_after_other same,statement_other same]
      rw [reach,if_neg same] at called
      exact called.congr (.refl _) (fun blamed => blamed.1.elim)
  · rw [after_statement]
    cases stage.next <;> trivial

/-- A created program is not on its way yet. -/
theorem created_marked {fname args : Nat → Byte} {esp ebp : Word} (standing : Standing s trees points)
    (marked : Marked halt_addr s trees points) (mine : Mine s points p) (user : s.point = .user)
    (created : Created file_sys fname args s.k pid k') :
    Marked halt_addr {
        k := k'
        point := .executing .map_garbage pid (k'.tasks pid).tss.eip
        saved := fun q => if q = pid then .user else s.saved q
        made := fun q => if q = pid then ⟨get_cur_task s.k,esp,ebp⟩ else s.made q } (push trees p pid)
      (Function.update points p (.executing .map_garbage pid (k'.tasks pid).tss.eip)) := by
  have leaf := at_leaf standing mine (by rw [user]; exact id)
  have point : points p = .user := mine.point.symm.trans user
  obtain ⟨-,fresh⟩ := standing.forest.fresh created.fresh
  have other {q : Fin 3} {r : Int} (inside : r ∈ trees q) : r ≠ pid := fun same => fresh ⟨q,same ▸ inside⟩
  have scheduler := created.scheduler
  refine marked.moves standing ?_ ?_ trivial
  · intro q apart
    dsimp only
    rw [scheduler,push_other apart]
    refine ⟨rfl,rfl,?_⟩
    intro r inside
    rw [created.others r (other inside),if_neg (other inside)]
    exact ⟨rfl,rfl,rfl,rfl,rfl,rfl⟩
  · intro r inside program
    dsimp only
    rcases mem_push.mp inside with before | ⟨-,rfl⟩
    · have called := marked.called p r before program
      rw [point] at called
      rw [created.others r (other before),if_neg (other before),reach,if_neg (other before)]
      exact called.congr (.refl _) (fun blamed => blamed.1.elim)
    · rw [if_pos rfl,reach,if_pos rfl,leaf.cur]
      refine ⟨?_,fun early => absurd early (by decide),fun early => absurd early (by decide),
        fun early => absurd early (by decide)⟩
      have child : s.k.scheduler.cur_task ≠ -1 := by
        have := (standing.forest.held_live leaf.held).1
        omega
      obtain ⟨exe_addr,-,-,record⟩ := created.loaded
      rw [record,new_record,if_pos child]
      rfl

theorem refused_marked {fname : Nat → Byte} (standing : Standing s trees points)
    (marked : Marked halt_addr s trees points) (mine : Mine s points p) (user : s.point = .user)
    (refused : Refused file_sys fname s.k k') :
    Marked halt_addr { s with k := k' } trees (Function.update points p .user) := by
  have point : points p = .user := mine.point.symm.trans user
  refine marked.stays standing refused.scheduler rfl ?_ (fun _ => by rw [point]) (fun blamed => by rwa [point] at blamed)
    trivial
  intro pid inside
  dsimp only
  rw [standing.forest.refused refused inside]
  exact .refl _

theorem slice_marked (after : Kernel) (standing : Standing s trees points) (marked : Marked halt_addr s trees points)
    (mine : Mine s points p) (user : s.point = .user) :
    Marked halt_addr { s with k := sliced after s.k } trees (Function.update points p .user) := by
  have point : points p = .user := mine.point.symm.trans user
  refine marked.stays standing rfl rfl ?_ (fun _ => by rw [point]) (fun blamed => by rwa [point] at blamed) trivial
  intro pid _
  exact setTask_keeps { s.k with mem := after.mem, intr := after.intr, console := after.console }
    s.k.scheduler.cur_task .refl ⟨rfl,rfl,rfl,rfl,rfl⟩ pid

/-- The exception handler marks the leaf. -/
theorem fault_marked (standing : Standing s trees points) (marked : Marked halt_addr s trees points)
    (mine : Mine s points p) (user : s.point = .user) :
    Marked halt_addr { s with k := set_cur_task_state .TASK_EXCEPTION s.k, point := .halting 0 true } trees
      (Function.update points p (.halting 0 true)) := by
  have leaf := at_leaf standing mine (by rw [user]; exact id)
  have point : points p = .user := mine.point.symm.trans user
  have own : (set_cur_task_state .TASK_EXCEPTION s.k).tasks s.k.scheduler.cur_task =
      { s.k.tasks s.k.scheduler.cur_task with state := .TASK_EXCEPTION } := by
    rw [set_cur_task_state,leaf.cur]
    exact setTask_same _ _ _
  have others {q : Int} (other : q ≠ s.k.scheduler.cur_task) :
      (set_cur_task_state .TASK_EXCEPTION s.k).tasks q = s.k.tasks q := by
    rw [set_cur_task_state,leaf.cur]
    exact setTask_other _ _ other
  refine marked.moves standing ?_ ?_ ?_
  · intro q apart
    refine ⟨rfl,rfl,?_⟩
    intro r inside
    have other : r ≠ s.k.scheduler.cur_task :=
      fun same => apart (standing.forest.apart.disjoint q p r inside (same ▸ leaf.held))
    dsimp only
    rw [others other]
    exact ⟨rfl,rfl,rfl,rfl,rfl,rfl⟩
  · intro r inside program
    have called := marked.called p r inside program
    rw [point] at called
    dsimp only
    by_cases same : r = s.k.scheduler.cur_task
    · rw [same] at called ⊢
      rw [own]
      exact ⟨called.maker,called.ret_eip,called.stack,fun _ _ => ⟨rfl,leaf.current⟩⟩
    · rw [others same]
      exact called.congr (.refl _) (fun blamed => blamed.1.elim)
  · intro _
    change ((set_cur_task_state .TASK_EXCEPTION s.k).tasks (s.k.scheduler.ptree_tasks p.val)).state = _
    rw [← leaf.current,own]

/-- Whatever is not a first shell is a program. -/
theorem program_of_held (forest : Forest k trees) (inside : pid ∈ trees p) (program : ¬ FirstShell pid) : 3 < pid := by
  have live := (forest.held_live inside).1
  have positive := (forest.record p pid inside).positive
  rw [FirstShell] at program
  omega

/-- A first shell has no parent. -/
theorem program_of_child {parent : Int} {rest : List Int} (forest : Forest k trees)
    (top : trees p = pid :: parent :: rest) : 3 < pid := by
  have held : pid ∈ trees p := by rw [top]; exact List.mem_cons_self
  refine program_of_held forest held ?_
  intro first
  obtain ⟨q,rfl⟩ : ∃ q : Fin 3, pid = q.val + 1 := by
    rcases first with rfl | rfl | rfl
    · exact ⟨0,rfl⟩
    · exact ⟨1,rfl⟩
    · exact ⟨2,rfl⟩
  obtain rfl := forest.apart.disjoint q p _ (forest.shell_held q) held
  have last := forest.shell q
  have distinct := forest.apart.nodup q
  rw [top] at last distinct
  rw [List.getLast?_cons_cons] at last
  exact (List.nodup_cons.mp distinct).1 (List.mem_of_getLast? last)

/-- The program that a terminal is ending. -/
theorem ending_called {status : Byte} {fault : Bool} {esp ebp : Word} (standing : Standing s trees points)
    (marked : Marked halt_addr s trees points) (mine : Mine s points p) (here : s.point = .checking status fault esp ebp) :
    Called halt_addr (s.made (s.k.scheduler.ptree_tasks p.val)) 11 (fault = true)
      (s.k.tasks (s.k.scheduler.ptree_tasks p.val)) := by
  have point : points p = .checking status fault esp ebp := mine.point.symm.trans here
  have seated := standing.seated p
  rw [point] at seated
  obtain ⟨parent,rest,top⟩ := seated
  have called := marked.called p _ (standing.seated p).leaf_held (program_of_child standing.forest top)
  rw [point] at called
  exact called.congr (.refl _) And.left

theorem restart_marked {status : Byte} {fault : Bool} (standing : Standing s trees points)
    (marked : Marked halt_addr s trees points) (mine : Mine s points p) (here : s.point = .leaving status fault)
    (shell : FirstShell (s.k.tasks (get_cur_task s.k)).pid) : Marked halt_addr { s with
      k := load_tss (get_cur_task s.k) (s.k.setTask (get_cur_task s.k) (restarted (s.k.tasks (get_cur_task s.k))))
      point := .user } trees (Function.update points p .user) := by
  have leaf := at_leaf standing mine (by rw [here]; exact id)
  have point : points p = .leaving status fault := mine.point.symm.trans here
  rw [leaf.cur,leaf.number standing] at shell
  rw [leaf.cur]
  have same (q : Int) : SameCall ((load_tss s.k.scheduler.cur_task (s.k.setTask s.k.scheduler.cur_task
      (restarted (s.k.tasks s.k.scheduler.cur_task)))).tasks q) (s.k.tasks q) :=
    setTask_keeps s.k s.k.scheduler.cur_task .refl ⟨rfl,rfl,rfl,rfl,rfl⟩ q
  refine marked.moves standing (fun q _ => ⟨rfl,rfl,fun r _ => ⟨rfl,same r⟩⟩) ?_ trivial
  intro r inside program
  have called := marked.called p r inside program
  rw [point] at called
  refine called.congr (same r) ?_
  rintro ⟨-,rfl⟩
  rw [← leaf.current] at program
  rw [FirstShell] at shell
  omega

/-- At `halt_addr` a program is back on the stack of the call that made it. -/
theorem checking_marked {status : Byte} {fault : Bool} (standing : Standing s trees points)
    (marked : Marked halt_addr s trees points) (mine : Mine s points p) (here : s.point = .leaving status fault)
    (program : ¬ FirstShell (s.k.tasks (get_cur_task s.k)).pid) :
    Marked halt_addr { s with
        point := .checking status fault (s.k.tasks (get_cur_task s.k)).ret_esp (s.k.tasks (get_cur_task s.k)).ret_ebp }
      trees (Function.update points p
        (.checking status fault (s.k.tasks (get_cur_task s.k)).ret_esp (s.k.tasks (get_cur_task s.k)).ret_ebp)) := by
  have leaf := at_leaf standing mine (by rw [here]; exact id)
  have point : points p = .leaving status fault := mine.point.symm.trans here
  rw [leaf.cur,leaf.number standing] at program
  rw [leaf.cur,leaf.current]
  have called := marked.called p _ leaf.held (program_of_held standing.forest leaf.held program)
  have carries := marked.carries p
  rw [point,leaf.current] at called
  rw [point] at carries
  refine marked.stays standing rfl rfl (fun _ _ => .refl _) (fun _ => by rw [point]; rfl)
    (fun blamed => by rwa [point] at blamed) ⟨carries,called.stack ?_⟩
  exact Nat.le_of_ble_eq_true rfl

/-- The mark tells how the program ended. -/
theorem checked_marked {status : Byte} {fault : Bool} {esp ebp : Word} (standing : Standing s trees points)
    (marked : Marked halt_addr s trees points) (mine : Mine s points p) (here : s.point = .checking status fault esp ebp) :
    Marked halt_addr { s with
        point := .ending (if get_cur_task_state s.k = .TASK_EXCEPTION then 256 else status.toNat) status fault esp ebp }
      trees (Function.update points p
        (.ending (if get_cur_task_state s.k = .TASK_EXCEPTION then 256 else status.toNat) status fault esp ebp)) := by
  have leaf := at_leaf standing mine (by rw [here]; exact id)
  have point : points p = .checking status fault esp ebp := mine.point.symm.trans here
  have called := ending_called standing marked mine here
  have carries := marked.carries p
  rw [point] at carries
  have told : get_cur_task_state s.k = .TASK_EXCEPTION ↔ fault = true := by
    rw [get_cur_task_state,leaf.cur,leaf.current]
    exact ⟨called.mark (by omega),carries.1⟩
  simp only [told]
  exact marked.stays standing rfl rfl (fun _ _ => .refl _) (fun _ => by rw [point]; rfl)
    (fun blamed => by rwa [point] at blamed) ⟨rfl,carries.2⟩

/-- The call's program is gone, and its maker is the leaf. -/
theorem ending_marked {ret : Int} {status : Byte} {fault : Bool} {esp ebp : Word} (standing : Standing s trees points)
    (marked : Marked halt_addr s trees points) (mine : Mine s points p) (here : s.point = .ending ret status fault esp ebp) :
    Marked halt_addr { s with
        k := end_task s.k.scheduler.cur_task s.k
        point := .returning ret (s.made s.k.scheduler.cur_task) status fault esp ebp } (pop trees p)
      (Function.update points p (.returning ret (s.made s.k.scheduler.cur_task) status fault esp ebp)) := by
  have leaf := at_leaf standing mine (by rw [here]; exact id)
  have point : points p = .ending ret status fault esp ebp := mine.point.symm.trans here
  have seated := standing.seated p
  have carries := marked.carries p
  rw [point] at seated carries
  obtain ⟨parent,rest,top⟩ := seated
  rw [← leaf.current] at top carries
  obtain ⟨value,on_esp,on_ebp⟩ := carries
  obtain ⟨parent_task,scheduler⟩ := standing.forest.ended top
  have called := marked.called p _ leaf.held (program_of_child standing.forest top)
  refine marked.moves standing ?_ ?_ ?_
  · intro q other
    have apart : (q.val : Int) ≠ p.val := fun same => other (Fin.ext (by omega))
    dsimp only
    rw [scheduler,pop_other other]
    exact ⟨rfl,if_neg apart,fun _ _ => ⟨rfl,rfl,rfl,rfl,rfl,rfl⟩⟩
  · intro r inside program
    obtain ⟨before,other⟩ := (mem_pop standing.forest.apart top).mp inside
    have called := marked.called p r before program
    rw [point] at called
    refine called.congr (.refl _) ?_
    rintro ⟨-,same⟩
    exact absurd (same.trans leaf.current.symm) other
  · dsimp only
    rw [scheduler]
    dsimp only
    rw [if_pos rfl]
    exact ⟨called.maker.trans parent_task,on_esp,on_ebp,value⟩

/-- After a tick only a task that was not running can be marked. -/
theorem tick_state {regs : Regs} {frame : IretFrame} (standing : Standing s trees points)
    (taken : step file_sys halt_addr s (.tick regs frame) = some s') (mark : (s'.k.tasks pid).state = .TASK_EXCEPTION) :
    pid ≠ get_cur_task s.k ∧ (s.k.tasks pid).state = .TASK_EXCEPTION := by
  rw [step] at taken
  split at taken
  case isFalse => cases taken
  rename_i privilege
  obtain rfl := Option.some.inj taken
  obtain ⟨q,-,tasks,-⟩ := tick_eq regs frame standing
  dsimp only at mark
  rw [tasks] at mark
  have other : pid ≠ get_cur_task s.k := by
    rintro rfl
    rcases privilege with kernel | ⟨user,-⟩
    · rw [saved_tick_kernel kernel] at mark
      cases mark
    · rw [saved_tick_user user] at mark
      cases mark
  rw [saved_tick_other regs frame s.k other] at mark
  exact ⟨other,mark⟩

/-- A tick overwrites the state of the running task only. -/
theorem tick_marked {regs : Regs} {frame : IretFrame} (standing : Standing s trees points)
    (marked : Marked halt_addr s trees points) (calm : Calm s (.tick regs frame))
    (taken : step file_sys halt_addr s (.tick regs frame) = some s') : Marked halt_addr s' trees points := by
  have unmarked {pid : Int} (mark : (s'.k.tasks pid).state = .TASK_EXCEPTION) := tick_state standing taken mark
  rw [step] at taken
  split at taken
  case isFalse => cases taken
  obtain rfl := Option.some.inj taken
  obtain ⟨q,-,tasks,scheduler⟩ := tick_eq regs frame standing
  -- the running task is at a calm point, or on no stack
  have running {r : Fin 3} (inside : get_cur_task s.k ∈ trees r) : ¬ Faulted (points r) := by
    rcases standing.running with rests | ⟨p,mine⟩
    · exact absurd (by rw [get_cur_task,rests.current]; rfl) (standing.forest.record r _ inside).positive
    · have held := (standing.seated p).runner_held
      have live := (standing.forest.held_live held).1
      have cur : get_cur_task s.k = runner (s.k.scheduler.ptree_tasks p.val) (points p) := by
        rw [get_cur_task,mine.current,if_neg (by omega)]
      rw [cur] at inside
      obtain rfl := standing.forest.apart.disjoint p r _ held inside
      rw [← mine.point]
      exact calm.2
  constructor
  · intro r pid inside program
    have called := marked.called r pid inside program
    dsimp only at unmarked ⊢
    rw [scheduler]
    rw [tasks] at unmarked ⊢
    by_cases own : pid = get_cur_task s.k
    · subst own
      obtain ⟨tss,state,written⟩ := saved_tick_same regs frame s.k (get_cur_task s.k)
      refine ⟨?_,?_,?_,fun _ mark => absurd rfl (unmarked mark).1⟩
      · rw [written]
        exact called.maker
      · rw [written]
        exact called.ret_eip
      · rw [written]
        exact called.stack
    · rw [saved_tick_other regs frame s.k own]
      exact called
  · intro r
    have carries := marked.carries r
    dsimp only
    rw [scheduler,tasks]
    dsimp only
    by_cases own : s.k.scheduler.ptree_tasks r.val = get_cur_task s.k
    · exact carries.calm (running (own ▸ (standing.seated r).leaf_held))
    · rw [saved_tick_other regs frame s.k own]
      exact carries

theorem advance_marked (standing : Standing s trees points) (marked : Marked halt_addr s trees points)
    (mine : Mine s points p) (taken : advance halt_addr s = some s') :
    ∃ trees' points', Standing s' trees' points' ∧ Marked halt_addr s' trees' points' := by
  have same (pid : Int) (_ : Held trees pid) : SameCall (s.k.tasks pid) (s.k.tasks pid) := .refl _
  cases advance_cases standing mine taken with
  | statement here => exact ⟨_,_,executing_standing standing mine here,executing_marked standing marked mine here⟩
  | line here c =>
    have point := mine.point.symm.trans here
    have carries := marked.carries p
    rw [point] at carries
    refine ⟨_,_,line_standing standing mine here c,marked.stays standing rfl rfl same ?_ ?_ carries⟩
    · intro pid
      rw [point]
      rfl
    · rw [point]
      exact id
  | restart here shell => exact ⟨_,_,restart_standing standing mine here,restart_marked standing marked mine here shell⟩
  | leave here program =>
    exact ⟨_,_,checking_standing standing mine here program,checking_marked standing marked mine here program⟩
  | check here => exact ⟨_,_,checked_standing standing mine here,checked_marked standing marked mine here⟩
  | ends here => exact ⟨_,_,ending_standing standing mine here,ending_marked standing marked mine here⟩
  | returns here =>
    have point := mine.point.symm.trans here
    refine ⟨_,_,returned_standing standing mine here,marked.stays standing rfl rfl same ?_ ?_ trivial⟩
    · intro pid
      rw [point]
      rfl
    · rw [point]
      exact False.elim

theorem step_marked {ev : Event} (standing : Standing s trees points) (marked : Marked halt_addr s trees points)
    (calm : Calm s ev) (taken : step file_sys halt_addr s ev = some s') :
    ∃ trees' points', Standing s' trees' points' ∧ Marked halt_addr s' trees' points' := by
  cases ev with
  | tick regs frame =>
    exact ⟨trees,points,tick_standing standing calm.1 taken,tick_marked standing marked calm taken⟩
  | advance =>
    rcases standing.running with rests | ⟨p,mine⟩
    · rw [step,advance,rests.point] at taken
      cases taken
    · exact advance_marked standing marked mine taken
  | slice after =>
    obtain ⟨rfl,p,mine,user⟩ := user_step standing taken
    exact ⟨_,_,slice_standing after standing mine user,slice_marked after standing marked mine user⟩
  | execute programName argsBuffer esp ebp =>
    obtain ⟨rfl,p,mine,user⟩ := user_step standing taken
    obtain ⟨pid,k₁,outcome,created | ⟨failed,refused⟩⟩ := create_task_cases file_sys programName argsBuffer (k := s.k)
      (by rw [standing.forest.max_tasks]; omega)
    · rw [begin_execute_done outcome created.low]
      exact ⟨_,_,created_standing esp ebp standing mine user created,created_marked standing marked mine user created⟩
    · rw [begin_execute_failed outcome (by omega)]
      exact ⟨_,_,refused_standing standing mine user refused,refused_marked standing marked mine user refused⟩
  | halt status =>
    obtain ⟨rfl,p,mine,user⟩ := user_step standing taken
    have point := mine.point.symm.trans user
    refine ⟨_,_,halt_standing status standing mine user,marked.stays standing rfl rfl
      (fun _ _ => .refl _) ?_ ?_ ?_⟩
    · intro pid
      rw [point]
      rfl
    · rw [point]
      exact False.elim
    · exact fun fault => absurd fault Bool.false_ne_true
  | fault =>
    obtain ⟨rfl,p,mine,user⟩ := user_step standing taken
    exact ⟨_,_,fault_standing standing mine user,fault_marked standing marked mine user⟩

/-! ### Runs of a program -/

/-- Without a tick in between a call runs up to its program. -/
theorem call_runs (file_sys : FileSys) {eip : Word} (n : Nat) (standing : Standing s trees points) (here : s.point = .executing stage pid eip)
    (left : stage.rank + n = 10) : ∃ s' points', run (step file_sys halt_addr) s (List.replicate (n + 1) .advance) = some s' ∧
      s'.point = .user ∧ get_cur_task s'.k = pid ∧ 3 < pid ∧ Standing s' trees points' := by
  induction n generalizing s stage points with
  | zero =>
    have last : stage.next = none := by
      cases stage <;> first | rfl | exact absurd left (by decide)
    obtain ⟨p,mine,point⟩ := standing.executes here
    have seated := standing.seated p
    have current := mine.current
    rw [point] at seated current
    obtain ⟨parent,rest,top,-,-⟩ := seated
    have program := program_of_child standing.forest top
    rw [runner,if_pos (show 4 ≤ stage.rank by omega)] at current
    refine ⟨_,_,run_cons_eq_some.mpr ⟨_,statement_taken standing here,rfl⟩,?_,?_,program,
      executing_standing standing mine here⟩
    · dsimp only
      rw [after_statement,last]
    · dsimp only
      rw [get_cur_task,statement_scheduler]
      dsimp only
      rw [if_neg (show stage.rank ≠ 3 by omega),current,if_neg (by omega)]
  | succ n ih =>
    obtain ⟨stage',next⟩ : ∃ stage', stage.next = some stage' := by
      cases stage <;> first | exact ⟨_,rfl⟩ | exact absurd left (by simp [Stage.rank])
    obtain ⟨p,mine,-⟩ := standing.executes here
    have rank := Stage.rank_next next
    obtain ⟨s',points',ran,done⟩ := ih (executing_standing standing mine here)
      (show after_statement stage pid eip = .executing stage' pid eip by rw [after_statement,next]) (by omega)
    exact ⟨s',points',run_cons_eq_some.mpr ⟨_,statement_taken standing here,ran⟩,done⟩

/-- Three ticks come around to the same terminal, whose task is not marked. -/
theorem ticks_around (file_sys : FileSys) (halt_addr : Word) (standing : Standing s trees points) (mine : Mine s points p) (whole : ¬ Half s.point) : ∃ s',
    run (step file_sys halt_addr) s (List.replicate 3 (.tick default kernel_frame)) = some s' ∧
      Standing s' trees points ∧ Mine s' points p ∧ s'.k.scheduler.cur_task = s.k.scheduler.cur_task ∧
      (s'.k.tasks (get_cur_task s.k)).state ≠ .TASK_EXCEPTION := by
  have enabled (t : Machine) : ∃ t', step file_sys halt_addr t (.tick default kernel_frame) = some t' := by
    rw [step]
    exact ⟨_,if_pos (.inl rfl)⟩
  have calm {t : Machine} {q : Fin 3} (own : Mine t points q) : ¬ Half t.point := by
    rw [own.point]
    by_cases same : q = p
    · rw [same,← mine.point]
      exact whole
    · exact (mine.others q same).2
  obtain ⟨s₁,first⟩ := enabled s
  obtain ⟨standing₁,leaves₁,q₁,turn₁,mine₁⟩ := tick_turns standing whole first
  obtain ⟨s₂,second⟩ := enabled s₁
  obtain ⟨standing₂,leaves₂,q₂,turn₂,mine₂⟩ := tick_turns standing₁ (calm mine₁) second
  obtain ⟨s₃,third⟩ := enabled s₂
  obtain ⟨standing₃,leaves₃,q₃,turn₃,mine₃⟩ := tick_turns standing₂ (calm mine₂) third
  rw [mine.ptree] at turn₁
  rw [mine₁.ptree] at turn₂
  rw [mine₂.ptree] at turn₃
  obtain rfl : q₃ = p := Fin.ext (by omega)
  refine ⟨s₃,?_,standing₃,mine₃,?_,?_⟩
  · exact run_cons_eq_some.mpr ⟨s₁,first,run_cons_eq_some.mpr ⟨s₂,second,run_cons_eq_some.mpr ⟨s₃,third,rfl⟩⟩⟩
  · rw [mine₃.current,mine.current,leaves₃,leaves₂,leaves₁]
  · intro mark
    have before := (tick_state standing₁ second (tick_state standing₂ third mark).2).2
    exact (tick_state standing first before).1 rfl

/-- A program whose mark is gone gives its call the status 0. -/
theorem unmarked_returns_zero (standing : Standing s trees points) (mine : Mine s points p)
    (here : s.point = .halting 0 true) (program : 3 < get_cur_task s.k)
    (unmarked : get_cur_task_state s.k ≠ .TASK_EXCEPTION) :
    ¬ StepsMeet (step file_sys halt_addr) (Returns halt_addr) s (List.replicate 5 .advance) := by
  intro meets
  have leaf := at_leaf standing mine (by rw [here]; exact id)
  obtain ⟨c,line⟩ := end_line_eq s.k
  have first : step file_sys halt_addr s .advance =
      some { s with k := { s.k with console := c }, point := .leaving 0 true } := by
    rw [step,advance,here]
    dsimp only
    rw [line]
  have meets₁ := ((stepsMeet_cons first).mp meets).2
  obtain ⟨s₂,second⟩ := Option.ne_none_iff_exists'.mp (meets₁.1.1 0 true rfl)
  rcases advance_leaving rfl second with ⟨shell,-⟩ | ⟨-,rfl⟩
  · have number : (s.k.tasks (get_cur_task s.k)).pid = get_cur_task s.k := by
      rw [leaf.cur]
      exact leaf.number standing
    have small : FirstShell (s.k.tasks (get_cur_task s.k)).pid := shell
    rw [number,FirstShell] at small
    omega
  · have meets₂ := ((stepsMeet_cons second).mp meets₁).2
    have meets₃ := (meets₂.2 _ rfl).2 _ rfl
    have value : (if get_cur_task_state s.k = .TASK_EXCEPTION then 256 else ((0 : Byte).toNat : Int)) = result 0 true :=
      (meets₃.1.2 _ _ _ _ _ _ rfl).2.2.2
    rw [if_neg unmarked] at value
    cases value

/-- A tick, and the shell of a terminal executes a shell. -/
def shell_call : List Event :=
  .tick default kernel_frame :: .execute Tty.shell_name (fun _ => 0) 0 0 :: List.replicate 11 .advance

theorem shell_call_runs (halt_addr : Word) : ∃ k s, tasks_init shell_image bare_kernel = some k ∧
    run (step shell_image halt_addr) (begin_machine k) shell_call = some s ∧ s.point = .user ∧ 3 < get_cur_task s.k ∧
      ∃ trees points, Standing s trees points := by
  obtain ⟨k,booted⟩ := tasks_init_completes shell_image_loads (k := bare_kernel) rfl rfl
  obtain ⟨s₁,first,user,busy,vector,ten⟩ := first_tick halt_addr default kernel_frame (k := bare_kernel)
    rfl rfl booted rfl
  obtain ⟨pid,k₂,outcome,created⟩ := create_task_succeeds (k := s₁.k) (i := 4) (fun _ => 0) (by omega) shell_image_loads
    (by omega) (by rw [vector]; decide)
  obtain ⟨trees,points,standing⟩ := step_standing (.tick default kernel_frame) (begin_standing rfl rfl booted) id
    first
  have executed : step shell_image halt_addr s₁ (.execute Tty.shell_name (fun _ => 0) 0 0) = some _ :=
    (if_pos ⟨user,busy⟩).trans (congrArg some (begin_execute_done outcome created.low))
  obtain ⟨trees₂,points₂,standing₂⟩ := step_standing (.execute Tty.shell_name (fun _ => 0) 0 0) standing trivial
    executed
  obtain ⟨s,points',ran,done,cur,program,standing'⟩ := call_runs shell_image 10 standing₂ rfl rfl
  exact ⟨k,s,booted,run_cons_eq_some.mpr ⟨s₁,first,run_cons_eq_some.mpr ⟨_,executed,ran⟩⟩,done,cur ▸ program,_,_,standing'⟩

/-! ### From the boot on -/

theorem returns_of_marked {ev : Event} (standing : Standing s trees points) (marked : Marked halt_addr s trees points) :
    Returns halt_addr s ev := by
  cases ev with
  | advance =>
    rcases standing.running with rests | ⟨p,mine⟩
    · constructor
      · intro status fault here
        cases rests.point.symm.trans here
      · intro ret call status fault esp ebp here
        cases rests.point.symm.trans here
    · constructor
      · intro status fault here
        have leaf := at_leaf standing mine (by rw [here]; exact id)
        rw [advance,here]
        dsimp only
        by_cases shell : FirstShell (s.k.tasks (get_cur_task s.k)).pid
        · have left : leave_task status s.k = (.restart_shell _,_) := if_pos shell
          rw [left]
          exact Option.some_ne_none _
        · have left : leave_task status s.k = (.return_from_halt status _ _ _,s.k) := if_neg shell
          rw [left]
          dsimp only
          rw [leaf.cur,leaf.number standing] at shell
          have called := marked.called p _ leaf.held (program_of_held standing.forest leaf.held shell)
          rw [← mine.point,here] at called
          rw [leaf.cur,called.ret_eip (Nat.le_of_ble_eq_true rfl),if_pos rfl]
          exact Option.some_ne_none _
      · intro ret call status fault esp ebp here
        have leaf := at_leaf standing mine (by rw [here]; exact id)
        have carries := marked.carries p
        rw [← mine.point,here] at carries
        obtain ⟨maker,on_esp,on_ebp,value⟩ := carries
        exact ⟨leaf.current.trans maker.symm,on_esp,on_ebp,value⟩
  | _ => trivial

/-- There is no program yet. -/
theorem begin_marked (k : Kernel) : Marked halt_addr (begin_machine k) shells (fun _ => .user) := by
  refine ⟨?_,fun _ => trivial⟩
  intro p pid inside program
  obtain rfl := List.mem_singleton.mp inside
  have := p.isLt
  omega

/-- In every run from the boot on in which no tick comes between an exception
    mark and the test for it, nor between `set_cur_task` and the end of
    `setup_task_stack`, every call of `execute_task` that returns returns to its
    maker with the result of its program. -/
theorem calls_return {evs : List Event} {k₁ : Kernel} (start : k.scheduler = scheduler)
    (unwritten : (k.tasks 0).ptid = 0) (booted : tasks_init file_sys k = some k₁)
    (calm : StepsMeet (step file_sys halt_addr) Calm (begin_machine k₁) evs) :
    StepsMeet (step file_sys halt_addr) (Returns halt_addr) (begin_machine k₁) evs := by
  refine stepsMeet_of_invariant
    (I := fun s => ∃ trees points, Standing s trees points ∧ Marked halt_addr s trees points) ?_ ?_
    ⟨_,_,begin_standing start unwritten booted,begin_marked k₁⟩ calm
  · rintro s ev ⟨trees,points,standing,marked⟩ -
    exact returns_of_marked standing marked
  · rintro s ev s' ⟨trees,points,standing,marked⟩ calm taken
    exact step_marked standing marked calm taken

/-- A program that the shell executes halts with 7. -/
theorem calls_return_halted : ∃ k, tasks_init shell_image bare_kernel = some k ∧
    StepsMeet (step shell_image 0) (Returns 0) (begin_machine k) (shell_call ++ .halt 7 :: List.replicate 6 .advance) := by
  obtain ⟨k,booted⟩ := tasks_init_completes shell_image_loads (k := bare_kernel) rfl rfl
  refine ⟨k,booted,calls_return rfl rfl booted ⟨⟨id,id⟩,fun s _ => stepsMeet_of_always ?_ s⟩⟩
  intro t ev inside
  cases ev with
  | tick regs frame => simp at inside
  | _ => trivial

/-- An exception ends the program, and ticks come before the mark is read. -/
theorem marked_program_returns_zero : ∃ k, tasks_init shell_image bare_kernel = some k ∧
    ¬ StepsMeet (step shell_image 0) (Returns 0) (begin_machine k)
      (shell_call ++ .fault :: (List.replicate 3 (.tick default kernel_frame) ++ List.replicate 5 .advance)) := by
  obtain ⟨k,s,booted,ran,user,program,trees,points,standing⟩ := shell_call_runs 0
  refine ⟨k,booted,?_⟩
  intro meets
  rcases standing.running with rests | ⟨p,mine⟩
  · rw [get_cur_task,rests.current] at program
    exact absurd program (by decide)
  · have leaf := at_leaf standing mine (by rw [user]; exact id)
    have busy : s.k.scheduler.cur_task ≠ 0 := by
      rw [← leaf.cur]
      omega
    have faulted : step shell_image 0 s .fault = some _ := if_pos ⟨user,busy⟩
    have meets₁ := ((stepsMeet_cons faulted).mp (stepsMeet_drop meets ran)).2
    have standing₁ := fault_standing standing mine user
    rcases standing₁.running with rests | ⟨q,mine₁⟩
    · exact absurd rests.current busy
    · obtain ⟨s₂,around,standing₂,mine₂,same,unmarked⟩ := ticks_around shell_image 0 standing₁ mine₁ id
      have cur : get_cur_task s₂.k = get_cur_task s.k := by
        rw [get_cur_task,same]
        rfl
      refine unmarked_returns_zero standing₂ mine₂ (mine₂.point.trans mine₁.point.symm) (cur.symm ▸ program) ?_
        (stepsMeet_drop meets₁ around)
      rw [get_cur_task_state,cur]
      exact unmarked

end Mp3Kernel.HaltStatus

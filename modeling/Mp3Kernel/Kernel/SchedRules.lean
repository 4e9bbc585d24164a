import Mp3Kernel.Kernel.Sched
import Mathlib.Data.Fintype.Card
import Mathlib.Data.Finset.Card

/-!
One rule for each function of the scheduler: the pid vector as a set of live
pids, the outcomes of `create_task`, and what `end_task`, `switch_task` and the
timer interrupt change.
-/
namespace Mp3Kernel.Scheduler
open Mp3Kernel.Memory Mp3Kernel.Filesys Mp3Kernel.Tasks Mp3Kernel.Paging
open Mp3Kernel.Tty (Console)

/-! ### The pid vector -/

/-- The pid's bit is set. -/
def Live (task_vector : Word) (pid : Int) : Prop :=
  0 ≤ pid ∧ pid < 32 ∧ task_vector.getLsbD pid.toNat = true

instance (task_vector : Word) (pid : Int) : Decidable (Live task_vector pid) :=
  inferInstanceAs (Decidable (_ ∧ _ ∧ _))

theorem not_live_of_free {v : Word} {pid : Int} (free : v.getLsbD pid.toNat = false) : ¬ Live v pid :=
  fun live => Bool.false_ne_true (free.symm.trans live.2.2)

def popcount (v : Word) : Nat := (Finset.univ.filter (fun i : Fin 32 => v.getLsbD i.val = true)).card

theorem popcount_le (v : Word) : popcount v ≤ 32 :=
  (Finset.card_filter_le _ _).trans (by simp)

theorem getLsbD_bit {i : Nat} (low : i < 32) (j : Nat) : (bit i).getLsbD j = decide (j = i) := by
  rw [bit,Nat.mod_eq_of_lt low,BitVec.getLsbD_shiftLeft,BitVec.getLsbD_one]
  by_cases below : j < i
  · simp [below]; omega
  · by_cases same : j = i
    · simp [same]; omega
    · have later : j - i ≠ 0 := by omega
      simp [same,later]

/-- Claiming a pid adds it to the live ones, -/
theorem live_claimed {v : Word} {i : Nat} (low : i < 32) (pid : Int) :
    Live (v ||| bit i) pid ↔ Live v pid ∨ pid = i := by
  simp only [Live,BitVec.getLsbD_or,Bool.or_eq_true]
  constructor
  · rintro ⟨low',high,before | now⟩
    · exact .inl ⟨low',high,before⟩
    · rw [getLsbD_bit low _] at now
      have : pid.toNat = i := by simpa using now
      exact .inr (by omega)
  · rintro (⟨low',high,before⟩ | rfl)
    · exact ⟨low',high,.inl before⟩
    · refine ⟨by omega,by omega,.inr ?_⟩
      rw [getLsbD_bit low _]
      simp

/-- and clearing it removes it. -/
theorem live_cleared {v : Word} {i : Nat} (low : i < 32) (pid : Int) :
    Live (v &&& ~~~ bit i) pid ↔ Live v pid ∧ pid ≠ i := by
  simp only [Live,BitVec.getLsbD_and,Bool.and_eq_true]
  constructor
  · rintro ⟨low',high,before,other⟩
    rw [BitVec.getLsbD_not,getLsbD_bit low _] at other
    have : pid.toNat ≠ i := by simpa [show pid.toNat < 32 from by omega] using other
    exact ⟨⟨low',high,before⟩,by omega⟩
  · rintro ⟨⟨low',high,before⟩,other⟩
    refine ⟨low',high,before,?_⟩
    rw [BitVec.getLsbD_not,getLsbD_bit low _]
    simp [show pid.toNat < 32 from by omega,show pid.toNat ≠ i from by omega]

theorem popcount_claimed {v : Word} {i : Nat} (low : i < 32) (free : v.getLsbD i = false) :
    popcount (v ||| bit i) = popcount v + 1 := by
  have inserted : Finset.univ.filter (fun j : Fin 32 => (v ||| bit i).getLsbD j.val = true) =
      insert ⟨i,low⟩ (Finset.univ.filter (fun j : Fin 32 => v.getLsbD j.val = true)) := by
    ext j
    simp only [Finset.mem_filter,Finset.mem_univ,true_and,Finset.mem_insert,BitVec.getLsbD_or,Bool.or_eq_true,
      getLsbD_bit low j.val,decide_eq_true_eq,Fin.ext_iff]
    exact or_comm
  have fresh : (⟨i,low⟩ : Fin 32) ∉ Finset.univ.filter (fun j : Fin 32 => v.getLsbD j.val = true) := by
    intro inside
    exact Bool.false_ne_true (free.symm.trans (Finset.mem_filter.mp inside).2)
  rw [popcount,inserted,Finset.card_insert_of_notMem fresh,popcount]

theorem popcount_cleared {v : Word} {i : Nat} (low : i < 32) (claimed : v.getLsbD i = true) :
    popcount (v &&& ~~~ bit i) + 1 = popcount v := by
  have erased : Finset.univ.filter (fun j : Fin 32 => (v &&& ~~~ bit i).getLsbD j.val = true) =
      (Finset.univ.filter (fun j : Fin 32 => v.getLsbD j.val = true)).erase ⟨i,low⟩ := by
    ext j
    simp only [Finset.mem_filter,Finset.mem_univ,true_and,Finset.mem_erase,BitVec.getLsbD_and,Bool.and_eq_true,
      BitVec.getLsbD_not,getLsbD_bit low j.val,ne_eq,Fin.ext_iff,j.isLt,decide_true,
      Bool.not_eq_true',decide_eq_false_iff_not]
    exact and_comm
  have inside : (⟨i,low⟩ : Fin 32) ∈ Finset.univ.filter (fun j : Fin 32 => v.getLsbD j.val = true) :=
    Finset.mem_filter.mpr ⟨Finset.mem_univ _,claimed⟩
  rw [popcount,erased,Finset.card_erase_add_one inside,popcount]

theorem free_pid_test (v : Word) : v &&& 1 = 0 ↔ v.getLsbD 0 = false := by
  constructor
  · intro zero
    have : (v &&& 1).getLsbD 0 = (0 : Word).getLsbD 0 := by rw [zero]
    simpa using this
  · intro clear
    apply BitVec.eq_of_getLsbD_eq
    intro i inside
    by_cases first : i = 0
    · subst first
      rw [BitVec.getLsbD_and,clear,Bool.false_and]
      rfl
    · rw [BitVec.getLsbD_and]
      simp [BitVec.getLsbD_one,first]

theorem free_pid_succ (v : Word) (i n : Nat) :
    free_pid v i (n + 1) = if v.getLsbD 0 = false then some i else free_pid (v >>> 1) (i + 1) n := by
  rw [free_pid]
  exact if_congr (free_pid_test v) rfl rfl

/-- The search stops at the first clear bit, -/
theorem free_pid_some {v : Word} {i n j : Nat} (found : free_pid v i n = some j) :
    i ≤ j ∧ j < i + n ∧ v.getLsbD (j - i) = false ∧ ∀ l < j - i, v.getLsbD l = true := by
  induction n generalizing v i with
  | zero => cases found
  | succ n ih =>
    rw [free_pid_succ] at found
    by_cases free : v.getLsbD 0 = false
    · rw [if_pos free] at found
      obtain rfl := Option.some.inj found
      refine ⟨le_rfl,by omega,by rw [Nat.sub_self]; exact free,?_⟩
      intro l below
      omega
    · rw [if_neg free] at found
      obtain ⟨low,high,clear,lower⟩ := ih found
      rw [BitVec.getLsbD_ushiftRight,show 1 + (j - (i + 1)) = j - i from by omega] at clear
      refine ⟨by omega,by omega,clear,?_⟩
      intro l below
      by_cases first : l = 0
      · subst first
        simpa using free
      · have next := lower (l - 1) (by omega)
        rwa [BitVec.getLsbD_ushiftRight,show 1 + (l - 1) = l from by omega] at next

/-- and fails only when there is none. -/
theorem free_pid_none {v : Word} {i n : Nat} (full : free_pid v i n = none) : ∀ l < n, v.getLsbD l = true := by
  induction n generalizing v i with
  | zero => intro l below; omega
  | succ n ih =>
    rw [free_pid_succ] at full
    by_cases free : v.getLsbD 0 = false
    · rw [if_pos free] at full
      cases full
    · rw [if_neg free] at full
      intro l below
      by_cases first : l = 0
      · subst first
        simpa using free
      · have next := ih full (l - 1) (by omega)
        rwa [BitVec.getLsbD_ushiftRight,show 1 + (l - 1) = l from by omega] at next

theorem free_pid_full {v : Word} {n : Nat} (full : ∀ l < n, v.getLsbD l = true) : free_pid v 0 n = none := by
  cases search : free_pid v 0 n with
  | none => rfl
  | some i =>
    obtain ⟨-,inside,clear,-⟩ := free_pid_some search
    exact absurd (clear.symm.trans (full (i - 0) (by omega))) Bool.false_ne_true

/-- A pid claimed and given back leaves the vector as it was. -/
theorem claim_clear {v : Word} {i : Nat} (low : i < 32) (free : v.getLsbD i = false) :
    (v ||| bit i) &&& ~~~ bit i = v := by
  apply BitVec.eq_of_getLsbD_eq
  intro j inside
  rw [BitVec.getLsbD_and,BitVec.getLsbD_or,BitVec.getLsbD_not,getLsbD_bit low j]
  by_cases same : j = i
  · simp [same,free]
  · simp [same,inside]

/-! ### create_task -/

theorem setTask_twice (k : Kernel) (pid : Int) (t u : Task) :
    (k.setTask pid t).setTask pid u = k.setTask pid u := by
  simp only [Kernel.setTask,Kernel.mk.injEq,true_and,and_true]
  funext q
  by_cases same : q = pid <;> simp [same]

theorem setTask_self (k : Kernel) (pid : Int) : k.setTask pid (k.tasks pid) = k := by
  have same : (fun q => if q = pid then k.tasks pid else k.tasks q) = k.tasks := by
    funext q
    by_cases at_pid : q = pid <;> simp [at_pid]
  rw [Kernel.setTask,same]

/-- Writing a record keeps of all records what it keeps of that one. -/
theorem setTask_keeps {R : Task → Task → Prop} (k : Kernel) (pid : Int) {t : Task} (whole : ∀ u, R u u)
    (written : R t (k.tasks pid)) (q : Int) : R ((k.setTask pid t).tasks q) (k.tasks q) := by
  by_cases same : q = pid
  · rw [same,setTask_same]
    exact written
  · rw [setTask_other _ _ same]
    exact whole _

/-- Memory once the caller has mapped the new frame and its directory is
    built, -/
def new_frame (pid : Int) (k : Kernel) : Mem :=
  init_task_pd (get_task_addr pid)
    (map_page_directory k.cr3 (get_task_addr pid) (get_task_addr pid) 1 1 k.mem)

/-- and the new record before the program is loaded. -/
def new_record (pid : Int) (k : Kernel) : Task :=
  if k.scheduler.cur_task ≠ -1 then
    { init_record pid (k.tasks pid) with
      parent_task := k.scheduler.cur_task
      ptid := (k.tasks k.scheduler.cur_task).ptid }
  else init_record pid (k.tasks pid)

theorem set_up_task_eq (pid : Int) (k : Kernel) :
    set_up_task pid k =
      { k.setTask pid (new_record pid k) with mem := new_frame pid k, pd := k.cr3 } := by
  by_cases child : k.scheduler.cur_task ≠ -1
  · have ptid : ((k.setTask pid (init_record pid (k.tasks pid))).tasks k.scheduler.cur_task).ptid =
        (k.tasks k.scheduler.cur_task).ptid := by
      by_cases self : k.scheduler.cur_task = pid
      · rw [self,setTask_same]
        rfl
      · rw [setTask_other k _ self]
    have inherits : set_up_task pid k =
        { (k.setTask pid (init_record pid (k.tasks pid))).setTask pid
            { (k.setTask pid (init_record pid (k.tasks pid))).tasks pid with
              parent_task := k.scheduler.cur_task
              ptid := ((k.setTask pid (init_record pid (k.tasks pid))).tasks k.scheduler.cur_task).ptid }
          with mem := new_frame pid k, pd := k.cr3 } := if_pos child
    rw [inherits,ptid,setTask_same,setTask_twice,new_record,if_pos child]
  · rw [new_record,if_neg child]
    exact if_neg child

section
variable (file_sys : FileSys) (fname args : Nat → Byte)

/-- A successful `create_task` claims a free pid and fills its record and its
    frame. -/
structure Created (k : Kernel) (pid : Int) (k' : Kernel) : Prop where
  low : 0 ≤ pid
  bound : pid < k.scheduler.max_tasks
  fresh : k.scheduler.task_vector.getLsbD pid.toNat = false
  lowest : ∀ i < pid.toNat, k.scheduler.task_vector.getLsbD i = true
  found : free_pid k.scheduler.task_vector 0 k.scheduler.max_tasks = some pid.toNat
  scheduler : k'.scheduler = { k.scheduler with
    task_vector := k.scheduler.task_vector ||| bit pid.toNat
    num_tasks := u32 (k.scheduler.num_tasks + 1) }
  others : ∀ q, q ≠ pid → k'.tasks q = k.tasks q
  loaded : ∃ exe_addr, load_program file_sys fname (get_task_addr pid + PROGRAM_IMAGE) (new_frame pid k) =
    (exe_addr,k'.mem) ∧ exe_addr ≠ -1 ∧ k'.tasks pid = loaded_record exe_addr fname args (new_record pid k)
  pd : k'.pd = k.cr3
  cr3 : k'.cr3 = k.cr3
  tss : k'.tss = k.tss
  intr : k'.intr = k.intr
  console : k'.console = k.console

/-- A failing one leaves the scheduler and the live tasks alone. Past the claim
    of a pid it has mapped that pid's frame for the caller and filled it. -/
structure Refused (k k' : Kernel) : Prop where
  scheduler : k'.scheduler = k.scheduler
  cr3 : k'.cr3 = k.cr3
  tss : k'.tss = k.tss
  console : k'.console = k.console
  rest : (∀ i < k.scheduler.max_tasks, k.scheduler.task_vector.getLsbD i = true) ∧
      k'.tasks = k.tasks ∧ k'.mem = k.mem ∧ k'.pd = k.pd ∧ k'.intr = false ∨
    ∃ pid : Int, 0 ≤ pid ∧ pid < k.scheduler.max_tasks ∧ k.scheduler.task_vector.getLsbD pid.toNat = false ∧
      (∀ q, q ≠ pid → k'.tasks q = k.tasks q) ∧
      load_program file_sys fname (get_task_addr pid + PROGRAM_IMAGE) (new_frame pid k) = (-1,k'.mem) ∧
      k'.pd = k.cr3 ∧ k'.intr = k.intr ∧
      free_pid k.scheduler.task_vector 0 k.scheduler.max_tasks = some pid.toNat

variable {file_sys fname args}

theorem create_task_full {k k' : Kernel} {pid : Int} (claimed : get_new_pid { k with intr := false } = (pid,k'))
    (full : pid < 0) : create_task file_sys fname args k = (-1,k') := by
  rw [create_task,claimed]
  exact if_pos full

theorem create_task_failed {k k₁ k₂ : Kernel} {pid : Int}
    (claimed : get_new_pid { k with intr := false } = (pid,k₁)) (free : ¬ pid < 0)
    (failed : load_program_to_task file_sys pid (get_task_addr pid + PROGRAM_IMAGE) fname args
      (set_up_task pid k₁) = (-1,k₂)) :
    create_task file_sys fname args k = (-1,{ clear_pid pid k₂ with intr := k.intr }) := by
  rw [create_task,claimed]
  refine (if_neg free).trans ?_
  rw [failed]
  exact if_pos rfl

theorem create_task_done {k k₁ k₂ : Kernel} {pid : Int}
    (claimed : get_new_pid { k with intr := false } = (pid,k₁)) (free : ¬ pid < 0)
    (done : load_program_to_task file_sys pid (get_task_addr pid + PROGRAM_IMAGE) fname args
      (set_up_task pid k₁) = (0,k₂)) :
    create_task file_sys fname args k =
      (pid,{ k₂ with scheduler.num_tasks := u32 (k₂.scheduler.num_tasks + 1), intr := k.intr }) := by
  rw [create_task,claimed]
  refine (if_neg free).trans ?_
  rw [done]
  exact if_neg (by decide)

/-- What the load leaves of a new pid's record. -/
theorem load_program_to_task_eq (args : Nat → Byte) (pid : Int) (k : Kernel) {exe_addr : Int} {addr : Nat} {m : Mem}
    (program : load_program file_sys fname addr k.mem = (exe_addr,m)) :
    load_program_to_task file_sys pid addr fname args k =
      if exe_addr = -1 then (-1,{ k with mem := m })
      else (0,{ k.setTask pid (loaded_record exe_addr fname args (k.tasks pid)) with mem := m }) := by
  rw [load_program_to_task,program]
  rfl

variable (file_sys fname args) in
theorem create_task_cases {k : Kernel} (few : k.scheduler.max_tasks ≤ 32) :
    ∃ pid k', create_task file_sys fname args k = (pid,k') ∧
      (Created file_sys fname args k pid k' ∨ pid = -1 ∧ Refused file_sys fname k k') := by
  cases search : free_pid k.scheduler.task_vector 0 k.scheduler.max_tasks with
  | none =>
    have claimed : get_new_pid { k with intr := false } = (-1,{ k with intr := false }) := by
      rw [get_new_pid,search]
    refine ⟨_,_,create_task_full claimed (by decide),?_⟩
    exact .inr ⟨rfl,rfl,rfl,rfl,rfl,.inl ⟨free_pid_none search,rfl,rfl,rfl,rfl⟩⟩
  | some i =>
    obtain ⟨-,bound,fresh,lowest⟩ := free_pid_some search
    rw [Nat.sub_zero] at fresh lowest
    have claimed : get_new_pid { k with intr := false } = ((i : Int),
        { k with intr := false, scheduler.task_vector := k.scheduler.task_vector ||| bit i }) := by
      rw [get_new_pid,search]
    have natural : ¬ (i : Int) < 0 := by omega
    cases program : load_program file_sys fname (get_task_addr i + PROGRAM_IMAGE) (new_frame i k) with
    | mk exe_addr m =>
      have image : load_program file_sys fname (get_task_addr i + PROGRAM_IMAGE) (set_up_task i
          { k with intr := false, scheduler.task_vector := k.scheduler.task_vector ||| bit i }).mem = (exe_addr,m) := by
        rw [set_up_task_eq]
        exact program
      have loads := load_program_to_task_eq args i (set_up_task i
        { k with intr := false, scheduler.task_vector := k.scheduler.task_vector ||| bit i }) image
      by_cases failed : exe_addr = -1
      · subst failed
        refine ⟨_,_,create_task_failed claimed natural (loads.trans (if_pos rfl)),.inr ?_⟩
        rw [set_up_task_eq]
        refine ⟨rfl,?_,rfl,rfl,rfl,.inr ⟨i,by omega,by omega,by simpa using fresh,?_,program,rfl,rfl,search⟩⟩
        · simp only [clear_pid,Int.toNat_natCast,setTask_scheduler,claim_clear (show i < 32 from by omega) fresh]
        · intro q other
          exact setTask_other _ _ other
      · refine ⟨_,_,create_task_done claimed natural (loads.trans (if_neg failed)),.inl ?_⟩
        rw [set_up_task_eq]
        refine ⟨by omega,by omega,by simpa using fresh,by simpa using lowest,search,by simp,?_,?_,rfl,rfl,rfl,rfl,rfl⟩
        · intro q other
          exact (setTask_other _ _ other).trans (setTask_other _ _ other)
        · refine ⟨exe_addr,program,failed,?_⟩
          exact (setTask_same _ _ _).trans (congrArg _ (setTask_same _ _ _))

theorem get_new_pid_console {k k' : Kernel} {pid : Int} (claimed : get_new_pid k = (pid,k')) : k'.console = k.console := by
  unfold get_new_pid at claimed
  split at claimed <;> cases claimed <;> rfl

theorem load_program_to_task_console {pid loaded : Int} {addr : Nat}
    {k k' : Kernel} (done : load_program_to_task file_sys pid addr fname args k = (loaded,k')) :
    (loaded = -1 ∨ loaded = 0) ∧ k'.console = k.console := by
  unfold load_program_to_task at done
  dsimp only at done
  split at done
  · cases done
    exact ⟨.inl rfl,rfl⟩
  · cases done
    exact ⟨.inr rfl,rfl⟩

variable (file_sys fname args) in
/-- No creation touches the terminals. -/
theorem create_task_console (k : Kernel) :
    (create_task file_sys fname args k).2.console = k.console := by
  cases claimed : get_new_pid { k with intr := false } with
  | mk pid k₁ =>
    have same := get_new_pid_console claimed
    dsimp only at same
    by_cases full : pid < 0
    · rw [create_task_full claimed full]
      exact same
    · cases done : load_program_to_task file_sys pid (get_task_addr pid + PROGRAM_IMAGE) fname args (set_up_task pid k₁) with
      | mk loaded k₂ =>
        obtain ⟨ends,kept⟩ := load_program_to_task_console done
        rw [set_up_task_eq] at kept
        rcases ends with rfl | rfl
        · rw [create_task_failed claimed full done]
          exact kept.trans same
        · rw [create_task_done claimed full done]
          exact kept.trans same

/-- A program that loads anywhere starts as long as a pid is free. -/
theorem create_task_succeeds {k : Kernel} {i : Nat} (args : Nat → Byte) (few : k.scheduler.max_tasks ≤ 32)
    (loads : ∀ addr m, 0 < addr → (load_program file_sys fname addr m).1 ≠ -1) (bound : i < k.scheduler.max_tasks)
    (free : k.scheduler.task_vector.getLsbD i = false) :
    ∃ pid k', create_task file_sys fname args k = (pid,k') ∧ Created file_sys fname args k pid k' := by
  obtain ⟨pid,k',outcome,created | ⟨-,refused⟩⟩ := create_task_cases file_sys fname args few
  · exact ⟨pid,k',outcome,created⟩
  · rcases refused.rest with ⟨full,-⟩ | ⟨q,-,-,-,-,failed,-,-,-⟩
    · exact absurd (free.symm.trans (full i bound)) Bool.false_ne_true
    · have positive : 0 < get_task_addr q + PROGRAM_IMAGE := Nat.add_pos_right _ (by decide)
      exact absurd (congrArg Prod.fst failed) (loads _ _ positive)

end

section
variable {file_sys : FileSys} {fname args : Nat → Byte} {pid : Int} {k k' : Kernel}

theorem Created.dead (created : Created file_sys fname args k pid k') : ¬ Live k.scheduler.task_vector pid :=
  not_live_of_free created.fresh

/-- The claimed pid is live, and so are those that were. -/
theorem Created.live (created : Created file_sys fname args k pid k') (max_tasks : k.scheduler.max_tasks = 10) (q : Int) :
    Live k'.scheduler.task_vector q ↔ Live k.scheduler.task_vector q ∨ q = pid := by
  have low := created.low
  have bound := created.bound
  have natural : ((pid.toNat : Nat) : Int) = pid := Int.toNat_of_nonneg low
  have vector : k'.scheduler.task_vector = k.scheduler.task_vector ||| bit pid.toNat := by rw [created.scheduler]
  rw [vector,live_claimed (by omega),natural]

end

/-! ### Executing -/

/-- The record of a task that `execute_task` has started. -/
def started (halt_addr esp ebp : Word) (t : Task) : Task :=
  { t with state := .TASK_RUNNING, ret_eip := halt_addr, ret_esp := esp, ret_ebp := ebp }

theorem execute_task_eq (halt_addr esp ebp : Word) (pid : Int) (k : Kernel) :
    execute_task halt_addr esp ebp pid k = (setup_task_stack (k.tasks pid),
      { k.setTask pid (started halt_addr esp ebp (k.tasks pid)) with
        scheduler := { k.scheduler with
          cur_task := pid
          cur_ptree := (k.tasks pid).ptid
          ptree_tasks := fun p => if p = (k.tasks pid).ptid then pid else k.scheduler.ptree_tasks p }
        mem := map_page_directory k.pd GARBAGE_VID_MEM VIRTUAL_VID_MEM 1 1 k.mem
        tss := (k.tasks pid).tss
        cr3 := (k.tasks pid).page_directory
        pd := (k.tasks pid).page_directory }) := by
  simp only [execute_task,map_user,mark_running,set_ret_eip,set_cur_task,set_ptree_task,save_return,load_tss,
    set_task_cr3,get_cr3,setup_task_stack,started,Kernel.setTask,↓reduceIte,Prod.mk.injEq,Kernel.mk.injEq,
    true_and,and_true]
  funext q
  by_cases same : q = pid <;> simp [same]

section
variable (halt_addr esp ebp : Word) (pid : Int) (k : Kernel)

theorem execute_task_started : (execute_task halt_addr esp ebp pid k).2.tasks pid =
    started halt_addr esp ebp (k.tasks pid) := by
  rw [execute_task_eq]
  exact setTask_same k _ _

theorem execute_task_other {q : Int} (other : q ≠ pid) :
    (execute_task halt_addr esp ebp pid k).2.tasks q = k.tasks q := by
  rw [execute_task_eq]
  exact setTask_other k _ other

theorem execute_task_scheduler : (execute_task halt_addr esp ebp pid k).2.scheduler =
    { k.scheduler with
      cur_task := pid
      cur_ptree := (k.tasks pid).ptid
      ptree_tasks := fun p => if p = (k.tasks pid).ptid then pid else k.scheduler.ptree_tasks p } := by
  rw [execute_task_eq]

theorem execute_task_directory : (execute_task halt_addr esp ebp pid k).2.pd = (k.tasks pid).page_directory ∧
    (execute_task halt_addr esp ebp pid k).2.cr3 = (k.tasks pid).page_directory := by
  rw [execute_task_eq]
  exact ⟨rfl,rfl⟩

end

section
variable {file_sys : FileSys} {halt_addr esp ebp : Word} {fname args : Nat → Byte} {pid : Int} {k k' : Kernel}

theorem do_execute_failed (refused : create_task file_sys fname args k = (pid,k')) (failed : pid < 0) :
    do_execute file_sys halt_addr esp ebp fname args k = (none,k') := by
  rw [do_execute,refused]
  exact if_pos failed

theorem do_execute_done (created : create_task file_sys fname args k = (pid,k')) (done : 0 ≤ pid) :
    do_execute file_sys halt_addr esp ebp fname args k =
      (some (execute_task halt_addr esp ebp pid k').1,(execute_task halt_addr esp ebp pid k').2) := by
  rw [do_execute,created]
  exact if_neg (by omega)

end

/-! ### Switching and ending -/

@[simp] theorem switch_task_tasks (pid : Int) (k : Kernel) : (switch_task pid k).tasks = k.tasks := by
  simp only [switch_task]
  split <;> rfl

@[simp] theorem switch_task_scheduler (pid : Int) (k : Kernel) :
    (switch_task pid k).scheduler = (set_cur_task pid k).scheduler := by
  simp only [switch_task]
  split <;> rfl

@[simp] theorem switch_task_cr3 (pid : Int) (k : Kernel) :
    (switch_task pid k).cr3 = (k.tasks pid).page_directory := by
  simp only [switch_task]
  split <;> rfl

@[simp] theorem switch_task_pd (pid : Int) (k : Kernel) :
    (switch_task pid k).pd = (k.tasks pid).page_directory := by
  simp only [switch_task]
  split <;> rfl

@[simp] theorem switch_task_tss (pid : Int) (k : Kernel) : (switch_task pid k).tss = (k.tasks pid).tss := by
  simp only [switch_task]
  split <;> rfl

@[simp] theorem switch_task_intr (pid : Int) (k : Kernel) : (switch_task pid k).intr = k.intr := by
  simp only [switch_task]
  split <;> rfl

@[simp] theorem switch_task_console (pid : Int) (k : Kernel) : (switch_task pid k).console = k.console := by
  simp only [switch_task]
  split <;> rfl

/-- A record without its saved context: what a tick leaves alone. -/
def SameTask (t u : Task) : Prop :=
  ∃ tss state, t = { u with tss := tss, state := state }

theorem SameTask.refl (t : Task) : SameTask t t := ⟨t.tss,t.state,rfl⟩

theorem SameTask.trans {t u w : Task} (first : SameTask t u) (second : SameTask u w) : SameTask t w := by
  obtain ⟨tss,state,rfl⟩ := first
  obtain ⟨tss',state',rfl⟩ := second
  exact ⟨tss,state,rfl⟩

/-- Saving a context touches the record of the current task only. -/
theorem save_context_eq (frame : IretFrame) (k : Kernel) :
    ∃ tss state, save_context frame k =
      k.setTask (get_cur_task k) { k.tasks (get_cur_task k) with tss := tss, state := state } := by
  simp only [save_context,set_cur_task_state,setTask_twice,setTask_same]
  by_cases user : frame.cs = USER_CS
  · rw [if_pos user]
    exact ⟨_,_,rfl⟩
  · rw [if_neg user]
    by_cases kernel : frame.cs = KERNEL_CS
    · rw [if_pos kernel]
      exact ⟨_,_,rfl⟩
    · rw [if_neg kernel]
      exact ⟨_,_,(setTask_self k (get_cur_task k)).symm⟩

/-- The kernel once the context of the current task is saved. -/
def saved_tick (regs : Regs) (frame : IretFrame) (k : Kernel) : Kernel :=
  save_context frame (k.setTask (get_cur_task k) (save_state regs (k.tasks (get_cur_task k))))

theorem timer_tick_eq (regs : Regs) (frame : IretFrame) (k : Kernel) :
    timer_tick regs frame k =
      switch_task (((saved_tick regs frame k).tasks (get_next_task (saved_tick regs frame k))).pid)
        (saved_tick regs frame k) := rfl

theorem saved_tick_eq (regs : Regs) (frame : IretFrame) (k : Kernel) :
    ∃ tss state, saved_tick regs frame k =
      k.setTask (get_cur_task k) { k.tasks (get_cur_task k) with tss := tss, state := state } := by
  obtain ⟨tss,state,saved⟩ := save_context_eq frame
    (k.setTask (get_cur_task k) (save_state regs (k.tasks (get_cur_task k))))
  refine ⟨tss,state,?_⟩
  rw [saved_tick,saved]
  have current (t : Task) : get_cur_task (k.setTask (get_cur_task k) t) = get_cur_task k := rfl
  rw [current,setTask_same,setTask_twice]
  rfl

@[simp] theorem saved_tick_scheduler (regs : Regs) (frame : IretFrame) (k : Kernel) :
    (saved_tick regs frame k).scheduler = k.scheduler := by
  obtain ⟨tss,state,saved⟩ := saved_tick_eq regs frame k
  rw [saved,setTask_scheduler]

@[simp] theorem saved_tick_mem (regs : Regs) (frame : IretFrame) (k : Kernel) :
    (saved_tick regs frame k).mem = k.mem := by
  obtain ⟨tss,state,saved⟩ := saved_tick_eq regs frame k
  rw [saved,setTask_mem]

@[simp] theorem saved_tick_cr3 (regs : Regs) (frame : IretFrame) (k : Kernel) :
    (saved_tick regs frame k).cr3 = k.cr3 := by
  obtain ⟨tss,state,saved⟩ := saved_tick_eq regs frame k
  rw [saved,setTask_cr3]

theorem saved_tick_same (regs : Regs) (frame : IretFrame) (k : Kernel) (pid : Int) :
    SameTask ((saved_tick regs frame k).tasks pid) (k.tasks pid) := by
  obtain ⟨tss,state,saved⟩ := saved_tick_eq regs frame k
  rw [saved]
  by_cases current : pid = get_cur_task k
  · subst current
    exact ⟨tss,state,setTask_same k _ _⟩
  · rw [setTask_other k _ current]
    exact SameTask.refl _

theorem timer_tick_console (regs : Regs) (frame : IretFrame) (k : Kernel) : (timer_tick regs frame k).console = k.console := by
  obtain ⟨tss,state,saved⟩ := saved_tick_eq regs frame k
  rw [timer_tick_eq,switch_task_console,saved,setTask_console]

theorem saved_tick_other (regs : Regs) (frame : IretFrame) (k : Kernel) {pid : Int} (other : pid ≠ get_cur_task k) :
    (saved_tick regs frame k).tasks pid = k.tasks pid := by
  obtain ⟨tss,state,saved⟩ := saved_tick_eq regs frame k
  rw [saved,setTask_other k _ other]

theorem saved_tick_user {regs : Regs} {frame : IretFrame} {k : Kernel} (user : frame.cs = USER_CS) :
    (saved_tick regs frame k).tasks (get_cur_task k) =
      save_task_state frame { save_state regs (k.tasks (get_cur_task k)) with state := .TASK_RUNNING } := by
  rw [saved_tick,save_context,if_pos user]
  simp only [set_cur_task_state]
  have current (t : Task) : get_cur_task (k.setTask (get_cur_task k) t) = get_cur_task k := rfl
  rw [current,setTask_same,setTask_same,setTask_same]

theorem saved_tick_kernel {regs : Regs} {frame : IretFrame} {k : Kernel} (kernel : frame.cs = KERNEL_CS) :
    (saved_tick regs frame k).tasks (get_cur_task k) =
      save_syscall_state frame { save_state regs (k.tasks (get_cur_task k)) with state := .TASK_SYS_CALL } := by
  have other : ¬ frame.cs = USER_CS := by rw [kernel]; decide
  rw [saved_tick,save_context,if_neg other,if_pos kernel]
  simp only [set_cur_task_state]
  have current (t : Task) : get_cur_task (k.setTask (get_cur_task k) t) = get_cur_task k := rfl
  rw [current,setTask_same,setTask_same,setTask_same]

@[simp] theorem end_task_tasks (pid : Int) (k : Kernel) : (end_task pid k).tasks = k.tasks := rfl

/-- `end_task` gives the pid back and goes on with the parent. -/
theorem end_task_scheduler {pid parent : Int} {k : Kernel} (child : (k.tasks pid).parent_task = parent)
    (number : (k.tasks parent).pid = parent) :
    (end_task pid k).scheduler = { k.scheduler with
      task_vector := k.scheduler.task_vector &&& ~~~ bit pid.toNat
      num_tasks := u32 (k.scheduler.num_tasks - 1)
      ptree_tasks := fun p => if p = (k.tasks parent).ptid then parent else k.scheduler.ptree_tasks p
      cur_task := parent
      cur_ptree := (k.tasks parent).ptid } := by
  subst child
  have whole : (end_task pid k).scheduler = { k.scheduler with
      task_vector := k.scheduler.task_vector &&& ~~~ bit pid.toNat
      num_tasks := u32 (k.scheduler.num_tasks - 1)
      ptree_tasks := fun p => if p = (k.tasks (k.tasks pid).parent_task).ptid then
        (k.tasks (k.tasks pid).parent_task).pid else k.scheduler.ptree_tasks p
      cur_task := (k.tasks (k.tasks pid).parent_task).pid
      cur_ptree := (k.tasks (k.tasks (k.tasks pid).parent_task).pid).ptid } := rfl
  rw [whole,number]

theorem end_task_directory (pid : Int) (k : Kernel) :
    (end_task pid k).pd = (k.tasks (k.tasks pid).parent_task).page_directory ∧
      (end_task pid k).cr3 = (k.tasks (k.tasks pid).parent_task).page_directory := ⟨rfl,rfl⟩

/-- The record of a shell that `do_halt` restarts. -/
def restarted (t : Task) : Task :=
  { t with tss := { t.tss with eip := t.ret_eip, eflags := t.ret_eflags, esp := t.ret_esp } }

/-- `do_halt` restarts the first shells and leaves any other task to its
    parent; besides that it may end the line of the terminal. -/
theorem do_halt_cases (status : Byte) (k : Kernel) : ∃ c,
    ((k.tasks (get_cur_task k)).pid = 1 ∨ (k.tasks (get_cur_task k)).pid = 2 ∨ (k.tasks (get_cur_task k)).pid = 3) ∧
      (∃ frame, do_halt status k = (.restart_shell frame,load_tss (get_cur_task k)
        ({ k with console := c }.setTask (get_cur_task k) (restarted (k.tasks (get_cur_task k)))))) ∨
    ¬ ((k.tasks (get_cur_task k)).pid = 1 ∨ (k.tasks (get_cur_task k)).pid = 2 ∨ (k.tasks (get_cur_task k)).pid = 3) ∧
      do_halt status k = (.return_from_halt status (k.tasks (get_cur_task k)).ret_ebp
        (k.tasks (get_cur_task k)).ret_esp (k.tasks (get_cur_task k)).ret_eip,{ k with console := c }) := by
  obtain ⟨c,line⟩ : ∃ c, (if 0 < k.console.screen_x then
      { k with console := (Tty.terminal_write k.scheduler.cur_ptree (some fun _ => Screen.NEWLINE) 1 k.console).2 }
      else k) = { k with console := c } := by
    by_cases pending : 0 < k.console.screen_x
    · exact ⟨_,if_pos pending⟩
    · exact ⟨k.console,if_neg pending⟩
  refine ⟨c,?_⟩
  rw [do_halt,line]
  by_cases shell : (k.tasks (get_cur_task k)).pid = 1 ∨ (k.tasks (get_cur_task k)).pid = 2 ∨
      (k.tasks (get_cur_task k)).pid = 3
  · exact .inl ⟨shell,_,if_pos shell⟩
  · exact .inr ⟨shell,if_neg shell⟩

/-- The three active process trees take turns. -/
theorem get_next_task_eq {k : Kernel} (trees : k.scheduler.ptree_vector = 7) (many : k.scheduler.max_ptrees = 3)
    (low : 0 ≤ k.scheduler.cur_ptree) (high : k.scheduler.cur_ptree < 3) :
    get_next_task k = k.scheduler.ptree_tasks ((k.scheduler.cur_ptree + 1) % 3) := by
  have first : active_ptree 7#32 1 2 = some 1 := by decide
  have second : active_ptree 7#32 2 1 = some 2 := by decide
  have third : active_ptree 7#32 3 0 = none ∧ active_ptree 7#32 0 2 = some 0 := by decide
  have ptree : k.scheduler.cur_ptree = 0 ∨ k.scheduler.cur_ptree = 1 ∨ k.scheduler.cur_ptree = 2 := by omega
  rcases ptree with ptree | ptree | ptree
  · simp [get_next_task,trees,many,ptree,u32,first]
  · simp [get_next_task,trees,many,ptree,u32,second]
  · simp [get_next_task,trees,many,ptree,u32,third]

end Mp3Kernel.Scheduler

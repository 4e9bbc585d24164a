import Mp3Kernel.Filesys.Program
import Mp3Kernel.Kernel.TaskForest

/-!
What a failed `create_task` leaves behind. Both exits restore the pid vector,
but the one without a free pid keeps interrupts disabled, and the other keeps
the new frame mapped for the caller; `Undone` says when neither shows.
-/
namespace Mp3Kernel.Rollback
open Mp3Kernel.Memory Mp3Kernel.Filesys Mp3Kernel.Tasks Mp3Kernel.Paging Mp3Kernel.Scheduler

/-- The scheduler, the caller's page directory and the interrupt flag are as
    before. -/
structure Untouched (k k' : Kernel) : Prop where
  task_vector : k'.scheduler.task_vector = k.scheduler.task_vector
  num_tasks : k'.scheduler.num_tasks = k.scheduler.num_tasks
  cur_task : k'.scheduler.cur_task = k.scheduler.cur_task
  cur_ptree : k'.scheduler.cur_ptree = k.scheduler.cur_ptree
  ptree_tasks : k'.scheduler.ptree_tasks = k.scheduler.ptree_tasks
  page_directory : ∀ i < NUM_PAGES, entry k'.mem k.cr3 i = entry k.mem k.cr3 i
  intr : k'.intr = k.intr

/-- The caller's page directory lies outside the frames of the free pids. -/
def Outside (k : Kernel) : Prop :=
  ∀ pid : Int, 0 ≤ pid → pid < k.scheduler.max_tasks → ¬ Live k.scheduler.task_vector pid →
    k.cr3 + 4 * NUM_PAGES ≤ get_task_addr pid ∨ get_task_addr pid + SIZE_4MB_PAGE ≤ k.cr3

/-- The caller's mapping of the frame of `pid`. -/
def frame_entry (pid : Int) (k : Kernel) : Word := entry k.mem k.cr3 (pd_index (get_task_addr pid))

/-- Without a free pid interrupts were disabled already; otherwise the frame of
    the pid was mapped for the caller already. A file that fails by its entry
    point alone is copied first, and may reach the directory. -/
def Undone (file_sys : FileSys) (fname : Nat → Byte) (k : Kernel) : Prop :=
  match free_pid k.scheduler.task_vector 0 k.scheduler.max_tasks with
  | none => k.intr = false
  | some pid =>
    if Elf file_sys fname then
      ∀ i < NUM_PAGES,
        entry (storeBytes (map_page_directory k.cr3 (get_task_addr pid) (get_task_addr pid) 1 1 k.mem)
          (get_task_addr pid + PROGRAM_IMAGE) (image file_sys fname)) k.cr3 i = entry k.mem k.cr3 i
    else frame_entry pid k = large_entry (get_task_addr pid) 1

variable {file_sys : FileSys} {fname args : Nat → Byte} {k k' : Kernel}

theorem pd_index_lt {virt_addr : Nat} (fits : virt_addr < 4294967296) : pd_index virt_addr < 1024 := by
  rw [pd_index_eq fits]
  omega

/-- One more mapping shows nowhere exactly when it was there before. -/
theorem entries_mapped_iff {phys_addr virt_addr : Nat} (pd : Nat) (m : Mem) (fits : virt_addr < 4294967296) :
    (∀ i < NUM_PAGES, entry (map_page_directory pd phys_addr virt_addr 1 1 m) pd i = entry m pd i) ↔
      entry m pd (pd_index virt_addr) = large_entry phys_addr 1 := by
  simp only [map_page_directory_large,entry_store]
  constructor
  · intro same
    have here := same _ (pd_index_lt fits)
    rw [if_pos rfl] at here
    exact here.symm
  · intro before i _
    by_cases here : i = pd_index virt_addr
    · rw [if_pos here,here,before]
    · rw [if_neg here]

/-- A store of bytes over two memories that agree on a table. -/
theorem entry_storeBytes_congr {m m' : Mem} {table i addr : Nat} (bytes : List Byte)
    (same : ∀ b, table + 4 * i ≤ b → b < table + 4 * i + 4 → m b = m' b) :
    entry (storeBytes m addr bytes) table i = entry (storeBytes m' addr bytes) table i := by
  refine load32_congr ?_
  intro b low high
  simp only [storeBytes]
  split
  · rfl
  · exact same b low high

/-- Outside the new frame only the caller's mapping of it is written. -/
theorem new_frame_outside {pid : Int} {b : Nat} (low : 0 ≤ pid) (high : pid < 32)
    (apart : b < get_task_addr pid ∨ get_task_addr pid + SIZE_4MB_PAGE ≤ b) :
    new_frame pid k b = map_page_directory k.cr3 (get_task_addr pid) (get_task_addr pid) 1 1 k.mem b := by
  have addr := get_task_addr_small low high
  exact init_task_pd_outside _ (by omega) (by simp only [SIZE_4MB_PAGE] at apart; omega)

/-- The caller's directory after the failure of a program for which a pid was
    free. -/
theorem directory_after {pid : Int} (low : 0 ≤ pid) (high : pid < 32)
    (apart : k.cr3 + 4 * NUM_PAGES ≤ get_task_addr pid ∨ get_task_addr pid + SIZE_4MB_PAGE ≤ k.cr3)
    (failed : load_program file_sys fname (get_task_addr pid + PROGRAM_IMAGE) (new_frame pid k) = (-1,k'.mem))
    {i : Nat} (inside : i < NUM_PAGES) :
    entry k'.mem k.cr3 i =
      let mapped := map_page_directory k.cr3 (get_task_addr pid) (get_task_addr pid) 1 1 k.mem
      if Elf file_sys fname then
        entry (storeBytes mapped (get_task_addr pid + PROGRAM_IMAGE) (image file_sys fname)) k.cr3 i
      else entry mapped k.cr3 i := by
  have same (b : Nat) (first : k.cr3 + 4 * i ≤ b) (last : b < k.cr3 + 4 * i + 4) :
      new_frame pid k b = map_page_directory k.cr3 (get_task_addr pid) (get_task_addr pid) 1 1 k.mem b :=
    new_frame_outside low high (by simp only [NUM_PAGES] at apart inside; omega)
  have positive : get_task_addr pid + PROGRAM_IMAGE ≠ 0 := (Nat.add_pos_right _ (by decide)).ne'
  rw [load_program_eq _ positive] at failed
  dsimp only
  by_cases elf : Elf file_sys fname
  · rw [if_pos elf,Prod.mk.injEq] at failed
    rw [if_pos elf,← failed.2]
    exact entry_storeBytes_congr _ same
  · rw [if_neg elf,Prod.mk.injEq] at failed
    rw [if_neg elf,← failed.2]
    exact load32_congr same

/-- Where the scheduler is as before, the directory and the interrupt flag
    decide. -/
theorem untouched_iff (scheduler : k'.scheduler = k.scheduler) :
    Untouched k k' ↔ (∀ i < NUM_PAGES, entry k'.mem k.cr3 i = entry k.mem k.cr3 i) ∧ k'.intr = k.intr := by
  constructor
  · intro untouched
    exact ⟨untouched.page_directory,untouched.intr⟩
  · rintro ⟨kept,intr⟩
    exact ⟨by rw [scheduler],by rw [scheduler],by rw [scheduler],by rw [scheduler],by rw [scheduler],kept,intr⟩

/-- A failed `create_task` leaves everything as it was exactly when there was
    nothing to undo. -/
theorem failed_create_task_untouched_iff (few : k.scheduler.max_tasks ≤ 32) (outside : Outside k)
    (failed : create_task file_sys fname args k = (-1,k')) : Untouched k k' ↔ Undone file_sys fname k := by
  obtain ⟨pid,k₁,outcome,created | ⟨-,refused⟩⟩ := create_task_cases file_sys fname args few
  · have same := congrArg Prod.fst (outcome.symm.trans failed)
    have low := created.low
    dsimp only at same
    omega
  obtain rfl : k₁ = k' := congrArg Prod.snd (outcome.symm.trans failed)
  rcases refused.rest with ⟨full,-,mem,-,intr⟩ | ⟨new,low,bound,free,-,loaded,-,intr,search⟩
  · rw [untouched_iff refused.scheduler,Undone,free_pid_full full,intr]
    constructor
    · rintro ⟨-,disabled⟩
      exact disabled.symm
    · intro disabled
      exact ⟨fun _ _ => by rw [mem],disabled.symm⟩
  · have dead : ¬ Live k.scheduler.task_vector new := by
      rintro ⟨-,-,set⟩
      exact Bool.false_ne_true (free.symm.trans set)
    have high : new < 32 := by omega
    have addr := get_task_addr_small low high
    have natural : ((new.toNat : Nat) : Int) = new := Int.toNat_of_nonneg low
    have directory := fun i (inside : i < NUM_PAGES) =>
      directory_after low high (outside new low bound dead) loaded inside
    rw [untouched_iff refused.scheduler,and_iff_left intr,Undone,search]
    dsimp only
    rw [natural]
    by_cases elf : Elf file_sys fname
    · rw [if_pos elf]
      refine forall₂_congr fun i inside => ?_
      rw [directory i inside]
      dsimp only
      rw [if_pos elf]
    · rw [if_neg elf,frame_entry,← entries_mapped_iff k.cr3 k.mem (by omega)]
      refine forall₂_congr fun i inside => ?_
      rw [directory i inside]
      dsimp only
      rw [if_neg elf]

/-- A kernel in which all ten pids are taken. -/
def crowded_kernel (intr : Bool) : Kernel :=
  { (default : Kernel) with scheduler := { scheduler with task_vector := 0x3FF, num_tasks := 10 }, intr := intr }

theorem crowded_kernel_fails (file_sys : FileSys) (fname args : Nat → Byte) (intr : Bool) :
    create_task file_sys fname args (crowded_kernel intr) = (-1,crowded_kernel false) := by
  have claimed : get_new_pid { crowded_kernel intr with intr := false } = (-1,crowded_kernel false) := by
    have full : free_pid 0x3FF 0 10 = none := by decide
    rw [get_new_pid]
    simp only [crowded_kernel,scheduler,full]
  exact create_task_full claimed (by decide)

theorem outside_crowded_kernel (intr : Bool) : Outside (crowded_kernel intr) := by
  have set : ∀ i < 10, (0x3FF : Word).getLsbD i = true := by decide
  intro pid low bound dead
  have ten : pid < 10 := bound
  exact absurd ⟨low,by omega,set pid.toNat (by omega)⟩ dead

theorem failed_create_task_untouched_disabled :
    Untouched (crowded_kernel false) (crowded_kernel false) ↔
      Undone TaskForest.shell_image (fun _ => 0) (crowded_kernel false) :=
  failed_create_task_untouched_iff (by decide) (outside_crowded_kernel false)
    (crowded_kernel_fails TaskForest.shell_image (fun _ => 0) (fun _ => 0) false)

/-- Without a free pid, interrupts stay off; with one, an absent program leaves
    the frame of its pid mapped. -/
theorem failed_create_task_leaks :
    (∃ k', create_task TaskForest.shell_image (fun _ => 0) (fun _ => 0) (crowded_kernel true) = (-1,k') ∧
      ¬ Untouched (crowded_kernel true) k') ∧
    ∃ k', create_task TaskForest.shell_image (fun _ => 0) (fun _ => 0) TaskForest.bare_kernel = (-1,k') ∧
      ¬ Untouched TaskForest.bare_kernel k' := by
  refine ⟨⟨_,crowded_kernel_fails _ _ _ true,fun untouched => Bool.false_ne_true untouched.intr⟩,?_⟩
  have absent : ¬ Elf TaskForest.shell_image (fun _ => 0) := by
    have unnamed : find_dentry TaskForest.shell_image (fun _ => 0) = none := by decide
    rintro ⟨found,-⟩
    rw [read_dentry_by_name,if_neg (by decide),unnamed] at found
    exact found rfl
  obtain ⟨pid,k',outcome,created | ⟨rfl,refused⟩⟩ := create_task_cases TaskForest.shell_image (fun _ => 0) (fun _ => 0)
    (k := TaskForest.bare_kernel) (by decide)
  · obtain ⟨exe_addr,loaded,positive,-⟩ := created.loaded
    rw [load_program_eq _ (Nat.add_pos_right _ (by decide)).ne',if_neg absent] at loaded
    exact absurd (congrArg Prod.fst loaded).symm positive
  refine ⟨k',outcome,?_⟩
  intro untouched
  have kept := untouched.page_directory 2 (by decide)
  have search : free_pid TaskForest.bare_kernel.scheduler.task_vector 0 TaskForest.bare_kernel.scheduler.max_tasks =
      some 0 := by decide
  rcases refused.rest with ⟨full,-⟩ | ⟨new,low,bound,-,-,loaded,-,-,found⟩
  · exact absurd (full 0 (by decide)) (by decide)
  · have first : new = 0 := by
      have same := Option.some.inj (search.symm.trans found)
      omega
    subst first
    have index : pd_index (get_task_addr 0) = 2 := pd_index_eq (by decide)
    have after := directory_after (i := 2) le_rfl (by decide) (.inl (by decide)) loaded (by decide)
    dsimp only at after
    rw [if_neg absent,map_page_directory_large,entry_store,index,if_pos rfl] at after
    exact absurd (after.symm.trans kept) (by decide)

end Mp3Kernel.Rollback

import Mp3Kernel.Kernel.TaskForest
import Mp3Kernel.Filesys.Program

/-!
Which task's frame a directory lets user code reach. A directory is built over
whatever its frame held, `create_task` maps the new frame for its caller, and
only `end_task` takes that mapping back.
-/
namespace Mp3Kernel.Isolation
open Mp3Kernel.Memory Mp3Kernel.Filesys Mp3Kernel.Tasks Mp3Kernel.Paging
open Mp3Kernel.Scheduler Mp3Kernel.Stacks Mp3Kernel.Runs Mp3Kernel.TaskForest
open Mp3Kernel.Tty (Console shell_name)

/-- The first word of a pid's frame as an entry names it. -/
def frame_base (q : Int) : Word := BitVec.ofNat 32 (get_task_addr q)

/-- Through a directory entry user code reaches the frame of `q`: as a 4 MB
    page, or as some page of the page table that the entry points to. -/
def Exposes (m : Mem) (e : Word) (q : Int) : Prop :=
  Present e ∧ UserAccessible e ∧
    if Large e then e &&& FIRST_10_BITS = frame_base q
    else ∃ j < NUM_PAGES, Present (entry m (e &&& FIRST_20_BITS).toNat j) ∧
      UserAccessible (entry m (e &&& FIRST_20_BITS).toNat j) ∧
      entry m (e &&& FIRST_20_BITS).toNat j &&& FIRST_10_BITS = frame_base q

/-- The running task reaches no other live task's frame. -/
def Isolated (k : Kernel) : Prop :=
  ∀ q, Live k.scheduler.task_vector q → q ≠ k.scheduler.cur_task → ∀ i < NUM_PAGES,
    ¬ Exposes k.mem (entry k.mem (k.tasks k.scheduler.cur_task).page_directory i) q

/-- User code reaches no task's frame through the entry, except `p`'s own. -/
def Harmless (p : Int) (e : Word) : Prop :=
  Present e → UserAccessible e → Large e ∧
    ∀ q, 0 ≤ q → q < 10 → e &&& FIRST_10_BITS = frame_base q → q = p

/-- The words that the frames hold where directories will be built are
    harmless. -/
def CleanFrames (m : Mem) : Prop :=
  ∀ p, 0 ≤ p → p < 10 → ∀ i < NUM_PAGES, Harmless p (entry m (get_task_addr p) i)

/-- The program's blocks fit in a frame behind PROGRAM_IMAGE. -/
def Fits (file_sys : FileSys) (fname : Nat → Byte) : Prop :=
  4096 * ((file_sys.inodes (program_inode file_sys fname)).len / 4096 + 1) ≤ SIZE_4MB_PAGE - PROGRAM_IMAGE

instance (file_sys : FileSys) (fname : Nat → Byte) : Decidable (Fits file_sys fname) :=
  inferInstanceAs (Decidable (_ ≤ _))

/-- An execute that finds a free pid starts its program, which fits. -/
def Admitted (file_sys : FileSys) (k : Kernel) : Op → Prop
  | .execute programName _ _ _ => ∀ i, free_pid k.scheduler.task_vector 0 k.scheduler.max_tasks = some i →
      Fits file_sys programName ∧
        (load_program file_sys programName (get_task_addr i + PROGRAM_IMAGE) (new_frame i k)).1 ≠ -1
  | .halt _ => True
  | .tick _ _ => True

/-! ### Frames -/

variable {m m' : Mem} {p q : Int} {i : Nat}

theorem frame_base_masked (low : 0 ≤ q) (high : q < 10) : frame_base q &&& FIRST_10_BITS = frame_base q := by
  have all : ∀ n : Fin 10, frame_base n.val &&& FIRST_10_BITS = frame_base n.val := by decide
  have instance_q := all ⟨q.toNat,by omega⟩
  rwa [show (((⟨q.toNat,by omega⟩ : Fin 10).val : Nat) : Int) = q from by dsimp only; omega] at instance_q

theorem frame_base_injective (low : 0 ≤ p) (high : p < 10) (low' : 0 ≤ q) (high' : q < 10)
    (same : frame_base p = frame_base q) : p = q := by
  have value {r : Int} (low : 0 ≤ r) (high : r < 10) : (frame_base r).toNat = 0x800000 + r.toNat * 0x400000 := by
    rw [frame_base,get_task_addr_eq low high,BitVec.toNat_ofNat]
    omega
  have equal := congrArg BitVec.toNat same
  rw [value low high,value low' high'] at equal
  omega

theorem pd_index_frame (low : 0 ≤ q) (high : q < 10) : pd_index (get_task_addr q) = q.toNat + 2 := by
  rw [pd_index_eq (by rw [get_task_addr_eq low high]; omega),get_task_addr_eq low high]
  omega

/-- A directory that lies in a task's frame, or below the frames. -/
def Directory (pd : Nat) : Prop := (∃ q, 0 ≤ q ∧ q < 10 ∧ pd = get_task_addr q) ∨ pd + 4096 ≤ 0x800000

/-- A mapping made in a directory changes one entry of it. -/
theorem entry_map {pd virt_addr : Nat} (directory : Directory pd) (phys_addr : Nat) (fits : virt_addr < 4294967296)
    (low : 0 ≤ p) (high : p < 10) (inside : i < NUM_PAGES) :
    entry (map_page_directory pd phys_addr virt_addr 1 1 m) (get_task_addr p) i =
      if pd = get_task_addr p ∧ i = virt_addr / 4194304 then large_entry phys_addr 1
      else entry m (get_task_addr p) i := by
  rw [map_page_directory_large,pd_index_eq fits]
  have index : virt_addr / 4194304 < 1024 := by omega
  by_cases own : pd = get_task_addr p
  · rw [own,entry_store]
    simp
  · rw [if_neg (fun both => own both.1)]
    refine entry_store_other _ ?_
    rw [get_task_addr_eq low high] at own ⊢
    simp only [NUM_PAGES] at inside
    rcases directory with ⟨r,low',high',rfl⟩ | below
    · rw [get_task_addr_eq low' high'] at own ⊢
      omega
    · omega

/-- A new directory changes only entries of its own frame. -/
theorem entry_new (low : 0 ≤ p) (high : p < 10) (low' : 0 ≤ q) (high' : q < 10) (other : p ≠ q)
    (inside : i < NUM_PAGES) :
    entry (init_task_pd (get_task_addr q) m) (get_task_addr p) i = entry m (get_task_addr p) i := by
  refine load32_congr (fun b first last => init_task_pd_outside m ?_ ?_)
  · rw [get_task_addr_eq low' high']
    omega
  · simp only [NUM_PAGES] at inside
    rw [get_task_addr_eq low high] at first last
    rw [get_task_addr_eq low' high']
    omega

/-- A program that fits changes no directory. -/
theorem entry_load {file_sys : FileSys} {fname : Nat → Byte} {exe_addr : Int} (fits : Fits file_sys fname)
    (low : 0 ≤ p) (high : p < 10) (low' : 0 ≤ q) (high' : q < 10) (inside : i < NUM_PAGES)
    (loaded : load_program file_sys fname (get_task_addr q + PROGRAM_IMAGE) m = (exe_addr,m')) :
    entry m' (get_task_addr p) i = entry m (get_task_addr p) i := by
  rcases load_program_writes loaded with rfl | ⟨bytes,rfl,length⟩
  · rfl
  · refine load32_storeBytes_apart ?_
    simp only [Fits,SIZE_4MB_PAGE,PROGRAM_IMAGE] at fits
    simp only [NUM_PAGES] at inside
    rw [get_task_addr_eq low high,get_task_addr_eq low' high']
    simp only [PROGRAM_IMAGE]
    omega

/-- The five entries of a new directory are harmless, and so are the others if
    they were. -/
theorem harmless_large {phys_addr : Nat} (own : ∀ q, 0 ≤ q → q < 10 →
    BitVec.ofNat 32 phys_addr &&& FIRST_10_BITS = frame_base q → q = p) : Harmless p (large_entry phys_addr 1) := by
  obtain ⟨-,large,-,base⟩ := large_entry_decoded phys_addr (by decide : (1 : Nat) < 2)
  intro _ _
  refine ⟨large,?_⟩
  intro q low high same
  rw [base] at same
  exact own q low high same

theorem harmless_outside {phys_addr : Nat} (outside : ∀ q : Fin 10,
    BitVec.ofNat 32 phys_addr &&& FIRST_10_BITS ≠ frame_base q.val) : Harmless p (large_entry phys_addr 1) := by
  refine harmless_large (fun q low high same => ?_)
  have apart := outside ⟨q.toNat,by omega⟩
  rw [show (((⟨q.toNat,by omega⟩ : Fin 10).val : Nat) : Int) = q from by dsimp only; omega] at apart
  exact absurd same apart

theorem harmless_video : Harmless p (large_entry VIDEO 1) := harmless_outside (by decide)
theorem harmless_garbage : Harmless p (large_entry GARBAGE_VID_MEM 1) := harmless_outside (by decide)

theorem harmless_own (low : 0 ≤ p) (high : p < 10) : Harmless p (large_entry (get_task_addr p) 1) := by
  refine harmless_large (fun q low' high' same => ?_)
  rw [show BitVec.ofNat 32 (get_task_addr p) = frame_base p from rfl,frame_base_masked low high] at same
  exact (frame_base_injective low high low' high' same).symm

theorem harmless_supervisor {e : Word} (supervisor : ¬ UserAccessible e) : Harmless p e :=
  fun _ user => absurd user supervisor

/-! ### The mappings that remain -/

/-- `q` is a live child of the live task `p`, which is not the idle task. -/
structure Child (k : Kernel) (p q : Int) : Prop where
  caller : p ≠ 0
  caller_live : Live k.scheduler.task_vector p
  positive : q ≠ 0
  live : Live k.scheduler.task_vector q
  parent_task : (k.tasks q).parent_task = p

/-- Entry `i` of the directory in frame `p` may map that frame, and the frame of
    a child at its own place. -/
def Owned (k : Kernel) (p : Int) (i : Nat) (e : Word) : Prop :=
  Present e → UserAccessible e → Large e ∧
    ∀ q, 0 ≤ q → q < 10 → e &&& FIRST_10_BITS = frame_base q → q = p ∨ Child k p q ∧ i = q.toNat + 2

def Directories (k : Kernel) : Prop :=
  ∀ p, 0 ≤ p → p < 10 → ∀ i < NUM_PAGES, Owned k p i (entry k.mem (get_task_addr p) i)

variable {k k' : Kernel} {trees : Fin 3 → List Int} {halt_addr : Word}

theorem owned_of_harmless {e : Word} (harmless : Harmless p e) : Owned k p i e := by
  intro present user
  obtain ⟨large,own⟩ := harmless present user
  exact ⟨large,fun q low high same => .inl (own q low high same)⟩

theorem owned_mono {e : Word} (children : ∀ q, Child k p q → i = q.toNat + 2 → Child k' p q) (owned : Owned k p i e) :
    Owned k' p i e := by
  intro present user
  obtain ⟨large,own⟩ := owned present user
  refine ⟨large,fun q low high same => ?_⟩
  rcases own q low high same with same | ⟨child,place⟩
  · exact .inl same
  · exact .inr ⟨children q child place,place⟩

/-- Harmless rewrites and steps that end no task keep the mappings in order. -/
theorem directories_step (directories : Directories k)
    (entries : ∀ p, 0 ≤ p → p < 10 → ∀ i < NUM_PAGES,
      entry k'.mem (get_task_addr p) i = entry k.mem (get_task_addr p) i ∨
      Harmless p (entry k'.mem (get_task_addr p) i))
    (children : ∀ p q, Child k p q → Child k' p q) : Directories k' := by
  intro p low high i inside
  rcases entries p low high i inside with same | harmless
  · rw [same]
    exact owned_mono (fun q child _ => children p q child) (directories p low high i inside)
  · exact owned_of_harmless harmless

theorem directories_keep (directories : Directories k) (mem : k'.mem = k.mem)
    (vector : k'.scheduler.task_vector = k.scheduler.task_vector)
    (parents : ∀ q, q ≠ 0 → (k'.tasks q).parent_task = (k.tasks q).parent_task) : Directories k' := by
  refine directories_step directories (fun p _ _ i _ => .inl (by rw [mem])) ?_
  rintro p q ⟨caller,caller_live,positive,alive,parent_task⟩
  rw [← vector] at caller_live alive
  exact ⟨caller,caller_live,positive,alive,(parents q positive).trans parent_task⟩

/-- Where the caller of `create_task` maps the new frame. -/
def Home (k : Kernel) : Prop :=
  k.cr3 + 4096 ≤ 0x800000 ∨
    k.cr3 = get_task_addr k.scheduler.cur_task ∧ k.scheduler.cur_task ≠ 0 ∧ k.scheduler.cur_task < 10 ∧
      Live k.scheduler.task_vector k.scheduler.cur_task ∧ Live k.scheduler.task_vector 0

theorem Home.directory (home : Home k) : Directory k.cr3 := by
  rcases home with below | ⟨same,-,high,live,-⟩
  · exact .inr below
  · exact .inl ⟨_,live.1,high,same⟩

/-- The entries of a new directory are harmless, or what the frame held. -/
theorem new_directory (low : 0 ≤ p) (high : p < 10) (directory : Directory k.cr3) (inside : i < NUM_PAGES) :
    Harmless p (entry (new_frame p k) (get_task_addr p) i) ∨
      entry (new_frame p k) (get_task_addr p) i = entry k.mem (get_task_addr p) i := by
  have address := get_task_addr_eq low high
  rw [new_frame,entry_init_task_pd _ inside,pd_index_eq (by omega)]
  by_cases video : i = 64
  · rw [if_pos video]
    exact .inl harmless_video
  rw [if_neg video]
  by_cases execution : i = 32
  · rw [if_pos execution]
    exact .inl (harmless_own low high)
  rw [if_neg execution]
  by_cases itself : i = get_task_addr p / 4194304
  · rw [if_pos itself]
    exact .inl (harmless_own low high)
  rw [if_neg itself]
  by_cases kernel : i = 1
  · rw [if_pos kernel]
    refine .inl (harmless_supervisor ?_)
    rw [(large_entry_decoded KERNEL_LOCATION (by decide : (0 : Nat) < 2)).2.2.1]
    decide
  rw [if_neg kernel]
  by_cases table : i = 0
  · rw [if_pos table]
    refine .inl (harmless_supervisor ?_)
    rw [UserAccessible,BitVec.and_or_distrib_right,BitVec.and_assoc]
    have bits : FIRST_20_BITS &&& 4 = 0 ∧ SUPERVISOR_RW_PRESENT &&& 4 = 0 := by decide
    rw [bits.1,bits.2]
    simp
  · rw [if_neg table,entry_map directory _ (by omega) low high inside,if_neg (fun both => itself both.2)]
    exact .inr rfl

/-- A parent may map the frame of its child at the place of that frame. -/
theorem owned_child (low : 0 ≤ q) (high : q < 10) (child : Child k p q) :
    Owned k p (get_task_addr q / 4194304) (large_entry (get_task_addr q) 1) := by
  have address := get_task_addr_eq low high
  obtain ⟨-,large,-,base⟩ := large_entry_decoded (get_task_addr q) (by decide : (1 : Nat) < 2)
  intro _ _
  refine ⟨large,fun r low' high' named => ?_⟩
  rw [base,show BitVec.ofNat 32 (get_task_addr q) = frame_base q from rfl,frame_base_masked low high] at named
  obtain rfl := frame_base_injective low high low' high' named
  exact .inr ⟨child,by omega⟩

theorem directories_create {file_sys : FileSys} {fname args : Nat → Byte} {pid : Int} (directories : Directories k)
    (home : Home k) (max_tasks : k.scheduler.max_tasks = 10) (fits : Fits file_sys fname)
    (created : Created file_sys fname args k pid k') : Directories k' := by
  have low' := created.low
  have high' : pid < 10 := by have := created.bound; omega
  have address := get_task_addr_eq low' high'
  have dead := created.dead
  have live := created.live max_tasks
  have children (p q : Int) (child : Child k p q) : Child k' p q := by
    refine ⟨child.caller,(live p).mpr (.inl child.caller_live),child.positive,(live q).mpr (.inl child.live),?_⟩
    rw [created.others q (fun same => dead (same ▸ child.live))]
    exact child.parent_task
  obtain ⟨exe_addr,loaded,-,made⟩ := created.loaded
  intro p low high i inside
  rw [entry_load fits low high low' high' inside loaded]
  by_cases own : p = pid
  · subst own
    rcases new_directory low high home.directory inside with harmless | held
    · exact owned_of_harmless harmless
    · rw [held]
      exact owned_mono (fun q child _ => absurd child.caller_live dead) (directories p low high i inside)
  · rw [new_frame,entry_new low high low' high' own inside,entry_map home.directory _ (by omega) low high inside]
    by_cases mapped : k.cr3 = get_task_addr p ∧ i = get_task_addr pid / 4194304
    · rw [if_pos mapped]
      obtain ⟨home_p,rfl⟩ := mapped
      rcases home with below | ⟨same,caller,bound,alive,idle⟩
      · rw [home_p,get_task_addr_eq low high] at below
        omega
      · have current : k.scheduler.cur_task = p := by
          rw [home_p,get_task_addr_eq low high,get_task_addr_eq alive.1 bound] at same
          have := alive.1
          omega
        rw [current] at caller alive
        refine owned_child low' high' ⟨caller,(live p).mpr (.inl alive),?_,(live pid).mpr (.inr rfl),?_⟩
        · intro zero
          exact dead (zero ▸ idle)
        · rw [made,new_record,if_pos (by rw [current]; omega)]
          exact current
    · rw [if_neg mapped]
      exact owned_mono (fun q child _ => children p q child) (directories p low high i inside)

/-- The top of a stack has no child. -/
theorem top_childless {r : Fin 3} {pid : Int} {rest : List Int} (forest : Forest k trees)
    (top : trees r = pid :: rest) : ¬ Child k pid q := by
  intro child
  have held : pid ∈ trees r := by rw [top]; exact List.mem_cons_self
  rcases (forest.live q).mp child.live with zero | ⟨s,inside⟩
  · exact child.positive zero
  · rcases linked_below (forest.linked s) inside with idle | below
    · exact child.caller (child.parent_task.symm.trans idle)
    · rw [child.parent_task] at below
      obtain rfl := forest.apart.disjoint s r pid (List.mem_of_mem_tail below) held
      have nodup := forest.apart.nodup s
      rw [top] at below nodup
      exact (List.nodup_cons.mp nodup).1 below

theorem directories_end {r : Fin 3} {pid parent : Int} {rest : List Int} (directories : Directories k)
    (forest : Forest k trees) (top : trees r = pid :: parent :: rest) : Directories (end_task pid k) := by
  have held : pid ∈ trees r := by rw [top]; exact List.mem_cons_self
  have alive := forest.held_live held
  have low' := alive.1
  have high' := forest.bound pid alive
  have below : parent ∈ trees r := by rw [top]; simp
  have parent_live := forest.held_live below
  have parent_low := parent_live.1
  have parent_high := forest.bound parent parent_live
  have linked := forest.linked r
  rw [top] at linked
  have parent_task : (k.tasks pid).parent_task = parent := linked.1
  have directory : (k.tasks parent).page_directory = get_task_addr parent :=
    (forest.record r parent below).page_directory
  have mem : (end_task pid k).mem = clear_pde (get_task_addr parent) (get_task_addr pid)
      (map_page_directory (get_task_addr parent) VIDEO VIRTUAL_VID_MEM 1 1 k.mem) := by
    rw [← directory,← parent_task]
    rfl
  have address := get_task_addr_eq low' high'
  have live (q : Int) : Live (end_task pid k).scheduler.task_vector q ↔ Live k.scheduler.task_vector q ∧ q ≠ pid := by
    have cleared := live_cleared (v := k.scheduler.task_vector) (show pid.toNat < 32 by omega) q
    rwa [Int.toNat_of_nonneg low'] at cleared
  intro p low high i inside
  have cleared : entry (end_task pid k).mem (get_task_addr p) i =
      if parent = p ∧ i = pid.toNat + 2 then 0
      else entry (map_page_directory (get_task_addr parent) VIDEO VIRTUAL_VID_MEM 1 1 k.mem) (get_task_addr p) i := by
    rw [mem,clear_pde,pd_index_frame low' high']
    by_cases own : parent = p
    · subst own
      rw [entry_store]
      simp
    · rw [if_neg (fun both => own both.1),entry_store_other]
      simp only [NUM_PAGES] at inside
      rw [get_task_addr_eq low high,get_task_addr_eq parent_low parent_high]
      omega
  rw [cleared]
  by_cases taken : parent = p ∧ i = pid.toNat + 2
  · rw [if_pos taken]
    exact fun present => absurd present (by decide)
  rw [if_neg taken,entry_map (.inl ⟨parent,parent_low,parent_high,rfl⟩) _ (by decide) low high inside]
  by_cases video : get_task_addr parent = get_task_addr p ∧ i = VIRTUAL_VID_MEM / 4194304
  · rw [if_pos video]
    exact owned_of_harmless harmless_video
  rw [if_neg video]
  refine owned_mono ?_ (directories p low high i inside)
  intro q child place
  have caller : p ≠ pid := fun same => top_childless forest top (same ▸ child)
  have other : q ≠ pid := by
    intro same
    subst same
    exact taken ⟨parent_task.symm.trans child.parent_task,place⟩
  exact ⟨child.caller,(live p).mpr ⟨child.caller_live,caller⟩,child.positive,(live q).mpr ⟨child.live,other⟩,
    child.parent_task⟩

/-- The two mappings of video memory that a switch makes. -/
theorem switch_task_mem (pid : Int) (k : Kernel) :
    (switch_task pid k).mem = map_page_directory k.cr3 GARBAGE_VID_MEM VIRTUAL_VID_MEM 1 1 k.mem ∨
    (switch_task pid k).mem = map_page_directory (k.tasks pid).page_directory VIDEO VIRTUAL_VID_MEM 1 1
      (map_page_directory k.cr3 GARBAGE_VID_MEM VIRTUAL_VID_MEM 1 1 k.mem) := by
  simp only [switch_task]
  split
  · exact .inr rfl
  · exact .inl rfl

theorem entry_video {pd phys_addr : Nat} (directory : Directory pd) (low : 0 ≤ p) (high : p < 10)
    (inside : i < NUM_PAGES) (harmless : Harmless p (large_entry phys_addr 1)) :
    entry (map_page_directory pd phys_addr VIRTUAL_VID_MEM 1 1 m) (get_task_addr p) i = entry m (get_task_addr p) i ∨
      Harmless p (entry (map_page_directory pd phys_addr VIRTUAL_VID_MEM 1 1 m) (get_task_addr p) i) := by
  rw [entry_map directory phys_addr (by decide) low high inside]
  split
  · exact .inr harmless
  · exact .inl rfl

/-- A switch leaves all entries but that of video memory alone. -/
theorem entry_switch_other {pid : Int} (home : Directory k.cr3) (next : Directory (k.tasks pid).page_directory)
    (low : 0 ≤ p) (high : p < 10) (inside : i < NUM_PAGES) (other : i ≠ 64) :
    entry (switch_task pid k).mem (get_task_addr p) i = entry k.mem (get_task_addr p) i := by
  have apart (pd : Nat) : ¬ (pd = get_task_addr p ∧ i = VIRTUAL_VID_MEM / 4194304) := fun both => other both.2
  rcases switch_task_mem pid k with mem | mem
  · rw [mem,entry_map home _ (by decide) low high inside,if_neg (apart _)]
  · rw [mem,entry_map next _ (by decide) low high inside,if_neg (apart _),
      entry_map home _ (by decide) low high inside,if_neg (apart _)]

theorem entry_switch {pid : Int} (home : Directory k.cr3) (next : Directory (k.tasks pid).page_directory)
    (low : 0 ≤ p) (high : p < 10) (inside : i < NUM_PAGES) :
    entry (switch_task pid k).mem (get_task_addr p) i = entry k.mem (get_task_addr p) i ∨
      Harmless p (entry (switch_task pid k).mem (get_task_addr p) i) := by
  have away := entry_video (m := k.mem) home low high inside harmless_garbage
  rcases switch_task_mem pid k with mem | mem
  · rw [mem]
    exact away
  · rw [mem]
    rcases entry_video (m := map_page_directory k.cr3 GARBAGE_VID_MEM VIRTUAL_VID_MEM 1 1 k.mem) next low high inside
      harmless_video with same | harmless
    · rw [same]
      exact away
    · exact .inr harmless

/-! ### Runs -/

/-- The idle task runs in the boot directory. -/
structure Idle (halt_addr : Word) (k : Kernel) : Prop where
  leaves : Leaves halt_addr k shells
  cur_task : k.scheduler.cur_task = 0
  cur_ptree : k.scheduler.cur_ptree = 0
  page_directory : (k.tasks 0).page_directory = get_task_addr 0
  boot : k.cr3 + 4096 ≤ 0x800000

/-- What the condition keeps. -/
structure Guarded (halt_addr : Word) (k : Kernel) : Prop where
  directories : Directories k
  phase : Idle halt_addr k ∨ ∃ trees, Scheduled halt_addr k trees

theorem home_of_scheduled (scheduled : Scheduled halt_addr k trees) : Home k := by
  obtain ⟨p,rest,-,top,-,record⟩ := scheduled.running
  have held : k.scheduler.cur_task ∈ trees p := by rw [top]; exact List.mem_cons_self
  have alive := scheduled.forest.held_live held
  refine .inr ⟨scheduled.directory.2.trans record.page_directory,record.positive,?_,alive,?_⟩
  · exact scheduled.forest.bound _ alive
  · exact (scheduled.forest.live 0).mpr (.inl rfl)

/-- With the mappings in order nothing foreign is reached. -/
theorem isolated_of_guarded (guarded : Guarded halt_addr k) : Isolated k := by
  obtain ⟨directories,phase⟩ := guarded
  have owned {p q : Int} (low : 0 ≤ p) (high : p < 10) (low' : 0 ≤ q) (high' : q < 10) (other : q ≠ p)
      (childless : ¬ Child k p q) {i : Nat} (inside : i < NUM_PAGES) :
      ¬ Exposes k.mem (entry k.mem (get_task_addr p) i) q := by
    rintro ⟨present,user,reached⟩
    obtain ⟨large,own⟩ := directories p low high i inside present user
    rw [if_pos large] at reached
    rcases own q low' high' reached with same | ⟨child,-⟩
    · exact other same
    · exact childless child
  intro q alive other i inside
  rcases phase with idle | ⟨trees,scheduled⟩
  · rw [idle.cur_task] at other ⊢
    rw [idle.page_directory]
    exact owned le_rfl (by decide) alive.1 (idle.leaves.forest.bound q alive) other (fun child => child.caller rfl) inside
  · obtain ⟨p,rest,-,top,-,record⟩ := scheduled.running
    have held : k.scheduler.cur_task ∈ trees p := by rw [top]; exact List.mem_cons_self
    have live := scheduled.forest.held_live held
    rw [record.page_directory]
    exact owned live.1 (scheduled.forest.bound _ live) alive.1 (scheduled.forest.bound q alive) other
      (top_childless scheduled.forest top) inside

theorem tick_guarded (regs : Regs) (frame : IretFrame) (directories : Directories k) (leaves : Leaves halt_addr k trees)
    (low : 0 ≤ k.scheduler.cur_ptree) (high : k.scheduler.cur_ptree < 3) (home : Directory k.cr3) :
    Guarded halt_addr (timer_tick regs frame k) := by
  refine ⟨?_,.inr ⟨trees,tick_scheduled regs frame leaves low high⟩⟩
  obtain ⟨q,-,ticked,scheduler⟩ := tick_switches regs frame leaves low high
  have held := leaves.leaf_held q
  have live := leaves.forest.held_live held
  have links (pid : Int) := sameLinks_of_sameTask (saved_tick_same regs frame k pid)
  have next : Directory ((saved_tick regs frame k).tasks (k.scheduler.ptree_tasks q.val)).page_directory := by
    rw [(links _).2.2.2,(leaves.forest.record q _ held).page_directory]
    exact .inl ⟨_,live.1,leaves.forest.bound _ live,rfl⟩
  refine directories_step directories ?_ ?_
  · intro p low high i inside
    have switched := entry_switch (k := saved_tick regs frame k) (by rw [saved_tick_cr3]; exact home) next low high inside
    rw [saved_tick_mem] at switched
    rw [ticked]
    exact switched
  · intro p c child
    obtain ⟨caller,caller_live,positive,alive,parent_task⟩ := child
    refine ⟨caller,by rw [scheduler]; exact caller_live,positive,by rw [scheduler]; exact alive,?_⟩
    rw [ticked,switch_task_tasks,(links c).1]
    exact parent_task

variable {file_sys : FileSys}

theorem execute_guarded {fname args : Nat → Byte} {pid : Int} (esp ebp : Word) (directories : Directories k)
    (scheduled : Scheduled halt_addr k trees) (fits : Fits file_sys fname)
    (created : Created file_sys fname args k pid k') : Guarded halt_addr (execute_task halt_addr esp ebp pid k').2 := by
  obtain ⟨p,pushed⟩ := execute_scheduled esp ebp scheduled created
  refine ⟨?_,.inr ⟨_,pushed⟩⟩
  have home := home_of_scheduled scheduled
  have before := directories_create directories home scheduled.forest.max_tasks fits created
  have pd : Directory k'.pd := by rw [created.pd]; exact home.directory
  refine directories_step before ?_ ?_
  · intro p low high i inside
    rw [execute_task_eq]
    exact entry_video pd low high inside harmless_garbage
  · intro p q child
    have vector : (execute_task halt_addr esp ebp pid k').2.scheduler.task_vector = k'.scheduler.task_vector := by
      rw [execute_task_scheduler]
    refine ⟨child.caller,by rw [vector]; exact child.caller_live,child.positive,by rw [vector]; exact child.live,?_⟩
    by_cases new : q = pid
    · subst new
      rw [execute_task_started]
      exact child.parent_task
    · rw [execute_task_other _ _ _ _ _ new]
      exact child.parent_task

/-- Every admitted step keeps the mappings in order. -/
theorem step_guarded {op : Op} (guarded : Guarded halt_addr k) (admitted : Admitted file_sys k op)
    (taken : step file_sys halt_addr k op = some k') : Guarded halt_addr k' := by
  obtain ⟨directories,idle | ⟨trees,scheduled⟩⟩ := guarded
  · cases op with
    | execute programName argsBuffer esp ebp =>
      rw [step,if_pos idle.cur_task] at taken
      cases taken
    | halt status =>
      rw [step,if_pos idle.cur_task] at taken
      cases taken
    | tick regs frame =>
      obtain rfl := Option.some.inj taken
      have ptree := idle.cur_ptree
      exact tick_guarded regs frame directories idle.leaves (by omega) (by omega) (.inr idle.boot)
  · obtain ⟨p,rest,ptree,top,cur,record⟩ := scheduled.running
    have busy : ¬ k.scheduler.cur_task = 0 := record.positive
    cases op with
    | execute programName argsBuffer esp ebp =>
      obtain ⟨pid,k₁,outcome,made⟩ := create_task_cases file_sys programName argsBuffer (k := k)
        (by rw [scheduled.forest.max_tasks]; omega)
      rw [step,if_neg busy] at taken
      obtain rfl := Option.some.inj taken
      rcases made with created | ⟨failed,refused⟩
      · rw [do_execute_done outcome created.low]
        exact execute_guarded esp ebp directories scheduled (admitted _ created.found).1 created
      · rw [do_execute_failed outcome (by omega)]
        refine ⟨?_,.inr ⟨trees,refused_scheduled scheduled refused⟩⟩
        rcases refused.rest with ⟨-,tasks,mem,-⟩ | ⟨pid,low,-,-,-,unloaded,-,-,found⟩
        · exact directories_keep directories mem (by rw [refused.scheduler]) (fun q _ => by rw [tasks])
        · have loads := (admitted _ found).2
          rw [Int.toNat_of_nonneg low,unloaded] at loads
          exact absurd rfl loads
    | halt status =>
      obtain ⟨c,restarts | ⟨p,parent,rest,top,returns⟩⟩ := halt_outcome file_sys status scheduled
      · obtain rfl := Option.some.inj (restarts.symm.trans taken)
        refine ⟨?_,.inr ⟨trees,restart_scheduled c scheduled⟩⟩
        refine directories_keep directories rfl rfl (fun q _ => ?_)
        by_cases current : q = get_cur_task k
        · subst current
          exact (congrArg Task.parent_task (setTask_same { k with console := c } _ (restarted _))).trans rfl
        · exact congrArg Task.parent_task (setTask_other { k with console := c } _ current)
      · obtain rfl := Option.some.inj (returns.symm.trans taken)
        have quiet := console_scheduled c scheduled
        refine ⟨?_,.inr ⟨_,return_scheduled status quiet top⟩⟩
        obtain ⟨_,_,-,-,cur',record'⟩ := quiet.running
        have silent : Directories { k with console := c } := directories_keep directories rfl rfl (fun _ _ => rfl)
        have ended := directories_end silent quiet.forest top
        rw [execute_task_return,cur',record'.number]
        exact directories_keep ended rfl rfl (fun _ _ => rfl)
    | tick regs frame =>
      obtain rfl := Option.some.inj taken
      exact tick_guarded regs frame directories scheduled.toLeaves (by omega) (by omega)
        (home_of_scheduled scheduled).directory

/-- A turn of the boot loop maps nothing outside the boot directory. -/
theorem init_shell_directories (directories : Directories k) (boot : k.cr3 + 4096 ≤ 0x800000)
    (max_tasks : k.scheduler.max_tasks = 10) (fits : Fits file_sys shell_name)
    (done : init_shell file_sys k = some k') :
    Directories k' ∧ k'.cr3 = k.cr3 := by
  obtain ⟨pid,k₁,ptid,ptree_tasks,ptree_vector,num_ptrees,created,rfl⟩ := init_shell_created (by omega) done
  refine ⟨directories_keep (directories_create directories (.inl boot) max_tasks fits created) rfl rfl ?_,created.cr3⟩
  intro q _
  by_cases new : q = pid
  · rw [new]
    exact (congrArg Task.parent_task (setTask_same k₁ pid (shell_record ptid (k₁.tasks pid)))).trans rfl
  · exact congrArg Task.parent_task (setTask_other k₁ _ new)

variable (halt_addr) in
theorem tasks_init_guarded (clean : CleanFrames k.mem) (boot : k.cr3 + 4096 ≤ 0x800000)
    (start : k.scheduler = scheduler) (unwritten : (k.tasks 0).ptid = 0) (fits : Fits file_sys shell_name)
    (booted : tasks_init file_sys k = some k') : Guarded halt_addr k' := by
  have max_tasks : k.scheduler.max_tasks = 10 := by rw [start]; rfl
  obtain ⟨leaves,cur_task,cur_ptree,page_directory⟩ := tasks_init_leaves halt_addr start unwritten booted
  have directories : Directories k :=
    fun p low high i inside => owned_of_harmless (clean p low high i inside)
  have first (pid : Int) (k₁ : Kernel) (created : Created file_sys shell_name (fun _ => 0) k pid k₁) :
      Directories (set_cur_task 0 k₁) ∧ (set_cur_task 0 k₁).cr3 = k.cr3 := by
    have made := directories_create directories (.inl boot) max_tasks fits created
    exact ⟨directories_keep made rfl rfl (fun _ _ => rfl),created.cr3⟩
  have next (n : Nat) (k₁ k₂ : Kernel) (_ : n < 3) (ready : Booting k₁ n) (before : Directories k₁ ∧ k₁.cr3 = k.cr3)
      (done : init_shell file_sys k₁ = some k₂) : Directories k₂ ∧ k₂.cr3 = k.cr3 := by
    obtain ⟨after,cr3⟩ := init_shell_directories before.1 (by rw [before.2]; exact boot) ready.max_tasks fits done
    exact ⟨after,cr3.trans before.2⟩
  obtain ⟨k₁,-,⟨final,cr3⟩,rfl⟩ := tasks_init_rule (P := fun _ k₁ => Directories k₁ ∧ k₁.cr3 = k.cr3) start unwritten
    booted first next
  refine ⟨?_,.inl ⟨leaves,cur_task,cur_ptree,page_directory,?_⟩⟩
  · exact directories_keep final rfl rfl
      (fun q positive => congrArg Task.parent_task (setTask_other k₁ _ positive))
  · rw [show (idle_task k₁).cr3 = k₁.cr3 from rfl,cr3]
    exact boot

/-- The directory of task 2 maps the frame of task 4. -/
def Leaked (k : Kernel) : Prop := entry k.mem (get_task_addr 2) 6 = large_entry (get_task_addr 4) 1

theorem leaked_exposes (leaked : Leaked k) : Exposes k.mem (entry k.mem (get_task_addr 2) 6) 4 := by
  obtain ⟨present,large,user,base⟩ := large_entry_decoded (get_task_addr 4) (by decide : (1 : Nat) < 2)
  rw [leaked]
  refine ⟨present,user.mpr rfl,?_⟩
  rw [if_pos large,base]
  exact frame_base_masked (by decide) (by decide)

theorem leaked_tick (regs : Regs) (frame : IretFrame) (scheduled : Scheduled halt_addr k trees) (leaked : Leaked k) :
    Leaked (timer_tick regs frame k) := by
  obtain ⟨p,ptree,-⟩ := scheduled.current
  obtain ⟨q,-,ticked,-⟩ := tick_switches regs frame scheduled.toLeaves (by omega) (by omega)
  have held := scheduled.leaf_held q
  have live := scheduled.forest.held_live held
  have links := sameLinks_of_sameTask (saved_tick_same regs frame k (k.scheduler.ptree_tasks q.val))
  have next : Directory ((saved_tick regs frame k).tasks (k.scheduler.ptree_tasks q.val)).page_directory := by
    rw [links.2.2.2,(scheduled.forest.record q _ held).page_directory]
    exact .inl ⟨_,live.1,scheduled.forest.bound _ live,rfl⟩
  rw [Leaked,ticked,entry_switch_other (by rw [saved_tick_cr3]; exact (home_of_scheduled scheduled).directory) next
    (by decide) (by decide) (by decide) (by decide),saved_tick_mem]
  exact leaked

/-- The empty name. -/
def no_name : Nat → Byte := fun _ => 0

theorem no_name_absent (addr : Nat) (m : Mem) : load_program shell_image no_name addr m = (-1,m) := by
  have absent : find_dentry shell_image no_name = none := by decide
  have lookup : read_dentry_by_name shell_image no_name uninitialized = (-1,uninitialized) := by
    rw [read_dentry_by_name,if_neg (by decide),absent]
  rw [load_program,lookup]
  by_cases null : addr = 0
  · rw [if_pos null]
  · rw [if_neg null]
    exact if_pos rfl

/-- Terminal 1 fails to execute a program, which leaves its shell a mapping of
    the fifth frame; then terminal 2 starts a program there, and terminal 1 runs
    again. -/
def leaking_run : List Op :=
  [.tick default default,.execute no_name no_name 0 0,.tick default default,.execute shell_name no_name 0 0,
    .tick default default,.tick default default]

/-- A failing create leaves the new frame mapped for its caller. -/
theorem leaked_new_frame (scheduled : Scheduled halt_addr k trees) (current : k.scheduler.cur_task = 2) :
    entry (new_frame 4 k) (get_task_addr 2) 6 = large_entry (get_task_addr 4) 1 := by
  obtain ⟨p,rest,-,top,-,record⟩ := scheduled.running
  have cr3 : k.cr3 = get_task_addr 2 := by
    rw [scheduled.directory.2,record.page_directory,current]
  rw [new_frame,entry_new (by decide) (by decide) (by decide) (by decide) (by decide) (by decide),
    entry_map (home_of_scheduled scheduled).directory _ (by decide) (by decide) (by decide) (by decide),
    if_pos ⟨cr3,by decide⟩]

/-- What another terminal creates leaves the mapping in place. -/
theorem leaked_execute {fname args : Nat → Byte} (esp ebp : Word) (scheduled : Scheduled halt_addr k trees)
    (current : k.scheduler.cur_task = 3) (fits : Fits file_sys fname) (created : Created file_sys fname args k 4 k')
    (leaked : Leaked k) : Leaked (execute_task halt_addr esp ebp 4 k').2 := by
  obtain ⟨p,rest,-,top,-,record⟩ := scheduled.running
  have home := (home_of_scheduled scheduled).directory
  have cr3 : k.cr3 = get_task_addr 3 := by
    rw [scheduled.directory.2,record.page_directory,current]
  have away (i : Nat) : ¬ (k.cr3 = get_task_addr 2 ∧ 6 = i) := by
    rw [cr3]
    exact fun both => absurd both.1 (by decide)
  obtain ⟨exe_addr,loaded,-,-⟩ := created.loaded
  have mem : (execute_task halt_addr esp ebp 4 k').2.mem =
      map_page_directory k.cr3 GARBAGE_VID_MEM VIRTUAL_VID_MEM 1 1 k'.mem := by
    rw [execute_task_eq,created.pd]
  rw [Leaked,mem,entry_map home _ (by decide) (by decide) (by decide) (by decide),if_neg (away _),
    entry_load fits (by decide) (by decide) (by decide) (by decide) (by decide) loaded,new_frame,
    entry_new (by decide) (by decide) (by decide) (by decide) (by decide) (by decide),
    entry_map home _ (by decide) (by decide) (by decide) (by decide),if_neg (away _)]
  exact leaked

theorem tick_turn (regs : Regs) (frame : IretFrame) (leaves : Leaves halt_addr k trees) {tree : Int}
    (turn : k.scheduler.cur_ptree = tree) (low : 0 ≤ tree) (high : tree < 3) :
    (timer_tick regs frame k).scheduler = { k.scheduler with
      cur_task := k.scheduler.ptree_tasks ((tree + 1) % 3), cur_ptree := (tree + 1) % 3 } := by
  obtain ⟨q,next,-,scheduler⟩ := tick_switches regs frame leaves (by omega) (by omega)
  rw [scheduler,← next,turn]

/-- The failing execute of terminal 1, -/
theorem no_name_leaks (scheduled : Scheduled halt_addr k trees) (current : k.scheduler.cur_task = 2)
    (free : free_pid k.scheduler.task_vector 0 k.scheduler.max_tasks = some 4) : ∃ k',
      do_execute shell_image halt_addr 0 0 no_name no_name k = (none,k') ∧ Scheduled halt_addr k' trees ∧
      k'.scheduler = k.scheduler ∧ Leaked k' := by
  obtain ⟨pid,k',outcome,created | ⟨failed,refused⟩⟩ := create_task_cases shell_image no_name no_name (k := k)
    (by rw [scheduled.forest.max_tasks]; decide)
  · obtain ⟨exe_addr,loaded,good,-⟩ := created.loaded
    rw [no_name_absent] at loaded
    exact absurd (congrArg Prod.fst loaded).symm good
  · refine ⟨k',do_execute_failed outcome (by omega),refused_scheduled scheduled refused,refused.scheduler,?_⟩
    rcases refused.rest with ⟨full,-⟩ | ⟨q,low,-,-,-,loaded,-,-,found⟩
    · obtain ⟨-,bound,spare,-⟩ := free_pid_some free
      exact absurd (spare.symm.trans (full 4 (by omega))) Bool.false_ne_true
    · have fourth : q = 4 := by
        have := Option.some.inj (found.symm.trans free)
        omega
      subst fourth
      rw [no_name_absent] at loaded
      have mem : new_frame 4 k = k'.mem := congrArg Prod.snd loaded
      rw [Leaked,← mem]
      exact leaked_new_frame scheduled current

/-- and the shell that terminal 2 executes after it. -/
theorem shell_leaked (scheduled : Scheduled halt_addr k trees) (current : k.scheduler.cur_task = 3)
    (free : free_pid k.scheduler.task_vector 0 k.scheduler.max_tasks = some 4) (leaked : Leaked k) : ∃ k' trees',
      (do_execute shell_image halt_addr 0 0 shell_name no_name k).2 = k' ∧ Scheduled halt_addr k' trees' ∧
      Leaked k' ∧ Live k'.scheduler.task_vector 4 ∧ k'.scheduler.cur_ptree = k.scheduler.cur_ptree ∧
      ∀ p, p ≠ k.scheduler.cur_ptree → k'.scheduler.ptree_tasks p = k.scheduler.ptree_tasks p := by
  obtain ⟨-,bound,spare,-⟩ := free_pid_some free
  obtain ⟨pid,k₁,outcome,created⟩ := create_task_succeeds (k := k) (i := 4) no_name
    (by rw [scheduled.forest.max_tasks]; decide) shell_image_loads (by omega) spare
  have fourth : pid = 4 := by
    have same := Option.some.inj (created.found.symm.trans free)
    have := created.low
    omega
  subst fourth
  obtain ⟨q,pushed⟩ := execute_scheduled 0 0 scheduled created
  obtain ⟨p,rest,tree,top,-,record⟩ := scheduled.running
  have started_tree : (k₁.tasks 4).ptid = k.scheduler.cur_ptree := by
    obtain ⟨exe_addr,-,-,made⟩ := created.loaded
    rw [made,new_record,if_pos (by rw [current]; decide)]
    exact record.ptid.trans tree.symm
  refine ⟨_,push trees q 4,rfl,?_,?_,?_,?_,?_⟩
  all_goals rw [do_execute_done outcome (by decide)]
  · exact pushed
  · exact leaked_execute 0 0 scheduled current (by decide) created leaked
  · rw [execute_task_scheduler,created.scheduler]
    exact (live_claimed (by decide) 4).mpr (.inr rfl)
  · rw [execute_task_scheduler]
    exact started_tree
  · intro other apart
    rw [execute_task_scheduler]
    dsimp only
    rw [started_tree,if_neg apart,created.scheduler]

end Mp3Kernel.Isolation

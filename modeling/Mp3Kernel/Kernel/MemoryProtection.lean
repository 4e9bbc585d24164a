import Mp3Kernel.Kernel.AddressSpace

/-!
Every address keeps its meaning while the system runs: calls, ticks and the
stores of user code follow one another, and `Protected` says what the running
task's addresses mean and where it can write.
-/
namespace Mp3Kernel.MemoryProtection
open Mp3Kernel.Memory Mp3Kernel.Filesys Mp3Kernel.Tasks Mp3Kernel.Paging Mp3Kernel.PageWalk
open Mp3Kernel.Scheduler Mp3Kernel.Stacks Mp3Kernel.Runs Mp3Kernel.TaskForest Mp3Kernel.Isolation Mp3Kernel.AddressSpace
open Mp3Kernel.Tty (shell_name)

/-- User code stores a byte, if the walk lets it. -/
def user_store (v : Word) (b : Byte) (k : Kernel) : Option Kernel :=
  match walk k.mem k.cr3 v with
  | some t => if t.user ∧ t.writable then some { k with mem := Function.update k.mem t.address.toNat b } else none
  | none => none

/-- Every address means what it should, and what user code can change is its
    own frame, the first 4 MB and the garbage frame. -/
structure Protected (k : Kernel) : Prop where
  boot : k.scheduler.cur_task = 0 → ∀ v, walk k.mem k.cr3 v = mapping boot_pages v
  task : k.scheduler.cur_task ≠ 0 → ∃ screen, (screen = VIDEO ∨ screen = GARBAGE_VID_MEM) ∧
    ∀ v, walk k.mem k.cr3 v = mapping (task_pages k.scheduler.cur_task screen) v
  confined : k.scheduler.cur_task ≠ 0 → ∀ v b k', user_store v b k = some k' → ∀ a, k'.mem a ≠ k.mem a →
    a / SIZE_4MB_PAGE = get_task_addr k.scheduler.cur_task / SIZE_4MB_PAGE ∨
    a / SIZE_4MB_PAGE = VIDEO / SIZE_4MB_PAGE ∨ a / SIZE_4MB_PAGE = GARBAGE_VID_MEM / SIZE_4MB_PAGE

inductive Event where
  | call (op : Op)
  /-- a store of user code -/
  | store (v : Word) (b : Byte)

section
variable (file_sys : FileSys) (halt_addr : Word)

def step (k : Kernel) : Event → Option Kernel
  | .call op => TaskForest.step file_sys halt_addr k op
  | .store v b => if k.scheduler.cur_task = 0 then none else user_store v b k

/-- A user store leaves the directory and the page table at the bottom of its
    frame alone. -/
def Behaved (k : Kernel) : Event → Prop
  | .call op => Admitted file_sys k op
  | .store v _ => v.toNat / SIZE_4MB_PAGE ≠ VIRTUAL_VID_MEM / SIZE_4MB_PAGE → 2 * SIZE_4KB_PAGE ≤ v.toNat % SIZE_4MB_PAGE

end

variable {m m' : Mem} {pd pt : Nat} {v : Word} {p q : Int} {i : Nat}

/-! ### What the steps leave of the directories -/

/-- The written words of a directory and its table stay, but for the video
    entry, -/
structure Kept (m m' : Mem) (p : Int) : Prop where
  directory : ∀ i < NUM_PAGES, ¬ Spare p i → i ≠ 64 → entry m' (get_task_addr p) i = entry m (get_task_addr p) i
  video : entry m' (get_task_addr p) 64 = entry m (get_task_addr p) 64 ∨
    ∃ screen, (screen = VIDEO ∨ screen = GARBAGE_VID_MEM) ∧ entry m' (get_task_addr p) 64 = large_entry screen 1
  table : ∀ i < NUM_PAGES,
    entry m' (get_task_addr p + 4 * NUM_PAGES) i = entry m (get_task_addr p + 4 * NUM_PAGES) i

/-- and so do the others. -/
structure Untouched (m m' : Mem) (p : Int) : Prop extends Kept m m' p where
  spare : ∀ i < NUM_PAGES, Spare p i → entry m' (get_task_addr p) i = entry m (get_task_addr p) i

theorem Kept.trans {m₁ m₂ m₃ : Mem} (first : Kept m₁ m₂ p) (second : Kept m₂ m₃ p) : Kept m₁ m₃ p := by
  refine ⟨?_,?_,?_⟩
  · intro i inside written other
    rw [second.directory i inside written other,first.directory i inside written other]
  · rcases second.video with same | drawn
    · rw [same]
      exact first.video
    · exact .inr drawn
  · intro i inside
    rw [second.table i inside,first.table i inside]

theorem Untouched.trans {m₁ m₂ m₃ : Mem} (first : Untouched m₁ m₂ p) (second : Untouched m₂ m₃ p) :
    Untouched m₁ m₃ p := by
  refine ⟨first.toKept.trans second.toKept,?_⟩
  intro i inside spare
  rw [second.spare i inside spare,first.spare i inside spare]

theorem laid_keep (laid : Laid m p) (kept : Kept m m' p) (high : p < 10) : Laid m' p := by
  have same (i : Nat) (inside : i < NUM_PAGES) (written : ¬ Spare p i) (other : i ≠ 64) := kept.directory i inside written other
  refine ⟨⟨?_,?_,?_,?_⟩,?_,?_,?_⟩
  · rw [same 0 (by decide) (fun spare => spare.1 rfl) (by decide)]
    exact laid.table
  · rw [same 1 (by decide) (fun spare => spare.2.1 rfl) (by decide)]
    exact laid.kernel
  · rw [kept.table 0 (by decide)]
    exact laid.null
  · intro i inside first
    rw [kept.table i inside]
    exact laid.identity i inside first
  · rw [same _ (by simp only [NUM_PAGES]; omega) (fun spare => spare.2.2.1 rfl) (by omega)]
    exact laid.own
  · rw [same 32 (by decide) (fun spare => spare.2.2.2.1 rfl) (by decide)]
    exact laid.execution
  · rcases kept.video with same | drawn
    · rw [same]
      exact laid.video
    · exact drawn

/-- A store into a directory is in no task's page table. -/
theorem table_store {index : Nat} (directory : Directory pd) (value : Word) (below : index < NUM_PAGES) (low : 0 ≤ p)
    (high : p < 10) (inside : i < NUM_PAGES) :
    entry (store32 m (pd + 4 * index) value) (get_task_addr p + 4 * NUM_PAGES) i =
      entry m (get_task_addr p + 4 * NUM_PAGES) i := by
  refine entry_store_other value ?_
  simp only [NUM_PAGES] at *
  rw [get_task_addr_eq low high]
  rcases directory with ⟨q,low',high',rfl⟩ | boot
  · rw [get_task_addr_eq low' high']
    omega
  · omega

theorem table_map {virt_addr : Nat} (directory : Directory pd) (phys_addr : Nat) (fits : virt_addr < 4294967296)
    (low : 0 ≤ p) (high : p < 10) (inside : i < NUM_PAGES) :
    entry (map_page_directory pd phys_addr virt_addr 1 1 m) (get_task_addr p + 4 * NUM_PAGES) i =
      entry m (get_task_addr p + 4 * NUM_PAGES) i := by
  rw [map_page_directory_large]
  refine table_store directory _ ?_ low high inside
  rw [pd_index_eq fits]
  simp only [NUM_PAGES]
  omega

/-- A store over a word that stays. -/
theorem kept_store {index : Nat} (directory : Directory pd) (value : Word) (below : index < NUM_PAGES) (low : 0 ≤ p)
    (high : p < 10) (spare : pd = get_task_addr p → Spare p index) : Kept m (store32 m (pd + 4 * index) value) p := by
  have same (i : Nat) (inside : i < NUM_PAGES) (other : pd = get_task_addr p → i ≠ index) :
      entry (store32 m (pd + 4 * index) value) (get_task_addr p) i = entry m (get_task_addr p) i := by
    by_cases own : pd = get_task_addr p
    · rw [own,entry_store,if_neg (other own)]
    · refine entry_store_other value ?_
      simp only [NUM_PAGES] at *
      rw [get_task_addr_eq low high] at own ⊢
      rcases directory with ⟨q,low',high',rfl⟩ | boot
      · rw [get_task_addr_eq low' high'] at own ⊢
        omega
      · omega
  refine ⟨?_,.inl (same 64 (by decide) fun own video => (spare own).2.2.2.2 video.symm),?_⟩
  · intro i inside written _
    exact same i inside fun own place => written (place ▸ spare own)
  · intro i inside
    exact table_store directory value below low high inside

/-- A mapping of video memory. -/
theorem untouched_video {screen : Nat} (directory : Directory pd) (which : screen = VIDEO ∨ screen = GARBAGE_VID_MEM)
    (low : 0 ≤ p) (high : p < 10) : Untouched m (map_page_directory pd screen VIRTUAL_VID_MEM 1 1 m) p := by
  have same (i : Nat) (inside : i < NUM_PAGES) (other : i ≠ 64) :
      entry (map_page_directory pd screen VIRTUAL_VID_MEM 1 1 m) (get_task_addr p) i = entry m (get_task_addr p) i := by
    rw [entry_map directory screen (by decide) low high inside,if_neg (fun both => other both.2)]
  refine ⟨⟨fun i inside _ other => same i inside other,?_,?_⟩,fun i inside spare => same i inside spare.2.2.2.2⟩
  · rw [entry_map directory screen (by decide) low high (by decide)]
    split
    · exact .inr ⟨screen,which,rfl⟩
    · exact .inl rfl
  · intro i inside
    exact table_map directory screen (by decide) low high inside

/-- What is written outside the first two pages of the frame. -/
theorem untouched_apart
    (same : ∀ a, get_task_addr p ≤ a → a < get_task_addr p + 2 * SIZE_4KB_PAGE → m' a = m a) : Untouched m m' p := by
  simp only [SIZE_4KB_PAGE] at same
  have directory (i : Nat) (inside : i < NUM_PAGES) : entry m' (get_task_addr p) i = entry m (get_task_addr p) i := by
    simp only [NUM_PAGES] at inside
    exact load32_congr (fun a first last => same a (by omega) (by omega))
  refine ⟨⟨fun i inside _ _ => directory i inside,.inl (directory 64 (by decide)),?_⟩,fun i inside _ => directory i inside⟩
  intro i inside
  simp only [NUM_PAGES] at *
  exact load32_congr (fun a first last => same a (by omega) (by omega))

variable {k k' : Kernel} {trees : Fin 3 → List Int} {halt_addr : Word} {file_sys : FileSys}

/-- Every live task's directory is laid out, and the words that stay map only
    the frames of children. -/
structure Spaces (k : Kernel) : Prop where
  laid : ∀ p, Live k.scheduler.task_vector p → p < 10 → Laid k.mem p
  null : ∀ p, 0 ≤ p → p < 10 → ¬ Present (entry k.mem (get_task_addr p + 4 * NUM_PAGES) 0)
  spare : ∀ p, 0 ≤ p → p < 10 → ∀ i < NUM_PAGES, Spare p i → Present (entry k.mem (get_task_addr p) i) →
    ∃ q, Child k p q ∧ i = q.toNat + 2

theorem Spaces.keep (spaces : Spaces k) (kept : ∀ p, 0 ≤ p → p < 10 → Untouched k.mem k'.mem p)
    (vector : k'.scheduler.task_vector = k.scheduler.task_vector)
    (parents : ∀ q, q ≠ 0 → (k'.tasks q).parent_task = (k.tasks q).parent_task) : Spaces k' := by
  refine ⟨?_,?_,?_⟩
  · intro p alive high
    rw [vector] at alive
    exact laid_keep (spaces.laid p alive high) (kept p alive.1 high).toKept high
  · intro p low high
    rw [(kept p low high).table 0 (by decide)]
    exact spaces.null p low high
  · intro p low high i inside spare present
    rw [(kept p low high).spare i inside spare] at present
    obtain ⟨q,⟨caller,caller_live,positive,alive,parent_task⟩,place⟩ := spaces.spare p low high i inside spare present
    rw [← vector] at caller_live alive
    exact ⟨q,⟨caller,caller_live,positive,alive,(parents q positive).trans parent_task⟩,place⟩

/-! ### Creating a task -/

theorem untouched_load {fname : Nat → Byte} {exe_addr : Int} (fits : Fits file_sys fname) (low : 0 ≤ p) (high : p < 10)
    (low' : 0 ≤ q) (high' : q < 10)
    (loaded : load_program file_sys fname (get_task_addr q + PROGRAM_IMAGE) m = (exe_addr,m')) : Untouched m m' p := by
  refine untouched_apart (fun a first last => ?_)
  rcases load_program_writes loaded with rfl | ⟨bytes,rfl,length⟩
  · rfl
  · refine storeBytes_outside ?_
    simp only [Fits,SIZE_4MB_PAGE,PROGRAM_IMAGE] at fits
    simp only [SIZE_4KB_PAGE] at last
    rw [get_task_addr_eq low high] at first last
    rw [get_task_addr_eq low' high']
    simp only [PROGRAM_IMAGE]
    omega

theorem untouched_new (low : 0 ≤ p) (high : p < 10) (low' : 0 ≤ q) (high' : q < 10) (other : p ≠ q) :
    Untouched m (init_task_pd (get_task_addr q) m) p := by
  refine untouched_apart (fun a first last => ?_)
  simp only [SIZE_4KB_PAGE] at last
  rw [get_task_addr_eq low high] at first last
  refine init_task_pd_outside m ?_ ?_
  · rw [get_task_addr_eq low' high']
    omega
  · rw [get_task_addr_eq low' high']
    omega

theorem entry_new_table (low : 0 ≤ p) (high : p < 10) (inside : i < NUM_PAGES) :
    entry (init_task_pd (get_task_addr p) m) (get_task_addr p + 4 * NUM_PAGES) i =
      if i = 0 then entry m (get_task_addr p + 4 * NUM_PAGES) 0
      else BitVec.ofNat 32 (i * SIZE_4KB_PAGE) ||| SUPERVISOR_RW_PRESENT := by
  have bound : p.toNat < scheduler.max_tasks := by
    rw [show scheduler.max_tasks = 10 from rfl]
    omega
  have built := TaskDirectory.table_init_task_pd bound ⟨0,0,m⟩ inside
  rw [TaskDirectory.init_task_pd_eq,TaskDirectory.table,TaskDirectory.table,Int.toNat_of_nonneg low] at built
  exact built

theorem laid_new (low : 0 ≤ p) (high : p < 10) (null : ¬ Present (entry m (get_task_addr p + 4 * NUM_PAGES) 0)) :
    Laid (init_task_pd (get_task_addr p) m) p := by
  have place := pd_index_frame low high
  have directory {i : Nat} (inside : i < NUM_PAGES) := @entry_init_task_pd (get_task_addr p) i m inside
  simp only [place] at directory
  refine ⟨⟨?_,?_,?_,?_⟩,?_,?_,VIDEO,.inl rfl,?_⟩
  · rw [directory (by decide),if_neg (by decide),if_neg (by decide),if_neg (by omega),if_neg (by decide),if_pos rfl]
  · rw [directory (by decide),if_neg (by decide),if_neg (by decide),if_neg (by omega),if_pos rfl]
  · rw [entry_new_table low high (by decide),if_pos rfl]
    exact null
  · intro i inside first
    rw [entry_new_table low high inside,if_neg first]
  · rw [directory (by simp only [NUM_PAGES]; omega),if_neg (by omega),if_neg (by omega),if_pos rfl]
  · rw [directory (by decide),if_neg (by decide),if_pos rfl]
  · rw [directory (by decide),if_pos rfl]

section
variable {fname args : Nat → Byte} {pid : Int}

theorem created_children (created : Created file_sys fname args k pid k') (max_tasks : k.scheduler.max_tasks = 10)
    (child : Child k p q) : Child k' p q := by
  have live := created.live max_tasks
  refine ⟨child.caller,(live p).mpr (.inl child.caller_live),child.positive,(live q).mpr (.inl child.live),?_⟩
  rw [created.others q (fun same => created.dead (same ▸ child.live))]
  exact child.parent_task

/-- The new task is a child of the one whose directory is in use. -/
theorem created_child (home : Home k) (created : Created file_sys fname args k pid k')
    (max_tasks : k.scheduler.max_tasks = 10) (low : 0 ≤ p) (high : p < 10) (caller : k.cr3 = get_task_addr p) :
    Child k' p pid := by
  rcases home with below | ⟨same,busy,bound,alive,idle⟩
  · rw [caller,get_task_addr_eq low high] at below
    omega
  · have current : k.scheduler.cur_task = p := by
      rw [caller,get_task_addr_eq low high,get_task_addr_eq alive.1 bound] at same
      have := alive.1
      omega
    have live := created.live max_tasks
    obtain ⟨exe_addr,-,-,made⟩ := created.loaded
    rw [current] at busy alive
    refine ⟨busy,(live p).mpr (.inl alive),?_,(live pid).mpr (.inr rfl),?_⟩
    · intro zero
      exact created.dead (zero ▸ idle)
    · rw [made,new_record,if_pos (by rw [current]; omega)]
      exact current

theorem spaces_create (spaces : Spaces k) (home : Home k) (max_tasks : k.scheduler.max_tasks = 10)
    (fits : Fits file_sys fname) (created : Created file_sys fname args k pid k') : Spaces k' := by
  have low' := created.low
  have high' : pid < 10 := by have := created.bound; omega
  have address := get_task_addr_eq low' high'
  have place : get_task_addr pid / 4194304 = pid.toNat + 2 := by omega
  obtain ⟨exe_addr,loaded,-,-⟩ := created.loaded
  generalize mapped : map_page_directory k.cr3 (get_task_addr pid) (get_task_addr pid) 1 1 k.mem = m at *
  have load (p : Int) (low : 0 ≤ p) (high : p < 10) : Untouched (init_task_pd (get_task_addr pid) m) k'.mem p := by
    rw [← mapped]
    exact untouched_load fits low high low' high' loaded
  have others {p : Int} (low : 0 ≤ p) (high : p < 10) (other : p ≠ pid) : Untouched m k'.mem p :=
    (untouched_new low high low' high' other).trans (load p low high)
  have framed {p : Int} (low : 0 ≤ p) (high : p < 10) {i : Nat} (inside : i < NUM_PAGES) :
      entry m (get_task_addr p) i = if k.cr3 = get_task_addr p ∧ i = pid.toNat + 2 then large_entry (get_task_addr pid) 1
        else entry k.mem (get_task_addr p) i := by
    rw [← mapped,entry_map home.directory _ (by omega) low high inside,place]
  have null {p : Int} (low : 0 ≤ p) (high : p < 10) : ¬ Present (entry m (get_task_addr p + 4 * NUM_PAGES) 0) := by
    rw [← mapped,table_map home.directory _ (by omega) low high (by decide)]
    exact spaces.null p low high
  refine ⟨?_,?_,?_⟩
  · intro p alive high
    have low := alive.1
    by_cases new : p = pid
    · subst new
      exact laid_keep (laid_new low high (null low high)) (load p low high).toKept high
    · have before := ((created.live max_tasks p).mp alive).resolve_right new
      refine laid_keep (laid_keep (spaces.laid p before high) ?_ high) (others low high new).toKept high
      rw [← mapped]
      rw [map_page_directory_large,pd_index_frame low' high']
      refine kept_store home.directory _ (by simp only [NUM_PAGES]; omega) low high (fun _ => ?_)
      exact ⟨by omega,by omega,by omega,by omega,by omega⟩
  · intro p low high
    by_cases new : p = pid
    · subst new
      rw [(load p low high).table 0 (by decide),entry_new_table low high (by decide),if_pos rfl]
      exact null low high
    · rw [(others low high new).table 0 (by decide)]
      exact null low high
  · intro p low high i inside spare present
    by_cases new : p = pid
    · subst new
      have index := pd_index_frame low high
      rw [(load p low high).spare i inside spare,entry_init_task_pd _ inside,if_neg spare.2.2.2.2,if_neg spare.2.2.2.1,
        if_neg (by rw [index]; exact spare.2.2.1),if_neg spare.2.1,if_neg spare.1,framed low high inside,
        if_neg (fun both => spare.2.2.1 both.2)] at present
      obtain ⟨q,child,-⟩ := spaces.spare p low high i inside spare present
      exact absurd child.caller_live created.dead
    · rw [(others low high new).spare i inside spare,framed low high inside] at present
      by_cases frame : k.cr3 = get_task_addr p ∧ i = pid.toNat + 2
      · exact ⟨pid,created_child home created max_tasks low high frame.1,frame.2⟩
      · rw [if_neg frame] at present
        obtain ⟨q,child,at_q⟩ := spaces.spare p low high i inside spare present
        exact ⟨q,created_children created max_tasks child,at_q⟩

end

/-! ### Ending a task -/

theorem spaces_end {r : Fin 3} {pid parent : Int} {rest : List Int} (spaces : Spaces k) (forest : Forest k trees)
    (top : trees r = pid :: parent :: rest) : Spaces (end_task pid k) := by
  have held : pid ∈ trees r := by rw [top]; exact List.mem_cons_self
  have alive := forest.held_live held
  have low' := alive.1
  have high' := forest.bound pid alive
  have below : parent ∈ trees r := by rw [top]; simp
  have parent_live := forest.held_live below
  have parent_high := forest.bound parent parent_live
  have parent_task : (k.tasks pid).parent_task = parent := (forest.ended top).1
  have home : Directory (get_task_addr parent) := .inl ⟨parent,parent_live.1,parent_high,rfl⟩
  have live (q : Int) : Live (end_task pid k).scheduler.task_vector q ↔ Live k.scheduler.task_vector q ∧ q ≠ pid := by
    have cleared := live_cleared (v := k.scheduler.task_vector) (show pid.toNat < 32 by omega) q
    rwa [Int.toNat_of_nonneg low'] at cleared
  generalize drawn : map_page_directory (get_task_addr parent) VIDEO VIRTUAL_VID_MEM 1 1 k.mem = m
  have mem : (end_task pid k).mem = store32 m (get_task_addr parent + 4 * (pid.toNat + 2)) 0 := by
    have directory : (k.tasks parent).page_directory = get_task_addr parent := (forest.record r parent below).page_directory
    rw [← drawn,← directory,← parent_task,← pd_index_frame low' high']
    rfl
  have video {p : Int} (low : 0 ≤ p) (high : p < 10) : Untouched k.mem m p := by
    rw [← drawn]
    exact untouched_video home (.inl rfl) low high
  have inside' : pid.toNat + 2 < NUM_PAGES := by
    simp only [NUM_PAGES]
    omega
  have kept {p : Int} (low : 0 ≤ p) (high : p < 10) (other : p ≠ pid) : Kept k.mem (end_task pid k).mem p := by
    refine (video low high).toKept.trans ?_
    rw [mem]
    exact kept_store home 0 inside' low high (fun _ => ⟨by omega,by omega,by omega,by omega,by omega⟩)
  refine ⟨?_,?_,?_⟩
  · intro p alive high
    obtain ⟨before,other⟩ := (live p).mp alive
    exact laid_keep (spaces.laid p before high) (kept alive.1 high other) high
  · intro p low high
    rw [mem,table_store home 0 inside' low high (by decide),(video low high).table 0 (by decide)]
    exact spaces.null p low high
  · intro p low high i inside spare present
    by_cases taken : parent = p ∧ i = pid.toNat + 2
    · obtain ⟨rfl,rfl⟩ := taken
      rw [mem,entry_store,if_pos rfl] at present
      exact absurd present (by decide)
    have same : entry (end_task pid k).mem (get_task_addr p) i = entry k.mem (get_task_addr p) i := by
      rw [← (video low high).spare i inside spare,mem]
      by_cases own : parent = p
      · subst own
        rw [entry_store,if_neg (fun place => taken ⟨rfl,place⟩)]
      · refine entry_store_other 0 ?_
        have := parent_live.1
        simp only [NUM_PAGES] at inside
        rw [get_task_addr_eq low high,get_task_addr_eq parent_live.1 parent_high]
        omega
    rw [same] at present
    obtain ⟨q,child,place⟩ := spaces.spare p low high i inside spare present
    have caller : p ≠ pid := fun same => top_childless forest top (same ▸ child)
    have other : q ≠ pid := by
      intro same
      subst same
      exact taken ⟨parent_task.symm.trans child.parent_task,place⟩
    exact ⟨q,⟨child.caller,(live p).mpr ⟨child.caller_live,caller⟩,child.positive,(live q).mpr ⟨child.live,other⟩,
      child.parent_task⟩,place⟩

/-! ### Ticks and executes -/

theorem spaces_switch {pid : Int} (spaces : Spaces k) (home : Directory k.cr3)
    (next : Directory (k.tasks pid).page_directory) : Spaces (switch_task pid k) := by
  refine spaces.keep ?_ ?_ (fun q _ => by rw [switch_task_tasks])
  · intro p low high
    have away := untouched_video (m := k.mem) home (.inr rfl) low high
    rcases switch_task_mem pid k with mem | mem
    · rw [mem]
      exact away
    · rw [mem]
      exact away.trans (untouched_video next (.inl rfl) low high)
  · rw [switch_task_scheduler]
    rfl

theorem spaces_tick (regs : Regs) (frame : IretFrame) (spaces : Spaces k) (leaves : Leaves halt_addr k trees)
    (low : 0 ≤ k.scheduler.cur_ptree) (high : k.scheduler.cur_ptree < 3) (home : Directory k.cr3) :
    Spaces (timer_tick regs frame k) := by
  obtain ⟨q,-,ticked,-⟩ := tick_switches regs frame leaves low high
  have held := leaves.leaf_held q
  have live := leaves.forest.held_live held
  have links (pid : Int) := sameLinks_of_sameTask (saved_tick_same regs frame k pid)
  have scheduler : (saved_tick regs frame k).scheduler = k.scheduler := by
    obtain ⟨tss,state,saved⟩ := saved_tick_eq regs frame k
    rw [saved,setTask_scheduler]
  have saved : Spaces (saved_tick regs frame k) := by
    refine spaces.keep ?_ (by rw [scheduler]) (fun q _ => (links q).1)
    intro p low high
    rw [saved_tick_mem]
    exact untouched_apart (fun _ _ _ => rfl)
  rw [ticked]
  refine spaces_switch saved (by rw [saved_tick_cr3]; exact home) ?_
  rw [(links _).2.2.2,(leaves.forest.record q _ held).page_directory]
  exact .inl ⟨_,live.1,leaves.forest.bound _ live,rfl⟩

theorem spaces_execute {pid : Int} (esp ebp : Word) (spaces : Spaces k) (pd : Directory k.pd) :
    Spaces (execute_task halt_addr esp ebp pid k).2 := by
  refine spaces.keep ?_ ?_ ?_
  · intro p low high
    rw [execute_task_eq]
    exact untouched_video pd (.inr rfl) low high
  · rw [execute_task_scheduler]
  · intro q _
    by_cases new : q = pid
    · subst new
      rw [execute_task_started]
      rfl
    · rw [execute_task_other _ _ _ _ _ new]

/-! ### The running task -/

/-- No child of the running task is alive, so its directory maps what it
    should. -/
theorem running_space (spaces : Spaces k) (scheduled : Scheduled halt_addr k trees) :
    ∃ screen, (screen = VIDEO ∨ screen = GARBAGE_VID_MEM) ∧
      ∀ v, walk k.mem k.cr3 v = mapping (task_pages k.scheduler.cur_task screen) v := by
  obtain ⟨p,rest,-,top,-,record⟩ := scheduled.running
  have held : k.scheduler.cur_task ∈ trees p := by rw [top]; exact List.mem_cons_self
  have alive := scheduled.forest.held_live held
  have high := scheduled.forest.bound _ alive
  rw [scheduled.directory.2,record.page_directory]
  refine walk_task (spaces.laid _ alive high) alive.1 high ?_
  intro i inside spare present
  obtain ⟨q,child,-⟩ := spaces.spare _ alive.1 high i inside spare present
  exact top_childless scheduled.forest top child

/-- Where a store of user code goes. -/
theorem user_store_address {b : Byte} {page : Nat → Option Nat} (space : walk k.mem k.cr3 v = mapping page v)
    (stored : user_store v b k = some k') : ∃ frame, page (v.toNat / SIZE_4MB_PAGE) = some frame ∧
      k' = { k with mem := Function.update k.mem (BitVec.ofNat 32 (frame + v.toNat % SIZE_4MB_PAGE)).toNat b } := by
  rw [user_store,space,mapping] at stored
  split at stored
  case h_2 => cases stored
  next t found =>
    split at found
    · cases found
    split at found
    · obtain rfl := Option.some.inj found
      rw [if_neg (fun both => Bool.false_ne_true both.1)] at stored
      cases stored
    · obtain ⟨frame,mapped,rfl⟩ := Option.map_eq_some_iff.mp found
      rw [if_pos ⟨rfl,rfl⟩] at stored
      exact ⟨frame,mapped,(Option.some.inj stored).symm⟩

/-- In a task's space it goes to the task's frame or to the screen. -/
theorem task_store {b : Byte} {screen : Nat} (low : 0 ≤ p) (high : p < 10) (which : screen = VIDEO ∨ screen = GARBAGE_VID_MEM)
    (space : walk k.mem k.cr3 v = mapping (task_pages p screen) v) (stored : user_store v b k = some k') :
    ∃ a, k' = { k with mem := Function.update k.mem a b } ∧
      (v.toNat / SIZE_4MB_PAGE ≠ VIRTUAL_VID_MEM / SIZE_4MB_PAGE ∧ a = get_task_addr p + v.toNat % SIZE_4MB_PAGE ∨
        a / SIZE_4MB_PAGE = screen / SIZE_4MB_PAGE) := by
  obtain ⟨frame,page,rfl⟩ := user_store_address space stored
  have address := get_task_addr_eq low high
  refine ⟨_,rfl,?_⟩
  rw [task_pages] at page
  split at page
  case isTrue own =>
    obtain rfl := Option.some.inj page
    refine .inl ⟨?_,?_⟩
    · have places : EXECUTION_ADDR / SIZE_4MB_PAGE = 32 ∧ VIRTUAL_VID_MEM / SIZE_4MB_PAGE = 64 := by decide
      simp only [address,places] at *
      simp only [SIZE_4MB_PAGE] at *
      omega
    · rw [BitVec.toNat_ofNat,Nat.mod_eq_of_lt]
      simp only [address,SIZE_4MB_PAGE]
      omega
  · split at page
    · obtain rfl := Option.some.inj page
      right
      have below : screen / SIZE_4MB_PAGE ≤ 65 := by rcases which with rfl | rfl <;> decide
      rw [BitVec.toNat_ofNat,Nat.mod_eq_of_lt]
      all_goals
        simp only [SIZE_4MB_PAGE] at *
        omega
    · cases page

/-- It changes no byte of another task or of the kernel. -/
theorem task_confined {b : Byte} {screen : Nat} (low : 0 ≤ p) (high : p < 10)
    (which : screen = VIDEO ∨ screen = GARBAGE_VID_MEM) (space : walk k.mem k.cr3 v = mapping (task_pages p screen) v)
    (stored : user_store v b k = some k') {a : Nat} (changed : k'.mem a ≠ k.mem a) :
    a / SIZE_4MB_PAGE = get_task_addr p / SIZE_4MB_PAGE ∨ a / SIZE_4MB_PAGE = VIDEO / SIZE_4MB_PAGE ∨
      a / SIZE_4MB_PAGE = GARBAGE_VID_MEM / SIZE_4MB_PAGE := by
  obtain ⟨c,rfl,place⟩ := task_store low high which space stored
  have hit : a = c := by
    by_contra other
    exact changed (Function.update_of_ne other b k.mem)
  subst hit
  rcases place with ⟨-,rfl⟩ | shown
  · left
    simp only [get_task_addr_eq low high,SIZE_4MB_PAGE]
    omega
  · rw [shown]
    rcases which with rfl | rfl
    · exact .inr (.inl rfl)
    · exact .inr (.inr rfl)

theorem spaces_store {b : Byte} (spaces : Spaces k) (scheduled : Scheduled halt_addr k trees)
    (behaved : Behaved file_sys k (.store v b)) (stored : user_store v b k = some k') :
    Spaces k' ∧ Scheduled halt_addr k' trees := by
  obtain ⟨p,rest,-,top,-,-⟩ := scheduled.running
  have held : k.scheduler.cur_task ∈ trees p := by rw [top]; exact List.mem_cons_self
  have alive := scheduled.forest.held_live held
  have low' := alive.1
  have high' := scheduled.forest.bound _ alive
  obtain ⟨screen,which,space⟩ := running_space spaces scheduled
  obtain ⟨a,rfl,place⟩ := task_store low' high' which (space v) stored
  refine ⟨spaces.keep ?_ rfl (fun _ _ => rfl),scheduled.keep rfl (fun _ => SameLinks.refl _) (fun _ => rfl) rfl rfl⟩
  intro q low high
  refine untouched_apart (fun c first last => ?_)
  have other : c ≠ a := ?_
  · exact Function.update_of_ne other b k.mem
  rintro rfl
  rw [get_task_addr_eq low high] at first last
  rcases place with ⟨plain,written⟩ | shown
  · have offset := behaved plain
    rw [get_task_addr_eq low' high'] at written
    simp only [SIZE_4MB_PAGE,SIZE_4KB_PAGE] at *
    omega
  · have where_ : screen / SIZE_4MB_PAGE = 0 ∨ screen / SIZE_4MB_PAGE = 65 := by
      rcases which with rfl | rfl
      · exact .inl rfl
      · exact .inr rfl
    rw [← shown] at where_
    simp only [SIZE_4MB_PAGE,SIZE_4KB_PAGE] at *
    omega

/-! ### The boot -/

/-- A word of paging.c's own directory after a task is created. -/
theorem boot_created {fname args : Nat → Byte} {pid : Int} {a : Nat}
    (created : Created file_sys fname args k pid k') (max_tasks : k.scheduler.max_tasks = 10) (below : a + 4 ≤ 0x800000) :
    load32 k'.mem a = load32 (store32 k.mem (k.cr3 + 4 * (pid.toNat + 2)) (large_entry (get_task_addr pid) 1)) a := by
  have low' := created.low
  have high' : pid < 10 := by have := created.bound; omega
  have address := get_task_addr_eq low' high'
  obtain ⟨exe_addr,loaded,-,-⟩ := created.loaded
  have frame : new_frame pid k = init_task_pd (get_task_addr pid)
      (store32 k.mem (k.cr3 + 4 * (pid.toNat + 2)) (large_entry (get_task_addr pid) 1)) := by
    rw [new_frame,map_page_directory_large,pd_index_frame low' high']
  refine load32_congr (fun b first last => ?_)
  have built : new_frame pid k b = store32 k.mem (k.cr3 + 4 * (pid.toNat + 2)) (large_entry (get_task_addr pid) 1) b := by
    rw [frame]
    exact init_task_pd_outside _ (by omega) (by omega)
  rw [← built]
  rcases load_program_writes loaded with same | ⟨bytes,same,length⟩
  · rw [same]
  · rw [same]
    exact storeBytes_outside (.inl (by simp only [PROGRAM_IMAGE]; omega))

theorem boot_create {fname args : Nat → Byte} {n : Nat} (boot : Boot pd pt n k) (few : n < 4)
    (kernel : pd + 4096 ≤ 0x800000 ∧ pt + 4096 ≤ 0x800000) (apart : pd + 4096 ≤ pt ∨ pt + 4096 ≤ pd)
    (created : Created file_sys fname args k n k') (max_tasks : k.scheduler.max_tasks = 10) :
    Boot pd pt (n + 1) k' := by
  have directory {i : Nat} (inside : i < NUM_PAGES) : entry k'.mem pd i =
      if i = n + 2 then large_entry (get_task_addr n) 1 else entry k.mem pd i := by
    simp only [NUM_PAGES] at inside
    rw [entry,boot_created created max_tasks (by omega),boot.cr3,Int.toNat_natCast]
    exact entry_store _
  have table {i : Nat} (inside : i < NUM_PAGES) : entry k'.mem pt i = entry k.mem pt i := by
    simp only [NUM_PAGES] at inside
    rw [entry,boot_created created max_tasks (by omega),boot.cr3,Int.toNat_natCast]
    exact entry_store_other _ (by omega)
  refine ⟨created.cr3.trans boot.cr3,⟨?_,?_,?_,?_⟩,?_,?_⟩
  · rw [directory (by decide),if_neg (by omega)]
    exact boot.maps.table
  · rw [directory (by decide),if_neg (by omega)]
    exact boot.maps.kernel
  · rw [table (by decide)]
    exact boot.maps.null
  · intro i inside first
    rw [table inside]
    exact boot.maps.identity i inside first
  · intro i inside
    rw [directory (by simp only [NUM_PAGES]; omega)]
    by_cases last : i = n
    · rw [if_pos (by omega),last]
    · rw [if_neg (by omega)]
      exact boot.frames i (by omega)
  · intro i inside above
    rw [directory inside,if_neg (by omega)]
    exact boot.others i inside (by omega)

/-- Before the boot no frame maps anything. -/
theorem paging_init_spaces (unmapped : Unmapped pd pt m) (mem : k.mem = paging_init pd pt m)
    (start : k.scheduler = scheduler) : Spaces k := by
  obtain ⟨kernel,-,-,-,-,frames⟩ := unmapped
  simp only [SIZE_4MB_PAGE] at kernel
  have high (a : Nat) (above : 0x800000 ≤ a) : load32 k.mem a = load32 m a := by
    refine load32_congr (fun b first last => ?_)
    rw [mem,paging_init]
    simp only [load32_store32_same,store32_store32_same]
    rw [store32_outside _ (by omega),fill_page_table_outside _ (by simp only [NUM_PAGES]; omega),
      store32_outside _ (by omega)]
  refine ⟨?_,?_,?_⟩
  · intro p alive _
    rw [start] at alive
    have none_ : (scheduler.task_vector).getLsbD p.toNat = false := by
      rw [show scheduler.task_vector = 0 from rfl]
      exact BitVec.getLsbD_zero
    exact absurd alive (not_live_of_free none_)
  · intro p low bound
    rw [entry,high _ (by rw [get_task_addr_eq low bound]; omega)]
    exact (frames p low bound).1
  · intro p low bound i inside _ present
    rw [entry,high _ (by rw [get_task_addr_eq low bound]; omega)] at present
    exact absurd present ((frames p low bound).2 i inside)

/-! ### Runs -/

/-- What the runs keep. -/
structure Spaced (halt_addr : Word) (pd pt : Nat) (k : Kernel) : Prop where
  spaces : Spaces k
  phase : Idle halt_addr k ∧ Boot pd pt 4 k ∨ ∃ trees, Scheduled halt_addr k trees

theorem protected_of_spaced (fits : pt < 4294967296) (aligned : pt % SIZE_4KB_PAGE = 0)
    (spaced : Spaced halt_addr pd pt k) : Protected k := by
  obtain ⟨spaces,⟨idle,boot⟩ | ⟨trees,scheduled⟩⟩ := spaced
  · refine ⟨fun _ => walk_boot boot fits aligned,?_,?_⟩
    · intro busy
      exact absurd idle.cur_task busy
    · intro busy
      exact absurd idle.cur_task busy
  · obtain ⟨p,rest,-,top,-,record⟩ := scheduled.running
    have held : k.scheduler.cur_task ∈ trees p := by rw [top]; exact List.mem_cons_self
    have alive := scheduled.forest.held_live held
    obtain ⟨screen,which,space⟩ := running_space spaces scheduled
    refine ⟨fun idle => absurd idle record.positive,fun _ => ⟨screen,which,space⟩,?_⟩
    intro _ v b k' stored a changed
    exact task_confined alive.1 (scheduled.forest.bound _ alive) which (space v) stored changed

theorem Spaces.same_mem (spaces : Spaces k) (mem : k'.mem = k.mem)
    (vector : k'.scheduler.task_vector = k.scheduler.task_vector)
    (parents : ∀ q, q ≠ 0 → (k'.tasks q).parent_task = (k.tasks q).parent_task) : Spaces k' := by
  refine spaces.keep (fun p _ _ => ?_) vector parents
  rw [mem]
  exact untouched_apart (fun _ _ _ => rfl)

theorem spaces_call {op : Op} (spaces : Spaces k) (scheduled : Scheduled halt_addr k trees)
    (admitted : Admitted file_sys k op) (taken : TaskForest.step file_sys halt_addr k op = some k') : Spaces k' := by
  obtain ⟨p,rest,ptree,top,cur,record⟩ := scheduled.running
  have home := home_of_scheduled scheduled
  have busy : ¬ k.scheduler.cur_task = 0 := record.positive
  cases op with
  | execute programName argsBuffer esp ebp =>
    obtain ⟨pid,k₁,outcome,made⟩ := create_task_cases file_sys programName argsBuffer (k := k)
      (by rw [scheduled.forest.max_tasks]; omega)
    rw [TaskForest.step,if_neg busy] at taken
    obtain rfl := Option.some.inj taken
    rcases made with created | ⟨failed,refused⟩
    · rw [do_execute_done outcome created.low]
      have before := spaces_create spaces home scheduled.forest.max_tasks (admitted _ created.found).1 created
      exact spaces_execute esp ebp before (by rw [created.pd]; exact home.directory)
    · rw [do_execute_failed outcome (by omega)]
      rcases refused.rest with ⟨-,tasks,mem,-⟩ | ⟨pid,low,-,-,-,unloaded,-,-,found⟩
      · exact spaces.same_mem mem (by rw [refused.scheduler]) (fun q _ => by rw [tasks])
      · have loads := (admitted _ found).2
        rw [Int.toNat_of_nonneg low,unloaded] at loads
        exact absurd rfl loads
  | halt status =>
    obtain ⟨c,restarts | ⟨p,parent,rest,top,returns⟩⟩ := halt_outcome file_sys status scheduled
    · obtain rfl := Option.some.inj (restarts.symm.trans taken)
      refine spaces.same_mem rfl rfl (fun q _ => ?_)
      by_cases current : q = get_cur_task k
      · subst current
        exact (congrArg Task.parent_task (setTask_same { k with console := c } _ (restarted _))).trans rfl
      · exact congrArg Task.parent_task (setTask_other { k with console := c } _ current)
    · obtain rfl := Option.some.inj (returns.symm.trans taken)
      have quiet := console_scheduled c scheduled
      obtain ⟨_,_,-,-,cur',record'⟩ := quiet.running
      have silent : Spaces { k with console := c } := spaces.same_mem rfl rfl (fun _ _ => rfl)
      have ended := spaces_end silent quiet.forest top
      rw [execute_task_return,cur',record'.number]
      exact ended.same_mem rfl rfl (fun _ _ => rfl)
  | tick regs frame =>
    obtain rfl := Option.some.inj taken
    exact spaces_tick regs frame spaces scheduled.toLeaves (by omega) (by omega) home.directory

theorem step_spaced {event : Event} (spaced : Spaced halt_addr pd pt k) (behaved : Behaved file_sys k event)
    (taken : step file_sys halt_addr k event = some k') : Spaced halt_addr pd pt k' := by
  obtain ⟨spaces,⟨idle,boot⟩ | ⟨trees,scheduled⟩⟩ := spaced
  · cases event with
    | store v b =>
      rw [step,if_pos idle.cur_task] at taken
      cases taken
    | call op =>
      rw [step] at taken
      cases op with
      | execute programName argsBuffer esp ebp =>
        rw [TaskForest.step,if_pos idle.cur_task] at taken
        cases taken
      | halt status =>
        rw [TaskForest.step,if_pos idle.cur_task] at taken
        cases taken
      | tick regs frame =>
        obtain rfl := Option.some.inj taken
        have ptree := idle.cur_ptree
        refine ⟨?_,.inr ⟨shells,tick_scheduled regs frame idle.leaves (by omega) (by omega)⟩⟩
        exact spaces_tick regs frame spaces idle.leaves (by omega) (by omega) (.inr idle.boot)
  · cases event with
    | store v b =>
      obtain ⟨_,_,-,-,-,record⟩ := scheduled.running
      rw [step,if_neg record.positive] at taken
      obtain ⟨after,running⟩ := spaces_store spaces scheduled behaved taken
      exact ⟨after,.inr ⟨trees,running⟩⟩
    | call op => exact ⟨spaces_call spaces scheduled behaved taken,.inr (step_scheduled ⟨trees,scheduled⟩ taken)⟩

variable (halt_addr) in
theorem tasks_init_spaced (unmapped : Unmapped pd pt m) (mem : k.mem = paging_init pd pt m) (cr3 : k.cr3 = pd)
    (start : k.scheduler = scheduler) (unwritten : (k.tasks 0).ptid = 0) (fits : Fits file_sys shell_name)
    (booted : tasks_init file_sys k = some k') : Spaced halt_addr pd pt k' := by
  have max_tasks : k.scheduler.max_tasks = 10 := by rw [start]; rfl
  have kernel : pd + 4096 ≤ 0x800000 ∧ pt + 4096 ≤ 0x800000 := ⟨unmapped.kernel.2.1,unmapped.kernel.2.2.2⟩
  obtain ⟨leaves,cur_task,cur_ptree,page_directory⟩ := tasks_init_leaves halt_addr start unwritten booted
  have first (pid : Int) (k₁ : Kernel) (created : Created file_sys shell_name (fun _ => 0) k pid k₁) :
      Spaces (set_cur_task 0 k₁) ∧ Boot pd pt 1 (set_cur_task 0 k₁) := by
    obtain rfl := created_first start created
    have before := paging_init_spaces unmapped mem start
    have boot := paging_init_boot unmapped mem cr3
    have made := spaces_create before (.inl (by rw [cr3]; exact kernel.1)) max_tasks fits created
    obtain ⟨home,maps,frames,others⟩ := boot_create boot (by decide) kernel unmapped.apart created max_tasks
    exact ⟨made.same_mem rfl rfl (fun _ _ => rfl),⟨home,maps,frames,others⟩⟩
  have next (n : Nat) (k₁ k₂ : Kernel) (few : n < 3) (ready : Booting k₁ n) (before : Spaces k₁ ∧ Boot pd pt (n + 1) k₁)
      (done : init_shell file_sys k₁ = some k₂) : Spaces k₂ ∧ Boot pd pt (n + 2) k₂ := by
    have many := ready.max_tasks
    obtain ⟨spaces,boot⟩ := before
    obtain ⟨pid,k₃,ptid,ptree_tasks,ptree_vector,num_ptrees,created,rfl⟩ := init_shell_created (by omega) done
    have number := created_shell few ready created
    have made := spaces_create spaces (.inl (by rw [boot.cr3]; exact kernel.1)) many fits created
    rw [show pid = ((n + 1 : Nat) : Int) by omega] at created
    obtain ⟨home,maps,frames,others⟩ := boot_create boot (by omega) kernel unmapped.apart created many
    refine ⟨made.same_mem rfl rfl (fun q _ => ?_),⟨home,maps,frames,others⟩⟩
    by_cases new : q = pid
    · rw [new]
      exact (congrArg Task.parent_task (setTask_same k₃ pid (shell_record ptid (k₃.tasks pid)))).trans rfl
    · exact congrArg Task.parent_task (setTask_other k₃ _ new)
  obtain ⟨k₁,-,⟨spaces,boot⟩,rfl⟩ := tasks_init_rule (P := fun n k₁ => Spaces k₁ ∧ Boot pd pt (n + 1) k₁) start unwritten
    booted first next
  obtain ⟨home,maps,frames,others⟩ := boot
  refine ⟨?_,.inl ⟨⟨leaves,cur_task,cur_ptree,page_directory,?_⟩,⟨home,maps,frames,others⟩⟩⟩
  · exact spaces.same_mem rfl rfl
      (fun q positive => congrArg Task.parent_task (setTask_other k₁ _ positive))
  · rw [show (idle_task k₁).cr3 = k₁.cr3 from rfl,home]
    exact kernel.1

/-- From `paging_init` on, whatever is executed, halted, interrupted and stored,
    every address means what it should, and user code stays in its frame and on
    its screen. -/
theorem spaces_protected {events : List Event} {k₁ : Kernel} (unmapped : Unmapped pd pt m)
    (mem : k.mem = paging_init pd pt m) (cr3 : k.cr3 = pd) (start : k.scheduler = scheduler)
    (unwritten : (k.tasks 0).ptid = 0) (fits : Fits file_sys shell_name) (booted : tasks_init file_sys k = some k₁)
    (behaved : StepsMeet (step file_sys halt_addr) (Behaved file_sys) k₁ events) :
    StatesMeet (step file_sys halt_addr) Protected k₁ events := by
  have spaced := tasks_init_spaced halt_addr unmapped mem cr3 start unwritten fits booted
  have below : pt < 4294967296 := by
    have kernel := unmapped.kernel.2.2.2
    simp only [SIZE_4MB_PAGE] at kernel
    omega
  refine statesMeet_mono (fun _ good => protected_of_spaced below unmapped.aligned good)
    (statesMeet_of_stepsMeet ?_ spaced behaved)
  intro s event s' good allowed taken
  exact step_spaced good allowed taken

/-- Where the loader may have put paging.c's directory and table. -/
def paged_kernel : Kernel :=
  { bare_kernel with pd := 0x401000, cr3 := 0x401000, mem := paging_init 0x401000 0x402000 fun _ => 0 }

theorem unmapped_zero : Unmapped 0x401000 0x402000 fun _ => 0 := by
  have none_ (table i : Nat) : ¬ Present (entry (fun _ => 0) table i) := by
    rw [show entry (fun _ => 0) table i = (0#8 ++ 0#8 ++ 0#8 ++ 0#8 : Word) from rfl]
    decide
  exact ⟨by decide,by decide,by decide,fun i _ => none_ _ i,none_ _ 0,fun p _ _ => ⟨none_ _ 0,fun i _ => none_ _ i⟩⟩

theorem spaces_protected_shells : ∃ k, tasks_init shell_image paged_kernel = some k ∧
    StatesMeet (step shell_image 0) Protected k
      [.call (.tick default default),.store 0x08050000 1,.call (.execute shell_name (fun _ => 0) 0 0),
        .store 0x100B8000 65,.call (.tick default default),.call (.halt 0)] := by
  obtain ⟨k,booted⟩ := tasks_init_completes shell_image_loads (k := paged_kernel) rfl rfl
  refine ⟨k,booted,spaces_protected unmapped_zero rfl rfl rfl rfl (by decide) booted ?_⟩
  refine ⟨trivial,fun _ _ => ⟨fun _ => by decide,fun _ _ => ⟨?_,fun _ _ => ⟨fun shown => absurd rfl shown,
    fun _ _ => ⟨trivial,fun _ _ => ⟨trivial,fun _ _ => trivial⟩⟩⟩⟩⟩⟩
  intro i _
  exact ⟨by decide,shell_image_loads _ _ (Nat.add_pos_right _ (by decide))⟩

end Mp3Kernel.MemoryProtection

import Mp3Kernel.Kernel.Sched

/-!
The directory and the page table of a new task over whatever its frame held
before. `init_task_pd` works through the globals `pd` and `pt`, and writes five
of the directory's words and all but one of the table's.
-/
namespace Mp3Kernel.TaskDirectory
open Mp3Kernel.Memory Mp3Kernel.Tasks Mp3Kernel.Paging
open Mp3Kernel.Scheduler (scheduler Kernel)

/-- paging.c's two globals, and memory. -/
structure Globals where
  pd : Nat
  pt : Nat
  mem : Mem

def Globals.store (g : Globals) (a : Nat) (v : Word) : Globals := { g with mem := store32 g.mem a v }

/-- `map_page_directory` through the global `pd`. -/
def map_page_directory (phys_addr virt_addr size user : Nat) (g : Globals) : Globals :=
  { g with mem := Paging.map_page_directory g.pd phys_addr virt_addr size user g.mem }

/-- `init_task_pd` of the task with the pid. -/
def init_task_pd (pid : Int) (g : Globals) : Globals :=
  let addr := get_task_addr pid
  let old_pd := g.pd
  let old_pt := g.pt
  let g := { g with pd := addr, pt := addr + 4 * NUM_PAGES }
  let g := g.store g.pd (BitVec.ofNat 32 g.pt &&& FIRST_20_BITS)
  let g := g.store g.pd (load32 g.mem g.pd ||| SUPERVISOR_RW_PRESENT)
  let g := { g with mem := fill_page_table g.pt g.mem }
  let g := map_page_directory KERNEL_LOCATION KERNEL_LOCATION 1 0 g
  let g := map_page_directory addr addr 1 1 g
  let g := map_page_directory addr EXECUTION_ADDR 1 1 g
  let g := map_page_directory VIDEO VIRTUAL_VID_MEM 1 1 g
  { g with pd := old_pd, pt := old_pt }

def directory (pid : Int) (m : Mem) (i : Nat) : Word := entry m (get_task_addr pid) i
def table (pid : Int) (m : Mem) (i : Nat) : Word := entry m (get_task_addr pid + 4 * NUM_PAGES) i

/-! ### What a new directory should be -/

/-- The entries that are meant to be present. -/
def Mapped (pid : Int) (i : Nat) : Prop :=
  i = 0 ∨ i = 1 ∨ i = pd_index (get_task_addr pid) ∨ i = pd_index EXECUTION_ADDR ∨ i = pd_index VIRTUAL_VID_MEM

instance (pid : Int) (i : Nat) : Decidable (Mapped pid i) := inferInstanceAs (Decidable (_ ∨ _))

/-- What `init_task` should make of `g`. -/
structure Built (pid : Int) (g g' : Globals) : Prop where
  five : ∀ i < NUM_PAGES, Present (directory pid g'.mem i) ↔ Mapped pid i
  null : ¬ Present (table pid g'.mem 0)
  identity : ∀ i < NUM_PAGES, i ≠ 0 →
    table pid g'.mem i = BitVec.ofNat 32 (i * SIZE_4KB_PAGE) ||| SUPERVISOR_RW_PRESENT
  restored : g'.pd = g.pd ∧ g'.pt = g.pt

/-- The earlier contents of the frame make no difference. -/
structure BuildsSame (pid : Int) (g h : Globals) : Prop where
  built : Built pid g (init_task_pd pid g) ∧ Built pid h (init_task_pd pid h)
  directories : ∀ i < NUM_PAGES, directory pid (init_task_pd pid g).mem i = directory pid (init_task_pd pid h).mem i
  tables : ∀ i < NUM_PAGES, table pid (init_task_pd pid g).mem i = table pid (init_task_pd pid h).mem i

/-- No word of the frame that stays is a present entry. -/
def Clean (pid : Int) (m : Mem) : Prop :=
  ¬ Present (table pid m 0) ∧ ∀ i < NUM_PAGES, ¬ Mapped pid i → ¬ Present (directory pid m i)

/-- Both contents are clean, with the same words. -/
structure CleanAlike (pid : Int) (m n : Mem) : Prop where
  clean : Clean pid m ∧ Clean pid n
  first : table pid m 0 = table pid n 0
  others : ∀ i < NUM_PAGES, ¬ Mapped pid i → directory pid m i = directory pid n i

/-! ### What it is -/

variable {pid : Int} {m : Mem} {i : Nat}

/-- The globals come back, and memory is that of the directory's own model. -/
theorem init_task_pd_eq (pid : Int) (g : Globals) :
    init_task_pd pid g = { g with mem := Paging.init_task_pd (get_task_addr pid) g.mem } := by
  simp only [init_task_pd,Globals.store,map_page_directory,load32_store32_same,store32_store32_same]
  rfl

/-- `init_task` does to memory what its directory does. -/
theorem init_task_directory (pid : Int) (pt : Nat) (k : Kernel) :
    (Scheduler.init_task pid k).mem = (init_task_pd pid ⟨k.pd,pt,k.mem⟩).mem := by
  rw [init_task_pd_eq]
  rfl

theorem entry_fill_page_table (m : Mem) (pt : Nat) (inside : i < NUM_PAGES) :
    entry (fill_page_table pt m) pt i =
      if i = 0 then entry m pt 0 else BitVec.ofNat 32 (i * SIZE_4KB_PAGE) ||| SUPERVISOR_RW_PRESENT := by
  have loop : ∀ n, entry ((List.range n).foldl (fun m i =>
      if i ≠ 0 then store32 m (pt + 4 * i) (BitVec.ofNat 32 (i * SIZE_4KB_PAGE) ||| SUPERVISOR_RW_PRESENT)
      else m) m) pt i =
      if i = 0 ∨ n ≤ i then entry m pt i else BitVec.ofNat 32 (i * SIZE_4KB_PAGE) ||| SUPERVISOR_RW_PRESENT := by
    intro n
    induction n with
    | zero => rw [if_pos (.inr (Nat.zero_le i))]; rfl
    | succ n ih =>
      rw [List.range_succ,List.foldl_append,List.foldl_cons,List.foldl_nil]
      by_cases first : n = 0
      · rw [if_neg (not_not.mpr first),ih,if_pos (by omega),if_pos (by omega)]
      · rw [if_pos first,entry_store,ih]
        by_cases same : i = n
        · rw [if_pos same,if_neg (by omega),same]
        · rw [if_neg same]
          by_cases later : i = 0 ∨ n ≤ i
          · rw [if_pos later,if_pos (by omega)]
          · rw [if_neg later,if_neg (by omega)]
  have all := loop NUM_PAGES
  rw [fill_page_table,all]
  by_cases zero : i = 0
  · rw [if_pos (.inl zero),if_pos zero,zero]
  · rw [if_neg (by omega),if_neg zero]

theorem pd_index_frame {pid : Nat} (bound : pid < scheduler.max_tasks) : pd_index (get_task_addr pid) = pid + 2 := by
  have ten : pid < 10 := bound
  have addr := get_task_addr_eq (Int.natCast_nonneg pid) (by omega)
  rw [Int.toNat_natCast] at addr
  rw [pd_index_eq (by omega),addr]
  omega

theorem mapped_iff {pid : Nat} (bound : pid < scheduler.max_tasks) :
    Mapped pid i ↔ i = 0 ∨ i = 1 ∨ i = pid + 2 ∨ i = 32 ∨ i = 64 := by
  have execution : pd_index EXECUTION_ADDR = 32 := pd_index_eq (by decide)
  have video : pd_index VIRTUAL_VID_MEM = 64 := pd_index_eq (by decide)
  rw [Mapped,pd_index_frame bound,execution,video]

/-- The value of a written entry. -/
def mapped_entry (pid : Int) (i : Nat) : Word :=
  if i = 64 then large_entry VIDEO 1
  else if i = 1 then large_entry KERNEL_LOCATION 0
  else if i = 0 then (BitVec.ofNat 32 (get_task_addr pid + 4 * NUM_PAGES) &&& FIRST_20_BITS) ||| SUPERVISOR_RW_PRESENT
  else large_entry (get_task_addr pid) 1

theorem mapped_entry_present (pid : Int) (i : Nat) : Present (mapped_entry pid i) := by
  have large (phys_addr : Nat) {user : Nat} (flag : user < 2) : Present (large_entry phys_addr user) :=
    (large_entry_decoded phys_addr flag).1
  have small : Present ((BitVec.ofNat 32 (get_task_addr pid + 4 * NUM_PAGES) &&& FIRST_20_BITS) |||
      SUPERVISOR_RW_PRESENT) := by
    have mask : FIRST_20_BITS &&& 1 = 0 := by decide
    have flag : SUPERVISOR_RW_PRESENT &&& 1 = 1 := by decide
    rw [Present,BitVec.and_or_distrib_right,BitVec.and_assoc,mask,flag]
    simp
  simp only [mapped_entry]
  split
  · exact large _ (by decide)
  · split
    · exact large _ (by decide)
    · split
      · exact small
      · exact large _ (by decide)

/-- Where each word of the new directory is from, -/
theorem directory_init_task_pd {pid : Nat} (bound : pid < scheduler.max_tasks) (g : Globals) (inside : i < NUM_PAGES) :
    directory pid (init_task_pd pid g).mem i = if Mapped pid i then mapped_entry pid i else directory pid g.mem i := by
  have ten : pid < 10 := bound
  rw [init_task_pd_eq,directory,entry_init_task_pd g.mem inside,pd_index_frame bound,directory]
  by_cases written : Mapped pid i
  · rw [if_pos written,mapped_entry]
    have which := (mapped_iff bound).mp written
    split_ifs <;> first | rfl | omega
  · rw [if_neg written]
    have others := (mapped_iff bound).not.mp written
    rw [if_neg (by omega),if_neg (by omega),if_neg (by omega),if_neg (by omega),if_neg (by omega)]

/-- and each word of the new table. -/
theorem table_init_task_pd {pid : Nat} (bound : pid < scheduler.max_tasks) (g : Globals) (inside : i < NUM_PAGES) :
    table pid (init_task_pd pid g).mem i =
      if i = 0 then table pid g.mem 0 else BitVec.ofNat 32 (i * SIZE_4KB_PAGE) ||| SUPERVISOR_RW_PRESENT := by
  have kernel : pd_index KERNEL_LOCATION = 1 := pd_index_eq (by decide)
  have execution : pd_index EXECUTION_ADDR = 32 := pd_index_eq (by decide)
  have video : pd_index VIRTUAL_VID_MEM = 64 := pd_index_eq (by decide)
  have ten : pid < 10 := bound
  have behind (m : Mem) (j : Nat) (below : j < NUM_PAGES) (v : Word) :
      entry (store32 m (get_task_addr pid + 4 * j) v) (get_task_addr pid + 4 * NUM_PAGES) i =
        entry m (get_task_addr pid + 4 * NUM_PAGES) i :=
    entry_store_other v (.inr (by omega))
  rw [init_task_pd_eq]
  simp only [table,Paging.init_task_pd,map_page_directory_large,kernel,execution,video,pd_index_frame bound]
  rw [behind _ 64 (by decide),behind _ 32 (by decide),behind _ (pid + 2) (by simp only [NUM_PAGES]; omega),behind _ 1 (by decide),
    entry_fill_page_table _ _ inside]
  split
  · exact entry_store_other _ (.inr (by omega))
  · rfl

/-- A frame's directory is as it should be exactly when its words were clean. -/
theorem built_iff {pid : Nat} (bound : pid < scheduler.max_tasks) (g : Globals) :
    Built pid g (init_task_pd pid g) ↔ Clean pid g.mem := by
  constructor
  · rintro ⟨five,null,-,-⟩
    rw [table_init_task_pd bound g (by decide),if_pos rfl] at null
    refine ⟨null,?_⟩
    intro i inside unmapped present
    refine unmapped ((five i inside).mp ?_)
    rwa [directory_init_task_pd bound g inside,if_neg unmapped]
  · rintro ⟨null,others⟩
    refine ⟨?_,?_,?_,?_⟩
    · intro i inside
      rw [directory_init_task_pd bound g inside]
      by_cases written : Mapped pid i
      · rw [if_pos written]
        exact iff_of_true (mapped_entry_present pid i) written
      · rw [if_neg written]
        exact iff_of_false (others i inside written) written
    · rwa [table_init_task_pd bound g (by decide),if_pos rfl]
    · intro i inside first
      rw [table_init_task_pd bound g inside,if_neg first]
    · rw [init_task_pd_eq]
      exact ⟨rfl,rfl⟩

/-- Two earlier contents of a frame lead to the same directory and table, as
    they should be, exactly when both were clean and alike. -/
theorem builds_same_iff {pid : Nat} (bound : pid < scheduler.max_tasks) (g h : Globals) :
    BuildsSame pid g h ↔ CleanAlike pid g.mem h.mem := by
  constructor
  · rintro ⟨⟨built,built'⟩,directories,tables⟩
    have first := tables 0 (by decide)
    rw [table_init_task_pd bound g (by decide),table_init_task_pd bound h (by decide),if_pos rfl,if_pos rfl] at first
    refine ⟨⟨(built_iff bound g).mp built,(built_iff bound h).mp built'⟩,first,?_⟩
    intro i inside unmapped
    have same := directories i inside
    rwa [directory_init_task_pd bound g inside,directory_init_task_pd bound h inside,if_neg unmapped,
      if_neg unmapped] at same
  · rintro ⟨⟨clean,clean'⟩,first,others⟩
    refine ⟨⟨(built_iff bound g).mpr clean,(built_iff bound h).mpr clean'⟩,?_,?_⟩
    · intro i inside
      rw [directory_init_task_pd bound g inside,directory_init_task_pd bound h inside]
      split
      · rfl
      · exact others i inside ‹_›
    · intro i inside
      rw [table_init_task_pd bound g inside,table_init_task_pd bound h inside,first]

/-- Memory as it was never used, -/
def unused : Globals := ⟨0x401000,0x402000,fun _ => 0⟩
/-- and with the image of an earlier program in the frame of pid 1. -/
def reused : Globals := unused.store (get_task_addr 1 + PROGRAM_IMAGE) 0x464c457f

theorem clean_unused (pid : Int) : Clean pid unused.mem := by
  have zero : ¬ Present (((0 : Byte) ++ (0 : Byte) ++ (0 : Byte) ++ (0 : Byte) : Word)) := by decide
  exact ⟨zero,fun _ _ _ => zero⟩

theorem builds_same_reused : BuildsSame (1 : Nat) unused reused := by
  have image {table i : Nat} (below : table + 4 * i + 4 ≤ get_task_addr 1 + PROGRAM_IMAGE) :
      entry reused.mem table i = entry unused.mem table i := entry_store_other _ (.inl below)
  have first : table (1 : Nat) unused.mem 0 = table (1 : Nat) reused.mem 0 := (image (by decide)).symm
  have others (i : Nat) (inside : i < NUM_PAGES) : directory (1 : Nat) unused.mem i = directory (1 : Nat) reused.mem i :=
    (image (by simp only [NUM_PAGES,Nat.cast_one,PROGRAM_IMAGE] at *; omega)).symm
  obtain ⟨null,clean⟩ := clean_unused (1 : Nat)
  refine (builds_same_iff (by decide) unused reused).mpr ⟨⟨⟨null,clean⟩,first ▸ null,?_⟩,first,?_⟩
  · intro i inside unmapped
    rw [← others i inside]
    exact clean i inside unmapped
  · exact fun i inside _ => others i inside

/-- The program that had the frame wrote a 4 MB user entry for the kernel's
    page to word 5 of its own first page. -/
def forged : Globals := unused.store (get_task_addr 1 + 4 * 5) (large_entry KERNEL_LOCATION 1)

/-- It survives as the entry of the next task. -/
theorem forged_entry_survives : Present (directory 1 (init_task_pd 1 forged).mem 5) ∧
    UserAccessible (directory 1 (init_task_pd 1 forged).mem 5) ∧ ¬ BuildsSame 1 unused forged := by
  have bound : 1 < scheduler.max_tasks := by decide
  have unmapped : ¬ Mapped ((1 : Nat) : Int) 5 := fun written => absurd ((mapped_iff bound).mp written) (by decide)
  have word : directory 1 forged.mem 5 = large_entry KERNEL_LOCATION 1 := load32_store32_same _ _ _
  have stays := directory_init_task_pd bound forged (i := 5) (by decide)
  rw [if_neg unmapped] at stays
  have stays' : directory 1 (init_task_pd 1 forged).mem 5 = large_entry KERNEL_LOCATION 1 := stays.trans word
  obtain ⟨present,-,user,-⟩ := large_entry_decoded KERNEL_LOCATION (show 1 < 2 by decide)
  rw [stays']
  refine ⟨present,user.mpr rfl,?_⟩
  intro same
  have clean := ((builds_same_iff bound unused forged).mp same).clean.2.2 5 (by decide) unmapped
  exact clean (by rw [Int.natCast_one,word]; exact present)

end Mp3Kernel.TaskDirectory

import Mp3Kernel.Filesys.Loader
import Mp3Kernel.Kernel.Rollback

/-!
What `create_task` makes of a program's file. The load checks the header and
the entry point but not how the copy ends, so a damaged file is refused only
where one of these shows it; and nothing compares a file with the room behind
PROGRAM_IMAGE, so a long one runs into the next frame.
-/
namespace Mp3Kernel.LoadTask
open Mp3Kernel.Memory Mp3Kernel.Filesys Mp3Kernel.Tasks Mp3Kernel.Scheduler Mp3Kernel.Loader
open Mp3Kernel.ReadContents (file_byte)
open Mp3Kernel.Rollback (new_frame_outside)
open Mp3Kernel.Paging (map_page_directory_large pd_index_eq)

/-- The name leads to a regular file. -/
def RegularFile (file_sys : FileSys) (fname : Nat → Byte) : Prop :=
  (read_dentry_by_name file_sys fname uninitialized).1 ≠ -1 ∧
    (read_dentry_by_name file_sys fname uninitialized).2.file_type = 2 ∧
    program_inode file_sys fname < file_sys.num_inodes

/-- It does, and one of the block numbers that the length of the file asks for
    names no block. -/
def Damaged (file_sys : FileSys) (fname : Nat → Byte) : Prop :=
  RegularFile file_sys fname ∧ ∃ j < ((program_node file_sys fname).len + 4095) / 4096,
    file_sys.num_blocks ≤ (program_node file_sys fname).dblocks j

/-- The program is not started: the load fails at every destination, and the
    callers fail with it in every kernel. -/
structure Rejected (file_sys : FileSys) (fname : Nat → Byte) : Prop where
  load : ∀ addr m, (load_program file_sys fname addr m).1 = -1
  create : ∀ args k, k.scheduler.max_tasks ≤ 32 → (create_task file_sys fname args k).1 = -1
  execute : ∀ halt_addr esp ebp args k, k.scheduler.max_tasks ≤ 32 →
    (do_execute file_sys halt_addr esp ebp fname args k).1 = none

/-- The damage shows in the header, or the entry point reads as a failure. -/
def Noticed (file_sys : FileSys) (node : Inode) : Prop :=
  file_sys.num_blocks ≤ node.dblocks 0 ∨ load32 (file_byte file_sys node) 0 ≠ ELF_MAGIC ∨
    load32 (file_byte file_sys node) 24 = 0xFFFFFFFF

/-- The bytes that `create_task` writes once the frame of the new pid is set up
    are the program's; all of them lie in that frame behind PROGRAM_IMAGE, and
    none in the next one. -/
def StaysInFrame (file_sys : FileSys) (fname : Nat → Byte) (pid : Nat) : Prop :=
  ∀ k args, k.scheduler.max_tasks = scheduler.max_tasks →
    free_pid k.scheduler.task_vector 0 k.scheduler.max_tasks = some pid →
    ∀ a, (create_task file_sys fname args k).2.mem a ≠ new_frame pid k a →
      get_task_addr pid + PROGRAM_IMAGE ≤ a ∧ a < get_task_addr pid + SIZE_4MB_PAGE ∧
        ¬ (get_task_addr (pid + 1) ≤ a ∧ a < get_task_addr (pid + 1) + SIZE_4MB_PAGE)

/-- The program is not copied, or is shorter than the 952 blocks of the room, or
    its block list ends before it fills them. -/
def LeavesRoom (file_sys : FileSys) (fname : Nat → Byte) : Prop :=
  ¬ Elf file_sys fname ∨ (program_node file_sys fname).len < 952 * 4096 ∨
    ∃ j ≤ 952, file_sys.num_blocks ≤ (program_node file_sys fname).dblocks j

variable {file_sys : FileSys} {fname args : Nat → Byte} {addr : Nat} {m : Mem} {k : Kernel}

/-! ### create_task by the outcome of the load -/

variable (file_sys fname args) in
/-- With a free pid, `create_task` returns it or fails as the load does, and
    leaves the memory of the load. -/
theorem create_task_outcome {i : Nat} (few : k.scheduler.max_tasks ≤ 32)
    (search : free_pid k.scheduler.task_vector 0 k.scheduler.max_tasks = some i) :
    let loaded := load_program file_sys fname (get_task_addr i + PROGRAM_IMAGE) (new_frame i k)
    (create_task file_sys fname args k).1 = (if loaded.1 = -1 then -1 else (i : Int)) ∧
      (create_task file_sys fname args k).2.mem = loaded.2 := by
  obtain ⟨pid,k',outcome,created | ⟨rfl,refused⟩⟩ := create_task_cases file_sys fname args few
  · obtain ⟨exe_addr,loaded,done,-⟩ := created.loaded
    have same : pid = i := by
      have low := created.low
      have found := Option.some.inj (created.found.symm.trans search)
      omega
    subst same
    rw [outcome,loaded]
    exact ⟨(if_neg done).symm,rfl⟩
  · rcases refused.rest with ⟨full,-⟩ | ⟨pid,low,-,-,-,loaded,-,-,found⟩
    · rw [free_pid_full full] at search
      cases search
    · have same : pid = i := by
        have found := Option.some.inj (found.symm.trans search)
        omega
      subst same
      rw [outcome,loaded]
      exact ⟨(if_pos rfl).symm,rfl⟩

/-- What never loads is never started. -/
theorem rejected_iff_load : Rejected file_sys fname ↔ ∀ addr m, (load_program file_sys fname addr m).1 = -1 := by
  refine ⟨Rejected.load,fun load => ?_⟩
  have create (args : Nat → Byte) (k : Kernel) (few : k.scheduler.max_tasks ≤ 32) :
      (create_task file_sys fname args k).1 = -1 := by
    obtain ⟨pid,k',outcome,created | ⟨rfl,-⟩⟩ := create_task_cases file_sys fname args few
    · obtain ⟨exe_addr,loaded,done,-⟩ := created.loaded
      exact absurd ((congrArg Prod.fst loaded).symm.trans (load _ _)) done
    · rw [outcome]
  refine ⟨load,create,?_⟩
  intro halt_addr esp ebp args k few
  have failed : create_task file_sys fname args k = (-1,(create_task file_sys fname args k).2) := by
    rw [← create args k few]
  rw [do_execute_failed failed (by decide)]

/-! ### Damaged files -/

theorem toInt_eq_neg_one (w : Word) : w.toInt = -1 ↔ w = 0xFFFFFFFF := by
  rw [← BitVec.toInt_inj]
  rfl

/-- Which files the load refuses. -/
theorem load_program_fails_iff (positive : addr ≠ 0) : (load_program file_sys fname addr m).1 = -1 ↔
    ¬ RegularFile file_sys fname ∨ Noticed file_sys (program_node file_sys fname) := by
  have checks : Elf file_sys fname ↔ _ := elf_iff_file
  by_cases elf : Elf file_sys fname
  · rw [load_program_elf positive elf]
    obtain ⟨found,type,known,first,magic⟩ := checks.mp elf
    rw [toInt_eq_neg_one]
    constructor
    · exact fun entry => .inr (.inr (.inr entry))
    · rintro (other | absent | foreign | entry)
      · exact absurd ⟨found,type,known⟩ other
      · exact absurd first (Nat.not_lt.mpr absent)
      · exact absurd magic foreign
      · exact entry
  · rw [load_program_eq m positive,if_neg elf]
    refine ⟨fun _ => ?_,fun _ => rfl⟩
    by_contra unnoticed
    rw [Noticed] at unnoticed
    push Not at unnoticed
    obtain ⟨⟨found,type,known⟩,first,magic,-⟩ := unnoticed
    exact elf (checks.mpr ⟨found,type,known,first,magic⟩)

/-- A regular file is refused exactly for its header or its entry point. -/
theorem file_rejected_iff (file : RegularFile file_sys fname) :
    Rejected file_sys fname ↔ Noticed file_sys (program_node file_sys fname) := by
  rw [rejected_iff_load]
  constructor
  · intro load
    exact ((load_program_fails_iff Nat.one_ne_zero).mp (load 1 (fun _ => 0))).resolve_left (not_not.mpr file)
  · intro noticed addr m
    by_cases null : addr = 0
    · rw [load_program,if_pos null]
    · exact (load_program_fails_iff null).mpr (.inr noticed)

/-- So is a damaged one. -/
theorem damaged_rejected_iff : (Damaged file_sys fname → Rejected file_sys fname) ↔
    (Damaged file_sys fname → Noticed file_sys (program_node file_sys fname)) :=
  imp_congr_right fun damaged => file_rejected_iff damaged.1

/-- A file of two blocks whose second block number names no block. -/
def half_file : FileSys := program_file 1 5000 (fun j => if j = 0 then 0 else 1)

theorem program_file_elf {num_blocks len : Nat} {dblocks : Nat → Nat} (first : dblocks 0 < num_blocks) :
    Elf (program_file num_blocks len dblocks) program_name :=
  ((program_iff (by decide) (fun _ _ => ⟨Nat.zero_lt_one,first⟩)).mp
    (program_file_program num_blocks len dblocks)).1

theorem half_file_elf : Elf half_file program_name := program_file_elf Nat.zero_lt_one

theorem half_file_loads (positive : addr ≠ 0) : (load_program half_file program_name addr m).1 = 0 := by
  rw [load_program_elf positive half_file_elf]
  simp only [load32,file_byte,ReadContents.file_cell,half_file,program_file]
  decide

/-- It is started with its first block only. -/
theorem half_file_starts : Damaged half_file program_name ∧
    (create_task half_file program_name (fun _ => 0) TaskForest.bare_kernel).1 = 0 ∧
    ¬ (Damaged half_file program_name → Rejected half_file program_name) := by
  obtain ⟨found,type,known,-,-⟩ := elf_iff_file.mp half_file_elf
  have damaged : Damaged half_file program_name := ⟨⟨found,type,known⟩,1,by decide,by decide⟩
  have search : free_pid TaskForest.bare_kernel.scheduler.task_vector 0 TaskForest.bare_kernel.scheduler.max_tasks =
      some 0 := by decide
  have starts := (create_task_outcome half_file program_name (fun _ => 0) (by decide) search).1
  rw [half_file_loads (Nat.add_pos_right _ (by decide)).ne',if_neg (by decide)] at starts
  refine ⟨damaged,starts,?_⟩
  intro rejected
  have refused := (rejected damaged).load 1 (fun _ => 0)
  rw [half_file_loads Nat.one_ne_zero] at refused
  exact absurd refused (by decide)

/-! ### Files that are too long -/

theorem followed_le_room (node : Inode) : blocks_followed file_sys node ≤ 952 ↔
    node.len < 952 * 4096 ∨ ∃ j ≤ 952, file_sys.num_blocks ≤ node.dblocks j := by
  constructor
  · intro few
    rcases followed_stops file_sys node with atEnd | ⟨-,absent⟩
    · exact .inl (by omega)
    · exact .inr ⟨_,few,absent⟩
  · rintro (short | ⟨j,small,absent⟩)
    · have most := followed_le file_sys node
      omega
    · by_contra many
      have reached : j < blocks_followed file_sys node := by omega
      exact Nat.not_lt.mpr absent (followed_valid reached)

/-- The copied bytes fit in the room when they are few enough blocks. -/
theorem leavesRoom_iff : LeavesRoom file_sys fname ↔
    (Elf file_sys fname → (image file_sys fname).length ≤ SIZE_4MB_PAGE - PROGRAM_IMAGE) := by
  rw [LeavesRoom,← followed_le_room,← imp_iff_not_or]
  refine imp_congr_right fun elf => ?_
  rw [image_length elf]
  simp only [SIZE_4MB_PAGE,PROGRAM_IMAGE]
  omega

/-- A kernel that hands out `pid` next and has `b` everywhere in memory. -/
def filled_kernel (pid : Nat) (b : Byte) : Kernel :=
  { TaskForest.bare_kernel with
    scheduler := { scheduler with task_vector := BitVec.ofNat 32 (2 ^ pid - 1) }
    mem := fun _ => b
    cr3 := 0 }

theorem filled_kernel_next {pid : Nat} (bound : pid < 10) (b : Byte) :
    free_pid (filled_kernel pid b).scheduler.task_vector 0 (filled_kernel pid b).scheduler.max_tasks = some pid := by
  have each : ∀ i : Fin 10, free_pid (BitVec.ofNat 32 (2 ^ i.val - 1)) 0 10 = some i.val := by decide
  exact each ⟨pid,bound⟩

theorem get_task_addr_nat {pid : Nat} (bound : pid < 32) : get_task_addr pid = 0x800000 + pid * 0x400000 := by
  rw [get_task_addr_small (by omega) (by omega),Int.toNat_natCast]

/-- Behind the new frame nothing is written before the load. -/
theorem filled_kernel_behind {pid : Nat} (bound : pid < 10) (b : Byte) {a : Nat}
    (behind : get_task_addr pid + SIZE_4MB_PAGE ≤ a) : new_frame pid (filled_kernel pid b) a = b := by
  have start := get_task_addr_nat (show pid < 32 from by omega)
  rw [new_frame_outside (by omega) (by omega) (.inr behind),map_page_directory_large,
    store32_outside _ (.inr ?_)]
  · rfl
  · rw [pd_index_eq (by omega)]
    simp only [filled_kernel,SIZE_4MB_PAGE] at behind ⊢
    omega

variable (args) in
/-- The first byte that a long program writes behind the frame. -/
theorem long_program_overruns {pid : Nat} (bound : pid < 10) (elf : Elf file_sys fname)
    (long : SIZE_4MB_PAGE - PROGRAM_IMAGE < (image file_sys fname).length) :
    ∃ k, k.scheduler.max_tasks = scheduler.max_tasks ∧
      free_pid k.scheduler.task_vector 0 k.scheduler.max_tasks = some pid ∧
      (create_task file_sys fname args k).2.mem (get_task_addr pid + SIZE_4MB_PAGE) ≠
        new_frame pid k (get_task_addr pid + SIZE_4MB_PAGE) := by
  -- memory is filled with something else than this byte
  obtain ⟨b,byte⟩ : ∃ b, file_byte file_sys (program_node file_sys fname) (SIZE_4MB_PAGE - PROGRAM_IMAGE) = b := ⟨_,rfl⟩
  have search := filled_kernel_next bound (~~~ b)
  refine ⟨filled_kernel pid (~~~ b),rfl,search,?_⟩
  have few : (filled_kernel pid (~~~ b)).scheduler.max_tasks ≤ 32 := show 10 ≤ 32 from by decide
  have positive : get_task_addr pid + PROGRAM_IMAGE ≠ 0 := (Nat.add_pos_right _ (by decide)).ne'
  have room : PROGRAM_IMAGE + (SIZE_4MB_PAGE - PROGRAM_IMAGE) = SIZE_4MB_PAGE := by decide
  have stored := image_byte (get_task_addr pid + PROGRAM_IMAGE) (new_frame pid (filled_kernel pid (~~~ b))) elf long
  rw [Nat.add_assoc,room,byte] at stored
  rw [(create_task_outcome file_sys fname args few search).2,load_program_elf positive elf,
    filled_kernel_behind bound _ (Nat.le_refl _)]
  dsimp only
  rw [stored]
  exact BitVec.ne_not_self (by decide)

theorem long_program_leaves_frame {pid : Nat} (bound : pid < 10) (elf : Elf file_sys fname)
    (long : SIZE_4MB_PAGE - PROGRAM_IMAGE < (image file_sys fname).length) : ¬ StaysInFrame file_sys fname pid := by
  intro stays
  obtain ⟨k,tasks,search,written⟩ := long_program_overruns (fun _ => 0) bound elf long
  have inside := (stays k (fun _ => 0) tasks search _ written).2.1
  omega

/-- A file of 953 blocks, the last of them less one byte. -/
def long_file : FileSys := program_file 1000 3903487 id

end Mp3Kernel.LoadTask

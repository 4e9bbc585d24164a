import Mp3Kernel.Kernel.Descriptors
import Mp3Kernel.Terminal.TerminalRead

/-!
How much the read handlers store. A file read is bounded by the request only
where the request is not taken for a huge unsigned one, a directory read by the
name alone, and a terminal read by the line that the displayed terminal has
completed last.
-/
namespace Mp3Kernel.ReadBounds
open Mp3Kernel.Memory Mp3Kernel.Filesys Mp3Kernel.Tasks Mp3Kernel.Runs
open Mp3Kernel.Tty Mp3Kernel.TerminalRead
open Mp3Kernel.FileRead (file_read)
open Mp3Kernel.Descriptors (directory_read name_length)

/-- An `int32_t`. -/
abbrev Count := { n : Int // -2147483648 ≤ n ∧ n < 2147483648 }

/-- No more than `nbytes` is stored or returned, and nothing for a negative `nbytes`. -/
def Bounded (nbytes ret stored : Int) : Prop := ret ≤ max nbytes 0 ∧ stored ≤ max nbytes 0

/-- The block of `offset` is in the image. -/
def Backed (file_sys : FileSys) (inode offset : Nat) : Prop :=
  inode < file_sys.num_inodes ∧ offset / 4096 ≤ (file_sys.inodes inode).len / 4096 ∧
    (file_sys.inodes inode).dblocks (offset / 4096) < file_sys.num_blocks

/-- A read of the descriptor gets as far as the copy loop. -/
def Copies (file_sys : FileSys) (task : Task) (fd : Int) : Prop :=
  0 ≤ fd ∧ fd ≤ 7 ∧ ∃ node, (task.files fd).inode = some node ∧
    (task.files fd).offset < (file_sys.inodes node).len ∧
    Backed file_sys (task.files fd).dentry.inode_num (task.files fd).offset

def FileBounded (file_sys : FileSys) (cur_task : Option Task) (fd nbytes : Int) : Prop :=
  ∀ r task, file_read file_sys cur_task fd nbytes = some (r,task) → Bounded nbytes r.ret r.stored.length

def DirectoryBounded (file_sys : FileSys) (cur_task : Option Task) (fd nbytes : Int) : Prop :=
  Bounded nbytes (directory_read file_sys cur_task fd).1 (directory_read file_sys cur_task fd).2.1.length

/-- A terminal read in progress, or finished. -/
def ReaderBounded (nbytes : Int) (s : Reader) : Prop :=
  s.output.length ≤ max nbytes 0 ∧ ∀ r, s.phase = .done r → r ≤ max nbytes 0

/-- The condition on a step of the reader: the line that it wakes up for fits. -/
def LineFits (nbytes : Int) (s : Reader) : Act → Prop
  | .reader => s.phase = .line →
    (s.console.terminal_list s.console.current_terminal_index).previous_input.input_pointer % 256 - 1 ≤ nbytes
  | _ => True

variable {file_sys : FileSys} {task : Task} {fd : Int}

/-! ### Files -/

variable (file_sys) in
theorem copy_loop_bounded (node : Inode) (block_length remaining i offset dblock_page dblock : Nat) :
    (copy_loop file_sys node block_length remaining i offset dblock_page dblock).ret ≤ i + remaining ∧
    (copy_loop file_sys node block_length remaining i offset dblock_page dblock).stored.length ≤ remaining := by
  induction remaining generalizing i offset dblock_page dblock with
  | zero => exact ⟨i32_le i,le_rfl⟩
  | succ remaining ih =>
    have ended := i32_le i
    rw [copy_loop]
    dsimp only
    split
    · split
      · exact ⟨by dsimp only; omega,by simp⟩
      · split
        · exact ⟨by dsimp only; omega,by simp⟩
        · split
          · exact ⟨by dsimp only; omega,by simp⟩
          · obtain ⟨ret,stored⟩ := ih (i + 1) 0 (dblock_page + 1) (node.dblocks (dblock_page + 1))
            simp only [ReadResult.after,List.length_cons]
            omega
    · obtain ⟨ret,stored⟩ := ih (i + 1) offset dblock_page dblock
      simp only [ReadResult.after,List.length_cons]
      omega

variable (file_sys) in
theorem copy_loop_stores (node : Inode) (block_length remaining i offset dblock_page dblock : Nat) (asked : 0 < remaining) :
    0 < (copy_loop file_sys node block_length remaining i offset dblock_page dblock).stored.length := by
  obtain ⟨rest,rfl⟩ : ∃ rest, remaining = rest + 1 := ⟨remaining - 1,by omega⟩
  rw [copy_loop]
  dsimp only
  split
  · split
    · simp
    · split
      · simp
      · split
        · simp
        · simp [ReadResult.after]
  · simp [ReadResult.after]

theorem read_data_eq (inode offset length : Nat) :
    (Backed file_sys inode offset →
      (read_data file_sys inode offset length).ret ≤ length ∧ (read_data file_sys inode offset length).stored.length ≤ length ∧
        (0 < length → 0 < (read_data file_sys inode offset length).stored.length)) ∧
    (¬ Backed file_sys inode offset →
      (read_data file_sys inode offset length).ret = -1 ∧ (read_data file_sys inode offset length).stored = []) := by
  have loop := copy_loop_bounded file_sys (file_sys.inodes inode) ((file_sys.inodes inode).len / 4096 + 1)
    length 0 (offset % 4096) (offset / 4096) ((file_sys.inodes inode).dblocks (offset / 4096))
  have some_ := copy_loop_stores file_sys (file_sys.inodes inode) ((file_sys.inodes inode).len / 4096 + 1)
    length 0 (offset % 4096) (offset / 4096) ((file_sys.inodes inode).dblocks (offset / 4096))
  constructor
  · rintro ⟨known,inside,present⟩
    rw [read_data_starts length known (by omega) present]
    rw [Nat.cast_zero,Int.zero_add] at loop
    exact ⟨loop.1,loop.2,some_⟩
  · intro absent
    rcases read_data_cases file_sys inode offset length with ⟨-,failed⟩ | ⟨known,inside,⟨-,alone⟩ | ⟨present,-⟩⟩
    · rw [failed]
      exact ⟨rfl,rfl⟩
    · rw [alone]
      exact ⟨rfl,rfl⟩
    · exact absurd ⟨known,by omega,present⟩ absent

/-- What `file_read` hands out is what `read_data` does. -/
theorem file_read_some {cur_task task' : Option Task} {nbytes : Int} {r : ReadResult}
    (returned : file_read file_sys cur_task fd nbytes = some (r,task')) :
    (r.ret ≤ 0 ∧ r.stored = []) ∨ ∃ task node, cur_task = some task ∧ 0 ≤ fd ∧ fd ≤ 7 ∧
      (task.files fd).inode = some node ∧ (task.files fd).offset < (file_sys.inodes node).len ∧
      r = read_data file_sys (task.files fd).dentry.inode_num (task.files fd).offset
        (min (file_sys.inodes node).len (u32 nbytes)) := by
  unfold file_read at returned
  by_cases range : fd < 0 ∨ fd > 7
  · rw [if_pos range] at returned
    cases returned
    exact .inl ⟨by decide,rfl⟩
  · rw [if_neg range] at returned
    cases cur_task with
    | none =>
      cases returned
      exact .inl ⟨by decide,rfl⟩
    | some task =>
      dsimp only at returned
      obtain ⟨node,found,returned⟩ := Option.bind_eq_some_iff.mp returned
      by_cases atEnd : (file_sys.inodes node).len ≤ (task.files fd).offset
      · rw [if_pos atEnd] at returned
        cases returned
        exact .inl ⟨le_rfl,rfl⟩
      · rw [if_neg atEnd] at returned
        have clamped : (if (file_sys.inodes node).len < u32 nbytes then (file_sys.inodes node).len else u32 nbytes) =
            min (file_sys.inodes node).len (u32 nbytes) := by
          split <;> omega
        rw [clamped] at returned
        refine .inr ⟨task,node,rfl,by omega,by omega,found,by omega,?_⟩
        split at returned <;> cases returned <;> rfl

/-- A file read stays within the request unless a negative one reaches the copy loop. -/
theorem file_bounded_iff (cur_task : Option Task) (nbytes : Count) : FileBounded file_sys cur_task fd nbytes ↔
    0 ≤ nbytes.val ∨ ∀ task, cur_task = some task → ¬ Copies file_sys task fd := by
  obtain ⟨nbytes,low,high⟩ := nbytes
  dsimp only
  constructor
  · intro bounded
    by_contra neither
    obtain ⟨negative,copies⟩ := not_or.mp neither
    push Not at negative copies
    obtain ⟨task,rfl,bottom,top,node,found,before,backed⟩ := copies
    have huge : 0 < min (file_sys.inodes node).len (u32 nbytes) := by
      rw [u32]
      omega
    obtain ⟨task',returned⟩ : ∃ task', file_read file_sys (some task) fd nbytes = some
        (read_data file_sys (task.files fd).dentry.inode_num (task.files fd).offset
          (min (file_sys.inodes node).len (u32 nbytes)),task') := by
      have clamped : (if (file_sys.inodes node).len < u32 nbytes then (file_sys.inodes node).len else u32 nbytes) =
          min (file_sys.inodes node).len (u32 nbytes) := by
        split <;> omega
      rw [file_read,if_neg (by omega)]
      simp only [found,Option.bind_some]
      rw [if_neg (by omega),clamped]
      split <;> exact ⟨_,rfl⟩
    have stored := ((read_data_eq _ _ _).1 backed).2.2 huge
    have none_ := (bounded _ _ returned).2
    omega
  · intro admitted r task' returned
    rcases file_read_some returned with ⟨ret,stored⟩ | ⟨task,node,rfl,bottom,top,found,before,rfl⟩
    · rw [Bounded,stored,List.length_nil]
      omega
    · by_cases backed : Backed file_sys (task.files fd).dentry.inode_num (task.files fd).offset
      · have asked := admitted.resolve_right fun refused => refused task rfl ⟨bottom,top,node,found,before,backed⟩
        have same : (u32 nbytes : Int) = nbytes := by
          rw [u32_small asked (by omega)]
          omega
        obtain ⟨ret,stored,-⟩ := (read_data_eq (task.files fd).dentry.inode_num (task.files fd).offset
          (min (file_sys.inodes node).len (u32 nbytes))).1 backed
        rw [Bounded]
        omega
      · obtain ⟨ret,stored⟩ := (read_data_eq (task.files fd).dentry.inode_num (task.files fd).offset
          (min (file_sys.inodes node).len (u32 nbytes))).2 backed
        rw [Bounded,ret,stored,List.length_nil]
        omega

/-! ### Directories -/

/-- A read of the descriptor copies the name of a directory entry. -/
def Lists (file_sys : FileSys) (task : Task) (fd : Int) : Prop :=
  0 ≤ fd ∧ fd ≤ 7 ∧ (task.files fd).offset ≤ file_sys.num_inodes

theorem directory_bounded_iff (cur_task : Option Task) (nbytes : Int) : DirectoryBounded file_sys cur_task fd nbytes ↔
    ∀ task, cur_task = some task → Lists file_sys task fd →
      name_length (file_sys.dentries (task.files fd).offset).file_name ≤ max nbytes 0 := by
  unfold DirectoryBounded directory_read
  by_cases range : fd < 0 ∨ fd > 7
  · rw [if_pos range]
    constructor
    · rintro - task - ⟨low,high,-⟩
      omega
    · intro _
      rw [Bounded,List.length_nil]
      omega
  · rw [if_neg range]
    cases cur_task with
    | none =>
      refine ⟨fun _ task none_ => by (cases none_),fun _ => ?_⟩
      exact ⟨by dsimp only; omega,le_max_right _ _⟩
    | some task =>
      dsimp only
      by_cases past : (task.files fd).offset > file_sys.num_inodes
      · rw [if_pos past]
        constructor
        · rintro - other same ⟨-,-,inside⟩
          cases same
          omega
        · intro _
          rw [Bounded,List.length_nil]
          omega
      · rw [if_neg past]
        constructor
        · rintro ⟨ret,-⟩ other same -
          cases same
          exact ret
        · intro fits
          have short := fits task rfl ⟨by omega,by omega,by omega⟩
          refine ⟨short,?_⟩
          simpa using short

/-! ### Terminals -/

/-- What is known of a reader whose lines have fitted. -/
def Fits (nbytes : Int) (s : Reader) : Prop :=
  match s.phase with
  | .start | .echo => s.output = []
  | .mark max_chars | .note max_chars | .wait max_chars _ | .poll max_chars _ | .room max_chars _ =>
    s.output = [] ∧ 1 ≤ nbytes ∧ max_chars ≤ nbytes
  | .line => s.output = [] ∧ 1 ≤ nbytes
  | .copy i j => s.output.length = j ∧ (j = 0 ∨ j ≤ i - 1) ∧ i - 1 ≤ max nbytes 0
  | .done r => s.output.length ≤ max nbytes 0 ∧ r ≤ max nbytes 0

/-- The reader copies a line that does not fit, or has copied one. -/
def Overlong (nbytes : Int) (s : Reader) : Prop :=
  match s.phase with
  | .copy i _ => max nbytes 0 < i - 1
  | .done r => max nbytes 0 < r
  | _ => False

variable {t nbytes : Int} {s s' : Reader}

theorem readerBounded_of_fits (fits : Fits nbytes s) : ReaderBounded nbytes s := by
  rw [Fits] at fits
  have empty (none_ : s.output = []) : (s.output.length : Int) ≤ max nbytes 0 := by
    rw [none_]
    exact le_max_right _ _
  rw [ReaderBounded]
  cases phase : s.phase with
  | copy i j =>
    rw [phase] at fits
    exact ⟨by omega,fun r finished => by cases finished⟩
  | done r =>
    rw [phase] at fits
    refine ⟨fits.1,?_⟩
    rintro r' finished
    cases finished
    exact fits.2
  | start | echo =>
    rw [phase] at fits
    exact ⟨empty fits,fun r finished => by cases finished⟩
  | line | mark m | note m | wait m o | poll m o | room m o =>
    rw [phase] at fits
    exact ⟨empty fits.1,fun r finished => by cases finished⟩

theorem fits_reader_step (fits : Fits nbytes s) (admitted : LineFits nbytes s .reader)
    (taken : reader_step t nbytes s = some s') : Fits nbytes s' := by
  rw [Fits] at fits
  rw [LineFits] at admitted
  cases TerminalRead.reader_step_cases taken with
  | start phase =>
    rw [phase] at fits
    exact fits
  | nothing phase asked =>
    rw [phase] at fits
    exact ⟨by rw [fits]; exact le_max_right _ _,le_max_right _ _⟩
  | echo phase asked =>
    rw [phase] at fits
    refine ⟨fits,asked,?_⟩
    rw [BUFFER_SIZE]
    split <;> omega
  | mark phase =>
    rw [phase] at fits
    exact fits
  | note phase =>
    rw [phase] at fits
    exact fits
  | wait phase =>
    rw [phase] at fits
    exact fits
  | count phase =>
    rw [phase] at fits
    exact ⟨by rw [Reader.at,fits.1]; rfl,.inl rfl,by omega⟩
  | poll phase =>
    rw [phase] at fits
    exact fits
  | again phase =>
    rw [phase] at fits
    exact fits
  | room phase =>
    rw [phase] at fits
    exact ⟨fits.1,fits.2.1⟩
  | crowded phase =>
    rw [phase] at fits
    exact fits
  | line phase =>
    have short := admitted phase
    rw [phase] at fits
    exact ⟨by rw [Reader.at,fits.1]; rfl,.inl rfl,by omega⟩
  | byte phase goes =>
    rw [phase] at fits
    refine ⟨?_,.inr (by omega),fits.2.2⟩
    rw [List.length_append,List.length_singleton,← fits.1]
    rfl
  | last phase ends =>
    rw [phase] at fits
    exact ⟨by dsimp only; omega,fits.2.2⟩

/-- Only the reader's own steps change where it is. -/
theorem step_other {act : Act} (other : act ≠ .reader) (taken : step t nbytes s act = some s') :
    s'.phase = s.phase ∧ s'.output = s.output := by
  cases act with
  | reader => exact absurd rfl other
  | console ev =>
    rw [step] at taken
    split at taken
    · obtain ⟨c,-,rfl⟩ := Option.map_eq_some_iff.mp taken
      exact ⟨rfl,rfl⟩
    · cases taken
  | idle e =>
    rw [step] at taken
    split at taken
    · cases taken
      exact ⟨rfl,rfl⟩
    · cases taken

theorem fits_step {act : Act} (fits : Fits nbytes s) (admitted : LineFits nbytes s act)
    (taken : step t nbytes s act = some s') : Fits nbytes s' := by
  by_cases reads : act = .reader
  · subst reads
    exact fits_reader_step fits admitted taken
  · obtain ⟨phase,output⟩ := step_other reads taken
    rw [Fits,phase,output]
    exact fits

theorem overlong_step {act : Act} (overlong : Overlong nbytes s) (taken : step t nbytes s act = some s') :
    Overlong nbytes s' := by
  by_cases reads : act = .reader
  · subst reads
    rw [Overlong] at overlong
    cases TerminalRead.reader_step_cases taken with
    | byte phase =>
      rw [phase] at overlong
      exact overlong
    | last phase =>
      rw [phase] at overlong
      exact overlong
    | start phase | nothing phase | echo phase | mark phase | note phase | wait phase | count phase | poll phase
    | again phase | room phase | crowded phase | line phase =>
      rw [phase] at overlong
      exact absurd overlong id
  · rw [Overlong,(step_other reads taken).1]
    exact overlong

/-- A reader that wakes up for a line that does not fit copies all of it. -/
theorem overlong_of_line {act : Act} (fits : Fits nbytes s) (refused : ¬ LineFits nbytes s act)
    (taken : step t nbytes s act = some s') : Overlong nbytes s' := by
  cases act with
  | console ev => exact absurd trivial refused
  | idle e => exact absurd trivial refused
  | reader =>
    rw [LineFits,Classical.not_imp] at refused
    obtain ⟨phase,long⟩ := refused
    rw [step,reader_step,phase] at taken
    cases taken
    rw [Fits,phase] at fits
    rw [Reader.at,Overlong]
    dsimp only
    omega

/-- A read that has ended stayed within the request throughout exactly when
    every line that it woke up for fitted. -/
theorem reader_bounded_iff {acts : List Act} {r : Int} (fits : Fits nbytes s)
    (reached : run (step t nbytes) s acts = some s') (finished : s'.phase = .done r) :
    StatesMeet (step t nbytes) (ReaderBounded nbytes) s acts ↔ StepsMeet (step t nbytes) (LineFits nbytes) s acts := by
  constructor
  · intro bounded
    induction acts generalizing s with
    | nil => trivial
    | cons act acts ih =>
      obtain ⟨s₁,taken,rest⟩ := run_cons_eq_some.mp reached
      have later := bounded.2 s₁ taken
      have admitted : LineFits nbytes s act := by
        by_contra refused
        have last := run_invariant (fun s act s' => overlong_step) (overlong_of_line fits refused taken) rest
        rw [Overlong,finished] at last
        have within := (statesMeet_last later rest).2 r finished
        omega
      exact (stepsMeet_cons taken).mpr ⟨admitted,ih (fits_step fits admitted taken) rest later⟩
  · intro admitted
    exact statesMeet_mono (fun _ => readerBounded_of_fits)
      (statesMeet_of_stepsMeet (fun _ _ _ fits admitted taken => fits_step fits admitted taken) fits admitted)

/-- When the three read handlers stay within the request: a file read unless a
    negative request gets to copy, a directory read when the name fits, a
    terminal read when the lines fit that it wakes up for. -/
theorem reads_bounded_iff (file_sys : FileSys) (cur_task : Option Task) (fd : Int) (nbytes : Count) :
    (FileBounded file_sys cur_task fd nbytes ↔
      0 ≤ nbytes.val ∨ ∀ task, cur_task = some task → ¬ Copies file_sys task fd) ∧
    (DirectoryBounded file_sys cur_task fd nbytes ↔ ∀ task, cur_task = some task → Lists file_sys task fd →
      name_length (file_sys.dentries (task.files fd).offset).file_name ≤ max nbytes.val 0) ∧
    ∀ (t : Int) (c : Console) (acts : List Act),
      (StepsMeet (step t nbytes) (LineFits nbytes) (begin_read c) acts →
        StatesMeet (step t nbytes) (ReaderBounded nbytes) (begin_read c) acts) ∧
      ∀ s r, run (step t nbytes) (begin_read c) acts = some s → s.phase = .done r →
        (StatesMeet (step t nbytes) (ReaderBounded nbytes) (begin_read c) acts ↔
          StepsMeet (step t nbytes) (LineFits nbytes) (begin_read c) acts) := by
  refine ⟨file_bounded_iff cur_task nbytes,directory_bounded_iff cur_task nbytes,?_⟩
  intro t c acts
  have start : Fits nbytes (begin_read c) := rfl
  refine ⟨?_,fun s r reached finished => reader_bounded_iff start reached finished⟩
  intro admitted
  exact statesMeet_mono (fun _ => readerBounded_of_fits)
    (statesMeet_of_stepsMeet (fun _ _ _ fits admitted taken => fits_step fits admitted taken) start admitted)

/-- A request for −1 bytes copies the whole file. -/
theorem file_read_negative : ¬ FileBounded FileRead.short_file (some FileRead.reader) 2 (-1) := by
  intro bounded
  obtain ⟨task',returned⟩ : ∃ task', file_read FileRead.short_file (some FileRead.reader) 2 (-1) =
      some (read_data FileRead.short_file 0 0 100,task') := ⟨_,rfl⟩
  have ret := (bounded _ _ returned).1
  exact absurd ret (by decide)

end Mp3Kernel.ReadBounds

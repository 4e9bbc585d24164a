import Mp3Kernel.Kernel.Descriptors

/-!
How `do_open` takes a name over into its local buffer: up to the terminator,
however far that is. A store behind the buffer lands on the stack, of which
nothing more is said here; the lookup reads the first 32 bytes only.
-/
namespace Mp3Kernel.OpenName
open Mp3Kernel.Memory Mp3Kernel.Filesys Mp3Kernel.Tasks
open Mp3Kernel.Descriptors (open_dentry)

/-- The bytes from `fname` on, and the indices stored to so far. -/
structure Buffer where
  fname : Nat → Byte
  stores : List Nat

def Buffer.put (b : Buffer) (i : Nat) (c : Byte) : Buffer where
  fname := fun j => if j = i then c else b.fname j
  stores := b.stores ++ [i]

/-- The copy from index `i` on, with `fuel` tests left. -/
def copy_filename (filename : Nat → Byte) (i : Nat) (b : Buffer) : Nat → Option Buffer
  | 0 => none
  | fuel + 1 => if filename i ≠ 0 then copy_filename filename (i + 1) (b.put i (filename i)) fuel else some b

/-- `do_open` with the copy of the name: what it returns, the task, and the
    indices of `fname` stored to. -/
def do_open (file_sys : FileSys) (filename : Nat → Byte) (task : Task) (fuel : Nat) : Option (Int × Task × List Nat) :=
  (copy_filename filename 0 ⟨fun _ => 0,[]⟩ fuel).map fun b =>
    let (found,dentry) := read_dentry_by_name file_sys b.fname uninitialized
    if found < 0 then (-1,task,b.stores) else
      let (ret,task) := open_dentry file_sys dentry task
      (ret,task,b.stores)

/-- The name has `n` characters. -/
def Terminated (filename : Nat → Byte) (n : Nat) : Prop := filename n = 0 ∧ ∀ i < n, filename i ≠ 0

/-- The call ends, stores inside the buffer, and refuses a name that is longer
    than one in the directory can be. -/
def Contained (file_sys : FileSys) (filename : Nat → Byte) (n : Nat) (task : Task) : Prop :=
  ∃ ret opened stores, (∀ fuel, n < fuel → do_open file_sys filename task fuel = some (ret,opened,stores)) ∧
    (∀ i ∈ stores, i < FILENAME_LEN) ∧ (FILENAME_LEN < n → ret = -1 ∧ opened = task)

variable {file_sys : FileSys} {filename : Nat → Byte} {n : Nat} {task : Task}

/-- From index `i` on the copy stores every character that is left. -/
theorem copy_rest (terminated : Terminated filename n) {i count fuel : Nat} (left : n = i + count)
    (enough : count < fuel) (b : Buffer) :
    copy_filename filename i b fuel = some
      { fname := fun j => if i ≤ j ∧ j < n then filename j else b.fname j
        stores := b.stores ++ List.range' i count } := by
  obtain ⟨fuel,rfl⟩ : ∃ rest, fuel = rest + 1 := ⟨fuel - 1,by omega⟩
  induction count generalizing i fuel b with
  | zero =>
    rw [Nat.add_zero] at left
    have outside (j : Nat) : ¬ (i ≤ j ∧ j < n) := by omega
    rw [copy_filename,if_neg (not_not.mpr (left ▸ terminated.1))]
    simp only [outside,↓reduceIte,List.range'_zero,List.append_nil]
  | succ count ih =>
    obtain ⟨fuel,rfl⟩ : ∃ rest, fuel = rest + 1 := ⟨fuel - 1,by omega⟩
    rw [copy_filename,if_pos (terminated.2 i (by omega)),ih (by omega) (b.put i (filename i)) fuel (by omega)]
    simp only [Buffer.put,Option.some.injEq,Buffer.mk.injEq,List.append_assoc,List.range'_succ,List.singleton_append,
      and_true]
    funext j
    by_cases here : j = i
    · subst here
      rw [if_neg (by omega),if_pos rfl,if_pos (by omega)]
    · rw [if_neg here]
      by_cases later : i + 1 ≤ j ∧ j < n
      · rw [if_pos later,if_pos (by omega)]
      · rw [if_neg later,if_neg (by omega)]

theorem copy_filename_eq (terminated : Terminated filename n) {fuel : Nat} (enough : n < fuel) :
    copy_filename filename 0 ⟨fun _ => 0,[]⟩ fuel =
      some ⟨fun j => if j < n then filename j else 0,List.range n⟩ := by
  rw [copy_rest terminated (Nat.zero_add n).symm enough,List.range_eq_range']
  simp only [Nat.zero_le,true_and,List.nil_append]

/-- The call does with the table what `Descriptors.do_open` does, and stores to
    as many bytes of the buffer as the name has. -/
theorem do_open_eq (terminated : Terminated filename n) {fuel : Nat} (enough : n < fuel) :
    do_open file_sys filename task fuel =
      let (ret,opened) := Descriptors.do_open file_sys ((List.range n).map filename) task
      some (ret,opened,List.range n) := by
  have name : (fun i => ((List.range n).map filename).getD i 0) = fun j => if j < n then filename j else 0 := by
    funext j
    by_cases inside : j < n
    · simp [inside]
    · simp [inside]
  rw [do_open,copy_filename_eq terminated enough,Option.map_some,Descriptors.do_open,name]
  dsimp only
  split <;> rfl

/-- A name is taken over safely exactly when it fits the buffer. -/
theorem contained_iff (terminated : Terminated filename n) : Contained file_sys filename n task ↔ n ≤ FILENAME_LEN := by
  have called : ∀ fuel, n < fuel → do_open file_sys filename task fuel =
      some ((Descriptors.do_open file_sys ((List.range n).map filename) task).1,
        (Descriptors.do_open file_sys ((List.range n).map filename) task).2,List.range n) :=
    fun fuel enough => do_open_eq terminated enough
  constructor
  · rintro ⟨ret,opened,stores,ends,inside,-⟩
    have same := (ends (n + 1) (Nat.lt_succ_self n)).symm.trans (called (n + 1) (Nat.lt_succ_self n))
    simp only [Option.some.injEq,Prod.mk.injEq] at same
    by_contra long
    rw [not_le] at long
    exact absurd (inside FILENAME_LEN (same.2.2 ▸ List.mem_range.mpr long)) (lt_irrefl _)
  · intro short
    refine ⟨_,_,_,called,?_,fun long => absurd long (by omega)⟩
    intro i stored
    exact lt_of_lt_of_le (List.mem_range.mp stored) short

/-- A directory with one file, whose name of 32 characters fills its field. -/
def full_name : FileSys where
  num_dentries := 1
  num_inodes := 1
  num_blocks := 0
  dentries := fun _ => { file_name := fun _ => 97, file_type := 2, inode_num := 0 }
  inodes := fun _ => { len := 0, dblocks := fun _ => 0 }
  data := fun _ _ => 0

def letters (n : Nat) : Nat → Byte := fun i => if i < n then 97 else 0

theorem terminated_letters (n : Nat) : Terminated (letters n) n := by
  refine ⟨if_neg (lt_irrefl n),?_⟩
  intro i below
  rw [letters,if_pos below]
  decide

theorem contained_full_name : Contained full_name (letters 32) 32 default :=
  (contained_iff (terminated_letters 32)).mpr le_rfl

/-- The name with one more character is stored past the buffer, and opens the
    file. -/
theorem longer_name_opens : Terminated (letters 33) 33 ∧ ¬ Contained full_name (letters 33) 33 default ∧
    ∃ opened stores, do_open full_name (letters 33) default 34 = some (2,opened,stores) ∧ 32 ∈ stores := by
  refine ⟨terminated_letters 33,?_,?_⟩
  · rw [contained_iff (terminated_letters 33)]
    decide
  · rw [do_open_eq (terminated_letters 33) (by decide)]
    have found : (Descriptors.do_open full_name ((List.range 33).map (letters 33)) default).1 = 2 := by decide
    exact ⟨_,List.range 33,by rw [← found],by decide⟩

end Mp3Kernel.OpenName

import Mp3Kernel.Filesys.Image

/-!
The two ways to look an entry up. The scan of `read_dentry_by_name` finds the
first entry with all 32 characters of the name, whatever the directory holds;
but a name that starts with a dot is not looked up at all.
-/
namespace Mp3Kernel.Lookup
open Mp3Kernel.Memory Mp3Kernel.Filesys

/-! ### The scan, loop by loop -/

/-- The loop over the characters, which ends at the first that differs. -/
def name_loop (file_name fname : Nat → Byte) (j : Nat) : Nat → Bool
  | 0 => true
  | fuel + 1 => if file_name j ≠ fname j then false else name_loop file_name fname (j + 1) fuel

/-- The loop over the entries: `found` when it ends. -/
def dentry_loop (file_sys : FileSys) (fname : Nat → Byte) (i : Nat) : Nat → Int
  | 0 => -1
  | fuel + 1 =>
    if name_loop (file_sys.dentries i).file_name fname 0 FILENAME_LEN then i else dentry_loop file_sys fname (i + 1) fuel

/-- `read_dentry_by_name` away from the dot. -/
def scan (file_sys : FileSys) (fname : Nat → Byte) (dentry : Dentry) : Int × Dentry :=
  let found := dentry_loop file_sys fname 0 file_sys.num_dentries
  if found = -1 then (-1,dentry) else (0,copy_dentry (file_sys.dentries found.toNat) dentry)

/-! ### What a lookup is for -/

/-- Entry `i` has exactly the name. -/
def Named (file_sys : FileSys) (fname : Nat → Byte) (i : Nat) : Prop :=
  i < file_sys.num_dentries ∧ ∀ j < FILENAME_LEN, (file_sys.dentries i).file_name j = fname j

/-- The first entry with the name. -/
def First (file_sys : FileSys) (fname : Nat → Byte) (i : Nat) : Prop :=
  Named file_sys fname i ∧ ∀ j < i, ¬ Named file_sys fname j

/-- The lookup succeeds for the names of entries, and then does what the lookup
    of the first such entry by its index does; otherwise it fails and leaves the
    output alone. -/
structure AgreesWithIndex (file_sys : FileSys) (fname : Nat → Byte) (dentry : Dentry) : Prop where
  succeeds : (read_dentry_by_name file_sys fname dentry).1 = 0 ↔ ∃ i, Named file_sys fname i
  fills : ∀ i, First file_sys fname i →
    read_dentry_by_name file_sys fname dentry = read_dentry_by_index file_sys i dentry
  fails : (∀ i, ¬ Named file_sys fname i) → read_dentry_by_name file_sys fname dentry = (-1,dentry)

/-- The name does not start with a dot; or it does, but its first entry has the
    type and the inode of entry 0, and the output holds the rest of the name
    already. -/
def Plain (file_sys : FileSys) (fname : Nat → Byte) (dentry : Dentry) : Prop :=
  fname 0 ≠ 46 ∨ ∃ i, First file_sys fname i ∧ (file_sys.dentries i).file_type = (file_sys.dentries 0).file_type ∧
    (file_sys.dentries i).inode_num = (file_sys.dentries 0).inode_num ∧
    ∀ j, 0 < j → j < FILENAME_LEN → dentry.file_name j = fname j

variable {file_sys : FileSys} {fname : Nat → Byte} {dentry : Dentry} {i : Nat}

theorem name_loop_eq (file_name fname : Nat → Byte) (j fuel : Nat) :
    name_loop file_name fname j fuel = true ↔ ∀ k, j ≤ k → k < j + fuel → file_name k = fname k := by
  induction fuel generalizing j with
  | zero => simp [name_loop]; omega
  | succ fuel ih =>
    rw [name_loop]
    by_cases same : file_name j = fname j
    · rw [if_neg (not_not.mpr same),ih]
      constructor
      · intro later k low high
        rcases Nat.eq_or_lt_of_le low with rfl | above
        · exact same
        · exact later k above (by omega)
      · intro all k low high
        exact all k (by omega) (by omega)
    · rw [if_pos same]
      simp only [Bool.false_eq_true,false_iff]
      intro all
      exact same (all j le_rfl (by omega))

theorem named_iff : Named file_sys fname i ↔
    i < file_sys.num_dentries ∧ name_loop (file_sys.dentries i).file_name fname 0 FILENAME_LEN = true := by
  simp [Named,name_loop_eq]

theorem same_name_iff (a b : Nat → Byte) : same_name a b = true ↔ ∀ j < FILENAME_LEN, a j = b j := by
  simp [same_name]

variable (file_sys fname) in
/-- The loop finds the first entry with the name from `i` on. -/
theorem dentry_loop_spec (fuel i : Nat) (counted : i + fuel = file_sys.num_dentries) :
    (dentry_loop file_sys fname i fuel = -1 ∧ ∀ k, i ≤ k → ¬ Named file_sys fname k) ∨
      ∃ k : Nat, dentry_loop file_sys fname i fuel = k ∧ Named file_sys fname k ∧ i ≤ k ∧
        ∀ j, i ≤ j → j < k → ¬ Named file_sys fname j := by
  induction fuel generalizing i with
  | zero =>
    refine .inl ⟨rfl,?_⟩
    rintro k above ⟨inside,-⟩
    omega
  | succ fuel ih =>
    rw [dentry_loop]
    by_cases here : name_loop (file_sys.dentries i).file_name fname 0 FILENAME_LEN = true
    · rw [if_pos here]
      exact .inr ⟨i,rfl,named_iff.mpr ⟨by omega,here⟩,le_rfl,fun j low high => by omega⟩
    · rw [if_neg here]
      have other : ¬ Named file_sys fname i := fun named => here (named_iff.mp named).2
      rcases ih (i + 1) (by omega) with ⟨ended,none_⟩ | ⟨k,ended,named,above,before⟩
      · refine .inl ⟨ended,?_⟩
        intro k low
        rcases Nat.eq_or_lt_of_le low with rfl | later
        · exact other
        · exact none_ k later
      · refine .inr ⟨k,ended,named,by omega,?_⟩
        intro j low high
        rcases Nat.eq_or_lt_of_le low with rfl | later
        · exact other
        · exact before j later high

theorem first_or_none (file_sys : FileSys) (fname : Nat → Byte) :
    (∀ i, ¬ Named file_sys fname i) ∨ ∃ i, First file_sys fname i := by
  rcases dentry_loop_spec file_sys fname file_sys.num_dentries 0 (by omega) with
    ⟨-,none_⟩ | ⟨k,-,named,-,before⟩
  · exact .inl fun i => none_ i (Nat.zero_le i)
  · exact .inr ⟨k,named,fun j below => before j (Nat.zero_le j) below⟩

theorem First.unique {k : Nat} (first : First file_sys fname i) (other : First file_sys fname k) : k = i := by
  rcases Nat.lt_trichotomy k i with below | same | above
  · exact absurd other.1 (first.2 k below)
  · exact same
  · exact absurd first.1 (other.2 i above)

theorem dentry_loop_first (first : First file_sys fname i) :
    dentry_loop file_sys fname 0 file_sys.num_dentries = i := by
  rcases dentry_loop_spec file_sys fname file_sys.num_dentries 0 (by omega) with
    ⟨-,none_⟩ | ⟨k,ended,named,-,before⟩
  · exact absurd first.1 (none_ i (Nat.zero_le i))
  · obtain rfl := first.unique ⟨named,fun j below => before j (Nat.zero_le j) below⟩
    exact ended

theorem dentry_loop_none (none_ : ∀ i, ¬ Named file_sys fname i) :
    dentry_loop file_sys fname 0 file_sys.num_dentries = -1 := by
  rcases dentry_loop_spec file_sys fname file_sys.num_dentries 0 (by omega) with
    ⟨ended,-⟩ | ⟨k,-,named,-⟩
  · exact ended
  · exact absurd named (none_ k)

theorem find_dentry_first (first : First file_sys fname i) : find_dentry file_sys fname = some i := by
  rw [find_dentry,List.find?_range_eq_some]
  refine ⟨(same_name_iff ..).mpr first.1.2,List.mem_range.mpr first.1.1,?_⟩
  intro j below
  have other := first.2 j below
  simp only [Named,not_and,← same_name_iff] at other
  simpa using other (Nat.lt_trans below first.1.1)

theorem find_dentry_absent (none_ : ∀ i, ¬ Named file_sys fname i) : find_dentry file_sys fname = none := by
  rw [find_dentry,List.find?_range_eq_none]
  intro i inside
  have other := none_ i
  simp only [Named,not_and,← same_name_iff] at other
  simpa using other inside

variable (dentry)

theorem by_name_first (plain : fname 0 ≠ 46) (first : First file_sys fname i) :
    read_dentry_by_name file_sys fname dentry = (0,copy_dentry (file_sys.dentries i) dentry) := by
  rw [read_dentry_by_name,if_neg plain,find_dentry_first first]

theorem by_name_absent (plain : fname 0 ≠ 46) (none_ : ∀ i, ¬ Named file_sys fname i) :
    read_dentry_by_name file_sys fname dentry = (-1,dentry) := by
  rw [read_dentry_by_name,if_neg plain,find_dentry_absent none_]

theorem by_name_dot (dot : fname 0 = 46) :
    read_dentry_by_name file_sys fname dentry = (0,{
      file_type := (file_sys.dentries 0).file_type
      inode_num := (file_sys.dentries 0).inode_num
      file_name := fun j => if j = 0 then 46 else dentry.file_name j }) := if_pos dot

theorem by_index (inside : i < file_sys.num_dentries) :
    read_dentry_by_index file_sys i dentry = (0,copy_dentry (file_sys.dentries i) dentry) := if_neg (by omega)

/-- The lookup by name is its scan. -/
theorem by_name_eq_scan (plain : fname 0 ≠ 46) :
    read_dentry_by_name file_sys fname dentry = scan file_sys fname dentry := by
  rw [scan]
  rcases first_or_none file_sys fname with none_ | ⟨i,first⟩
  · rw [by_name_absent dentry plain none_,dentry_loop_none none_,if_pos rfl]
  · rw [by_name_first dentry plain first,dentry_loop_first first,if_neg (by omega),Int.toNat_natCast]

/-- Where the shortcut for a dot does no harm. -/
theorem dot_copies_iff (first : First file_sys fname i) (dot : fname 0 = 46) :
    read_dentry_by_name file_sys fname dentry = read_dentry_by_index file_sys i dentry ↔
      (file_sys.dentries i).file_type = (file_sys.dentries 0).file_type ∧
        (file_sys.dentries i).inode_num = (file_sys.dentries 0).inode_num ∧
        ∀ j, 0 < j → j < FILENAME_LEN → dentry.file_name j = fname j := by
  have chars := first.1.2
  rw [by_name_dot dentry dot,by_index dentry first.1.1]
  simp only [copy_dentry,Prod.mk.injEq,true_and,Dentry.mk.injEq]
  constructor
  · rintro ⟨name,type,inode⟩
    refine ⟨type.symm,inode.symm,?_⟩
    intro j low high
    have here := congrFun name j
    rwa [if_neg (by omega),if_pos high,chars j high] at here
  · rintro ⟨type,inode,rest⟩
    refine ⟨?_,type.symm,inode.symm⟩
    funext j
    by_cases inside : j < FILENAME_LEN
    · rw [if_pos inside,chars j inside]
      by_cases start : j = 0
      · rw [if_pos start,start,dot]
      · rw [if_neg start,rest j (by omega) inside]
    · have later : j ≠ 0 := by
        simp only [FILENAME_LEN] at inside
        omega
      rw [if_neg inside,if_neg later]

/-- The two lookups agree exactly for plain names. -/
theorem lookups_agree_iff (file_sys : FileSys) (fname : Nat → Byte) (dentry : Dentry) :
    AgreesWithIndex file_sys fname dentry ↔ Plain file_sys fname dentry := by
  constructor
  · intro agrees
    by_cases dot : fname 0 = 46
    · have found : (read_dentry_by_name file_sys fname dentry).1 = 0 := by rw [by_name_dot dentry dot]
      obtain ⟨k,named⟩ := agrees.succeeds.mp found
      rcases first_or_none file_sys fname with none_ | ⟨i,first⟩
      · exact absurd named (none_ k)
      · exact .inr ⟨i,first,(dot_copies_iff dentry first dot).mp (agrees.fills i first)⟩
    · exact .inl dot
  · intro plain
    rcases first_or_none file_sys fname with none_ | ⟨i,first⟩
    · have start : fname 0 ≠ 46 := plain.resolve_right fun ⟨i,first,_⟩ => none_ i first.1
      have absent := by_name_absent dentry start none_
      refine ⟨?_,fun k other => absurd other.1 (none_ k),fun _ => absent⟩
      rw [absent]
      exact ⟨fun found => absurd found (show (-1 : Int) ≠ 0 from by decide),fun ⟨k,named⟩ => absurd named (none_ k)⟩
    · have copies : read_dentry_by_name file_sys fname dentry = read_dentry_by_index file_sys i dentry := by
        rcases plain with start | ⟨k,other,same⟩
        · rw [by_name_first dentry start first,by_index dentry first.1.1]
        · obtain rfl := first.unique other
          by_cases dot : fname 0 = 46
          · exact (dot_copies_iff dentry first dot).mpr same
          · rw [by_name_first dentry dot first,by_index dentry first.1.1]
      refine ⟨?_,?_,fun none_ => absurd first.1 (none_ i)⟩
      · rw [copies,by_index dentry first.1.1]
        exact ⟨fun _ => ⟨i,first.1⟩,fun _ => rfl⟩
      · intro k other
        obtain rfl := first.unique other
        exact copies

/-- In a directory with distinct names both lookups find every entry whose name
    does not start with a dot. -/
theorem lookups_agree_distinct (distinct : ∀ k, Named file_sys (file_sys.dentries i).file_name k → k = i)
    (inside : i < file_sys.num_dentries) (plain : (file_sys.dentries i).file_name 0 ≠ 46) :
    read_dentry_by_name file_sys (file_sys.dentries i).file_name dentry = read_dentry_by_index file_sys i dentry := by
  have first : First file_sys (file_sys.dentries i).file_name i := by
    refine ⟨⟨inside,fun _ _ => rfl⟩,?_⟩
    intro j below named
    have := distinct j named
    omega
  rw [by_name_first dentry plain first,by_index dentry inside]

/-- `"."` is the only entry. -/
def lone_directory : FileSys where
  num_dentries := 1
  num_inodes := 1
  num_blocks := 0
  dentries := fun _ => { file_name := fun j => if j = 0 then 46 else 0, file_type := 1, inode_num := 0 }
  inodes := fun _ => { len := 0, dblocks := fun _ => 0 }
  data := fun _ _ => 0

/-- `".x"` is no entry, but its lookup succeeds. -/
theorem dot_name_found : lone_directory.num_dentries ≤ 63 ∧
    ¬ AgreesWithIndex lone_directory (fun j => ([46,120] : List Byte).getD j 0) uninitialized := by
  refine ⟨by decide,?_⟩
  intro agrees
  obtain ⟨i,inside,chars⟩ := agrees.succeeds.mp (by rw [by_name_dot uninitialized rfl])
  exact absurd (chars 1 (by decide)) (show (0 : Byte) ≠ 120 from by decide)

end Mp3Kernel.Lookup

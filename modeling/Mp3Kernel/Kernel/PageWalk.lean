import Mp3Kernel.Kernel.Paging
import Mp3Kernel.Kernel.UserPointers

/-!
The processor's translation of an address through a page directory, and what
`map_page_directory` and `clear_pde` make of it. A directory and its page tables
lie in one memory, so a table that the directory itself serves as is written
along with it.
-/
namespace Mp3Kernel.PageWalk
open Mp3Kernel.Memory Mp3Kernel.Tasks Mp3Kernel.Paging
open Mp3Kernel.UserPointers (Machine do_vidmap word_bytes)

/-- Where an address leads, and what may be done there. -/
structure Translation where
  address : Word
  writable : Bool
  user : Bool
  deriving DecidableEq, Repr

/-- The number of an address' 4 MB region. -/
def region (v : Word) : Nat := (v >>> PDE_BASE_ADDRESS_OFF).toNat

def Writable (e : Word) : Prop := e &&& 2 ≠ 0

instance (e : Word) : Decidable (Writable e) := inferInstanceAs (Decidable (_ ≠ _))

/-- The word behind a 4 KB entry that the walk looks at. -/
def table_word (pde v : Word) : Nat := (pde &&& FIRST_20_BITS).toNat + 4 * (v >>> 12 &&& 0x3FF).toNat

/-- The walk; nothing is a page fault. -/
def walk (m : Mem) (pd : Nat) (v : Word) : Option Translation :=
  let pde := entry m pd (region v)
  if ¬ Present pde then none
  else if Large pde then
    some ⟨(pde &&& FIRST_10_BITS) + (v &&& ~~~ FIRST_10_BITS),decide (Writable pde),decide (UserAccessible pde)⟩
  else
    let pte := load32 m (table_word pde v)
    if ¬ Present pte then none
    else some ⟨(pte &&& FIRST_20_BITS) + (v &&& ~~~ FIRST_20_BITS),decide (Writable pde ∧ Writable pte),
      decide (UserAccessible pde ∧ UserAccessible pte)⟩

/-- A change to a directory. -/
inductive Change where
  | map (phys_addr virt_addr : Word) (user : Nat)
  | clear (virt_addr : Word)

def Change.virt_addr : Change → Word
  | .map _ virt_addr _ => virt_addr
  | .clear virt_addr => virt_addr

def Change.run (pd : Nat) (m : Mem) : Change → Mem
  | .map phys_addr virt_addr user => map_page_directory pd phys_addr.toNat virt_addr.toNat 1 user m
  | .clear virt_addr => clear_pde pd virt_addr.toNat m

/-- The walk of `a` does not go through a page table that holds the entry of
    `v`. -/
def TableApart (m : Mem) (pd : Nat) (a v : Word) : Prop :=
  let pde := entry m pd (region a)
  Present pde → ¬ Large pde →
    table_word pde a + 4 ≤ pd + 4 * region v ∨ pd + 4 * region v + 4 ≤ table_word pde a

/-- What the changes should do to the translation. -/
structure Translates (m : Mem) (pd : Nat) : Prop where
  maps : ∀ p v a user, user < 2 → region a = region v →
    walk (map_page_directory pd (BitVec.toNat p) (BitVec.toNat v) 1 user m) pd a =
      some ⟨(p &&& FIRST_10_BITS) + (a &&& ~~~ FIRST_10_BITS),true,decide (user = 1)⟩
  clears : ∀ v a, region a = region v → walk (clear_pde pd (BitVec.toNat v) m) pd a = none
  others : ∀ (change : Change) a, region a ≠ region change.virt_addr → TableApart m pd a change.virt_addr →
    walk (change.run pd m) pd a = walk m pd a
  commute : ∀ c d : Change, region c.virt_addr ≠ region d.virt_addr → d.run pd (c.run pd m) = c.run pd (d.run pd m)
  vidmap : ∀ screen_start (caller caller' : Machine), do_vidmap screen_start caller = some (0,caller') →
    walk (map_page_directory pd VIDEO VIRTUAL_VID_MEM 1 1 m) pd (load32 caller'.mem screen_start) =
      some ⟨BitVec.ofNat 32 VIDEO,true,true⟩

/-! ### One entry -/

variable {m m' : Mem} {pd : Nat} {a v : Word}

theorem pd_index_region (v : Word) : pd_index v.toNat = region v := by
  rw [pd_index,region_of_masked,BitVec.ofNat_toNat,BitVec.setWidth_eq,region]

/-- The entry that a change writes. -/
def Change.entry : Change → Word
  | .map phys_addr _ user => large_entry phys_addr.toNat user
  | .clear _ => 0

theorem Change.run_eq (c : Change) : c.run pd m = store32 m (pd + 4 * region c.virt_addr) c.entry := by
  cases c with
  | map phys_addr virt_addr user => rw [Change.run,map_page_directory_large,pd_index_region]; rfl
  | clear virt_addr => rw [Change.run,clear_pde,pd_index_region]; rfl

/-- The walk looks at the directory's entry, and at one word of its table. -/
theorem walk_congr (same : entry m pd (region a) = entry m' pd (region a))
    (table : Present (entry m pd (region a)) → ¬ Large (entry m pd (region a)) →
      load32 m (table_word (entry m pd (region a)) a) = load32 m' (table_word (entry m pd (region a)) a)) :
    walk m pd a = walk m' pd a := by
  simp only [walk,← same]
  split
  · rfl
  · split
    · rfl
    · rw [table (not_not.mp ‹_›) ‹_›]

/-- Through a 4 MB entry. -/
theorem walk_large (present : Present (entry m pd (region a))) (large : Large (entry m pd (region a))) :
    walk m pd a = some ⟨(entry m pd (region a) &&& FIRST_10_BITS) + (a &&& ~~~ FIRST_10_BITS),
      decide (Writable (entry m pd (region a))),decide (UserAccessible (entry m pd (region a)))⟩ := by
  simp only [walk]
  rw [if_neg (not_not.mpr present),if_pos large]

theorem large_entry_writable (phys_addr user : Nat) : Writable (large_entry phys_addr user) := by
  have flag : RW_PRESENT &&& 2 = 2 := by decide
  rw [Writable,large_entry,BitVec.and_or_distrib_right,flag]
  intro none_
  have bit := congrArg (fun e => BitVec.getLsbD e 1) none_
  simp at bit

/-! ### Changes -/

theorem walk_mapped (p : Word) {user : Nat} (flag : user < 2) (same : region a = region v) :
    walk (map_page_directory pd p.toNat v.toNat 1 user m) pd a =
      some ⟨(p &&& FIRST_10_BITS) + (a &&& ~~~ FIRST_10_BITS),true,decide (user = 1)⟩ := by
  have written : entry (map_page_directory pd p.toNat v.toNat 1 user m) pd (region a) = large_entry p.toNat user := by
    rw [map_page_directory_large,pd_index_region,entry_store,if_pos same]
  obtain ⟨present,large,user_iff,frame⟩ := large_entry_decoded p.toNat flag
  rw [walk_large (written ▸ present) (written ▸ large),written,frame,BitVec.ofNat_toNat,BitVec.setWidth_eq]
  simp only [large_entry_writable,user_iff,decide_true]

theorem walk_cleared (same : region a = region v) : walk (clear_pde pd v.toNat m) pd a = none := by
  have written : entry (clear_pde pd v.toNat m) pd (region a) = 0 := by
    rw [clear_pde,pd_index_region,entry_store,if_pos same]
  simp only [walk,written]
  rw [if_pos (by decide)]

theorem walk_other (c : Change) (other : region a ≠ region c.virt_addr) (apart : TableApart m pd a c.virt_addr) :
    walk (c.run pd m) pd a = walk m pd a := by
  have same : entry m pd (region a) = entry (c.run pd m) pd (region a) := by
    rw [Change.run_eq,entry_store,if_neg other]
  refine (walk_congr same ?_).symm
  intro present small
  rw [Change.run_eq,load32_store32_apart _ (apart present small)]

theorem change_comm (c d : Change) (other : region c.virt_addr ≠ region d.virt_addr) :
    d.run pd (c.run pd m) = c.run pd (d.run pd m) := by
  rw [Change.run_eq d,Change.run_eq c,Change.run_eq c,Change.run_eq d]
  exact store32_comm m _ _ (by omega)

theorem load32_word_bytes (m : Mem) (a : Nat) (v : Word) : load32 (storeBytes m a (word_bytes v)) a = v := by
  have byte (i : Nat) (inside : i < 4) : storeBytes m a (word_bytes v) (a + i) = (word_bytes v).get ⟨i,inside⟩ :=
    storeBytes_inside inside
  have first : storeBytes m a (word_bytes v) a = (word_bytes v).get ⟨0,Nat.zero_lt_succ _⟩ := byte 0 (by decide)
  rw [load32,byte 3 (by decide),byte 2 (by decide),byte 1 (by decide),first]
  exact word_of_bytes v

theorem do_vidmap_stores {screen_start : Nat} {caller caller' : Machine}
    (done : do_vidmap screen_start caller = some (0,caller')) :
    load32 caller'.mem screen_start = BitVec.ofNat 32 (VIRTUAL_VID_MEM + VIDEO) := by
  rw [do_vidmap] at done
  split at done
  · cases done
  · obtain ⟨stored,put,result⟩ := Option.map_eq_some_iff.mp done
    cases result
    rw [Machine.put] at put
    split at put
    · cases put
      exact load32_word_bytes _ _ _
    · cases put

/-- The translation through any directory after a change to it. -/
theorem translates (m : Mem) (pd : Nat) : Translates m pd where
  maps := fun p _ _ _ flag same => walk_mapped p flag same
  clears := fun _ _ same => walk_cleared same
  others := fun change _ other apart => walk_other change other apart
  commute := fun c d other => change_comm c d other
  vidmap := by
    intro screen_start caller caller' done
    rw [do_vidmap_stores done]
    exact walk_mapped (v := BitVec.ofNat 32 VIRTUAL_VID_MEM) (BitVec.ofNat 32 VIDEO) (by decide) (by decide)

/-- A directory that is the page table of its own region 5. -/
def self_mapped : Mem := store32 (fun _ => 0) (0x1000 + 4 * 5) 0x1003

/-- Mapping region 7 then also maps a page of region 5. -/
theorem self_mapped_changes : region 0x01407000 ≠ region 0x01C00000 ∧
    walk self_mapped 0x1000 0x01407000 = none ∧
    walk ((Change.map 0 0x01C00000 1).run 0x1000 self_mapped) 0x1000 0x01407000 = some ⟨0,true,false⟩ := by
  decide

end Mp3Kernel.PageWalk

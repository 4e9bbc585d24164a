import Mp3Kernel.Kernel.Task

/-!
The page directories of paging.c and the directory that `init_task_pd` builds
at the bottom of a new task's frame. A directory is the address of its first
word; the kernel reaches it through an identity mapping.
-/
namespace Mp3Kernel.Paging
open Mp3Kernel.Memory Mp3Kernel.Tasks

abbrev FIRST_20_BITS : Word := 0xFFFFF000
abbrev FIRST_10_BITS : Word := 0xFFC00000
abbrev KERNEL_LOCATION : Nat := 0x400000
abbrev NUM_PAGES : Nat := 1024
abbrev SUPERVISOR_RW_PRESENT : Word := 3
abbrev RW_PRESENT : Word := 3
abbrev PAGE_SIZE_BIT : Word := 0x80
abbrev PDE_BASE_ADDRESS_OFF : Nat := 22
abbrev VIDEO : Nat := 0xB8000
abbrev VIRTUAL_VID_MEM : Nat := 0x10000000
abbrev GARBAGE_VID_MEM : Nat := 0x10400000

def pd_index (virt_addr : Nat) : Nat :=
  ((BitVec.ofNat 32 virt_addr &&& FIRST_10_BITS) >>> PDE_BASE_ADDRESS_OFF).toNat

/-- The 4 MB entry for a physical address. -/
def large_entry (phys_addr user : Nat) : Word :=
  (BitVec.ofNat 32 phys_addr &&& FIRST_10_BITS) ||| PAGE_SIZE_BIT ||| (BitVec.ofNat 32 user <<< 2) ||| RW_PRESENT

def map_page_directory (pd phys_addr virt_addr size user : Nat) (m : Mem) : Mem :=
  if size = 0 then
    store32 m (pd + 4 * pd_index virt_addr)
      ((BitVec.ofNat 32 phys_addr &&& FIRST_20_BITS) ||| (BitVec.ofNat 32 user <<< 2) ||| RW_PRESENT)
  else if size = 1 then store32 m (pd + 4 * pd_index virt_addr) (large_entry phys_addr user)
  else m

def clear_pde (pd virt_addr : Nat) (m : Mem) : Mem := store32 m (pd + 4 * pd_index virt_addr) 0

/-- The loop over the page table: an identity map without its first page. -/
def fill_page_table (pt : Nat) (m : Mem) : Mem :=
  (List.range NUM_PAGES).foldl (fun m i =>
    if i ≠ 0 then store32 m (pt + 4 * i) (BitVec.ofNat 32 (i * SIZE_4KB_PAGE) ||| SUPERVISOR_RW_PRESENT) else m) m

/-- The directory and the page table of a task whose frame starts at `addr`. -/
def init_task_pd (addr : Nat) (m : Mem) : Mem :=
  let pd := addr
  let pt := addr + 4 * NUM_PAGES
  let m := store32 m pd ((BitVec.ofNat 32 pt &&& FIRST_20_BITS) ||| SUPERVISOR_RW_PRESENT)
  let m := fill_page_table pt m
  let m := map_page_directory pd KERNEL_LOCATION KERNEL_LOCATION 1 0 m
  let m := map_page_directory pd addr addr 1 1 m
  let m := map_page_directory pd addr EXECUTION_ADDR 1 1 m
  map_page_directory pd VIDEO VIRTUAL_VID_MEM 1 1 m

/-! ### Entries -/

/-- Entry `i` of a directory or a page table. -/
def entry (m : Mem) (table i : Nat) : Word := load32 m (table + 4 * i)

def Present (e : Word) : Prop := e &&& 1 ≠ 0
def UserAccessible (e : Word) : Prop := e &&& 4 ≠ 0
def Large (e : Word) : Prop := e &&& PAGE_SIZE_BIT ≠ 0

instance (e : Word) : Decidable (Present e) := inferInstanceAs (Decidable (_ ≠ _))
instance (e : Word) : Decidable (UserAccessible e) := inferInstanceAs (Decidable (_ ≠ _))
instance (e : Word) : Decidable (Large e) := inferInstanceAs (Decidable (_ ≠ _))

/-- The shift drops all that the mask does. -/
theorem region_of_masked (x : Word) : (x &&& FIRST_10_BITS) >>> PDE_BASE_ADDRESS_OFF = x >>> PDE_BASE_ADDRESS_OFF := by
  have mask : ∀ i : Fin 32, FIRST_10_BITS.getLsbD (22 + i.val) = decide (i.val < 10) := by decide
  apply BitVec.eq_of_getLsbD_eq
  intro i inside
  rw [BitVec.getLsbD_ushiftRight,BitVec.getLsbD_ushiftRight,BitVec.getLsbD_and,mask ⟨i,inside⟩]
  by_cases low : i < 10
  · simp [low]
  · rw [BitVec.getLsbD_of_ge x (22 + i) (by omega),Bool.false_and]

theorem pd_index_eq {virt_addr : Nat} (fits : virt_addr < 4294967296) :
    pd_index virt_addr = virt_addr / 4194304 := by
  rw [pd_index,region_of_masked,PDE_BASE_ADDRESS_OFF,BitVec.toNat_ushiftRight,BitVec.toNat_ofNat,Nat.shiftRight_eq_div_pow]
  omega

theorem map_page_directory_large (pd phys_addr virt_addr user : Nat) (m : Mem) :
    map_page_directory pd phys_addr virt_addr 1 user m =
      store32 m (pd + 4 * pd_index virt_addr) (large_entry phys_addr user) := rfl

/-- Each store into a directory sets one entry, -/
theorem entry_store {m : Mem} {table i j : Nat} (v : Word) :
    entry (store32 m (table + 4 * j) v) table i = if i = j then v else entry m table i := by
  by_cases same : i = j
  · rw [if_pos same,same,entry,load32_store32_same]
  · rw [if_neg same,entry,load32_store32_apart v (by omega),entry]

/-- and none of another table. -/
theorem entry_store_other {m : Mem} {table b i : Nat} (v : Word) (apart : table + 4 * i + 4 ≤ b ∨ b + 4 ≤ table + 4 * i) :
    entry (store32 m b v) table i = entry m table i := by
  rw [entry,load32_store32_apart v (by omega),entry]

theorem fill_page_table_outside {pt b : Nat} (m : Mem) (apart : b < pt ∨ pt + 4 * NUM_PAGES ≤ b) :
    fill_page_table pt m b = m b := by
  have loop : ∀ n ≤ NUM_PAGES, ((List.range n).foldl (fun m i =>
      if i ≠ 0 then store32 m (pt + 4 * i) (BitVec.ofNat 32 (i * SIZE_4KB_PAGE) ||| SUPERVISOR_RW_PRESENT)
      else m) m) b = m b := by
    intro n
    induction n with
    | zero => intro _; rfl
    | succ n ih =>
      intro below
      rw [List.range_succ,List.foldl_append,List.foldl_cons,List.foldl_nil]
      by_cases first : n ≠ 0
      · rw [if_pos first,store32_outside _ (by omega)]
        exact ih (by omega)
      · rw [if_neg first]
        exact ih (by omega)
  exact loop NUM_PAGES le_rfl

/-- A directory is built inside the first two pages of the frame. -/
theorem init_task_pd_outside {addr b : Nat} (m : Mem) (fits : addr < 4294967296)
    (apart : b < addr ∨ addr + 8192 ≤ b) : init_task_pd addr m b = m b := by
  have own : pd_index addr < 1024 := by rw [pd_index_eq fits]; omega
  have kernel : pd_index KERNEL_LOCATION = 1 := pd_index_eq (by decide)
  have execution : pd_index EXECUTION_ADDR = 32 := pd_index_eq (by decide)
  have video : pd_index VIRTUAL_VID_MEM = 64 := pd_index_eq (by decide)
  simp only [init_task_pd,map_page_directory_large,kernel,execution,video]
  rw [store32_outside _ (by omega),store32_outside _ (by omega),store32_outside _ (by omega),
    store32_outside _ (by omega),fill_page_table_outside _ (by simp only [NUM_PAGES]; omega),
    store32_outside _ (by omega)]

/-- The five entries of a new directory; the others keep what the frame held. -/
theorem entry_init_task_pd {addr i : Nat} (m : Mem) (inside : i < 1024) :
    entry (init_task_pd addr m) addr i =
      if i = 64 then large_entry VIDEO 1
      else if i = 32 then large_entry addr 1
      else if i = pd_index addr then large_entry addr 1
      else if i = 1 then large_entry KERNEL_LOCATION 0
      else if i = 0 then (BitVec.ofNat 32 (addr + 4 * NUM_PAGES) &&& FIRST_20_BITS) ||| SUPERVISOR_RW_PRESENT
      else entry m addr i := by
  have kernel : pd_index KERNEL_LOCATION = 1 := pd_index_eq (by decide)
  have execution : pd_index EXECUTION_ADDR = 32 := pd_index_eq (by decide)
  have video : pd_index VIRTUAL_VID_MEM = 64 := pd_index_eq (by decide)
  have table (m : Mem) : entry (fill_page_table (addr + 4 * NUM_PAGES) m) addr i = entry m addr i :=
    load32_congr (fun _ low high => fill_page_table_outside m (by simp only [NUM_PAGES]; omega))
  have first (m : Mem) (v : Word) : entry (store32 m addr v) addr i = if i = 0 then v else entry m addr i :=
    entry_store (j := 0) v
  simp only [init_task_pd,map_page_directory_large,kernel,execution,video]
  rw [entry_store,entry_store,entry_store,entry_store,table,first]

/-- A large entry is present, as accessible as asked, and maps the 4 MB frame
    of the address. -/
theorem large_entry_decoded (phys_addr : Nat) {user : Nat} (flag : user < 2) :
    Present (large_entry phys_addr user) ∧ Large (large_entry phys_addr user) ∧
      (UserAccessible (large_entry phys_addr user) ↔ user = 1) ∧
      large_entry phys_addr user &&& FIRST_10_BITS = BitVec.ofNat 32 phys_addr &&& FIRST_10_BITS := by
  have cases : user = 0 ∨ user = 1 := by omega
  have bits : ∀ x f : Word, (((x &&& FIRST_10_BITS) ||| PAGE_SIZE_BIT ||| f ||| RW_PRESENT) &&& FIRST_10_BITS) =
      (x &&& FIRST_10_BITS) ||| (f &&& FIRST_10_BITS) := by
    intro x f
    simp [BitVec.and_or_distrib_right,BitVec.and_assoc]
  have low : ∀ x f g : Word, FIRST_10_BITS &&& g = 0 →
      (((x &&& FIRST_10_BITS) ||| PAGE_SIZE_BIT ||| f ||| RW_PRESENT) &&& g) =
      (PAGE_SIZE_BIT &&& g) ||| (f &&& g) ||| (RW_PRESENT &&& g) := by
    intro x f g apart
    have cleared : 0xFFC00000#32 &&& g = 0#32 := apart
    simp [BitVec.and_or_distrib_right,BitVec.and_assoc,cleared]
  have masks : FIRST_10_BITS &&& 1 = 0 ∧ FIRST_10_BITS &&& 4 = 0 ∧ FIRST_10_BITS &&& PAGE_SIZE_BIT = 0 := by decide
  obtain ⟨one,four,size⟩ := masks
  simp only [Present,Large,UserAccessible,large_entry,low _ _ _ one,low _ _ _ four,low _ _ _ size,bits]
  rcases cases with rfl | rfl
  · refine ⟨by decide,by decide,by decide,?_⟩
    simp
  · refine ⟨by decide,by decide,by decide,?_⟩
    simp

end Mp3Kernel.Paging

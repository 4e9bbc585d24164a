import Mp3Kernel.Kernel.Isolation
import Mp3Kernel.Kernel.TaskDirectory
import Mp3Kernel.Kernel.PageWalk

/-!
What every address means. `paging_init` maps the kernel for the boot, and each
task gets a directory of its own; `mapping` says what the processor's walk
should make of an address then.
-/
namespace Mp3Kernel.AddressSpace
open Mp3Kernel.Memory Mp3Kernel.Tasks Mp3Kernel.Paging Mp3Kernel.PageWalk
open Mp3Kernel.Scheduler Mp3Kernel.Isolation
open Mp3Kernel.TaskDirectory (entry_fill_page_table)

/-- `paging_init` up to its loads of the control registers. -/
def paging_init (pd pt : Nat) (m : Mem) : Mem :=
  let m := store32 m pd (BitVec.ofNat 32 pt &&& FIRST_20_BITS)
  let m := store32 m pd (load32 m pd ||| SUPERVISOR_RW_PRESENT)
  let m := fill_page_table pt m
  let m := store32 m (pd + 4) (BitVec.ofNat 32 KERNEL_LOCATION &&& FIRST_10_BITS)
  store32 m (pd + 4) (load32 m (pd + 4) ||| (PAGE_SIZE_BIT ||| SUPERVISOR_RW_PRESENT))

/-- What an address should mean where `page` gives the frames of user code: the
    first page nothing, the rest of the first 8 MB itself, for the kernel. -/
def mapping (page : Nat → Option Nat) (v : Word) : Option Translation :=
  if v.toNat < SIZE_4KB_PAGE then none
  else if v.toNat < 2 * SIZE_4MB_PAGE then some ⟨v,true,false⟩
  else (page (v.toNat / SIZE_4MB_PAGE)).map
    fun frame => ⟨BitVec.ofNat 32 (frame + v.toNat % SIZE_4MB_PAGE),true,true⟩

/-- The boot directory maps the frames of the first four tasks. -/
def boot_pages (i : Nat) : Option Nat := if 2 ≤ i ∧ i < 6 then some (i * SIZE_4MB_PAGE) else none

/-- A task has its own frame at two places, and the 4 MB around `screen`. -/
def task_pages (pid : Int) (screen i : Nat) : Option Nat :=
  if i = get_task_addr pid / SIZE_4MB_PAGE ∨ i = EXECUTION_ADDR / SIZE_4MB_PAGE then some (get_task_addr pid)
  else if i = VIRTUAL_VID_MEM / SIZE_4MB_PAGE then some (screen / SIZE_4MB_PAGE * SIZE_4MB_PAGE)
  else none

/-- x86_desc.S's directory and table, in the kernel's page, and frames that were
    never used: no word maps anything yet. -/
structure Unmapped (pd pt : Nat) (m : Mem) : Prop where
  kernel : KERNEL_LOCATION ≤ pd ∧ pd + 4096 ≤ 2 * SIZE_4MB_PAGE ∧ KERNEL_LOCATION ≤ pt ∧ pt + 4096 ≤ 2 * SIZE_4MB_PAGE
  aligned : pt % SIZE_4KB_PAGE = 0
  apart : pd + 4096 ≤ pt ∨ pt + 4096 ≤ pd
  directory : ∀ i < NUM_PAGES, ¬ Present (entry m pd i)
  table : ¬ Present (entry m pt 0)
  frames : ∀ p, 0 ≤ p → p < 10 → ¬ Present (entry m (get_task_addr p + 4 * NUM_PAGES) 0) ∧
    ∀ i < NUM_PAGES, ¬ Present (entry m (get_task_addr p) i)

/-! ### The kernel's pages -/

variable {m m' : Mem} {pd pt : Nat} {v : Word} {p q : Int} {i : Nat}

/-- The directory and its table map the kernel. -/
structure MapsKernel (m : Mem) (pd pt : Nat) : Prop where
  table : entry m pd 0 = (BitVec.ofNat 32 pt &&& FIRST_20_BITS) ||| SUPERVISOR_RW_PRESENT
  kernel : entry m pd 1 = large_entry KERNEL_LOCATION 0
  null : ¬ Present (entry m pt 0)
  identity : ∀ i < NUM_PAGES, i ≠ 0 → entry m pt i = BitVec.ofNat 32 (i * SIZE_4KB_PAGE) ||| SUPERVISOR_RW_PRESENT

theorem region_toNat (v : Word) : region v = v.toNat / SIZE_4MB_PAGE := by
  rw [region,PDE_BASE_ADDRESS_OFF,BitVec.toNat_ushiftRight,Nat.shiftRight_eq_div_pow]

/-- The two parts of an address add up. -/
theorem masked_add (v mask : Word) : (v &&& mask) + (v &&& ~~~ mask) = v := by
  have apart : (v &&& mask) &&& (v &&& ~~~ mask) = 0 := by
    apply BitVec.eq_of_getLsbD_eq
    intro i inside
    rw [BitVec.getLsbD_and,BitVec.getLsbD_and,BitVec.getLsbD_and,BitVec.getLsbD_not]
    cases v.getLsbD i <;> cases mask.getLsbD i <;> simp
  rw [BitVec.add_eq_or_of_and_eq_zero _ _ apart]
  apply BitVec.eq_of_getLsbD_eq
  intro i inside
  rw [BitVec.getLsbD_or,BitVec.getLsbD_and,BitVec.getLsbD_and,BitVec.getLsbD_not,decide_eq_true inside]
  cases v.getLsbD i <;> cases mask.getLsbD i <;> rfl

/-- A mask without its low bits rounds down. -/
theorem masked_high {mask : Word} (n : Nat) (v : Word) (bits : ∀ i < 32, mask.getLsbD i = decide (n ≤ i)) :
    (v &&& mask).toNat = v.toNat / 2 ^ n * 2 ^ n := by
  have shifted : v &&& mask = v >>> n <<< n := by
    apply BitVec.eq_of_getLsbD_eq
    intro i inside
    rw [BitVec.getLsbD_and,bits i inside,BitVec.getLsbD_shiftLeft,BitVec.getLsbD_ushiftRight]
    by_cases low : i < n
    · simp [low]
    · simp [low,inside,show n ≤ i by omega,show n + (i - n) = i by omega]
  have below : v.toNat / 2 ^ n * 2 ^ n < 2 ^ 32 := (Nat.div_mul_le_self _ _).trans_lt v.isLt
  rw [shifted,BitVec.toNat_shiftLeft,BitVec.toNat_ushiftRight,Nat.shiftRight_eq_div_pow,Nat.shiftLeft_eq,
    Nat.mod_eq_of_lt below]

theorem masked_frame (v : Word) : (v &&& FIRST_10_BITS).toNat = v.toNat / SIZE_4MB_PAGE * SIZE_4MB_PAGE := by
  have bits : ∀ i < 32, FIRST_10_BITS.getLsbD i = decide (22 ≤ i) := by decide
  exact masked_high 22 v bits

theorem masked_page (v : Word) : (v &&& FIRST_20_BITS).toNat = v.toNat / SIZE_4KB_PAGE * SIZE_4KB_PAGE := by
  have bits : ∀ i < 32, FIRST_20_BITS.getLsbD i = decide (12 ≤ i) := by decide
  exact masked_high 12 v bits

/-- Through a 4 MB page, -/
theorem walk_page {base user : Nat} (flag : user < 2) (fits : base < 4294967296)
    (page : entry m pd (region v) = large_entry base user) :
    walk m pd v = some ⟨BitVec.ofNat 32 (base / SIZE_4MB_PAGE * SIZE_4MB_PAGE + v.toNat % SIZE_4MB_PAGE),true,
      decide (user = 1)⟩ := by
  obtain ⟨present,large,user_iff,frame⟩ := large_entry_decoded base flag
  have offset : v &&& ~~~ FIRST_10_BITS = BitVec.ofNat 32 (v.toNat % SIZE_4MB_PAGE) := by
    have parts := congrArg BitVec.toNat (masked_add v FIRST_10_BITS)
    have small := v.isLt
    have high := masked_frame v
    have low := (v &&& ~~~ FIRST_10_BITS).isLt
    apply BitVec.eq_of_toNat_eq
    rw [BitVec.toNat_add,high] at parts
    rw [BitVec.toNat_ofNat]
    simp only [SIZE_4MB_PAGE] at parts ⊢
    omega
  rw [walk_large (page ▸ present) (page ▸ large),page,frame,offset]
  simp only [large_entry_writable,user_iff,decide_true,BitVec.ofNat_add]
  have aligned : BitVec.ofNat 32 base &&& FIRST_10_BITS = BitVec.ofNat 32 (base / SIZE_4MB_PAGE * SIZE_4MB_PAGE) := by
    apply BitVec.eq_of_toNat_eq
    rw [masked_frame,BitVec.toNat_ofNat,BitVec.toNat_ofNat]
    simp only [SIZE_4MB_PAGE]
    omega
  rw [aligned]

/-- and through none. -/
theorem walk_absent (absent : ¬ Present (entry m pd (region v))) : walk m pd v = none := by
  simp only [walk]
  rw [if_pos absent]

/-- An entry of 4 KB for the kernel. -/
theorem small_entry (a : Word) {e : Word} (written : e = (a &&& FIRST_20_BITS) ||| SUPERVISOR_RW_PRESENT) :
    Present e ∧ ¬ Large e ∧ Writable e ∧ ¬ UserAccessible e ∧ e &&& FIRST_20_BITS = a &&& FIRST_20_BITS := by
  subst written
  have flag (mask : Word) (low : FIRST_20_BITS &&& mask = 0) :
      ((a &&& FIRST_20_BITS) ||| SUPERVISOR_RW_PRESENT) &&& mask = SUPERVISOR_RW_PRESENT &&& mask := by
    rw [BitVec.and_or_distrib_right,BitVec.and_assoc,low]
    simp
  refine ⟨?_,?_,?_,?_,?_⟩
  · rw [Present,flag _ (by decide)]
    decide
  · rw [Large,flag _ (by decide)]
    decide
  · rw [Writable,flag _ (by decide)]
    decide
  · rw [UserAccessible,flag _ (by decide)]
    decide
  · have flags : SUPERVISOR_RW_PRESENT &&& FIRST_20_BITS = 0 := by decide
    rw [BitVec.and_or_distrib_right,BitVec.and_assoc,BitVec.and_self,flags]
    simp

theorem page_aligned {a : Nat} (aligned : a % SIZE_4KB_PAGE = 0) :
    BitVec.ofNat 32 a &&& FIRST_20_BITS = BitVec.ofNat 32 a := by
  apply BitVec.eq_of_toNat_eq
  rw [masked_page,BitVec.toNat_ofNat]
  simp only [SIZE_4KB_PAGE] at *
  omega

/-- Below 8 MB the kernel finds everything at its place. -/
theorem walk_kernel (maps : MapsKernel m pd pt) (fits : pt < 4294967296) (aligned : pt % SIZE_4KB_PAGE = 0)
    (low : v.toNat < 2 * SIZE_4MB_PAGE) : walk m pd v = if v.toNat < SIZE_4KB_PAGE then none else some ⟨v,true,false⟩ := by
  have frame := region_toNat v
  simp only [SIZE_4MB_PAGE] at low frame
  by_cases second : region v = 1
  · have page := maps.kernel
    rw [← second] at page
    rw [walk_page (by decide) (by decide) page,if_neg (by simp only [SIZE_4KB_PAGE]; omega)]
    have place : KERNEL_LOCATION / SIZE_4MB_PAGE * SIZE_4MB_PAGE + v.toNat % SIZE_4MB_PAGE = v.toNat := by
      simp only [KERNEL_LOCATION,SIZE_4MB_PAGE]
      omega
    rw [place,BitVec.ofNat_toNat,BitVec.setWidth_eq]
    rfl
  have first : region v = 0 := by omega
  have pde := maps.table
  rw [← first] at pde
  obtain ⟨present,small,writable,supervisor,base⟩ := small_entry _ pde
  have index : (v >>> 12 &&& 0x3FF).toNat = v.toNat / SIZE_4KB_PAGE := by
    rw [BitVec.toNat_and,BitVec.toNat_ushiftRight,Nat.shiftRight_eq_div_pow,
      show (0x3FF : Word).toNat = 2 ^ 10 - 1 from rfl,Nat.and_two_pow_sub_one_eq_mod]
    simp only [SIZE_4KB_PAGE]
    omega
  have word : load32 m (table_word (entry m pd (region v)) v) = entry m pt (v.toNat / SIZE_4KB_PAGE) := by
    rw [table_word,base,page_aligned aligned,index,BitVec.toNat_ofNat,Nat.mod_eq_of_lt fits,entry]
  simp only [walk,word]
  rw [if_neg (not_not.mpr present),if_neg small]
  by_cases null : v.toNat < SIZE_4KB_PAGE
  · rw [if_pos null,Nat.div_eq_of_lt null,if_pos maps.null]
  rw [if_neg null]
  have inside : v.toNat / SIZE_4KB_PAGE < NUM_PAGES := by
    simp only [SIZE_4KB_PAGE,NUM_PAGES]
    omega
  have rounded : v &&& FIRST_20_BITS = BitVec.ofNat 32 (v.toNat / SIZE_4KB_PAGE * SIZE_4KB_PAGE) := by
    apply BitVec.eq_of_toNat_eq
    have below := v.isLt
    rw [masked_page,BitVec.toNat_ofNat]
    simp only [SIZE_4KB_PAGE]
    omega
  have pte := maps.identity _ inside (by simp only [SIZE_4KB_PAGE] at *; omega)
  rw [← rounded] at pte
  obtain ⟨present',-,writable',supervisor',base'⟩ := small_entry v pte
  rw [if_neg (not_not.mpr present'),base',masked_add]
  simp [writable,writable',supervisor]

theorem mapping_kernel (page : Nat → Option Nat) (low : v.toNat < 2 * SIZE_4MB_PAGE) :
    mapping page v = if v.toNat < SIZE_4KB_PAGE then none else some ⟨v,true,false⟩ := by
  rw [mapping,if_pos low]

theorem mapping_user (page : Nat → Option Nat) (high : 2 * SIZE_4MB_PAGE ≤ v.toNat) :
    mapping page v = (page (region v)).map
      fun frame => ⟨BitVec.ofNat 32 (frame + v.toNat % SIZE_4MB_PAGE),true,true⟩ := by
  have above : ¬ v.toNat < SIZE_4KB_PAGE := by
    simp only [SIZE_4MB_PAGE,SIZE_4KB_PAGE] at *
    omega
  rw [mapping,if_neg above,if_neg (by omega),region_toNat]

/-! ### A task's directory -/

/-- The directory and the table of a task, but for the words that stay. -/
structure Laid (m : Mem) (p : Int) : Prop
    extends MapsKernel m (get_task_addr p) (get_task_addr p + 4 * NUM_PAGES) where
  own : entry m (get_task_addr p) (p.toNat + 2) = large_entry (get_task_addr p) 1
  execution : entry m (get_task_addr p) 32 = large_entry (get_task_addr p) 1
  video : ∃ screen, (screen = VIDEO ∨ screen = GARBAGE_VID_MEM) ∧ entry m (get_task_addr p) 64 = large_entry screen 1

/-- A word of the frame that `init_task_pd` does not write. -/
def Spare (p : Int) (i : Nat) : Prop := i ≠ 0 ∧ i ≠ 1 ∧ i ≠ p.toNat + 2 ∧ i ≠ 32 ∧ i ≠ 64

theorem walk_task (laid : Laid m p) (low : 0 ≤ p) (high : p < 10)
    (spare : ∀ i < NUM_PAGES, Spare p i → ¬ Present (entry m (get_task_addr p) i)) :
    ∃ screen, (screen = VIDEO ∨ screen = GARBAGE_VID_MEM) ∧
      ∀ v, walk m (get_task_addr p) v = mapping (task_pages p screen) v := by
  obtain ⟨screen,which,video⟩ := laid.video
  have address := get_task_addr_eq low high
  have frame : get_task_addr p / SIZE_4MB_PAGE = p.toNat + 2 := by
    simp only [address,SIZE_4MB_PAGE]
    omega
  have whole : get_task_addr p / SIZE_4MB_PAGE * SIZE_4MB_PAGE = get_task_addr p := by
    rw [frame]
    simp only [address,SIZE_4MB_PAGE]
    omega
  refine ⟨screen,which,?_⟩
  intro v
  by_cases kernel : v.toNat < 2 * SIZE_4MB_PAGE
  · rw [mapping_kernel _ kernel]
    refine walk_kernel laid.toMapsKernel ?_ ?_ kernel
    · simp only [NUM_PAGES]
      omega
    · simp only [address,NUM_PAGES,SIZE_4KB_PAGE]
      omega
  have places : EXECUTION_ADDR / SIZE_4MB_PAGE = 32 ∧ VIRTUAL_VID_MEM / SIZE_4MB_PAGE = 64 := by decide
  rw [mapping_user _ (by omega),task_pages,frame,places.1,places.2]
  by_cases own : region v = p.toNat + 2 ∨ region v = 32
  · have page : entry m (get_task_addr p) (region v) = large_entry (get_task_addr p) 1 := by
      rcases own with same | same
      · rw [same,laid.own]
      · rw [same,laid.execution]
    rw [if_pos own,walk_page (by decide) (by omega) page,whole]
    rfl
  rw [if_neg own]
  by_cases shown : region v = 64
  · rw [← shown] at video
    rw [if_pos shown,walk_page (by decide) (by rcases which with rfl | rfl <;> decide) video]
    rfl
  · rw [if_neg shown]
    have inside := region_toNat v
    have below := v.isLt
    simp only [SIZE_4MB_PAGE] at inside kernel
    refine walk_absent (spare _ ?_ ⟨?_,?_,?_,?_,shown⟩)
    · simp only [NUM_PAGES]
      omega
    all_goals omega

/-! ### The boot directory -/

variable {k : Kernel}

/-- The boot directory maps the kernel and the frames of the first `n` tasks. -/
structure Boot (pd pt n : Nat) (k : Kernel) : Prop where
  cr3 : k.cr3 = pd
  maps : MapsKernel k.mem pd pt
  frames : ∀ i < n, entry k.mem pd (i + 2) = large_entry (get_task_addr i) 1
  others : ∀ i < NUM_PAGES, n + 2 ≤ i → ¬ Present (entry k.mem pd i)

theorem walk_boot (boot : Boot pd pt 4 k) (fits : pt < 4294967296) (aligned : pt % SIZE_4KB_PAGE = 0) (v : Word) :
    walk k.mem k.cr3 v = mapping boot_pages v := by
  rw [boot.cr3]
  by_cases kernel : v.toNat < 2 * SIZE_4MB_PAGE
  · rw [mapping_kernel _ kernel]
    exact walk_kernel boot.maps fits aligned kernel
  have inside := region_toNat v
  have below := v.isLt
  rw [mapping_user _ (by omega),boot_pages]
  simp only [SIZE_4MB_PAGE] at inside kernel
  by_cases framed : region v < 6
  · have page := boot.frames (region v - 2) (by omega)
    have address := get_task_addr_eq (Int.natCast_nonneg (region v - 2)) (by omega)
    have whole : get_task_addr ((region v - 2 : Nat) : Int) / SIZE_4MB_PAGE * SIZE_4MB_PAGE = region v * SIZE_4MB_PAGE := by
      simp only [address,SIZE_4MB_PAGE]
      omega
    rw [show region v - 2 + 2 = region v by omega] at page
    rw [if_pos (by omega),walk_page (by decide) (by omega) page,whole]
    rfl
  · rw [if_neg (by omega)]
    refine walk_absent (boot.others _ ?_ (by omega))
    simp only [NUM_PAGES]
    omega

/-- `paging_init` maps the kernel and nothing else. -/
theorem paging_init_boot (unmapped : Unmapped pd pt m) (mem : k.mem = paging_init pd pt m) (cr3 : k.cr3 = pd) :
    Boot pd pt 0 k := by
  obtain ⟨kernel,-,apart,directory,table,-⟩ := unmapped
  have large : (BitVec.ofNat 32 KERNEL_LOCATION &&& FIRST_10_BITS) ||| (PAGE_SIZE_BIT ||| SUPERVISOR_RW_PRESENT) =
      large_entry KERNEL_LOCATION 0 := by decide
  have written : k.mem = store32 (fill_page_table pt
      (store32 m (pd + 4 * 0) ((BitVec.ofNat 32 pt &&& FIRST_20_BITS) ||| SUPERVISOR_RW_PRESENT))) (pd + 4 * 1)
      (large_entry KERNEL_LOCATION 0) := by
    rw [mem,paging_init]
    simp only [load32_store32_same,store32_store32_same,large]
    rfl
  have filled (m : Mem) {i : Nat} (inside : i < NUM_PAGES) : entry (fill_page_table pt m) pd i = entry m pd i := by
    simp only [NUM_PAGES] at inside
    exact load32_congr (fun b first last => fill_page_table_outside m (by simp only [NUM_PAGES]; omega))
  have entries {i : Nat} (inside : i < NUM_PAGES) : entry k.mem pd i =
      if i = 1 then large_entry KERNEL_LOCATION 0
      else if i = 0 then (BitVec.ofNat 32 pt &&& FIRST_20_BITS) ||| SUPERVISOR_RW_PRESENT else entry m pd i := by
    rw [written,entry_store,filled _ inside,entry_store]
  have pages {i : Nat} (inside : i < NUM_PAGES) : entry k.mem pt i =
      if i = 0 then entry m pt 0 else BitVec.ofNat 32 (i * SIZE_4KB_PAGE) ||| SUPERVISOR_RW_PRESENT := by
    have below := inside
    simp only [NUM_PAGES] at below
    rw [written,entry_store_other _ (by omega),entry_fill_page_table _ _ inside,entry_store_other _ (by omega)]
  refine ⟨cr3,⟨?_,?_,?_,?_⟩,fun i none_ => absurd none_ (Nat.not_lt_zero i),?_⟩
  · rw [entries (by decide),if_neg (by decide),if_pos rfl]
  · rw [entries (by decide),if_pos rfl]
  · rw [pages (by decide),if_pos rfl]
    exact table
  · intro i inside first
    rw [pages inside,if_neg first]
  · intro i inside above
    rw [entries inside,if_neg (by omega),if_neg (by omega)]
    exact directory i inside

end Mp3Kernel.AddressSpace

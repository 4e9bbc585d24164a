import Mp3Kernel.Lib.StackMachine
import Mp3Kernel.Kernel.Task

/-!
The assembly around the C code of the kernel: the system-call entry of
sys_calls.S with the user's stub of ece391syscall.S before it, and the entries
of hardware interrupts and exceptions. The C functions they call are
parameters that come back to their stack and leave the words above their
arguments alone; what the entries owe their callers follows for every such
function.
-/
namespace Mp3Kernel.SystemCall
open Mp3Kernel.Memory Mp3Kernel.StackMachine Mp3Kernel.Tasks

/-- The system calls. -/
inductive SysCall
  | halt | execute | read | write | «open» | close | getargs | vidmap | set_handler | sigreturn
  deriving DecidableEq

/-- Their numbers in ece391sysnum.h. -/
def SYS_NUM : SysCall → Nat
  | .halt => 1
  | .execute => 2
  | .read => 3
  | .write => 4
  | .open => 5
  | .close => 6
  | .getargs => 7
  | .vidmap => 8
  | .set_handler => 9
  | .sigreturn => 10

/-- The C functions behind them, in the order of the jump table. -/
def system_call_table : List SysCall :=
  [.halt,.execute,.read,.write,.open,.close,.getargs,.vidmap,.set_handler,.sigreturn]

/-- A C function, from its call to its return. -/
abbrev Code := Machine → Machine

/-- What the entry pushes first and pops last. -/
def system_call_slots : List Slot :=
  [.long .ebp,.long .ebx,.long .esi,.long .edi,.word .ds,.word .es,.word .fs]

/-- The kernel's data segment, by way of the low half of `esi`, and the three
    arguments on the stack. -/
def call_frame (m : Machine) : Machine :=
  let m := m.setReg .esi (m.reg .esi &&& 0xFFFF0000 ||| KERNEL_DS.setWidth 32)
  let m := m.setSeg .ds ((m.reg .esi).setWidth 16)
  pushl (m.reg .ebx) (pushl (m.reg .ecx) (pushl (m.reg .edx) m))

/-- `system_call` up to its `iret`; the comparisons are signed. -/
def system_call (do_call : SysCall → Code) (m : Machine) : Machine :=
  let m := save system_call_slots m
  let eax := m.reg .eax
  let m :=
    if eax.toInt < 1 then m
    else if 10 < eax.toInt then m
    else match system_call_table[eax.toNat - 1]? with
      | none => m
      | some call => unwind 12 (do_call call (call_frame m))
  restore system_call_slots m

/-- `int $0x80`. -/
def int_0x80 (e : Entry) (do_call : SysCall → Code) (m : Machine) : Machine :=
  iret (system_call do_call (interrupt e m))

/-- Return from a function. -/
def ret (m : Machine) : Machine := { m with eip := topl m, esp := m.esp + 4 }

/-- The number and the arguments, from the caller's stack. -/
def prepared (call : SysCall) (m : Machine) : Machine :=
  let m := (Slot.long .ebx).push m
  let m := m.setReg .eax (BitVec.ofNat 32 (SYS_NUM call))
  let m := m.setReg .ebx (load32 m.mem (m.esp + 8))
  let m := m.setReg .ecx (load32 m.mem (m.esp + 12))
  m.setReg .edx (load32 m.mem (m.esp + 16))

/-- The stub of a system call in a user program. -/
def DO_CALL (e : Entry) (do_call : SysCall → Code) (call : SysCall) (m : Machine) : Machine :=
  let m := int_0x80 e do_call (prepared call m)
  ret ((Slot.long .ebx).pop m)

/-! ### The system-call entry -/

/-- The machine as the C function of a call finds it. -/
def called (e : Entry) (m : Machine) : Machine := call_frame (save system_call_slots (interrupt e m))

/-- The function came back to its stack and left what lies above its arguments
    alone, up to `top`. -/
structure Returns (entry back : Machine) (args top : Nat) : Prop where
  esp : back.esp = entry.esp
  stack : ∀ a, entry.esp + args ≤ a → a < top → back.mem a = entry.mem a

variable {e : Entry} {do_call : SysCall → Code} {m : Machine}

theorem table_number (call : SysCall) : system_call_table[SYS_NUM call - 1]? = some call := by
  cases call <;> rfl

theorem number_range (call : SysCall) : 1 ≤ SYS_NUM call ∧ SYS_NUM call ≤ 10 := by
  cases call <;> decide

theorem depth_slots : depth system_call_slots = 22 := rfl

theorem save_esp (slots : List Slot) (m : Machine) : (save slots m).esp = m.esp - depth slots := by
  induction slots generalizing m with
  | nil => rfl
  | cons s rest ih =>
    rw [save,ih,push_esp]
    simp only [depth,List.map_cons,List.sum_cons]
    omega

/-- Pushes change no register. -/
theorem save_same (slots : List Slot) (m : Machine) (s : Slot) : s.Same m (save slots m) := by
  induction slots generalizing m with
  | nil => cases s <;> rfl
  | cons t rest ih => exact Slot.same_trans (push_same t s) (ih _)

/-- and no byte outside their own. -/
theorem save_outside {slots : List Slot} {m : Machine} {a : Nat} (room : depth slots ≤ m.esp)
    (outside : a < m.esp - depth slots ∨ m.esp ≤ a) : (save slots m).mem a = m.mem a := by
  induction slots generalizing m with
  | nil => rfl
  | cons s rest ih =>
    have total : depth (s :: rest) = s.size + depth rest := by simp [depth]
    have below := push_esp (m := m) s
    rw [save,ih (by omega) (by omega)]
    cases s with
    | long r => exact store32_outside _ (by simp only [Slot.size] at total; omega)
    | word g => exact store16_outside _ (by simp only [Slot.size] at total; omega)
    | flags => exact store32_outside _ (by simp only [Slot.size] at total; omega)

theorem call_frame_esp (m : Machine) : (call_frame m).esp = m.esp - 12 := by
  simp only [call_frame,pushl,Machine.setReg,Machine.setSeg]
  omega

theorem call_frame_above {a : Nat} (room : 12 ≤ m.esp) (above : m.esp ≤ a) : (call_frame m).mem a = m.mem a := by
  simp only [call_frame,pushl,Machine.setReg,Machine.setSeg]
  rw [store32_outside _ (by omega),store32_outside _ (by omega),store32_outside _ (by omega)]

/-- The arguments of the call, the first one on top. -/
theorem call_frame_args (room : 12 ≤ m.esp) :
    load32 (call_frame m).mem (call_frame m).esp = m.reg .ebx ∧
      load32 (call_frame m).mem ((call_frame m).esp + 4) = m.reg .ecx ∧
      load32 (call_frame m).mem ((call_frame m).esp + 8) = m.reg .edx := by
  rw [call_frame_esp]
  simp only [call_frame,pushl,Machine.setReg,Machine.setSeg]
  refine ⟨?_,?_,?_⟩
  · rw [show m.esp - 12 = m.esp - 4 - 4 - 4 by omega,load32_store32_same]
    rfl
  · rw [load32_store32_apart _ (by omega),show m.esp - 12 + 4 = m.esp - 4 - 4 by omega,load32_store32_same]
    rfl
  · rw [load32_store32_apart _ (by omega),load32_store32_apart _ (by omega),
      show m.esp - 12 + 8 = m.esp - 4 by omega,load32_store32_same]
    rfl

/-- The C function runs with the data segment of the kernel. -/
theorem call_frame_ds (m : Machine) : (call_frame m).seg .ds = KERNEL_DS := by
  have low (v : Word) : (v &&& 0xFFFF0000 ||| KERNEL_DS.setWidth 32).setWidth 16 = KERNEL_DS := by
    apply BitVec.eq_of_getLsbD_eq
    intro i inside
    have zero : (0xFFFF0000 : Word).getLsbD i = false := by
      have fixed : ∀ j : Fin 16, (0xFFFF0000 : Word).getLsbD j = false := by decide
      exact fixed ⟨i,inside⟩
    simp only [BitVec.getLsbD_setWidth,BitVec.getLsbD_or,BitVec.getLsbD_and,zero,inside,Bool.and_false,Bool.false_or,
      decide_true,Bool.true_and]
    simp [show i < 32 by omega]
  simp only [call_frame,pushl,Machine.setReg,Machine.setSeg,Function.update_self]
  exact low _

theorem entryTop_room (room : 64 ≤ entryTop e m) : 44 ≤ (interrupt e m).esp := by
  rw [interrupt_esp,frameSize]
  split <;> omega

/-- Dropping the arguments leaves the stack of the entry. -/
theorem returned_balanced {m back : Machine} {top : Nat} (room : 12 ≤ m.esp)
    (returns : Returns (call_frame m) back 12 top) : Balanced m (unwind 12 back) top where
  esp := by
    have esp := returns.esp
    rw [call_frame_esp] at esp
    simp only [unwind]
    omega
  stack := by
    intro a low high
    rw [← call_frame_above room low]
    refine returns.stack a ?_ high
    rw [call_frame_esp]
    omega

/-- A number outside the table runs no C function: nothing but the kernel's
    stack is different afterwards. -/
theorem int_0x80_unknown (unknown : (m.reg .eax).toInt < 1 ∨ 10 < (m.reg .eax).toInt) (room : 64 ≤ entryTop e m)
    (flat : m.esp < 2 ^ 32) :
    let r := int_0x80 e do_call m
    (∀ s : Reg, r.reg s = m.reg s) ∧ (∀ s : Seg, r.seg s = m.seg s) ∧ r.esp = m.esp ∧ r.eip = m.eip ∧ r.cs = m.cs ∧
      r.eflags = m.eflags ∧ ∀ a, a < entryTop e m - 64 ∨ entryTop e m ≤ a → r.mem a = m.mem a := by
  have low := entryTop_room room
  obtain ⟨regs,segs,frame⟩ := interrupt_frame e m
  have eax : (save system_call_slots (interrupt e m)).reg .eax = m.reg .eax := by
    have same : (interrupt e m).reg .eax = _ := save_same system_call_slots (interrupt e m) (.long .eax)
    rw [← same,regs]
  have body : system_call do_call (interrupt e m) =
      restore system_call_slots (save system_call_slots (interrupt e m)) := by
    simp only [system_call,eax]
    rcases unknown with below | above
    · rw [if_pos below]
    · rw [if_neg (by omega),if_pos above]
  have high : (interrupt e m).esp ≤ entryTop e m := by rw [interrupt_esp]; omega
  have inner : Balanced (save system_call_slots (interrupt e m)) (save system_call_slots (interrupt e m))
      (entryTop e m) := balanced_refl
  obtain ⟨balanced,back,others⟩ := restore_save inner (by rw [depth_slots]; omega) high
  rw [← body] at balanced back others
  have returned := iret_interrupt balanced (by omega) flat
  have memory : (system_call do_call (interrupt e m)).mem = (save system_call_slots (interrupt e m)).mem := by
    rw [body,restore_memory]
  simp only [int_0x80,returned]
  refine ⟨?_,?_,trivial,trivial,trivial,trivial,?_⟩
  · intro s
    have same : Slot.Same m (system_call do_call (interrupt e m)) (.long s) := by
      by_cases listed : Slot.long s ∈ system_call_slots
      · exact Slot.same_trans (congrFun regs s).symm (back _ listed)
      · exact Slot.same_trans (congrFun regs s).symm (Slot.same_trans (save_same _ _ _) (others _ listed))
    exact same.symm
  · intro s
    have same : Slot.Same m (system_call do_call (interrupt e m)) (.word s) := by
      by_cases listed : Slot.word s ∈ system_call_slots
      · exact Slot.same_trans (congrFun segs s).symm (back _ listed)
      · exact Slot.same_trans (congrFun segs s).symm (Slot.same_trans (save_same _ _ _) (others _ listed))
    exact same.symm
  · intro a outside
    have esp := interrupt_esp e m
    have size : frameSize m ≤ 20 := by rw [frameSize]; split <;> omega
    rw [memory,save_outside (by rw [depth_slots]; omega) (by rw [depth_slots]; omega)]
    exact frame a (by omega) (by omega)

/-- A number in the table runs its C function on the three arguments. Its
    result stays in `eax`; the saved registers, the segments and the context
    are those before the call, and memory is as the function left it. -/
theorem int_0x80_calls (call : SysCall) (number : m.reg .eax = BitVec.ofNat 32 (SYS_NUM call))
    (room : 64 ≤ entryTop e m) (flat : m.esp < 2 ^ 32)
    (returns : Returns (called e m) (do_call call (called e m)) 12 (entryTop e m)) :
    let back := do_call call (called e m)
    let r := int_0x80 e do_call m
    r.reg .eax = back.reg .eax ∧ (∀ s ∈ [Reg.ebx,.esi,.edi,.ebp], r.reg s = m.reg s) ∧
      (∀ s ∈ [Seg.ds,.es,.fs], r.seg s = m.seg s) ∧ r.esp = m.esp ∧ r.eip = m.eip ∧ r.cs = m.cs ∧
      r.eflags = m.eflags ∧ r.mem = back.mem := by
  have low := entryTop_room room
  obtain ⟨regs,segs,-⟩ := interrupt_frame e m
  have eax : (save system_call_slots (interrupt e m)).reg .eax = BitVec.ofNat 32 (SYS_NUM call) := by
    have same : (interrupt e m).reg .eax = _ := save_same system_call_slots (interrupt e m) (.long .eax)
    rw [← same,regs,number]
  obtain ⟨one,ten⟩ := number_range call
  have value : (BitVec.ofNat 32 (SYS_NUM call)).toNat = SYS_NUM call := by
    rw [BitVec.toNat_ofNat]
    omega
  have signed : (BitVec.ofNat 32 (SYS_NUM call)).toInt = SYS_NUM call := by
    rw [BitVec.toInt_eq_toNat_of_lt (by rw [value]; omega),value]
  have body : system_call do_call (interrupt e m) =
      restore system_call_slots (unwind 12 (do_call call (called e m))) := by
    simp only [system_call,eax,signed,value,table_number]
    rw [if_neg (by omega),if_neg (by omega)]
    rfl
  have high : (interrupt e m).esp ≤ entryTop e m := by rw [interrupt_esp]; omega
  have inner : Balanced (save system_call_slots (interrupt e m)) (unwind 12 (do_call call (called e m)))
      (entryTop e m) := returned_balanced (by rw [save_esp,depth_slots]; omega) returns
  obtain ⟨balanced,back,others⟩ := restore_save inner (by rw [depth_slots]; omega) high
  rw [← body] at balanced back others
  have returned := iret_interrupt balanced (by omega) flat
  have memory : (system_call do_call (interrupt e m)).mem = (do_call call (called e m)).mem := by
    rw [body,restore_memory]
    rfl
  simp only [int_0x80,returned]
  refine ⟨(others (.long .eax) (by decide)).symm,?_,?_,trivial,trivial,trivial,trivial,memory⟩
  · intro s listed
    have saved : Slot.long s ∈ system_call_slots := by
      simp only [List.mem_cons,List.not_mem_nil,or_false] at listed
      rcases listed with rfl | rfl | rfl | rfl <;> decide
    exact (Slot.same_trans (congrFun regs s).symm (back _ saved) : Slot.Same m _ (.long s)).symm
  · intro s listed
    have saved : Slot.word s ∈ system_call_slots := by
      simp only [List.mem_cons,List.not_mem_nil,or_false] at listed
      rcases listed with rfl | rfl | rfl <;> decide
    exact (Slot.same_trans (congrFun segs s).symm (back _ saved) : Slot.Same m _ (.word s)).symm

/-- The stack of task 4 in the kernel, and the trap gate of the system calls. -/
def kernel_entry : Entry := { esp0 := 0x7FC000, ss0 := KERNEL_DS, gate_cs := KERNEL_CS, masks := false }

/-- A user program about to call through the word on top of its stack. -/
def calling : Machine :=
  { reg := fun _ => 0, seg := fun _ => USER_DS, esp := 0x83FFFF0, ss := USER_DS, eip := 0, cs := USER_CS, eflags := 0x202,
    mem := fun _ => 0 }

/-- Number 0 runs nothing. -/
theorem int_0x80_unknown_zero :
    (int_0x80 kernel_entry (fun _ m => m) calling).esp = 0x83FFFF0 :=
  (int_0x80_unknown (e := kernel_entry) (m := calling) (.inl (by decide)) (by decide)
    (by decide)).2.2.1

/-! ### The stub -/

/-- Up to the C function nothing outside the kernel's stack changes. -/
theorem called_outside {a : Nat} (room : 64 ≤ entryTop e m) (outside : a < entryTop e m - 64 ∨ entryTop e m ≤ a) :
    (called e m).mem a = m.mem a := by
  have esp := interrupt_esp e m
  have size : frameSize m ≤ 20 := by rw [frameSize]; split <;> omega
  have inner := save_esp system_call_slots (interrupt e m)
  rw [depth_slots] at inner
  have pushed : (called e m).mem a = (save system_call_slots (interrupt e m)).mem a := by
    simp only [called,call_frame,pushl,Machine.setReg,Machine.setSeg]
    rw [store32_outside _ (by omega),store32_outside _ (by omega),store32_outside _ (by omega)]
  rw [pushed,save_outside (by rw [depth_slots]; omega) (by rw [depth_slots]; omega)]
  exact (interrupt_frame e m).2.2 a (by omega) (by omega)

theorem prepared_context (call : SysCall) (u : Machine) :
    (prepared call u).esp = u.esp - 4 ∧ (prepared call u).cs = u.cs ∧ (prepared call u).eflags = u.eflags ∧
      (prepared call u).seg = u.seg ∧ (prepared call u).mem = store32 u.mem (u.esp - 4) (u.reg .ebx) ∧
      ∀ s ∈ [Reg.esi,.edi,.ebp], (prepared call u).reg s = u.reg s := by
  refine ⟨rfl,rfl,rfl,rfl,rfl,?_⟩
  intro s listed
  simp only [List.mem_cons,List.not_mem_nil,or_false] at listed
  rcases listed with rfl | rfl | rfl <;> rfl

theorem prepared_args (call : SysCall) (u : Machine) (stack : 4 ≤ u.esp) :
    (prepared call u).reg .eax = BitVec.ofNat 32 (SYS_NUM call) ∧
      (prepared call u).reg .ebx = load32 u.mem (u.esp + 4) ∧
      (prepared call u).reg .ecx = load32 u.mem (u.esp + 8) ∧
      (prepared call u).reg .edx = load32 u.mem (u.esp + 12) := by
  have above (i : Nat) (low : 4 ≤ i) :
      load32 (store32 u.mem (u.esp - 4) (u.reg .ebx)) (u.esp - 4 + (i + 4)) = load32 u.mem (u.esp + i) := by
    rw [load32_store32_apart _ (by omega)]
    congr 1
    omega
  simp only [prepared,Slot.push,pushl,Machine.setReg]
  refine ⟨by simp,?_,?_,?_⟩
  · simpa using above 4 (by omega)
  · simpa using above 8 (by omega)
  · simpa using above 12 (by omega)

/-- A system call through its stub: the C function of that name gets the three
    words behind the return address, with the user's memory as it was and the
    kernel's data segment; the caller gets its result in `eax`, all registers
    it may rely on, and its own context behind the call. -/
theorem stub_calls (call : SysCall) (u : Machine) (user : Outer u.cs) (stack : 4 ≤ u.esp) (flat : u.esp < 2 ^ 32)
    (room : 64 ≤ e.esp0) (apart : u.esp + 16 ≤ e.esp0 - 64 ∨ e.esp0 ≤ u.esp - 4)
    (returns : Returns (called e (prepared call u)) (do_call call (called e (prepared call u))) 12 e.esp0)
    (kept : ∀ a, u.esp - 4 ≤ a → a < u.esp + 4 →
      (do_call call (called e (prepared call u))).mem a = (called e (prepared call u)).mem a) :
    let entry := called e (prepared call u)
    let back := do_call call entry
    let r := DO_CALL e do_call call u
    (load32 entry.mem entry.esp = load32 u.mem (u.esp + 4) ∧
      load32 entry.mem (entry.esp + 4) = load32 u.mem (u.esp + 8) ∧
      load32 entry.mem (entry.esp + 8) = load32 u.mem (u.esp + 12) ∧ entry.seg .ds = KERNEL_DS ∧
      ∀ a, (a < e.esp0 - 64 ∨ e.esp0 ≤ a) → (a < u.esp - 4 ∨ u.esp ≤ a) → entry.mem a = u.mem a) ∧
    r.reg .eax = back.reg .eax ∧ (∀ s ∈ [Reg.ebx,.esi,.edi,.ebp], r.reg s = u.reg s) ∧
      (∀ s ∈ [Seg.ds,.es,.fs], r.seg s = u.seg s) ∧ r.esp = u.esp + 4 ∧ r.eip = load32 u.mem u.esp ∧ r.cs = u.cs ∧
      r.eflags = u.eflags ∧ r.mem = back.mem := by
  obtain ⟨esp,cs,eflags,segs,memory,registers⟩ := prepared_context call u
  obtain ⟨number,first,second,third⟩ := prepared_args call u stack
  have top : entryTop e (prepared call u) = e.esp0 := by
    rw [entryTop,cs,if_pos user]
  have frame : frameSize (prepared call u) = 20 := by
    rw [frameSize,cs,if_pos user]
  have inside := interrupt_esp e (prepared call u)
  obtain ⟨regs,-,-⟩ := interrupt_frame e (prepared call u)
  have saved (s : Reg) : (save system_call_slots (interrupt e (prepared call u))).reg s = (prepared call u).reg s := by
    have same : (interrupt e (prepared call u)).reg s = _ := save_same system_call_slots _ (.long s)
    rw [← same,regs]
  have deep : 12 ≤ (save system_call_slots (interrupt e (prepared call u))).esp := by
    rw [save_esp,depth_slots]
    omega
  obtain ⟨arg1,arg2,arg3⟩ := call_frame_args deep
  rw [saved] at arg1 arg2 arg3
  obtain ⟨eax,callee,segments,resp,-,rcs,rflags,rmem⟩ :=
    int_0x80_calls call number (by rw [top]; exact room) (by omega) (by rw [top]; exact returns)
  have whole : DO_CALL e do_call call u = ret ((Slot.long .ebx).pop (int_0x80 e do_call (prepared call u))) := rfl
  have through {a : Nat} (outside : a < e.esp0 - 64 ∨ e.esp0 ≤ a) :
      (called e (prepared call u)).mem a = store32 u.mem (u.esp - 4) (u.reg .ebx) a := by
    rw [called_outside (by rw [top]; exact room) (by rw [top]; exact outside),memory]
  have stacked {a : Nat} (low : u.esp - 4 ≤ a) (high : a < u.esp + 4) :
      (int_0x80 e do_call (prepared call u)).mem a = store32 u.mem (u.esp - 4) (u.reg .ebx) a := by
    rw [rmem,kept a low high,through (by omega)]
  have below : load32 (int_0x80 e do_call (prepared call u)).mem (u.esp - 4) = u.reg .ebx := by
    rw [load32_congr (fun b low high => stacked low (by omega)),load32_store32_same]
  have behind : load32 (int_0x80 e do_call (prepared call u)).mem (u.esp - 4 + 4) = load32 u.mem u.esp := by
    rw [load32_congr (fun b low high => stacked (by omega) (by omega)),load32_store32_apart _ (by omega)]
    congr 1
    omega
  generalize int_0x80 e do_call (prepared call u) = m' at *
  rw [esp] at resp
  refine ⟨⟨arg1.trans first,arg2.trans second,arg3.trans third,call_frame_ds _,?_⟩,?_⟩
  · intro a kernel own
    rw [through kernel,store32_outside _ (by omega)]
  · rw [whole]
    simp only [ret,Slot.pop,topl,unwind,Machine.setReg,resp]
    refine ⟨?_,?_,?_,by omega,behind,rcs.trans cs,rflags.trans eflags,rmem⟩
    · simpa using eax
    · intro s listed
      by_cases pushed : s = .ebx
      · rw [pushed,Function.update_self,below]
      · rw [Function.update_of_ne pushed,callee s listed]
        refine registers s ?_
        simp only [List.mem_cons,List.not_mem_nil,or_false] at listed ⊢
        exact listed.resolve_left pushed
    · intro s listed
      rw [segments s listed,segs]

/-- `ece391_set_handler` returns what `do_set_handler` does. -/
theorem stub_calls_set_handler :
    (DO_CALL kernel_entry (fun _ m => m.setReg .eax (-1)) .set_handler calling).reg .eax = -1 :=
  (@stub_calls kernel_entry (fun _ m => m.setReg .eax (-1)) .set_handler calling (by decide) (by decide) (by decide)
    (by decide) (by decide) ⟨rfl,fun _ _ _ => rfl⟩ (fun _ _ _ => rfl)).2.1

end Mp3Kernel.SystemCall

import Mp3Kernel.Kernel.SystemCall

/-!
The other ways into the kernel: hardware interrupts through `handle_idt` of
hardware_intr.S, and exceptions through `error_code` of intel_intr.S. Both find
the address of their C function on the stack. An interrupt is transparent to
what it interrupts; an exception hands its error code and the address of the
faulting instruction over in registers, except that of a floating-point error,
whose entry forgets that the processor pushes no code for it.
-/
namespace Mp3Kernel.InterruptEntry
open Mp3Kernel.Memory Mp3Kernel.StackMachine Mp3Kernel.SystemCall

/-- `pusha`: the stack pointer is pushed too, as it was. -/
def pusha (m : Machine) : Machine :=
  let esp := BitVec.ofNat 32 m.esp
  let m := save [.long .eax,.long .ecx,.long .edx,.long .ebx] m
  save [.long .ebp,.long .esi,.long .edi] (pushl esp m)

/-- `popa`: it is skipped. -/
def popa (m : Machine) : Machine :=
  let m := restore [.long .ebp,.long .esi,.long .edi] m
  restore [.long .eax,.long .ecx,.long .edx,.long .ebx] (unwind 4 m)

/-- The C function at an address. -/
abbrev Program := Word → Code

/-! ### Hardware interrupts -/

/-- `handle_idt`, with the address of the handler on the stack, up to the
    call, -/
def handler_called (m : Machine) : Machine :=
  let m := Slot.flags.push (pusha m)
  m.setReg .edi (load32 m.mem (m.esp + 36))

/-- and from there on. -/
def handle_idt (program : Program) (m : Machine) : Machine :=
  let m := handler_called m
  let m := program (m.reg .edi) m
  iret (unwind 4 (popa (Slot.flags.pop m)))

/-- `idt_keyboard` and `idt_rtc`: the interrupt, and the address of their
    handler. -/
def hardware_intr (e : Entry) (program : Program) (address : Word) (m : Machine) : Machine :=
  handle_idt program (pushl address (interrupt e m))

/-! ### Exceptions -/

inductive Exception
  | de | db | nmi | bp | of | br | ud | nm | df | cso | ts | np | ss | gp | pf | mf | ac | mc | xf
  deriving DecidableEq

/-- The processor pushes an error code. -/
def has_code : Exception → Bool
  | .df | .ts | .np | .ss | .gp | .pf | .ac => true
  | _ => false

/-- The entry in intel_intr.S pushes `$0` in its place. -/
def pushes_zero : Exception → Bool
  | .df | .ts | .np | .ss | .gp | .pf | .mf | .ac => false
  | _ => true

/-- The stack with which `error_code` starts. -/
def raised (e : Entry) (x : Exception) (error address : Word) (m : Machine) : Machine :=
  let m := interrupt e m
  let m := if has_code x then pushl error m else m
  let m := if pushes_zero x then pushl 0 m else m
  pushl address m

/-- `error_code` up to the call, -/
def exception_called (m : Machine) : Machine :=
  let m := pusha m
  let m := m.setReg .ecx 97
  let m := m.setReg .ebx (load32 m.mem (m.esp + 40))
  let m := m.setReg .eax (load32 m.mem (m.esp + 36))
  let m := { m with mem := store32 m.mem (m.esp + 36) (-1) }
  m.setReg .edi (load32 m.mem (m.esp + 32))

/-- and from there on. -/
def error_code (program : Program) (m : Machine) : Machine :=
  let m := exception_called m
  let m := program (m.reg .edi) m
  iret (unwind 8 (popa m))

variable {e : Entry} {m back : Machine} {top : Nat} {address : Word}

/-! ### All registers at once -/

theorem pusha_esp (m : Machine) : (pusha m).esp = m.esp - 32 := by
  simp only [pusha,save,Slot.push,pushl]
  omega

theorem pusha_above {a : Nat} (room : 32 ≤ m.esp) (above : m.esp ≤ a) : (pusha m).mem a = m.mem a := by
  simp only [pusha]
  have first := save_esp [.long .eax,.long .ecx,.long .edx,.long .ebx] m
  have deep : depth [Slot.long .eax,.long .ecx,.long .edx,.long .ebx] = 16 := rfl
  have shallow : depth [Slot.long .ebp,.long .esi,.long .edi] = 12 := rfl
  rw [save_outside (by simp only [pushl]; omega) (by simp only [pushl]; omega)]
  simp only [pushl]
  rw [store32_outside _ (by omega),save_outside (by omega) (by omega)]

/-- What `pusha` saves `popa` restores, around balanced code. -/
theorem popa_pusha (inner : Balanced (pusha m) back top) (room : 32 ≤ m.esp) (high : m.esp ≤ top) :
    Balanced m (popa back) top ∧ (popa back).reg = m.reg ∧ (popa back).seg = back.seg ∧
      (popa back).eflags = back.eflags ∧ (popa back).ss = back.ss ∧ (popa back).mem = back.mem := by
  have first := save_esp [.long .eax,.long .ecx,.long .edx,.long .ebx] m
  have deep : depth [Slot.long .eax,.long .ecx,.long .edx,.long .ebx] = 16 := rfl
  have shallow : depth [Slot.long .ebp,.long .esi,.long .edi] = 12 := rfl
  obtain ⟨inside,low,lowOther⟩ := restore_save inner (by simp only [pushl]; omega) (by simp only [pushl]; omega)
  have skipped := balanced_unwindl inside (by omega)
  obtain ⟨whole,rest,restOther⟩ := restore_save skipped (by omega) high
  refine ⟨whole,?_,?_,?_,?_,?_⟩
  · funext r
    symm
    by_cases late : Slot.long r ∈ [Slot.long .eax,.long .ecx,.long .edx,.long .ebx]
    · exact rest _ late
    · have early : Slot.long r ∈ [Slot.long .ebp,.long .esi,.long .edi] := by
        cases r <;> simp at late ⊢
      have saved : m.reg r = _ := save_same [.long .eax,.long .ecx,.long .edx,.long .ebx] m (.long r)
      exact saved.trans ((low _ early).trans (restOther _ late))
  · funext s
    have one : back.seg s = _ := lowOther (.word s) (by simp)
    have two : (unwind 4 (restore [.long .ebp,.long .esi,.long .edi] back)).seg s = _ := restOther (.word s) (by simp)
    exact (one.trans two).symm
  · have one : back.eflags = _ := lowOther .flags (by simp)
    have two : (unwind 4 (restore [.long .ebp,.long .esi,.long .edi] back)).eflags = _ := restOther .flags (by simp)
    exact (one.trans two).symm
  · simp only [popa]
    rw [restore_ss]
    exact restore_ss _
  · simp only [popa]
    rw [restore_memory]
    exact restore_memory _

/-! ### Interrupts are transparent -/

/-- The machine as the handler of an interrupt finds it. -/
def interrupted (e : Entry) (address : Word) (m : Machine) : Machine := handler_called (pushl address (interrupt e m))

/-- An interrupt of user code or of the kernel, at any point: its handler runs,
    and if it comes back to its stack and leaves what lies above alone, the
    interrupted code goes on with every register, the flags and its stack as
    they were, whatever the handler did to its own registers. -/
theorem hardware_intr_transparent (program : Program) (room : 80 ≤ entryTop e m) (flat : m.esp < 2 ^ 32)
    (returns : Returns (interrupted e address m) (program address (interrupted e address m)) 0 (entryTop e m)) :
    let r := hardware_intr e program address m
    r.reg = m.reg ∧ r.esp = m.esp ∧ r.eip = m.eip ∧ r.cs = m.cs ∧ r.eflags = m.eflags ∧
      r.ss = (if Outer m.cs then m.ss else (program address (interrupted e address m)).ss) ∧
      r.seg = (program address (interrupted e address m)).seg ∧
      r.mem = (program address (interrupted e address m)).mem := by
  have esp := interrupt_esp e m
  have size : frameSize m ≤ 20 := by rw [frameSize]; split <;> omega
  have regs := (interrupt_frame e m).1
  generalize entering : interrupt e m = m1 at *
  let m2 := pushl address m1
  have esp2 : m2.esp = m1.esp - 4 := rfl
  have esp3 := pusha_esp m2
  let m4 := Slot.flags.push (pusha m2)
  have esp4 : m4.esp = (pusha m2).esp - 4 := rfl
  -- the address lies behind the eight registers and the flags
  have target : load32 m4.mem (m4.esp + 36) = address := by
    have above : load32 m4.mem (m4.esp + 36) = load32 m2.mem m2.esp := by
      rw [show m4.esp + 36 = m2.esp by omega]
      refine load32_congr (fun b low high => ?_)
      rw [show m4.mem b = (pusha m2).mem b from store32_outside _ (by omega),pusha_above (by omega) low]
    rw [above]
    exact load32_store32_same _ _ _
  have entry : interrupted e address m = m4.setReg .edi address := by
    rw [interrupted,entering,handler_called]
    exact congrArg _ target
  have edi : (interrupted e address m).reg .edi = address := by
    rw [entry]
    exact Function.update_self Reg.edi address m4.reg
  generalize final : program address (interrupted e address m) = back at *
  have whole : hardware_intr e program address m = iret (unwind 4 (popa (Slot.flags.pop back))) := by
    have called : handle_idt program m2 = iret (unwind 4 (popa (Slot.flags.pop
        (program ((interrupted e address m).reg .edi) (interrupted e address m))))) := by
      rw [interrupted,entering]
      rfl
    rw [edi,final] at called
    rw [hardware_intr,entering]
    exact called
  have inner : Balanced m4 back (entryTop e m) := by
    have same : (interrupted e address m).esp = m4.esp ∧ (interrupted e address m).mem = m4.mem := by
      rw [entry]
      exact ⟨rfl,rfl⟩
    exact ⟨returns.esp.trans same.1,fun a low high => by
      rw [returns.stack a (by rw [same.1]; omega) high,same.2]⟩
  obtain ⟨flagged,-,kept⟩ := pop_push (s := Slot.flags) (m := pusha m2) inner
    (by simp only [Slot.size]; omega) (by omega)
  obtain ⟨balanced,regs2,segs2,-,ss2,memory2⟩ := popa_pusha flagged (by omega) (by omega)
  have outer := balanced_unwindl balanced (by omega)
  rw [← entering] at outer
  have returned := iret_interrupt outer (by omega) flat
  rw [whole,returned]
  refine ⟨?_,rfl,rfl,rfl,rfl,?_,?_,?_⟩
  · exact regs2.trans regs
  · have ss : (unwind 4 (popa (Slot.flags.pop back))).ss = back.ss := ss2.trans (pop_ss _)
    simp only [ss]
  · refine segs2.trans ?_
    funext s
    exact (kept (.word s) (by simp)).symm
  · exact memory2.trans (pop_memory _)

/-- A handler that leaves rubbish in `ebx` is not noticed. -/
theorem hardware_intr_transparent_rubbish :
    (hardware_intr kernel_entry (fun _ m => m.setReg .ebx 0xBAD) 0x400 calling).reg = calling.reg :=
  (hardware_intr_transparent (m := calling) (e := kernel_entry) (fun _ m => m.setReg .ebx 0xBAD) (by decide) (by decide)
    ⟨rfl,fun _ _ _ => rfl⟩).1

/-! ### Exceptions hand over their code -/

theorem store32_congr {mem mem' : Mem} {a b : Nat} (v : Word) (same : mem b = mem' b ∨ a ≤ b ∧ b < a + 4) :
    store32 mem a v b = store32 mem' a v b := by
  simp only [store32]
  rcases same with same | inside
  · rw [same]
  · split_ifs <;> first | rfl | omega

/-- The pushed registers do not depend on the stack above. -/
theorem pusha_congr {m m' : Machine} {a : Nat} (reg : m.reg = m'.reg) (esp : m.esp = m'.esp) (same : m.mem a = m'.mem a) :
    (pusha m).mem a = (pusha m').mem a := by
  simp only [pusha,save,Slot.push,pushl,reg,esp]
  iterate 8 refine store32_congr _ (.inl ?_)
  exact same

theorem interrupt_topl (e : Entry) (m : Machine) : topl (interrupt e m) = m.eip :=
  load32_store32_same _ _ _

/-- The word behind the instruction pointer is the code segment. -/
theorem interrupt_cs (room : 20 ≤ entryTop e m) :
    load32 (interrupt e m).mem ((interrupt e m).esp + 4) = m.cs.setWidth 32 := by
  by_cases outer : Outer m.cs
  · have top : entryTop e m = e.esp0 := if_pos outer
    simp only [interrupt,pushl,outer,↓reduceIte]
    rw [load32_store32_apart _ (by omega),show e.esp0 - 4 - 4 - 4 - 4 - 4 + 4 = e.esp0 - 4 - 4 - 4 - 4 by omega,
      load32_store32_same]
  · have top : entryTop e m = m.esp := if_neg outer
    simp only [interrupt,pushl,outer,↓reduceIte]
    rw [load32_store32_apart _ (by omega),show m.esp - 4 - 4 - 4 + 4 = m.esp - 4 - 4 by omega,load32_store32_same]

/-- `error_code` reads the word on top, the two behind it, and sets the second
    to -1. -/
theorem exception_called_spec (room : 32 ≤ m.esp) :
    let entry := exception_called m
    entry.reg .edi = topl m ∧ entry.reg .eax = load32 m.mem (m.esp + 4) ∧ entry.reg .ebx = load32 m.mem (m.esp + 8) ∧
      entry.reg .ecx = 97 ∧ entry.esp = (pusha m).esp ∧ entry.mem = store32 (pusha m).mem (m.esp + 4) (-1) := by
  have esp := pusha_esp m
  have above {i : Nat} : load32 (pusha m).mem ((pusha m).esp + (32 + i)) = load32 m.mem (m.esp + i) := by
    rw [show (pusha m).esp + (32 + i) = m.esp + i by omega]
    exact load32_congr (fun b low _ => pusha_above room (by omega))
  have slot : (pusha m).esp + 36 = m.esp + 4 := by omega
  have code := above (i := 4)
  have eip := above (i := 8)
  have target := above (i := 0)
  simp only [Nat.reduceAdd] at code eip target
  simp only [exception_called,Machine.setReg]
  refine ⟨?_,?_,?_,?_,trivial,?_⟩
  · rw [Function.update_self,load32_store32_apart _ (by omega),target,Nat.add_zero]
    rfl
  · simp [code]
  · simp [eip]
  · simp
  · rw [slot]

/-- The code that an exception leaves behind. -/
def codeOf (x : Exception) (error : Word) : Word := if has_code x then error else 0

theorem raised_regular {x : Exception} (regular : x ≠ .mf) (error : Word) :
    raised e x error address m = pushl address (pushl (codeOf x error) (interrupt e m)) := by
  cases x <;> first | rfl | exact absurd rfl regular

/-- Every exception but the floating-point error finds its handler with the
    error code, 0 where the processor pushes none, and the address of the
    faulting instruction; a handler that comes back resumes the faulting code
    with all its registers. -/
theorem exception_hands_over (program : Program) {x : Exception} (regular : x ≠ .mf) (error : Word)
    (room : 80 ≤ entryTop e m) (flat : m.esp < 2 ^ 32) :
    let entry := exception_called (raised e x error address m)
    let r := error_code program (raised e x error address m)
    (entry.reg .edi = address ∧ entry.reg .eax = codeOf x error ∧ entry.reg .ebx = m.eip ∧ entry.reg .ecx = 97) ∧
      (Returns entry (program address entry) 0 (entryTop e m) →
        r.reg = m.reg ∧ r.esp = m.esp ∧ r.eip = m.eip ∧ r.cs = m.cs ∧ r.eflags = m.eflags ∧
          r.mem = (program address entry).mem) := by
  have esp := interrupt_esp e m
  have size : frameSize m ≤ 20 := by rw [frameSize]; split <;> omega
  have regs := (interrupt_frame e m).1
  have eip := interrupt_topl e m
  have resume {back : Machine} (outer : Balanced (interrupt e m) back (entryTop e m)) :=
    iret_interrupt outer (by omega) flat
  rw [raised_regular regular]
  generalize interrupt e m = m1 at *
  obtain ⟨edi,eax,ebx,ecx,low,memory⟩ :=
    exception_called_spec (m := pushl address (pushl (codeOf x error) m1)) (by simp only [pushl]; omega)
  generalize entering : exception_called (pushl address (pushl (codeOf x error) m1)) = entry at *
  have target : entry.reg .edi = address := edi.trans (load32_store32_same _ _ _)
  refine ⟨⟨target,?_,?_,ecx⟩,?_⟩
  · rw [eax]
    simp only [pushl]
    rw [load32_store32_apart _ (by omega),show m1.esp - 4 - 4 + 4 = m1.esp - 4 by omega,load32_store32_same]
  · rw [ebx,← eip]
    simp only [pushl,topl]
    rw [load32_store32_apart _ (by omega),load32_store32_apart _ (by omega)]
    congr 1
    omega
  · intro returns
    generalize final : program address entry = back at *
    -- the stack is the one that a code of -1 would have left
    have stack : Balanced (pusha (pushl address (pushl (-1) m1))) entry (entryTop e m) := by
      have same : (pushl address (pushl (-1) m1)).esp = (pushl address (pushl (codeOf x error) m1)).esp := rfl
      refine ⟨?_,?_⟩
      · rw [low,pusha_esp,pusha_esp,same]
      · intro a above below
        rw [memory]
        by_cases inside : m1.esp - 4 ≤ a ∧ a < m1.esp - 4 + 4
        · rw [pusha_above (by simp only [pushl]; omega) (by simp only [pushl]; omega)]
          simp only [pushl]
          rw [store32_outside (a := m1.esp - 4 - 4) _ (by omega),show m1.esp - 4 - 4 + 4 = m1.esp - 4 by omega]
          exact store32_congr _ (.inr inside)
        · rw [store32_outside _ (by simp only [pushl]; omega)]
          refine pusha_congr rfl rfl (store32_congr _ (.inl ?_))
          simp only [pushl]
          rw [store32_outside _ (by omega),store32_outside _ (by omega)]
    have inner : Balanced (pusha (pushl address (pushl (-1) m1))) back (entryTop e m) :=
      balanced_trans stack ⟨returns.esp,fun a above below => returns.stack a above below⟩
    obtain ⟨balanced,regs2,-,-,-,memory2⟩ :=
      popa_pusha inner (by simp only [pushl]; omega) (by simp only [pushl]; omega)
    have outer := balanced_unwindl (balanced_unwindl balanced (by simp only [pushl]; omega)) (by omega)
    have whole : error_code program (pushl address (pushl (codeOf x error) m1)) = iret (unwind 8 (popa back)) := by
      simp only [error_code,entering,target,final]
    have both : unwind 8 (popa back) = unwind 4 (unwind 4 (popa back)) := rfl
    rw [whole,both,resume outer]
    exact ⟨regs2.trans regs,rfl,rfl,rfl,rfl,memory2⟩

/-- A page fault with code 4. -/
theorem exception_hands_over_fault :
    (exception_called (raised kernel_entry .pf 4 0x400 calling)).reg .eax = 4 :=
  (exception_hands_over (e := kernel_entry) (m := calling) (fun _ m => m) (show Exception.pf ≠ .mf by decide) 4 (by decide)
    (by decide)).1.2.1

/-- The entry of a floating-point error takes the instruction pointer for the
    code and the code segment for the instruction pointer; a handler that came
    back would resume at the number of the segment. -/
theorem mf_hands_over (program : Program) (error : Word) (room : 80 ≤ entryTop e m) :
    let entry := exception_called (raised e .mf error address m)
    let r := error_code program (raised e .mf error address m)
    (entry.reg .edi = address ∧ entry.reg .eax = m.eip ∧ entry.reg .ebx = m.cs.setWidth 32) ∧
      (Returns entry (program address entry) 0 (entryTop e m) → r.eip = m.cs.setWidth 32) := by
  have esp := interrupt_esp e m
  have size : 12 ≤ frameSize m ∧ frameSize m ≤ 20 := by rw [frameSize]; split <;> omega
  have eip := interrupt_topl e m
  have cs := interrupt_cs (e := e) (m := m) (by omega)
  have plain : raised e .mf error address m = pushl address (interrupt e m) := rfl
  rw [plain]
  generalize interrupt e m = m1 at *
  obtain ⟨edi,eax,ebx,-,low,memory⟩ := exception_called_spec (m := pushl address m1) (by simp only [pushl]; omega)
  generalize entering : exception_called (pushl address m1) = entry at *
  have target : entry.reg .edi = address := edi.trans (load32_store32_same _ _ _)
  refine ⟨⟨target,?_,?_⟩,?_⟩
  · rw [eax,← eip]
    simp only [pushl,topl]
    rw [load32_store32_apart _ (by omega)]
    congr 1
    omega
  · rw [ebx,← cs]
    simp only [pushl]
    rw [load32_store32_apart _ (by omega)]
    congr 1
    omega
  · intro returns
    generalize final : program address entry = back at *
    have whole : error_code program (pushl address m1) = iret (unwind 8 (popa back)) := by
      simp only [error_code,entering,target,final]
    have entryEsp := pusha_esp (pushl address m1)
    have pushedEsp : (pushl address m1).esp = m1.esp - 4 := rfl
    have backEsp := returns.esp
    have popped : (popa back).esp = back.esp + 32 ∧ (popa back).mem = back.mem := by
      refine ⟨?_,?_⟩
      · simp only [popa,restore,Slot.pop,unwind,Machine.setReg]
      · simp only [popa]
        rw [restore_memory]
        exact restore_memory _
    have at_cs : (unwind 8 (popa back)).esp = m1.esp + 4 := by
      simp only [unwind,popped.1]
      omega
    have kept : load32 back.mem (m1.esp + 4) = load32 m1.mem (m1.esp + 4) := by
      refine load32_congr (fun b above below => ?_)
      rw [returns.stack b (by omega) (by omega),memory,store32_outside _ (by omega),
        pusha_above (by omega) (by omega)]
      simp only [pushl]
      rw [store32_outside _ (by omega)]
    rw [whole]
    have first : (iret (unwind 8 (popa back))).eip = topl (unwind 8 (popa back)) := by
      rw [iret]
      split <;> rfl
    rw [first,topl,at_cs,show (unwind 8 (popa back)).mem = back.mem from popped.2,kept,cs]

theorem mf_hands_over_segment :
    (exception_called (raised kernel_entry .mf 0 0x400 calling)).reg .ebx = 0x23 :=
  (mf_hands_over (e := kernel_entry) (m := calling) (fun _ m => m) 0 (by decide)).1.2.2

end Mp3Kernel.InterruptEntry

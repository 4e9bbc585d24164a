import Mp3Kernel.Lib.Memory
import Mathlib.Logic.Function.Basic
import Mathlib.Data.List.Basic
import Mathlib.Algebra.Ring.Nat

/-!
The stack discipline of 32-bit x86 code: pushes and pops of registers,
interrupts and their return. `Balanced` says that code came back to the stack
it started with; what is pushed before such code is popped after it
(`restore_save`), and an interrupt whose handler is balanced resumes exactly
what it interrupted (`iret_interrupt`).
-/
namespace Mp3Kernel.StackMachine
open Mp3Kernel.Memory

inductive Reg
  | eax | ebx | ecx | edx | esi | edi | ebp
  deriving DecidableEq

inductive Seg
  | ds | es | fs | gs
  deriving DecidableEq

structure Machine where
  reg : Reg → Word
  seg : Seg → Half
  esp : Nat
  ss : Half
  eip : Word
  cs : Half
  eflags : Word
  mem : Mem

def Machine.setReg (m : Machine) (r : Reg) (v : Word) : Machine := { m with reg := Function.update m.reg r v }
def Machine.setSeg (m : Machine) (s : Seg) (v : Half) : Machine := { m with seg := Function.update m.seg s v }

def pushl (v : Word) (m : Machine) : Machine := { m with esp := m.esp - 4, mem := store32 m.mem (m.esp - 4) v }
def pushw (v : Half) (m : Machine) : Machine := { m with esp := m.esp - 2, mem := store16 m.mem (m.esp - 2) v }

/-- The word on top of the stack, and the stack without it. -/
def topl (m : Machine) : Word := load32 m.mem m.esp
def topw (m : Machine) : Half := load16 m.mem m.esp
def unwind (n : Nat) (m : Machine) : Machine := { m with esp := m.esp + n }

/-! ### Saved registers -/

/-- What can be saved on the stack. -/
inductive Slot
  | long (r : Reg)
  | word (s : Seg)
  | flags
  deriving DecidableEq

def Slot.size : Slot → Nat
  | .long _ => 4
  | .word _ => 2
  | .flags => 4

def Slot.push : Slot → Machine → Machine
  | .long r, m => pushl (m.reg r) m
  | .word s, m => pushw (m.seg s) m
  | .flags, m => pushl m.eflags m

def Slot.pop : Slot → Machine → Machine
  | .long r, m => unwind 4 (m.setReg r (topl m))
  | .word s, m => unwind 2 (m.setSeg s (topw m))
  | .flags, m => unwind 4 { m with eflags := topl m }

/-- Pushes, in order, -/
def save : List Slot → Machine → Machine
  | [], m => m
  | s :: rest, m => save rest (s.push m)

/-- and the pops that undo them. -/
def restore : List Slot → Machine → Machine
  | [], m => m
  | s :: rest, m => s.pop (restore rest m)

/-- The slot holds the same in both states. -/
def Slot.Same (m m' : Machine) : Slot → Prop
  | .long r => m.reg r = m'.reg r
  | .word s => m.seg s = m'.seg s
  | .flags => m.eflags = m'.eflags

theorem Slot.same_trans {m m' m'' : Machine} {s : Slot} (one : s.Same m m') (two : s.Same m' m'') : s.Same m m'' := by
  cases s
  all_goals exact Eq.trans one two

/-! ### Balanced code -/

/-- The stack pointer is back, and what lies above it, up to `top`, is as it
    was. -/
structure Balanced (m m' : Machine) (top : Nat) : Prop where
  esp : m'.esp = m.esp
  stack : ∀ a, m.esp ≤ a → a < top → m'.mem a = m.mem a

variable {m m' m'' : Machine} {top : Nat} {v : Word}

theorem balanced_refl : Balanced m m top := ⟨rfl,fun _ _ _ => rfl⟩

theorem balanced_trans (first : Balanced m m' top) (second : Balanced m' m'' top) : Balanced m m'' top where
  esp := second.esp.trans first.esp
  stack := by
    intro a low high
    rw [second.stack a (by rw [first.esp]; exact low) high,first.stack a low high]

/-- After a push and balanced code the pushed word is on top. -/
theorem balanced_topl (inner : Balanced (pushl v m) m' top) (room : 4 ≤ m.esp) (high : m.esp ≤ top) : topl m' = v := by
  have esp : m'.esp = m.esp - 4 := inner.esp
  have kept : load32 m'.mem (m.esp - 4) = load32 (pushl v m).mem (m.esp - 4) :=
    load32_congr (fun b low below => inner.stack b low (by omega))
  rw [topl,esp,kept]
  exact load32_store32_same _ _ _

theorem balanced_topw {v : Half} (inner : Balanced (pushw v m) m' top) (room : 2 ≤ m.esp) (high : m.esp ≤ top) :
    topw m' = v := by
  have esp : m'.esp = m.esp - 2 := inner.esp
  have kept : load16 m'.mem (m.esp - 2) = load16 (pushw v m).mem (m.esp - 2) :=
    load16_congr (fun b low below => inner.stack b low (by omega))
  rw [topw,esp,kept]
  exact load16_store16_same _ _ _

/-- Without the pushed word the stack is the one before the push. -/
theorem balanced_unwindl (inner : Balanced (pushl v m) m' top) (room : 4 ≤ m.esp) : Balanced m (unwind 4 m') top where
  esp := by
    have esp : m'.esp = m.esp - 4 := inner.esp
    simp only [unwind,esp]
    omega
  stack := by
    intro a low high
    have pushed : (pushl v m).mem a = m.mem a := store32_outside v (by omega)
    rw [← pushed]
    exact inner.stack a (by simp only [pushl]; omega) high

theorem balanced_unwindw {v : Half} (inner : Balanced (pushw v m) m' top) (room : 2 ≤ m.esp) :
    Balanced m (unwind 2 m') top where
  esp := by
    have esp : m'.esp = m.esp - 2 := inner.esp
    simp only [unwind,esp]
    omega
  stack := by
    intro a low high
    have pushed : (pushw v m).mem a = m.mem a := store16_outside v (by omega)
    rw [← pushed]
    exact inner.stack a (by simp only [pushw]; omega) high

/-- A pop restores the slot, and touches no other. -/
theorem pop_push {s : Slot} (inner : Balanced (s.push m) m' top) (room : s.size ≤ m.esp) (high : m.esp ≤ top) :
    Balanced m (s.pop m') top ∧ s.Same m (s.pop m') ∧ ∀ t, t ≠ s → t.Same m' (s.pop m') := by
  cases s with
  | long r =>
    have value : topl m' = m.reg r := balanced_topl inner room high
    have back := balanced_unwindl inner room
    refine ⟨⟨back.esp,back.stack⟩,?_,?_⟩
    · simp [Slot.Same,Slot.pop,unwind,Machine.setReg,value]
    · intro t other
      cases t with
      | long r' =>
        have apart : r' ≠ r := fun same => other (by rw [same])
        simp [Slot.Same,Slot.pop,unwind,Machine.setReg,apart]
      | word s => rfl
      | flags => rfl
  | word g =>
    have value : topw m' = m.seg g := balanced_topw inner room high
    have back := balanced_unwindw inner room
    refine ⟨⟨back.esp,back.stack⟩,?_,?_⟩
    · simp [Slot.Same,Slot.pop,unwind,Machine.setSeg,value]
    · intro t other
      cases t with
      | word g' =>
        have apart : g' ≠ g := fun same => other (by rw [same])
        simp [Slot.Same,Slot.pop,unwind,Machine.setSeg,apart]
      | long r => rfl
      | flags => rfl
  | flags =>
    have value : topl m' = m.eflags := balanced_topl inner room high
    have back := balanced_unwindl inner room
    refine ⟨⟨back.esp,back.stack⟩,?_,?_⟩
    · simp [Slot.Same,Slot.pop,unwind,value]
    · intro t other
      cases t with
      | long r => rfl
      | word g => rfl
      | flags => exact absurd rfl other

theorem push_same (s t : Slot) : t.Same m (s.push m) := by
  cases s <;> cases t <;> rfl

theorem push_esp (s : Slot) : (s.push m).esp = m.esp - s.size := by
  cases s <;> rfl

/-- The bytes that the slots take. -/
def depth (slots : List Slot) : Nat := (slots.map Slot.size).sum

/-- Balanced code between the pushes and the pops: what was saved is back, and
    the rest is as the code left it. -/
theorem restore_save {slots : List Slot} (inner : Balanced (save slots m) m' top) (room : depth slots ≤ m.esp)
    (high : m.esp ≤ top) :
    Balanced m (restore slots m') top ∧ (∀ s ∈ slots, s.Same m (restore slots m')) ∧
      ∀ s, s ∉ slots → s.Same m' (restore slots m') := by
  induction slots generalizing m with
  | nil =>
    refine ⟨inner,by simp,?_⟩
    intro s _
    cases s <;> rfl
  | cons s rest ih =>
    have total : depth (s :: rest) = s.size + depth rest := by simp [depth]
    have below := push_esp (m := m) s
    obtain ⟨balanced,back,others⟩ := ih (m := s.push m) inner (by omega) (by omega)
    obtain ⟨whole,top_back,kept⟩ := pop_push balanced (by omega) high
    refine ⟨whole,?_,?_⟩
    · intro t listed
      by_cases here : t = s
      · subst here
        exact top_back
      · have later : t ∈ rest := by
          rcases List.mem_cons.mp listed with equal | later
          · exact absurd equal here
          · exact later
        exact Slot.same_trans (push_same s t) (Slot.same_trans (back t later) (kept t here))
    · intro t unlisted
      rw [List.mem_cons,not_or] at unlisted
      exact Slot.same_trans (others t unlisted.2) (kept t unlisted.1)

theorem pop_memory (s : Slot) : (s.pop m).mem = m.mem := by
  cases s <;> rfl

theorem restore_memory (slots : List Slot) : (restore slots m).mem = m.mem := by
  induction slots with
  | nil => rfl
  | cons s rest ih => rw [restore,pop_memory,ih]

theorem pop_ss (s : Slot) : (s.pop m).ss = m.ss := by
  cases s <;> rfl

theorem restore_ss (slots : List Slot) : (restore slots m).ss = m.ss := by
  induction slots with
  | nil => rfl
  | cons s rest ih => rw [restore,pop_ss,ih]

/-! ### Interrupts -/

/-- The code segment belongs to an outer ring. -/
def Outer (cs : Half) : Prop := cs &&& 3 ≠ 0
instance (cs : Half) : Decidable (Outer cs) := inferInstanceAs (Decidable (_ ≠ _))

/-- The stack that a task enters the kernel with, and the gate it enters by. -/
structure Entry where
  esp0 : Nat
  ss0 : Half
  gate_cs : Half
  /-- A gate that clears the interrupt flag. -/
  masks : Bool

/-- What the processor does on an interrupt: from an outer ring it first
    changes to the stack of the kernel. -/
def interrupt (e : Entry) (m : Machine) : Machine :=
  let inside :=
    if Outer m.cs then
      pushl (BitVec.ofNat 32 m.esp) (pushl (m.ss.setWidth 32) { m with esp := e.esp0, ss := e.ss0 })
    else m
  let framed := pushl m.eip (pushl (m.cs.setWidth 32) (pushl m.eflags inside))
  { framed with cs := e.gate_cs, eflags := if e.masks then m.eflags &&& ~~~(0x200 : Word) else m.eflags }

/-- The return: to an outer ring it also takes the stack off the frame. -/
def iret (m : Machine) : Machine :=
  let cs := (load32 m.mem (m.esp + 4)).setWidth 16
  let back := { m with eip := topl m, cs, eflags := load32 m.mem (m.esp + 8) }
  if Outer cs then
    { back with esp := (load32 m.mem (m.esp + 12)).toNat, ss := (load32 m.mem (m.esp + 16)).setWidth 16 }
  else unwind 12 back

/-- Where the stack of the handler starts. -/
def entryTop (e : Entry) (m : Machine) : Nat := if Outer m.cs then e.esp0 else m.esp

/-- The bytes of the frame. -/
def frameSize (m : Machine) : Nat := if Outer m.cs then 20 else 12

theorem interrupt_esp (e : Entry) (m : Machine) : (interrupt e m).esp = entryTop e m - frameSize m := by
  by_cases outer : Outer m.cs
  · simp only [interrupt,pushl,entryTop,frameSize,outer,↓reduceIte]
    omega
  · simp only [interrupt,pushl,entryTop,frameSize,outer,↓reduceIte]
    omega

/-- An interrupt keeps every register but the flags, and every byte outside
    its frame. -/
theorem interrupt_frame (e : Entry) (m : Machine) :
    (interrupt e m).reg = m.reg ∧ (interrupt e m).seg = m.seg ∧
      ∀ a, a < entryTop e m - frameSize m ∨ entryTop e m ≤ a → 20 ≤ entryTop e m → (interrupt e m).mem a = m.mem a := by
  by_cases outer : Outer m.cs
  · simp only [interrupt,pushl,entryTop,frameSize,outer,↓reduceIte]
    refine ⟨trivial,trivial,?_⟩
    intro a outside room
    rw [store32_outside _ (by omega),store32_outside _ (by omega),store32_outside _ (by omega),
      store32_outside _ (by omega),store32_outside _ (by omega)]
  · simp only [interrupt,pushl,entryTop,frameSize,outer,↓reduceIte]
    refine ⟨trivial,trivial,?_⟩
    intro a outside room
    rw [store32_outside _ (by omega),store32_outside _ (by omega),store32_outside _ (by omega)]

/-- A handler that comes back to its stack resumes exactly what was
    interrupted: the processor takes the frame it pushed. -/
theorem iret_interrupt {e : Entry} (inner : Balanced (interrupt e m) m' (entryTop e m)) (room : 20 ≤ entryTop e m)
    (flat : m.esp < 2 ^ 32) :
    iret m' = { m' with esp := m.esp, eip := m.eip, cs := m.cs, eflags := m.eflags,
                        ss := if Outer m.cs then m.ss else m'.ss } := by
  have esp := inner.esp
  rw [interrupt_esp] at esp
  have narrow (v : Half) : (v.setWidth 32).setWidth 16 = v := by
    apply BitVec.eq_of_toNat_eq
    rw [BitVec.toNat_setWidth,BitVec.toNat_setWidth]
    omega
  have frame {i : Nat} (inside : i + 4 ≤ frameSize m) :
      load32 m'.mem (m'.esp + i) = load32 (interrupt e m).mem (entryTop e m - frameSize m + i) := by
    rw [esp]
    refine load32_congr (fun b low high => inner.stack b ?_ ?_)
    · rw [interrupt_esp]
      omega
    · have size : frameSize m ≤ 20 := by rw [frameSize]; split <;> omega
      omega
  by_cases outer : Outer m.cs
  · have size : frameSize m = 20 := if_pos outer
    have top : entryTop e m = e.esp0 := if_pos outer
    have eip := frame (i := 0) (by omega)
    have cs := frame (i := 4) (by omega)
    have eflags := frame (i := 8) (by omega)
    have stack := frame (i := 12) (by omega)
    have ss := frame (i := 16) (by omega)
    rw [top] at room
    rw [size,top] at eip cs eflags stack ss
    simp only [interrupt,pushl,outer,↓reduceIte] at eip cs eflags stack ss
    simp (disch := omega) only [load32_store32_apart] at eip cs eflags stack ss
    rw [show e.esp0 - 20 + 0 = e.esp0 - 4 - 4 - 4 - 4 - 4 by omega,load32_store32_same] at eip
    rw [show e.esp0 - 20 + 4 = e.esp0 - 4 - 4 - 4 - 4 by omega,load32_store32_same] at cs
    rw [show e.esp0 - 20 + 8 = e.esp0 - 4 - 4 - 4 by omega,load32_store32_same] at eflags
    rw [show e.esp0 - 20 + 12 = e.esp0 - 4 - 4 by omega,load32_store32_same] at stack
    rw [show e.esp0 - 20 + 16 = e.esp0 - 4 by omega,load32_store32_same] at ss
    have pointer : (BitVec.ofNat 32 m.esp).toNat = m.esp := by
      rw [BitVec.toNat_ofNat]
      exact Nat.mod_eq_of_lt flat
    rw [Nat.add_zero] at eip
    simp only [iret,topl,eip,cs,eflags,stack,ss,narrow,outer,↓reduceIte,pointer]
  · have size : frameSize m = 12 := if_neg outer
    have top : entryTop e m = m.esp := if_neg outer
    have eip := frame (i := 0) (by omega)
    have cs := frame (i := 4) (by omega)
    have eflags := frame (i := 8) (by omega)
    rw [top] at room
    rw [size,top] at eip cs eflags esp
    simp only [interrupt,pushl,outer,↓reduceIte] at eip cs eflags
    simp (disch := omega) only [load32_store32_apart] at eip cs eflags
    rw [show m.esp - 12 + 0 = m.esp - 4 - 4 - 4 by omega,load32_store32_same] at eip
    rw [show m.esp - 12 + 4 = m.esp - 4 - 4 by omega,load32_store32_same] at cs
    rw [show m.esp - 12 + 8 = m.esp - 4 by omega,load32_store32_same] at eflags
    rw [Nat.add_zero] at eip
    have pointer : m'.esp + 12 = m.esp := by omega
    simp only [iret,topl,eip,cs,eflags,narrow,outer,↓reduceIte,unwind,pointer]

end Mp3Kernel.StackMachine

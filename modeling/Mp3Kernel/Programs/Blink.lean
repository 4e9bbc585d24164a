import Mp3Kernel.Lib.Memory
import Mathlib.Logic.Function.Basic

/-!
The blinking characters of the program fish: `blink.S` keeps a linked list of
structures in the pool `blink_array`, whose slots with location 0 are the free
ones. Pointers into the pool are slot numbers, and a loop that follows them
carries fuel: it yields nothing when the fuel runs out or when it reads through
the null pointer.
-/
namespace Mp3Kernel.Blink
open Mp3Kernel.Memory

/-- What an entry says about its character. -/
structure Blinker where
  location : Half
  on_char : Byte
  off_char : Byte
  on_length : Half
  off_length : Half
  countdown : Half
  status : Half
  deriving DecidableEq

/-- `struct mp1_blink_struct`. -/
structure Mp1BlinkStruct extends Blinker where
  next : Option Nat
  deriving DecidableEq

/-- The cells of the screen, and the slots of the pool: `80*25`. -/
def cells : Nat := 80 * 25

structure Fish where
  blink_array : Nat → Mp1BlinkStruct
  mp1_list_head : Option Nat
  /-- The bytes from `vmem_base_addr` on. -/
  vmem : Nat → Byte

/-- The slot holds the structure from now on. -/
def Fish.put (s : Fish) (i : Nat) (b : Mp1BlinkStruct) : Fish :=
  { s with blink_array := Function.update s.blink_array i b }

def zeroed : Mp1BlinkStruct :=
  { location := 0, on_char := 0, off_char := 0, on_length := 0, off_length := 0, countdown := 0, status := 0,
    next := none }

def mp1_poke (s : Fish) (cl : Byte) (eax : Nat) : Fish := { s with vmem := Function.update s.vmem eax cl }

/-- The first slot with location 0. -/
def mp1_malloc (s : Fish) : Option Nat := (List.range cells).find? (fun i => (s.blink_array i).location = 0)

def mp1_free (s : Fish) (memory : Nat) : Fish := s.put memory zeroed

def failure : Word := -1

/-! ### The tasklet -/

/-- One entry of the loop: its countdown drops, and from 0 on (as a signed
    number) the character changes. -/
def tasklet_entry (s : Fish) (ebx : Nat) : Fish :=
  let b := s.blink_array ebx
  let b := { b with countdown := b.countdown - 1 }
  let s := s.put ebx b
  if 0 < b.countdown.toInt then s
  else
    let eax := b.location.toNat * 2
    if b.status &&& 1 = 0 then
      let s := mp1_poke s b.on_char eax
      s.put ebx { b with countdown := b.on_length, status := b.status ^^^ 1 }
    else
      let s := mp1_poke s b.off_char eax
      s.put ebx { b with countdown := b.off_length, status := b.status ^^^ 1 }

def tasklet_loop : Nat → Fish → Option Nat → Option Fish
  | _, s, none => some s
  | 0, _, some _ => none
  | fuel+1, s, some ebx =>
    let s := tasklet_entry s ebx
    tasklet_loop fuel s (s.blink_array ebx).next

def mp1_rtc_tasklet (fuel : Nat) (s : Fish) : Option Fish := tasklet_loop fuel s s.mp1_list_head

/-! ### The calls -/

def find_loop (s : Fish) (ax : Half) : Nat → Option Nat → Option (Option Nat)
  | _, none => some none
  | 0, some _ => none
  | fuel+1, some ebx =>
    if (s.blink_array ebx).location = ax then some (some ebx)
    else find_loop s ax fuel (s.blink_array ebx).next

/-- The first entry with the location, or the null pointer. -/
def mp1_find_helper (fuel : Nat) (s : Fish) (location : Half) : Option (Option Nat) :=
  find_loop s location fuel s.mp1_list_head

/-- The copy out of user memory always succeeds. -/
def mp1_ioctl_add (s : Fish) (user : Mp1BlinkStruct) : Fish × Word :=
  if cells ≤ user.location.toNat then (s,failure)
  else
    let temp := { user with status := 1, countdown := user.on_length }
    match mp1_malloc s with
    | none => (s,failure)
    | some edx =>
      let s := s.put edx temp
      let s := s.put edx { s.blink_array edx with next := s.mp1_list_head }
      let s := { s with mp1_list_head := some edx }
      (mp1_poke s (s.blink_array edx).on_char ((s.blink_array edx).location.toNat * 2),0)

/-- Where a pointer to an entry is stored. -/
inductive Link
  | head
  | next (i : Nat)

def Fish.load (s : Fish) : Link → Option Nat
  | .head => s.mp1_list_head
  | .next i => (s.blink_array i).next

def Fish.store (s : Fish) : Link → Option Nat → Fish
  | .head, p => { s with mp1_list_head := p }
  | .next i, p => s.put i { s.blink_array i with next := p }

/-- The loop compares before it tests for the null pointer, which it would read
    through. -/
def remove_find_prev (s : Fish) (eax : Nat) : Nat → Link → Option Link
  | 0, edx => if s.load edx = some eax then some edx else none
  | fuel+1, edx =>
    if s.load edx = some eax then some edx
    else match s.load edx with
      | none => none
      | some i => remove_find_prev s eax fuel (.next i)

def mp1_ioctl_remove (fuel : Nat) (s : Fish) (arg : Word) : Option (Fish × Word) := do
  match ← mp1_find_helper fuel s (arg.setWidth 16) with
  | none => return (s,failure)
  | some eax =>
    let edx ← remove_find_prev s eax fuel .head
    let s := s.store edx (s.blink_array eax).next
    return (mp1_free s eax,0)

/-- `cmovl` moves where the sign flag differs from the overflow flag, which the
    `testb` before it clears. -/
def cmovl_after_testb (a b : Byte) (source target : Byte) : Byte :=
  let sign := (a &&& b).msb
  let overflow := false
  if sign ≠ overflow then source else target

def mp1_ioctl_sync (fuel : Nat) (s : Fish) (arg : Word) : Option (Fish × Word) := do
  match ← mp1_find_helper fuel s ((arg >>> 16).setWidth 16) with
  | none => return (s,failure)
  | some esi =>
    match ← mp1_find_helper fuel s ((arg &&& 0xFFFF).setWidth 16) with
    | none => return (s,failure)
    | some edi =>
      let s := s.put edi { s.blink_array edi with on_length := (s.blink_array esi).on_length }
      let s := s.put edi { s.blink_array edi with off_length := (s.blink_array esi).off_length }
      let s := s.put edi { s.blink_array edi with countdown := (s.blink_array esi).countdown }
      let s := s.put edi { s.blink_array edi with status := (s.blink_array esi).status }
      let b := s.blink_array edi
      let ecx := cmovl_after_testb 1 (b.status.setWidth 8) b.on_char b.off_char
      return (mp1_poke s ecx (b.location.toNat * 2),0)

/-- The structure of the user after the call, and the result. -/
def mp1_ioctl_find (fuel : Nat) (s : Fish) (user : Mp1BlinkStruct) : Option (Mp1BlinkStruct × Word) := do
  match ← mp1_find_helper fuel s user.location with
  | none => return (user,failure)
  | some eax => return (s.blink_array eax,0)

/-! ### The whole program's calls, one by one -/

/-- What the program asks of `blink.S`: `mp1_ioctl` with one of its four
    commands, or `mp1_rtc_tasklet`. -/
inductive Call
  | add (user : Mp1BlinkStruct)
  | remove (arg : Word)
  | find (user : Mp1BlinkStruct)
  | sync (arg : Word)
  | tasklet

/-- What the caller sees: the result, and the entry that a find copies out. -/
structure Answer where
  result : Word
  copied : Option Blinker
  deriving DecidableEq

def mp1_call (fuel : Nat) (s : Fish) : Call → Option (Fish × Answer)
  | .add user =>
    let (s,eax) := mp1_ioctl_add s user
    some (s,⟨eax,none⟩)
  | .remove arg => do
    let (s,eax) ← mp1_ioctl_remove fuel s arg
    return (s,⟨eax,none⟩)
  | .find user => do
    let (user,eax) ← mp1_ioctl_find fuel s user
    return (s,⟨eax,some user.toBlinker⟩)
  | .sync arg => do
    let (s,eax) ← mp1_ioctl_sync fuel s arg
    return (s,⟨eax,none⟩)
  | .tasklet => do
    let s ← mp1_rtc_tasklet fuel s
    return (s,⟨0,none⟩)

/-- The list is empty and `main` has zeroed the pool. -/
def started (vmem : Nat → Byte) : Fish :=
  { blink_array := fun _ => zeroed, mp1_list_head := none, vmem }

/-! ### What the updates leave alone -/

variable {s : Fish} {i j : Nat} {b : Mp1BlinkStruct}

@[simp] theorem put_same : (s.put i b).blink_array i = b := Function.update_self ..
@[simp] theorem put_other (other : j ≠ i) : (s.put i b).blink_array j = s.blink_array j :=
  Function.update_of_ne other ..
@[simp] theorem put_head : (s.put i b).mp1_list_head = s.mp1_list_head := rfl
@[simp] theorem put_vmem : (s.put i b).vmem = s.vmem := rfl
@[simp] theorem put_put (c : Mp1BlinkStruct) : (s.put i b).put i c = s.put i c := by
  simp [Fish.put]
@[simp] theorem poke_array (cl : Byte) (eax : Nat) : (mp1_poke s cl eax).blink_array = s.blink_array := rfl
@[simp] theorem poke_head (cl : Byte) (eax : Nat) : (mp1_poke s cl eax).mp1_list_head = s.mp1_list_head := rfl
@[simp] theorem poke_vmem (cl : Byte) (eax : Nat) : (mp1_poke s cl eax).vmem = Function.update s.vmem eax cl := rfl

/-- The sign bit of a test with 1 is clear, so the move never happens. -/
theorem cmovl_never (b source target : Byte) : cmovl_after_testb 1#8 b source target = target := by
  simp [cmovl_after_testb]

end Mp3Kernel.Blink

import Mp3Kernel.Lib.Memory
import Mathlib.Data.List.Find
import Mathlib.Logic.Function.Basic

/-!
Two 8259 interrupt controllers, one behind a line of the other, in their fully
nested mode: what writes to their ports do, and which request an acknowledge
takes. Commands that select another mode have no result.
-/
namespace Mp3Kernel.Cascade
open Mp3Kernel.Memory (Byte)

/-- What the next byte at the data port is taken for. -/
inductive Awaits
  | icw2
  | icw3
  | icw4
  | mask
  deriving DecidableEq

structure Chip where
  awaits : Awaits
  vector : Byte
  wiring : Byte
  mask : Byte
  requests : Byte
  service : Byte
  deriving DecidableEq

def bit (i : Nat) : Byte := 1#8 <<< i

/-- A write to the command port: the start of an initialization with two chips
    and a fourth word, or the end of the interrupt that is named. -/
def command (b : Byte) (c : Chip) : Option Chip :=
  if b &&& 0x1F = 0x11 then some { c with awaits := .icw2, mask := 0, requests := 0, service := 0 }
  else if b &&& 0xF8 = 0x60 then some { c with service := c.service &&& ~~~ bit (b &&& 7).toNat }
  else none

/-- A write to the data port. The fourth word selects the 8086 mode without an
    automatic end of interrupts. -/
def data (b : Byte) (c : Chip) : Option Chip :=
  match c.awaits with
  | .icw2 => some { c with awaits := .icw3, vector := b &&& 0xF8 }
  | .icw3 => some { c with awaits := .icw4, wiring := b }
  | .icw4 => if b = 1 then some { c with awaits := .mask } else none
  | .mask => some { c with mask := b }

/-- The line with the highest priority that asks for service; one that is in
    service holds off all from its own on. -/
def offers (c : Chip) : Option Nat :=
  ((List.range 8).find? fun i => c.service.getLsbD i || c.requests.getLsbD i && !c.mask.getLsbD i).filter
    fun i => !c.service.getLsbD i

/-- The request is taken into service. -/
def Chip.take (i : Nat) (c : Chip) : Chip :=
  { c with requests := c.requests &&& ~~~ bit i, service := c.service ||| bit i }

structure Pair where
  master : Chip
  slave : Chip
  deriving DecidableEq

/-- The master with the slave's output on its line. -/
def Pair.seen (line : Nat) (p : Pair) : Chip :=
  if (offers p.slave).isSome then { p.master with requests := p.master.requests ||| bit line } else p.master

/-- The answer to an acknowledge: the vector of the request with the highest
    priority. For a line that the master has a slave on, the slave answers if
    it goes by that number. -/
def acknowledge (line : Nat) (p : Pair) : Option (Byte × Pair) :=
  (offers (p.seen line)).bind fun i =>
    if p.master.wiring.getLsbD i then
      if p.slave.wiring.toNat = i then
        (offers p.slave).map fun j =>
          (p.slave.vector + BitVec.ofNat 8 j,{ master := p.master.take i, slave := p.slave.take j })
      else none
    else some (p.master.vector + BitVec.ofNat 8 i,{ p with master := p.master.take i })

/-- A device asks for service at a line, those of the slave from 8 on. -/
def raise (n : Nat) (p : Pair) : Pair :=
  if n < 8 then { p with master.requests := p.master.requests ||| bit n }
  else { p with slave.requests := p.slave.requests ||| bit (n - 8) }

/-! ### Bytes as sets of lines -/

/-- The byte has exactly these bits. -/
def Bits (b : Byte) (f : Nat → Bool) : Prop := ∀ i < 8, b.getLsbD i = f i

variable {b : Byte} {f g : Nat → Bool} {i : Nat} {c : Chip}

theorem bit_getLsbD (i : Nat) {j : Nat} (inside : j < 8) : (bit i).getLsbD j = decide (j = i) := by
  have one : (1#8).getLsbD (j - i) = decide (j - i = 0) := by
    rw [BitVec.getLsbD_one]
    simp
  rw [bit,BitVec.getLsbD_shiftLeft,one,decide_eq_true inside,Bool.true_and]
  by_cases below : j < i
  · simp [below,show j ≠ i by omega]
  · simp [below,show j - i = 0 ↔ j = i by omega]

theorem bits_zero : Bits 0 fun _ => false := fun _ _ => BitVec.getLsbD_zero

theorem Bits.set (bits : Bits b f) (i : Nat) : Bits (b ||| bit i) (Function.update f i true) := by
  intro j inside
  rw [BitVec.getLsbD_or,bit_getLsbD i inside,bits j inside]
  by_cases same : j = i <;> simp [same]

theorem Bits.clear (bits : Bits b f) (i : Nat) : Bits (b &&& ~~~ bit i) (Function.update f i false) := by
  intro j inside
  rw [BitVec.getLsbD_and,BitVec.getLsbD_not,bit_getLsbD i inside,bits j inside]
  by_cases same : j = i <;> simp [same,inside]

theorem Bits.congr (bits : Bits b f) (same : ∀ i < 8, f i = g i) : Bits b g :=
  fun i inside => (bits i inside).trans (same i inside)

/-- What is taken into service alone and ended leaves nothing in service. -/
theorem service_ended (i : Nat) : (0 ||| bit i) &&& ~~~ bit i = (0 : Byte) := by
  refine BitVec.eq_of_getLsbD_eq ?_
  intro j inside
  simp

/-! ### Requests -/

/-- With nothing in service the first request that is not masked is offered. -/
theorem offers_idle (idle : c.service = 0) (requests : Bits c.requests f) (mask : Bits c.mask g) :
    offers c = (List.range 8).find? fun i => f i && !g i := by
  have same : ((List.range 8).find? fun i => c.service.getLsbD i || c.requests.getLsbD i && !c.mask.getLsbD i) =
      (List.range 8).find? fun i => f i && !g i := by
    refine List.find?_congr ?_
    intro i listed
    have inside := List.mem_range.mp listed
    rw [idle,requests i inside,mask i inside]
    simp
  rw [offers,same,idle]
  cases (List.range 8).find? fun i => f i && !g i <;> simp

/-- Lines that do not ask need not be looked at. -/
theorem find_below {p : Nat → Bool} {n : Nat} (few : n ≤ 8) (silent : ∀ i < 8, n ≤ i → p i = false) :
    (List.range 8).find? p = (List.range n).find? p := by
  have split : List.range 8 = List.range n ++ (List.range (8 - n)).map (n + ·) := by
    rw [← List.range_add,Nat.add_sub_cancel' few]
  have rest : ((List.range (8 - n)).map (n + ·)).find? p = none := by
    refine List.find?_eq_none.mpr ?_
    intro i listed
    obtain ⟨j,below,rfl⟩ := List.mem_map.mp listed
    rw [List.mem_range] at below
    simp [silent (n + j) (by omega) (by omega)]
  rw [split,List.find?_append,rest,Option.or_none]

/-- The end of the interrupt that was just taken leaves the request served. -/
theorem command_end (idle : c.service = 0) (inside : i < 8) :
    command (0x60 ||| BitVec.ofNat 8 i) (c.take i) = some { c with requests := c.requests &&& ~~~ bit i } := by
  have codes : ∀ i < 8, (0x60 ||| BitVec.ofNat 8 i) &&& 0x1F ≠ 0x11 ∧ (0x60 ||| BitVec.ofNat 8 i) &&& 0xF8 = 0x60 ∧
      ((0x60 ||| BitVec.ofNat 8 i) &&& 7).toNat = i := by decide
  obtain ⟨start,ends,line⟩ := codes i inside
  have ended := service_ended i
  rw [command,if_neg start,if_pos ends,line]
  simp only [Chip.take,idle,ended]

end Mp3Kernel.Cascade

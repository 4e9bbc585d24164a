import Mp3Kernel.Lib.Memory

/-!
How the processor reads a gate of the interrupt descriptor table, and what
becomes of an interrupt through it.
-/
namespace Mp3Kernel.Interrupts
open Mp3Kernel.Memory (Word Half)

/-- A device or a fault, or an `int` instruction at a privilege level. -/
inductive Source
  | hardware
  | software (cpl : BitVec 2)
  deriving DecidableEq

structure Gate where
  offset : Word
  selector : Half
  /-- 14 for an interrupt gate, 15 for a trap gate -/
  type : BitVec 4
  system : BitVec 1
  dpl : BitVec 2
  present : BitVec 1

/-- The eight bytes of a descriptor, the lowest first. -/
def gate (w : BitVec 64) : Gate where
  offset := w.extractLsb' 48 16 ++ w.extractLsb' 0 16
  selector := w.extractLsb' 16 16
  type := w.extractLsb' 40 4
  system := w.extractLsb' 44 1
  dpl := w.extractLsb' 45 2
  present := w.extractLsb' 47 1

inductive Delivery
  /-- `masks` is whether further interrupts are held off. -/
  | enters (selector : Half) (offset : Word) (masks : Bool)
  | general_protection (code : Nat)
  | not_present (code : Nat)
  deriving DecidableEq

/-- The code that asks for the gate may use it. -/
def Gate.allows (g : Gate) : Source → Bool
  | .hardware => true
  | .software cpl => cpl ≤ g.dpl

/-- The error code of a fault at a vector. -/
def code (v : Nat) : Source → Nat
  | .hardware => v * 8 + 3
  | .software _ => v * 8 + 2

def deliver (idt : Nat → BitVec 64) (v : Nat) (source : Source) : Delivery :=
  let g := gate (idt v)
  if g.system ≠ 0 ∨ g.type ≠ 14 ∧ g.type ≠ 15 ∨ g.allows source = false then .general_protection (code v source)
  else if g.present = 0 then .not_present (code v source)
  else .enters g.selector g.offset (g.type = 14)

end Mp3Kernel.Interrupts

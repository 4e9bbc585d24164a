import Mp3Kernel.Lib.Cascade
import Mp3Kernel.Lib.Refine
import Mp3Kernel.Kernel.Gates

/-!
The interrupt controllers under i8259.c, from a device's request to the stub
that the processor enters and the end of the interrupt that its handler sends.
Seen from outside they are a set of enabled lines and a set of pending ones,
served in a fixed order.
-/
namespace Mp3Kernel.I8259
open Mp3Kernel.Memory (Byte Word)
open Mp3Kernel.Cascade Mp3Kernel.Refine Mp3Kernel.Interrupts Mp3Kernel.Gates Mp3Kernel.Tasks

abbrev MASTER_COMMAND : Nat := 0x20
abbrev MASTER_DATA : Nat := 0x21
abbrev SLAVE_COMMAND : Nat := 0xA0
abbrev SLAVE_DATA : Nat := 0xA1
abbrev ICW1 : Byte := 0x11
abbrev ICW2_MASTER : Byte := 0x20
abbrev ICW2_SLAVE : Byte := 0x28
abbrev ICW3_MASTER : Byte := 0x04
abbrev ICW3_SLAVE : Byte := 0x02
abbrev ICW4 : Byte := 0x01
abbrev EOI : Byte := 0x60
abbrev CASCADE_IR : Byte := 0x02
abbrev INTERRUPTS_MASKED : Byte := 0xFF
abbrev UNMASK_2 : Byte := 0xFB

/-- The driver's two variables and the controllers. -/
structure Pics where
  master_mask : Byte
  slave_mask : Byte
  pair : Pair
  deriving DecidableEq

def outb (b : Byte) (port : Nat) (s : Pics) : Option Pics :=
  if port = MASTER_COMMAND then (command b s.pair.master).map fun c => { s with pair.master := c }
  else if port = MASTER_DATA then (data b s.pair.master).map fun c => { s with pair.master := c }
  else if port = SLAVE_COMMAND then (command b s.pair.slave).map fun c => { s with pair.slave := c }
  else if port = SLAVE_DATA then (data b s.pair.slave).map fun c => { s with pair.slave := c }
  else none

def i8259_init (s : Pics) : Option Pics := do
  let s := { s with master_mask := INTERRUPTS_MASKED, slave_mask := INTERRUPTS_MASKED }
  let s ← outb ICW1 MASTER_COMMAND s
  let s ← outb ICW2_MASTER MASTER_DATA s
  let s ← outb ICW3_MASTER MASTER_DATA s
  let s ← outb ICW4 MASTER_DATA s
  let s ← outb ICW1 SLAVE_COMMAND s
  let s ← outb ICW2_SLAVE SLAVE_DATA s
  let s ← outb ICW3_SLAVE SLAVE_DATA s
  let s ← outb ICW4 SLAVE_DATA s
  let s ← outb s.master_mask MASTER_DATA s
  outb s.slave_mask SLAVE_DATA s

def enable_irq (irq_num : Nat) (s : Pics) : Option Pics :=
  let mask := ~~~ bit (irq_num &&& 7)
  if irq_num &&& 8 ≠ 0 then do
    let s := { s with slave_mask := s.slave_mask &&& mask }
    let s ← outb s.slave_mask SLAVE_DATA s
    let s := { s with master_mask := s.master_mask &&& UNMASK_2 }
    outb s.master_mask MASTER_DATA s
  else
    let s := { s with master_mask := s.master_mask &&& mask }
    outb s.master_mask MASTER_DATA s

def disable_irq (irq_num : Nat) (s : Pics) : Option Pics :=
  let mask := bit (irq_num &&& 7)
  if irq_num &&& 8 ≠ 0 then
    let s := { s with slave_mask := s.slave_mask ||| mask }
    outb s.slave_mask SLAVE_DATA s
  else
    let s := { s with master_mask := s.master_mask ||| mask }
    outb s.master_mask MASTER_DATA s

def send_eoi (irq_num : Nat) (s : Pics) : Option Pics :=
  if irq_num &&& 8 ≠ 0 then do
    let s ← outb (EOI ||| BitVec.ofNat 8 (irq_num &&& 7)) SLAVE_COMMAND s
    outb (EOI ||| CASCADE_IR) MASTER_COMMAND s
  else outb (EOI ||| BitVec.ofNat 8 irq_num) MASTER_COMMAND s

abbrev PIT : Nat := 0
abbrev KEYBOARD : Nat := 1
abbrev RTC : Nat := 8

/-- The end of interrupt that the handler behind a stub sends; the handlers of
    unknown interrupts and of exceptions send none. -/
def handler_eoi : Stub → Option Nat
  | .idt_pit => some PIT
  | .idt_keyboard => some KEYBOARD
  | .idt_rtc => some RTC
  | _ => none

inductive Event
  | enable_irq (irq_num : Nat)
  | disable_irq (irq_num : Nat)
  /-- a device asks for service -/
  | request (line : Nat)
  /-- the processor takes an interrupt, if there is one, and runs its handler -/
  | interrupt
  deriving DecidableEq

/-- The slave is on line 2. What is answered is where the processor goes. -/
def step (idt : Nat → IdtDesc) (s : Pics) : Event → Option (Pics × Option Delivery)
  | .enable_irq n => (enable_irq n s).map fun s => (s,none)
  | .disable_irq n => (disable_irq n s).map fun s => (s,none)
  | .request n => some ({ s with pair := raise n s.pair },none)
  | .interrupt =>
    match acknowledge 2 s.pair with
    | none => some (s,none)
    | some (v,pair) => (handler_eoi (stub v.toNat)).bind fun irq =>
      (send_eoi irq { s with pair := pair }).map fun s => (s,some (deliver (fun i => (idt i).val) v.toNat .hardware))

/-! ### What it is for -/

structure Lines where
  enabled : Nat → Bool
  pending : Nat → Bool

/-- The lines of the kernel's devices, by their priority. -/
def handled : List Nat := [PIT,KEYBOARD,RTC]

def Lines.serve (l : Lines) : Option Nat := handled.find? fun n => l.pending n && l.enabled n

/-- A request stays until it is served, which takes the line to be enabled and
    no other to come first; it gets the processor to the stub of its line. -/
def lineStep (address : Stub → Word) (l : Lines) : Event → Lines × Option Delivery
  | .enable_irq n => ({ l with enabled := Function.update l.enabled n true },none)
  | .disable_irq n => ({ l with enabled := Function.update l.enabled n false },none)
  | .request n => ({ l with pending := Function.update l.pending n true },none)
  | .interrupt =>
    match l.serve with
    | none => (l,none)
    | some n => ({ l with pending := Function.update l.pending n false },
        some (.enters KERNEL_CS (address (stub (32 + n))) true))

/-- Lines are below 16 and not that of the slave, and only lines with a handler
    are enabled. -/
def Proper : Event → Prop
  | .enable_irq n => n ∈ handled
  | .disable_irq n => n < 16 ∧ n ≠ 2
  | .request n => n < 16 ∧ n ≠ 2
  | .interrupt => True

instance : DecidablePred Proper
  | .enable_irq n => inferInstanceAs (Decidable (n ∈ handled))
  | .disable_irq n => inferInstanceAs (Decidable (n < 16 ∧ n ≠ 2))
  | .request n => inferInstanceAs (Decidable (n < 16 ∧ n ≠ 2))
  | .interrupt => inferInstanceAs (Decidable True)

/-- A chip that is set up, with nothing in service. -/
structure Ready (c : Chip) (vector wiring mask : Byte) : Prop where
  awaits : c.awaits = .mask
  vector : c.vector = vector
  wiring : c.wiring = wiring
  mask : c.mask = mask
  service : c.service = 0

/-- The controllers are those lines. -/
structure Wired (s : Pics) (l : Lines) : Prop where
  master : Ready s.pair.master ICW2_MASTER ICW3_MASTER s.master_mask
  slave : Ready s.pair.slave ICW2_SLAVE ICW3_SLAVE s.slave_mask
  masked : ∃ cascade, Bits s.master_mask (Function.update (fun i => !l.enabled i) 2 cascade) ∧
    (l.enabled RTC = true → cascade = false)
  slave_masked : Bits s.slave_mask fun i => !l.enabled (8 + i)
  requests : Bits s.pair.master.requests (Function.update l.pending 2 false)
  slave_requests : Bits s.pair.slave.requests fun i => l.pending (8 + i)
  handled : ∀ n, l.enabled n = true → n ∈ handled

variable {s t : Pics} {l : Lines} {idt : Nat → IdtDesc} {address : Stub → Word} {n : Nat} {b : Byte}

/-! ### The ports -/

theorem numbers : ∀ n < 16, n &&& 7 = n % 8 ∧ (n &&& 8 ≠ 0 ↔ 8 ≤ n) := by decide

theorem outb_master (b : Byte) (s : Pics) :
    outb b MASTER_COMMAND s = (command b s.pair.master).map fun c => { s with pair.master := c } := rfl

theorem outb_slave (b : Byte) (s : Pics) :
    outb b SLAVE_COMMAND s = (command b s.pair.slave).map fun c => { s with pair.slave := c } := rfl

theorem write_master {vector wiring mask : Byte} (ready : Ready s.pair.master vector wiring mask) (b : Byte) :
    outb b MASTER_DATA s = some { s with pair.master := { s.pair.master with mask := b } } := by
  simp [outb,data,ready.awaits]

theorem write_slave {vector wiring mask : Byte} (ready : Ready s.pair.slave vector wiring mask) (b : Byte) :
    outb b SLAVE_DATA s = some { s with pair.slave := { s.pair.slave with mask := b } } := by
  simp [outb,data,ready.awaits]

/-- A set up chip with another mask. -/
theorem Ready.remask {c : Chip} {vector wiring mask : Byte} (ready : Ready c vector wiring mask) (b : Byte) :
    Ready { c with mask := b } vector wiring b := ⟨ready.awaits,ready.vector,ready.wiring,rfl,ready.service⟩

theorem enable_master (wired : Wired s l) (low : n < 8) : enable_irq n s = some { s with
    master_mask := s.master_mask &&& ~~~ bit n
    pair.master := { s.pair.master with mask := s.master_mask &&& ~~~ bit n } } := by
  obtain ⟨index,slave⟩ := numbers n (by omega)
  rw [enable_irq,index,Nat.mod_eq_of_lt low,if_neg (by rw [slave]; omega)]
  exact write_master (s := { s with master_mask := s.master_mask &&& ~~~ bit n }) wired.master _

theorem enable_slave (wired : Wired s l) (low : 8 ≤ n) (high : n < 16) : enable_irq n s = some {
    master_mask := s.master_mask &&& UNMASK_2
    slave_mask := s.slave_mask &&& ~~~ bit (n - 8)
    pair := {
      master := { s.pair.master with mask := s.master_mask &&& UNMASK_2 }
      slave := { s.pair.slave with mask := s.slave_mask &&& ~~~ bit (n - 8) } } } := by
  obtain ⟨index,slave⟩ := numbers n high
  rw [enable_irq,index,show n % 8 = n - 8 by omega,if_pos (slave.mpr low)]
  dsimp only
  rw [write_slave (s := { s with slave_mask := s.slave_mask &&& ~~~ bit (n - 8) }) wired.slave]
  exact write_master (s := { s with
    master_mask := s.master_mask &&& UNMASK_2
    slave_mask := s.slave_mask &&& ~~~ bit (n - 8)
    pair.slave := { s.pair.slave with mask := s.slave_mask &&& ~~~ bit (n - 8) } }) wired.master _

theorem disable_master (wired : Wired s l) (low : n < 8) : disable_irq n s = some { s with
    master_mask := s.master_mask ||| bit n
    pair.master := { s.pair.master with mask := s.master_mask ||| bit n } } := by
  obtain ⟨index,slave⟩ := numbers n (by omega)
  rw [disable_irq,index,Nat.mod_eq_of_lt low,if_neg (by rw [slave]; omega)]
  exact write_master (s := { s with master_mask := s.master_mask ||| bit n }) wired.master _

theorem disable_slave (wired : Wired s l) (low : 8 ≤ n) (high : n < 16) : disable_irq n s = some { s with
    slave_mask := s.slave_mask ||| bit (n - 8)
    pair.slave := { s.pair.slave with mask := s.slave_mask ||| bit (n - 8) } } := by
  obtain ⟨index,slave⟩ := numbers n high
  rw [disable_irq,index,show n % 8 = n - 8 by omega,if_pos (slave.mpr low)]
  exact write_slave (s := { s with slave_mask := s.slave_mask ||| bit (n - 8) }) wired.slave _

/-! ### Setting lines up -/

/-- What the initialization leaves. -/
def initialized : Pics where
  master_mask := INTERRUPTS_MASKED
  slave_mask := INTERRUPTS_MASKED
  pair := {
    master := ⟨.mask,ICW2_MASTER,ICW3_MASTER,INTERRUPTS_MASKED,0,0⟩
    slave := ⟨.mask,ICW2_SLAVE,ICW3_SLAVE,INTERRUPTS_MASKED,0,0⟩ }

theorem init_initialized (s : Pics) : i8259_init s = some initialized := rfl

theorem initialized_wired : Wired initialized ⟨fun _ => false,fun _ => false⟩ := by
  have full : Bits INTERRUPTS_MASKED fun _ => true := show ∀ i < 8, INTERRUPTS_MASKED.getLsbD i = true by decide
  have none_ : Function.update (fun _ : Nat => false) 2 false = fun _ => false := Function.update_eq_self ..
  refine ⟨⟨rfl,rfl,rfl,rfl,rfl⟩,⟨rfl,rfl,rfl,rfl,rfl⟩,⟨true,?_,fun on => by cases on⟩,full,?_,bits_zero,fun n on => by cases on⟩
  · exact full.congr fun i _ => (congrFun (Function.update_eq_self 2 fun _ : Nat => true) i).symm
  · rw [none_]
    exact bits_zero

theorem enabled_update (f : Nat → Bool) (n : Nat) (v : Bool) :
    Function.update (fun i => !f i) n (!v) = fun i => !Function.update f n v i := by
  funext i
  by_cases same : i = n <;> simp [same]

/-- The lines of the slave. -/
theorem shifted_update (f : Nat → Bool) (v : Bool) (high : 8 ≤ n) :
    Function.update (fun i => f (8 + i)) (n - 8) v = fun i => Function.update f n v (8 + i) := by
  funext i
  by_cases same : i = n - 8
  · simp [same,show 8 + (n - 8) = n by omega]
  · simp [same,show 8 + i ≠ n by omega]

theorem shifted_other (f : Nat → Bool) (v : Bool) (low : n < 8) (i : Nat) : Function.update f n v (8 + i) = f (8 + i) :=
  Function.update_of_ne (by omega) ..

theorem lower_other (f : Nat → Bool) (v : Bool) (high : 8 ≤ n) {i : Nat} (inside : i < 8) : Function.update f n v i = f i :=
  Function.update_of_ne (by omega) ..

/-- A mask of the master with a line changed. -/
theorem master_changed {f : Nat → Bool} {cascade v : Bool} (other : n ≠ 2)
    (changed : Bits b (Function.update (Function.update (fun i => !f i) 2 cascade) n (!v))) :
    Bits b (Function.update (fun i => !Function.update f n v i) 2 cascade) := by
  rwa [Function.update_comm (Ne.symm other),enabled_update] at changed

/-- A line of the slave is none of the master's. -/
theorem master_kept {f g : Nat → Bool} {cascade : Bool} (kept : ∀ i < 8, f i = g i)
    (bits : Bits b (Function.update f 2 cascade)) : Bits b (Function.update g 2 cascade) := by
  refine bits.congr ?_
  intro i inside
  by_cases same : i = 2
  · simp [same]
  · simp [same,kept i inside]

theorem enable_wired (wired : Wired s l) (known : n ∈ handled) : ∃ t, enable_irq n s = some t ∧
    Wired t { l with enabled := Function.update l.enabled n true } := by
  obtain ⟨cascade,masked,through⟩ := wired.masked
  have others : ∀ m, Function.update l.enabled n true m = true → m ∈ handled := by
    intro m on
    by_cases same : m = n
    · exact same ▸ known
    · rw [Function.update_of_ne same] at on
      exact wired.handled m on
  by_cases low : n < 8
  · have apart : n ≠ 2 := by
      rintro rfl
      exact absurd known (by decide)
    refine ⟨_,enable_master wired low,wired.master.remask _,wired.slave,⟨cascade,?_,?_⟩,?_,wired.requests,wired.slave_requests,others⟩
    · exact master_changed apart (masked.clear n)
    · exact fun on => through ((Function.update_of_ne (show RTC ≠ n by dsimp only [RTC]; omega) ..).symm.trans on)
    · exact wired.slave_masked.congr fun i _ => (congrArg (!·) (shifted_other _ _ low i)).symm
  · have high : n < 16 := (by decide : ∀ m ∈ handled, m < 16) n known
    refine ⟨_,enable_slave wired (by omega) high,wired.master.remask _,wired.slave.remask _,⟨false,?_,fun _ => rfl⟩,?_,
      wired.requests,wired.slave_requests,others⟩
    · have cleared := masked.clear 2
      rw [Function.update_idem] at cleared
      exact master_kept (fun i inside => (congrArg (!·) (lower_other _ _ (by omega) inside)).symm) cleared
    · have flipped : Function.update (fun i => !l.enabled i) n false = _ := enabled_update l.enabled n true
      have cleared := wired.slave_masked.clear (n - 8)
      rwa [shifted_update (fun i => !l.enabled i) false (by omega),flipped] at cleared

theorem disable_wired (wired : Wired s l) (high : n < 16) (apart : n ≠ 2) : ∃ t, disable_irq n s = some t ∧
    Wired t { l with enabled := Function.update l.enabled n false } := by
  obtain ⟨cascade,masked,through⟩ := wired.masked
  have less (m : Nat) (on : Function.update l.enabled n false m = true) : l.enabled m = true := by
    by_cases same : m = n
    · rw [same,Function.update_self] at on
      cases on
    · rwa [Function.update_of_ne same] at on
  by_cases low : n < 8
  · refine ⟨_,disable_master wired low,wired.master.remask _,wired.slave,⟨cascade,?_,fun on => through (less _ on)⟩,?_,
      wired.requests,wired.slave_requests,fun m on => wired.handled m (less m on)⟩
    · exact master_changed apart (masked.set n)
    · exact wired.slave_masked.congr fun i _ => (congrArg (!·) (shifted_other _ _ low i)).symm
  · refine ⟨_,disable_slave wired (by omega) high,wired.master,wired.slave.remask _,
      ⟨cascade,?_,fun on => through (less _ on)⟩,?_,wired.requests,wired.slave_requests,
      fun m on => wired.handled m (less m on)⟩
    · exact master_kept (fun i inside => (congrArg (!·) (lower_other _ _ (by omega) inside)).symm) masked
    · have flipped : Function.update (fun i => !l.enabled i) n true = _ := enabled_update l.enabled n false
      have set := wired.slave_masked.set (n - 8)
      rwa [shifted_update (fun i => !l.enabled i) true (by omega),flipped] at set

theorem request_wired (wired : Wired s l) (apart : n ≠ 2) : Wired { s with pair := raise n s.pair }
    { l with pending := Function.update l.pending n true } := by
  by_cases low : n < 8
  · rw [raise,if_pos low]
    refine ⟨⟨wired.master.awaits,wired.master.vector,wired.master.wiring,wired.master.mask,wired.master.service⟩,wired.slave,
      wired.masked,wired.slave_masked,?_,?_,wired.handled⟩
    · have set := wired.requests.set n
      rwa [Function.update_comm (Ne.symm apart)] at set
    · exact wired.slave_requests.congr fun i _ => (shifted_other _ _ low i).symm
  · rw [raise,if_neg low]
    refine ⟨wired.master,⟨wired.slave.awaits,wired.slave.vector,wired.slave.wiring,wired.slave.mask,wired.slave.service⟩,
      wired.masked,wired.slave_masked,?_,?_,wired.handled⟩
    · exact master_kept (fun i inside => (lower_other _ _ (by omega) inside).symm) wired.requests
    · have set := wired.slave_requests.set (n - 8)
      rwa [shifted_update l.pending true (by omega)] at set

/-! ### Taking an interrupt -/

/-- The line asks for service and may. -/
def Lines.asks (l : Lines) (n : Nat) : Bool := l.pending n && l.enabled n

theorem silent (wired : Wired s l) (other : n ∉ handled) : l.asks n = false := by
  have off : l.enabled n = false := Bool.eq_false_iff.mpr fun on => other (wired.handled n on)
  rw [Lines.asks,off,Bool.and_false]

theorem offers_slave (wired : Wired s l) : offers s.pair.slave = if l.asks RTC then some 0 else none := by
  have mask := wired.slave.mask.symm ▸ wired.slave_masked
  rw [offers_idle wired.slave.service wired.slave_requests mask,find_below (n := 1) (by decide)]
  · have rtc : (l.pending (8 + 0) && !!l.enabled (8 + 0)) = l.asks RTC := by rw [Bool.not_not]; rfl
    rw [show List.range 1 = [0] from rfl,List.find?_cons,rtc]
    cases l.asks RTC <;> rfl
  · intro i inside low
    have quiet := silent (n := 8 + i) wired (by simp [handled,PIT,KEYBOARD,RTC]; omega)
    simpa [Lines.asks] using quiet

theorem offers_seen (wired : Wired s l) : offers (s.pair.seen 2) =
    if l.asks PIT then some 0 else if l.asks KEYBOARD then some 1 else if l.asks RTC then some 2 else none := by
  obtain ⟨cascade,masked,through⟩ := wired.masked
  have requests : Bits (s.pair.seen 2).requests (Function.update l.pending 2 (l.asks RTC)) := by
    rw [Pair.seen,offers_slave wired]
    cases asks : l.asks RTC with
    | false => simpa using wired.requests
    | true => simpa using wired.requests.set 2
  have same : (s.pair.seen 2).service = 0 ∧ (s.pair.seen 2).mask = s.master_mask := by
    rw [Pair.seen]
    split
    all_goals exact ⟨wired.master.service,wired.master.mask⟩
  rw [offers_idle same.1 requests (same.2.symm ▸ masked),find_below (n := 3) (by decide)]
  · have apart (n : Nat) (other : n ≠ 2) : (Function.update l.pending 2 (l.asks RTC) n &&
        !Function.update (fun i => !l.enabled i) 2 cascade n) = l.asks n := by simp [Lines.asks,other]
    have cascaded : (Function.update l.pending 2 (l.asks RTC) 2 &&
        !Function.update (fun i => !l.enabled i) 2 cascade 2) = l.asks RTC := by
      rw [Function.update_self,Function.update_self]
      cases asks : l.asks RTC with
      | false => rfl
      | true =>
        rw [through (Bool.and_eq_true_iff.mp asks).2]
        rfl
    rw [show List.range 3 = [0,1,2] from rfl]
    simp only [List.find?_cons,List.find?_nil,apart 0 (by decide),apart 1 (by decide),cascaded]
    cases l.asks PIT <;> cases l.asks KEYBOARD <;> cases l.asks RTC <;> rfl
  · intro i inside low
    have quiet := silent (n := i) wired (by simp [handled,PIT,KEYBOARD,RTC]; omega)
    simpa [Lines.asks,show i ≠ 2 by omega] using quiet

theorem serve_eq (l : Lines) : l.serve =
    if l.asks PIT then some 0 else if l.asks KEYBOARD then some 1 else if l.asks RTC then some 8 else none := by
  have asked (n : Nat) : (l.pending n && l.enabled n) = l.asks n := rfl
  simp only [Lines.serve,handled,List.find?_cons,List.find?_nil,asked]
  cases l.asks PIT <;> cases l.asks KEYBOARD <;> cases l.asks RTC <;> rfl

/-- The controllers while an interrupt is served. -/
def taken (n : Nat) (p : Pair) : Pair :=
  if n < 8 then { p with master := p.master.take n } else { master := p.master.take 2, slave := p.slave.take (n - 8) }

/-- An acknowledge takes the line that is to be served. -/
theorem acknowledge_eq (wired : Wired s l) :
    acknowledge 2 s.pair = l.serve.map fun n => (BitVec.ofNat 8 (32 + n),taken n s.pair) := by
  rw [acknowledge,offers_seen wired,serve_eq]
  cases pit : l.asks PIT with
  | true =>
    simp only [↓reduceIte,Option.bind_some,wired.master.wiring,wired.master.vector]
    rfl
  | false =>
    cases keyboard : l.asks KEYBOARD with
    | true =>
      simp only [Bool.false_eq_true,↓reduceIte,Option.bind_some,wired.master.wiring,wired.master.vector]
      rfl
    | false =>
      cases rtc : l.asks RTC with
      | true =>
        simp only [Bool.false_eq_true,↓reduceIte,Option.bind_some,wired.master.wiring,wired.slave.wiring,
          offers_slave wired,rtc,wired.slave.vector]
        rfl
      | false => rfl

/-- The end of the interrupt leaves the line without its request. -/
theorem eoi_wired (wired : Wired s l) (known : n ∈ handled) : ∃ t,
    send_eoi n { s with pair := taken n s.pair } = some t ∧ Wired t { l with pending := Function.update l.pending n false } := by
  by_cases low : n < 8
  · have apart : n ≠ 2 := by
      rintro rfl
      exact absurd known (by decide)
    have slave := (numbers n (by omega)).2
    have sent : send_eoi n { s with pair := taken n s.pair } =
        some { s with pair.master := { s.pair.master with requests := s.pair.master.requests &&& ~~~ bit n } } := by
      have ended := command_end wired.master.service low
      rw [send_eoi,if_neg (by rw [slave]; omega),outb_master,taken,if_pos low]
      dsimp only
      rw [ended]
      rfl
    refine ⟨_,sent,⟨wired.master.awaits,wired.master.vector,wired.master.wiring,wired.master.mask,wired.master.service⟩,
      wired.slave,wired.masked,wired.slave_masked,?_,?_,wired.handled⟩
    · have cleared := wired.requests.clear n
      rwa [Function.update_comm (Ne.symm apart)] at cleared
    · exact wired.slave_requests.congr fun i _ => (shifted_other _ _ low i).symm
  · have high : n < 16 := (by decide : ∀ m ∈ handled, m < 16) n known
    obtain ⟨index,slave⟩ := numbers n high
    have ended := command_end (i := n - 8) wired.slave.service (by omega)
    have cascaded : command (EOI ||| CASCADE_IR) (s.pair.master.take 2) = _ := command_end wired.master.service (by decide)
    have sent : send_eoi n { s with pair := taken n s.pair } = some { s with pair := {
        master := { s.pair.master with requests := s.pair.master.requests &&& ~~~ bit 2 }
        slave := { s.pair.slave with requests := s.pair.slave.requests &&& ~~~ bit (n - 8) } } } := by
      rw [send_eoi,if_pos (slave.mpr (by omega)),index,show n % 8 = n - 8 by omega,taken,if_neg low,outb_slave]
      dsimp only
      rw [ended]
      dsimp only [Option.map_some,Option.bind_eq_bind,Option.bind_some]
      rw [outb_master]
      dsimp only
      rw [cascaded]
      rfl
    refine ⟨_,sent,⟨wired.master.awaits,wired.master.vector,wired.master.wiring,wired.master.mask,wired.master.service⟩,
      ⟨wired.slave.awaits,wired.slave.vector,wired.slave.wiring,wired.slave.mask,wired.slave.service⟩,
      wired.masked,wired.slave_masked,?_,?_,wired.handled⟩
    · have cleared := wired.requests.clear 2
      rw [Function.update_idem] at cleared
      exact master_kept (fun i inside => (lower_other _ _ (by omega) inside).symm) cleared
    · have cleared := wired.slave_requests.clear (n - 8)
      rwa [shifted_update l.pending false (by omega)] at cleared

/-! ### Runs -/

theorem handled_serves (serves : l.serve = some n) : n ∈ handled := List.mem_of_find?_eq_some serves

/-- The handled lines and where their vectors lead. -/
theorem handled_stub : ∀ n ∈ handled, (BitVec.ofNat 8 (32 + n) : Byte).toNat = 32 + n ∧
    handler_eoi (stub (32 + n)) = some n ∧ 32 + n < 256 ∧ 32 + n ≠ 0x80 := by decide

variable (address idt) in
theorem step_wired (wired : Wired s l) {e : Event} (proper : Proper e) : ∃ t,
    step (construct_idt address idt) s e = some (t,(lineStep address l e).2) ∧ Wired t (lineStep address l e).1 := by
  cases e with
  | enable_irq n =>
    obtain ⟨t,enabled,after⟩ := enable_wired wired proper
    exact ⟨t,by rw [step,enabled]; rfl,after⟩
  | disable_irq n =>
    obtain ⟨t,disabled,after⟩ := disable_wired wired proper.1 proper.2
    exact ⟨t,by rw [step,disabled]; rfl,after⟩
  | request n => exact ⟨_,rfl,request_wired wired proper.2⟩
  | interrupt =>
    rw [step,acknowledge_eq wired,lineStep]
    cases serves : l.serve with
    | none => exact ⟨s,rfl,wired⟩
    | some n =>
      have known := handled_serves serves
      obtain ⟨vector,eoi,inside,other⟩ := handled_stub n known
      obtain ⟨t,sent,after⟩ := eoi_wired wired known
      have entered := enters_stub address idt inside other
      refine ⟨t,?_,after⟩
      dsimp only [Option.map_some]
      rw [vector,eoi,Option.bind_some,sent,entered]
      rfl

/-- From the initialization on, whatever lines are enabled, disabled and
    requested in whatever order, the processor is led to the stub of the
    enabled pending line with the highest priority, no request is lost or
    served twice, nothing stays in service, and the driver's variables are the
    masks of the controllers. -/
theorem lines_refine (address : Stub → Word) (idt : Nat → IdtDesc) (s : Pics) (es : List Event) (proper : ∀ e ∈ es, Proper e) :
    ∃ s' t, i8259_init s = some s' ∧ answers (step (construct_idt address idt)) s' es =
        some (t,(expected (lineStep address) ⟨fun _ => false,fun _ => false⟩ es).2) ∧
      t.pair.master.service = 0 ∧ t.pair.slave.service = 0 ∧ t.pair.master.mask = t.master_mask ∧
        t.pair.slave.mask = t.slave_mask := by
  obtain ⟨t,answered,wired⟩ := @answers_refine _ _ _ _ (step (construct_idt address idt)) (lineStep address)
    Wired Proper (fun s l e wired proper => step_wired idt address wired proper) _ _ es initialized_wired proper
  exact ⟨initialized,t,init_initialized s,answered,wired.master.service,wired.slave.service,wired.master.mask,
    wired.slave.mask⟩

/-- The clock and a key at once. -/
def both : List Event := [.enable_irq RTC,.enable_irq KEYBOARD,.request RTC,.request KEYBOARD,.interrupt,.interrupt,.interrupt]

def linked : Stub → Word
  | .idt_keyboard => 0x2000
  | .idt_rtc => 0x3000
  | _ => 0x1000

theorem lines_refine_both : ∃ s' t, i8259_init initialized = some s' ∧
    answers (step (construct_idt linked fun _ => default)) s' both = some (t,[none,none,none,none,
      some (.enters KERNEL_CS 0x2000 true),some (.enters KERNEL_CS 0x3000 true),none]) := by
  obtain ⟨s',t,init,answered,-⟩ := lines_refine linked (fun _ => default) initialized both (by decide)
  exact ⟨s',t,init,answered⟩

end Mp3Kernel.I8259

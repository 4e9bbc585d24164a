import Mp3Kernel.Kernel.Rtc
import Mp3Kernel.Lib.Runs
import Mathlib.Logic.Function.Basic

/-!
The calls of the RTC driver, as tasks and interrupts mix them. Only the setting
of a frequency is made with interrupts off: the port accesses of `rtc_init` come
one by one, and between them those of other tasks and of the interrupt.
-/
namespace Mp3Kernel.RtcDriver
open Mp3Kernel.Memory Mp3Kernel.Rtc Mp3Kernel.Runs
universe u

abbrev STATUS_REG_B : Byte := 0x8B
abbrev STATUS_REG_C : Byte := 0x8C
abbrev BIT6_MASK : Byte := 0x40

variable {T : Type u}

/-- The chip, the flag, and for each task how far it is in `rtc_open`, before
    access 1 to 4 of `rtc_init` or at 5 behind them, and what it has read. -/
structure Driver (T : Type u) where
  chip : Chip
  interrupt_received : Int
  stage : T → Nat
  prev : T → Byte

inductive Event (T : Type u) where
  /-- `rtc_open` is called -/
  | start (task : T)
  /-- the next access of its `rtc_init` -/
  | access (task : T)
  /-- and its `rtc_set_frequency(2)` -/
  | finish (task : T)
  | write (task : T) (m : Mem) (buf : Nat)
  | close (task : T)
  /-- `rtc_process_interrupt` -/
  | interrupt

/-- The accesses of `rtc_init` in turn. -/
def rtc_init (stage : Nat) (prev : Byte) (c : Chip) : Byte × Chip :=
  match stage with
  | 2 => inb c
  | 4 => (prev,outb (prev ||| BIT6_MASK) IO_PORT c)
  -- again before the write, as the read resets the selection
  | _ => (prev,outb STATUS_REG_B REGISTER c)

def rtc_process_interrupt (d : Driver T) : Driver T :=
  { d with chip := (inb (outb STATUS_REG_C REGISTER d.chip)).2, interrupt_received := 1 }

def step [DecidableEq T] (fuel : Nat) (d : Driver T) : Event T → Option (Driver T)
  | .start task => if d.stage task = 0 then some { d with stage := Function.update d.stage task 1 } else none
  | .access task =>
    if 1 ≤ d.stage task ∧ d.stage task ≤ 4 then
      let (prev,chip) := rtc_init (d.stage task) (d.prev task) d.chip
      some { chip := chip
             interrupt_received := if d.stage task = 4 then 0 else d.interrupt_received
             stage := Function.update d.stage task (d.stage task + 1)
             prev := Function.update d.prev task prev }
    else none
  | .finish task =>
    if d.stage task = 5 then
      (rtc_set_frequency fuel 2 d.chip).map fun r =>
        { d with chip := r.2, stage := Function.update d.stage task 0 }
    else none
  | .write task m buf =>
    if d.stage task = 0 then (rtc_write fuel m buf d.chip).map fun r => { d with chip := r.2 } else none
  | .close task =>
    if d.stage task = 0 then (rtc_set_frequency fuel 2 d.chip).map fun r => { d with chip := r.2 } else none
  | .interrupt => some (rtc_process_interrupt d)

/-- An event that can come: a task makes one call at a time. -/
def Due (d : Driver T) : Event T → Prop
  | .start task | .write task _ _ | .close task => d.stage task = 0
  | .access task => 1 ≤ d.stage task ∧ d.stage task ≤ 4
  | .finish task => d.stage task = 5
  | .interrupt => True

/-! ### What the driver should do -/

/-- How often the chip ticks with a value of register A. -/
def hertz (a : Byte) : Nat :=
  let rate := (a &&& 0x0F).toNat
  if rate = 0 then 0 else if rate ≤ 2 then 512 / 2 ^ rate else 65536 / 2 ^ rate

/-- The rate after a request for a number whose power of two is `power`: that,
    if it is the number, none if it is odd, and else half the power or nothing. -/
def settle (power number rate : Nat) : Nat :=
  if power = number then power
  else if power = 1 then rate
  else if power = 2 then 0 else power / 2

def tune (frequency : Int) (rate : Nat) : Nat :=
  if frequency < 2 ∨ 1024 < frequency then rate
  else settle (Nat.gcd frequency.toNat 1024) frequency.toNat rate

def Event.tune : Event T → Nat → Nat
  | .finish _ | .close _ => RtcDriver.tune 2
  | .write _ m buf => RtcDriver.tune (load32 m buf).toInt
  | _ => id

/-- The chip raises its interrupt at that rate. -/
def Ticking (c : Chip) : Prop := c.registers 0x0B &&& BIT6_MASK ≠ 0

instance (c : Chip) : Decidable (Ticking c) := inferInstanceAs (Decidable (_ ≠ _))

/-- The rate is that of the last request, and the chip ticks on once it does. -/
structure Follows (d d' : Driver T) (evs : List (Event T)) : Prop where
  rate : hertz (d'.chip.registers 0x0A) = evs.foldl (fun rate e => e.tune rate) (hertz (d.chip.registers 0x0A))
  ticking : Ticking d.chip → Ticking d'.chip
  high : d'.chip.registers 0x0A &&& 0xF0 = d.chip.registers 0x0A &&& 0xF0
  others : ∀ r, r ≠ 0x0A → r ≠ 0x0B → d'.chip.registers r = d.chip.registers r

/-- A value written to the chip now goes to register B or nowhere. -/
def Unselected (c : Chip) : Prop := c.selected = none ∨ c.selected = some 0x0B

/-! ### Setting a frequency -/

variable {c c' : Chip} {fuel : Nat}

theorem write_rate_eq (power_of_2 : Int) (c : Chip) : (write_rate power_of_2 c).selected = none ∧
    (write_rate power_of_2 c).registers = fun r =>
      if r = 0x0A then (c.registers 0x0A &&& 0xF0) ||| ((16 - BitVec.ofInt 32 power_of_2) &&& SIXTEEN).setWidth 8
      else c.registers r := by
  constructor
  · simp [write_rate,outb,inb]
  · simp only [write_rate,outb,inb,REGISTER,IO_PORT,reduceIte]
    rfl

/-- What the recursion makes of a number with `a` factors 2. -/
theorem power_value {a m : Nat} (odd : m % 2 = 1) (small : a ≤ 10) (enough : 10 < fuel) :
    rtc_get_power_of_2 fuel ((2 ^ a * m : Nat) : Int) =
      some (if m = 1 then (a : Int) else if a = 0 then INT_MAX else a - 2147483649) := by
  rw [power_of_halvings odd (by omega)]
  congr 1
  by_cases one : m = 1
  · rw [if_pos one,if_pos one,Int.bmod_eq_of_le (by omega) (by omega)]
  · rw [if_neg one,if_neg one,Int.bmod]
    simp only [INT_MAX]
    split <;> omega

/-- The nibble that is written for it. -/
def nibble (power_of_2 : Int) : Byte := ((16 - BitVec.ofInt 32 power_of_2) &&& SIXTEEN).setWidth 8

theorem hertz_nibble : ∀ a : Fin 11, 1 ≤ a.val → hertz (nibble a.val) = 2 ^ a.val ∧
    hertz (nibble (a.val - 2147483649)) = if a.val = 1 then 0 else 2 ^ a.val / 2 := by decide

theorem hertz_low (x r : Byte) : hertz ((x &&& 0xF0) ||| r) = hertz r := by
  have apart : (0xF0 : Byte) &&& 0x0F = 0 := by decide
  have low : ((x &&& 0xF0) ||| r) &&& 0x0F = r &&& 0x0F := by
    rw [BitVec.and_or_distrib_right,BitVec.and_assoc,apart]
    simp
  simp only [hertz,low]

theorem nibble_high (x : Byte) (power_of_2 : Int) : ((x &&& 0xF0) ||| nibble power_of_2) &&& 0xF0 = x &&& 0xF0 := by
  have masks : ((SIXTEEN).setWidth 8 : Byte) &&& 0xF0 = 0 ∧ (0xF0 : Byte) &&& 0xF0 = 0xF0 := by decide
  rw [nibble,BitVec.setWidth_and,BitVec.and_or_distrib_right,BitVec.and_assoc,BitVec.and_assoc,masks.1,masks.2]
  simp

/-- A request changes the rate alone. -/
structure Tuned (frequency : Int) (c c' : Chip) : Prop where
  rate : hertz (c'.registers 0x0A) = tune frequency (hertz (c.registers 0x0A))
  high : c'.registers 0x0A &&& 0xF0 = c.registers 0x0A &&& 0xF0
  others : ∀ r, r ≠ 0x0A → c'.registers r = c.registers r
  unselected : Unselected c → Unselected c'

theorem tuned_same {frequency : Int} (refused : tune frequency (hertz (c.registers 0x0A)) = hertz (c.registers 0x0A)) :
    Tuned frequency c c := ⟨refused.symm,rfl,fun _ _ => rfl,id⟩

theorem tuned_write {frequency power_of_2 : Int}
    (set : tune frequency (hertz (c.registers 0x0A)) = hertz (nibble power_of_2)) :
    Tuned frequency c (write_rate power_of_2 c) := by
  obtain ⟨selected,registers⟩ := write_rate_eq power_of_2 c
  have rate : (write_rate power_of_2 c).registers 0x0A = (c.registers 0x0A &&& 0xF0) ||| nibble power_of_2 := by
    rw [registers]
    exact if_pos rfl
  refine ⟨?_,?_,?_,fun _ => .inl selected⟩
  · rw [rate,hertz_low,set]
  · rw [rate,nibble_high]
  · intro r other
    rw [registers]
    exact if_neg other

/-- The power of two in a number is its common divisor with 1024. -/
theorem gcd_power {a m : Nat} (odd : m % 2 = 1) (small : a ≤ 10) : Nat.gcd (2 ^ a * m) 1024 = 2 ^ a := by
  have coprime : Nat.Coprime m (2 ^ 10) := (Nat.coprime_two_right.mpr (Nat.odd_iff.mpr odd)).pow_right 10
  rw [show 1024 = 2 ^ 10 from rfl,coprime.gcd_mul_right_cancel]
  exact Nat.gcd_eq_left (pow_dvd_pow 2 small)

theorem set_frequency_tunes (frequency : Int) (enough : 10 < fuel) (c : Chip) :
    ∃ ret c', rtc_set_frequency fuel frequency c = some (ret,c') ∧ Tuned frequency c c' := by
  rw [rtc_set_frequency]
  by_cases out : frequency < 2 ∨ frequency > 1024
  · rw [if_pos out]
    exact ⟨-1,c,rfl,tuned_same (if_pos out)⟩
  rw [if_neg out]
  obtain ⟨n,rfl⟩ : ∃ n : Nat, frequency = n := ⟨frequency.toNat,by omega⟩
  obtain ⟨a,m,odd,rfl⟩ := Nat.exists_eq_two_pow_mul_odd (n := n) (by omega)
  rw [Nat.odd_iff] at odd
  have small : a ≤ 10 := by
    by_contra large
    have many : 2 ^ 11 ≤ 2 ^ a := Nat.pow_le_pow_right (by decide) (by omega)
    have below : 2 ^ a ≤ 2 ^ a * m := Nat.le_mul_of_pos_right _ (by omega)
    omega
  have tuning (rate : Nat) : tune ((2 ^ a * m : Nat) : Int) rate =
      if 2 ^ a = 2 ^ a * m then 2 ^ a else if 2 ^ a = 1 then rate else if 2 ^ a = 2 then 0 else 2 ^ a / 2 := by
    rw [tune,if_neg out,Int.toNat_natCast,gcd_power odd small,settle]
  rw [power_value odd small enough,Option.map_some]
  by_cases one : m = 1
  · subst one
    have positive : 1 ≤ a := by
      by_contra none_
      obtain rfl : a = 0 := by omega
      exact out (.inl (by decide))
    rw [if_pos rfl,if_neg (by simp only [INT_MAX]; omega)]
    refine ⟨0,_,rfl,tuned_write ?_⟩
    rw [tuning,if_pos (by omega),(hertz_nibble ⟨a,by omega⟩ positive).1]
  have whole : ¬ 2 ^ a = 2 ^ a * m := by
    intro same
    exact one (Nat.eq_of_mul_eq_mul_left (Nat.two_pow_pos a) (by omega))
  rw [if_neg one]
  by_cases even : a = 0
  · rw [if_pos even,if_pos rfl]
    refine ⟨-1,c,rfl,tuned_same ?_⟩
    rw [tuning,if_neg whole,if_pos (by rw [even]; rfl)]
  · rw [if_neg even,if_neg (by simp only [INT_MAX]; omega)]
    refine ⟨0,_,rfl,tuned_write ?_⟩
    have place : 2 ^ a = 1 ↔ a = 0 := by simp
    have first : 2 ^ a = 2 ↔ a = 1 := (Nat.pow_right_injective le_rfl).eq_iff (b := 1)
    rw [tuning,if_neg whole,if_neg (by rw [place]; exact even),(hertz_nibble ⟨a,by omega⟩ (by dsimp only; omega)).2]
    exact if_congr first rfl rfl

/-! ### Runs -/

variable {d d' : Driver T}

theorem Follows.refl (d : Driver T) : Follows d d [] := ⟨rfl,id,rfl,fun _ _ _ => rfl⟩

theorem Follows.trans {d₁ d₂ d₃ : Driver T} {xs ys : List (Event T)} (first : Follows d₁ d₂ xs) (second : Follows d₂ d₃ ys) :
    Follows d₁ d₃ (xs ++ ys) := by
  refine ⟨?_,fun ticking => second.ticking (first.ticking ticking),second.high.trans first.high,?_⟩
  · rw [List.foldl_append,← first.rate,second.rate]
  · intro r a b
    rw [second.others r a b,first.others r a b]

/-- A request, whatever becomes of the rest of the driver. -/
theorem follows_tuned {e : Event T} {frequency : Int} (tunes : e.tune = tune frequency)
    (tuned : Tuned frequency d.chip d'.chip) :
    Follows d d' [e] := by
  refine ⟨?_,?_,tuned.high,fun r a _ => tuned.others r a⟩
  · rw [List.foldl_cons,List.foldl_nil,tunes,tuned.rate]
  · intro ticking
    rw [Ticking,tuned.others 0x0B (by decide)]
    exact ticking

/-- What changes register B at most, and sets its bit then. -/
theorem follows_apart {e : Event T} (idle : e.tune = id) (same : ∀ r, r ≠ 0x0B → d'.chip.registers r = d.chip.registers r)
    (bit : d'.chip.registers 0x0B = d.chip.registers 0x0B ∨ Ticking d'.chip) : Follows d d' [e] := by
  have rate := same 0x0A (by decide)
  refine ⟨?_,?_,by rw [rate],fun r _ b => same r b⟩
  · rw [List.foldl_cons,List.foldl_nil,idle,rate]
    rfl
  · intro ticking
    rcases bit with kept | set
    · rw [Ticking,kept]
      exact ticking
    · exact set

theorem interrupt_registers (c : Chip) : (inb (outb STATUS_REG_C REGISTER c)).2.registers = c.registers ∧
    (inb (outb STATUS_REG_C REGISTER c)).2.selected = none := by
  simp [outb,inb]

/-- The last access of `rtc_init` sets the bit, unless something came between. -/
theorem last_access (prev : Byte) (unselected : Unselected c) :
    (rtc_init 4 prev c).2.selected = none ∧ (∀ r, r ≠ 0x0B → (rtc_init 4 prev c).2.registers r = c.registers r) ∧
      if c.selected = none then (rtc_init 4 prev c).2.registers = c.registers else Ticking (rtc_init 4 prev c).2 := by
  have set (x : Byte) : (x ||| BIT6_MASK) &&& BIT6_MASK ≠ 0 := by
    intro clear
    have bit := congrArg (fun b => BitVec.getLsbD b 6) clear
    simp at bit
  rcases unselected with none_ | selected
  · simp [rtc_init,outb,none_]
  · refine ⟨?_,?_,?_⟩
    · simp [rtc_init,outb,selected]
    · intro r other
      simp only [rtc_init,outb,selected,IO_PORT,REGISTER]
      exact if_neg other
    · rw [if_neg (by rw [selected]; exact Option.some_ne_none _)]
      simpa [rtc_init,outb,selected,Ticking] using set prev

/-- What any access of it changes. -/
theorem rtc_init_changes (stage : Nat) (prev : Byte) (unselected : Unselected c) :
    Unselected (rtc_init stage prev c).2 ∧ (∀ r, r ≠ 0x0B → (rtc_init stage prev c).2.registers r = c.registers r) ∧
      ((rtc_init stage prev c).2.registers 0x0B = c.registers 0x0B ∨ Ticking (rtc_init stage prev c).2) := by
  by_cases read : stage = 2
  · subst read
    rcases unselected with none_ | selected
    · simp [rtc_init,inb,none_,Unselected]
    · simp [rtc_init,inb,selected,Unselected]
  by_cases written : stage = 4
  · subst written
    obtain ⟨none_,others,bit⟩ := last_access prev unselected
    refine ⟨.inl none_,others,?_⟩
    split at bit
    · exact .inl (by rw [bit])
    · exact .inr bit
  · have selects : rtc_init stage prev c = (prev,outb STATUS_REG_B REGISTER c) := by
      unfold rtc_init
      split
      · exact absurd rfl read
      · exact absurd rfl written
      · rfl
    rw [selects]
    exact ⟨.inr rfl,fun _ _ => rfl,.inl rfl⟩

/-- One event. -/
theorem step_follows [DecidableEq T] {e : Event T} (enough : 10 < fuel) (unselected : Unselected d.chip)
    (taken : step fuel d e = some d') : Follows d d' [e] ∧ Unselected d'.chip := by
  have request (frequency : Int) (build : Chip → Driver T) (chip : ∀ c, (build c).chip = c) (tunes : e.tune = tune frequency)
      (made : (rtc_set_frequency fuel frequency d.chip).map (fun r => build r.2) = some d') :
      Follows d d' [e] ∧ Unselected d'.chip := by
    obtain ⟨ret,c',called,tuned⟩ := set_frequency_tunes frequency enough d.chip
    rw [called] at made
    obtain rfl := Option.some.inj made
    have built : (build c').chip = c' := chip c'
    exact ⟨follows_tuned tunes (by rw [built]; exact tuned),by rw [built]; exact tuned.unselected unselected⟩
  cases e with
  | start task =>
    rw [step] at taken
    split at taken
    · obtain rfl := Option.some.inj taken
      exact ⟨follows_apart rfl (fun _ _ => rfl) (.inl rfl),unselected⟩
    · cases taken
  | access task =>
    rw [step] at taken
    split at taken
    case isFalse => cases taken
    case isTrue =>
      obtain rfl := Option.some.inj taken
      obtain ⟨after,others,bit⟩ := rtc_init_changes (d.stage task) (d.prev task) unselected
      exact ⟨follows_apart rfl others bit,after⟩
  | finish task =>
    rw [step] at taken
    split at taken
    · exact request 2 (fun c => { d with chip := c, stage := Function.update d.stage task 0 }) (fun _ => rfl) rfl taken
    · cases taken
  | write task m buf =>
    rw [step] at taken
    split at taken
    · exact request (load32 m buf).toInt (fun c => { d with chip := c }) (fun _ => rfl) rfl taken
    · cases taken
  | close task =>
    rw [step] at taken
    split at taken
    · exact request 2 (fun c => { d with chip := c }) (fun _ => rfl) rfl taken
    · cases taken
  | interrupt =>
    obtain rfl := Option.some.inj taken
    obtain ⟨registers,selected⟩ := interrupt_registers d.chip
    have same : (rtc_process_interrupt d).chip.registers = d.chip.registers := registers
    refine ⟨follows_apart rfl (fun _ _ => by rw [same]) (.inl (by rw [same])),.inl selected⟩

/-- No call hangs. -/
theorem step_due [DecidableEq T] {e : Event T} (enough : 10 < fuel) (due : Due d e) : ∃ d', step fuel d e = some d' := by
  have request (frequency : Int) (build : Chip → Driver T) :
      ∃ d', (rtc_set_frequency fuel frequency d.chip).map (fun r => build r.2) = some d' := by
    obtain ⟨ret,c',called,-⟩ := set_frequency_tunes frequency enough d.chip
    rw [called]
    exact ⟨build c',rfl⟩
  cases e with
  | start task => exact ⟨_,if_pos due⟩
  | access task => exact ⟨_,if_pos due⟩
  | finish task =>
    simp only [Due] at due
    rw [step,if_pos due]
    exact request 2 (fun c => { d with chip := c, stage := Function.update d.stage task 0 })
  | write task m buf =>
    simp only [Due] at due
    rw [step,if_pos due]
    exact request (load32 m buf).toInt (fun c => { d with chip := c })
  | close task =>
    simp only [Due] at due
    rw [step,if_pos due]
    exact request 2 (fun c => { d with chip := c })
  | interrupt => exact ⟨_,rfl⟩

/-- A run, by induction on its events. -/
theorem run_follows [DecidableEq T] {evs : List (Event T)} (enough : 10 < fuel) (unselected : Unselected d.chip)
    (ran : run (step fuel) d evs = some d') : Follows d d' evs ∧ Unselected d'.chip := by
  induction evs generalizing d with
  | nil =>
    obtain rfl := Option.some.inj ran
    exact ⟨Follows.refl d,unselected⟩
  | cons e evs ih =>
    obtain ⟨d₁,taken,later⟩ := run_cons_eq_some.mp ran
    obtain ⟨first,between⟩ := step_follows enough unselected taken
    obtain ⟨rest,after⟩ := ih between later
    exact ⟨first.trans rest,after⟩

/-- An access moves its task on. -/
theorem access_taken [DecidableEq T] {task : T} (taken : step fuel d (.access task) = some d') :
    d'.chip = (rtc_init (d.stage task) (d.prev task) d.chip).2 ∧ d'.stage task = d.stage task + 1 := by
  rw [step] at taken
  split at taken
  · obtain rfl := Option.some.inj taken
    exact ⟨rfl,Function.update_self _ _ _⟩
  · cases taken

/-- No call has been made. -/
def unopened : Driver (Fin 2) := ⟨⟨none,fun _ => 0,[]⟩,0,fun _ => 0,fun _ => 0⟩

/-- Each of two tasks takes the selection away before the other's last access:
    both have opened the device, and it does not tick. -/
theorem opened_silent : (run (step 11) unopened
    [.start 0,.access 0,.access 0,.access 0,.start 1,.access 1,.access 1,.access 0,.finish 0,.access 1,
      .write 0 (store32 (fun _ => 0) 0 64) 0,.access 1,.finish 1]).map
      (fun d => (d.stage 0,d.stage 1,decide (Ticking d.chip))) = some (0,0,false) := by
  decide

end Mp3Kernel.RtcDriver

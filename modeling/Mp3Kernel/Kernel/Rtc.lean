import Mp3Kernel.Kernel.UserPointers
import Mathlib.Data.Nat.Factorization.Basic
import Mathlib.Tactic.Ring

/-!
The rate of the RTC. `rtc_get_power_of_2` halves a number down to its odd
factor and adds one on each return, also to the INT_MAX that stands for an odd
factor other than 1.
-/
namespace Mp3Kernel.Rtc
open Mp3Kernel.Memory

abbrev REGISTER : Nat := 0x70
abbrev IO_PORT : Nat := 0x71
abbrev STATUS_REG_A : Byte := 0x8A
abbrev INT_MAX : Int := 0x7FFFFFFF
abbrev SIXTEEN : Word := 0x0F
abbrev TOP4BITS : Byte := 0xF0

/-- The chip behind the two ports: the register selected for the next access,
    its registers, and all that was written to the ports. -/
structure Chip where
  selected : Option Byte
  registers : Byte → Byte
  writes : List (Nat × Byte)

def outb (data : Byte) (port : Nat) (c : Chip) : Chip :=
  let c := { c with writes := c.writes ++ [(port,data)] }
  if port = REGISTER then
    -- the top bit masks the NMI
    { c with selected := some (data &&& 0x7F) }
  else match c.selected with
  | some r => { c with selected := none, registers := fun q => if q = r then data else c.registers q }
  | none => c

/-- A read of `IO_PORT`, which resets the selection. -/
def inb (c : Chip) : Byte × Chip :=
  match c.selected with
  | some r => (c.registers r,{ c with selected := none })
  | none => (0,c)

/-- With `fuel` calls on the stack at most. -/
def rtc_get_power_of_2 : Nat → Int → Option Int
  | 0, _ => none
  | fuel + 1, number =>
    if number = 1 then some 0
    else if number.tmod 2 = 1 then some INT_MAX
    else (rtc_get_power_of_2 fuel (number.tdiv 2)).map fun power => i32 (u32 (1 + power))

/-- The accesses at the end of `rtc_set_frequency`. -/
def write_rate (power_of_2 : Int) (c : Chip) : Chip :=
  let rate := (16 - BitVec.ofInt 32 power_of_2) &&& SIXTEEN
  let c := outb STATUS_REG_A REGISTER c
  let (prev,c) := inb c
  let c := outb STATUS_REG_A REGISTER c
  outb ((prev &&& TOP4BITS) ||| rate.setWidth 8) IO_PORT c

/-- With interrupts off throughout. -/
def rtc_set_frequency (fuel : Nat) (frequency : Int) (c : Chip) : Option (Int × Chip) :=
  if frequency < 2 ∨ frequency > 1024 then some (-1,c)
  else (rtc_get_power_of_2 fuel frequency).map fun power_of_2 =>
    if power_of_2 = INT_MAX then (-1,c) else (0,write_rate power_of_2 c)

def rtc_write (fuel : Nat) (m : Mem) (buf : Nat) (c : Chip) : Option (Int × Chip) :=
  rtc_set_frequency fuel (load32 m buf).toInt c

/-! ### What is expected -/

/-- The recursion ends with the value. -/
def PowerReturns (number power : Int) : Prop :=
  ∃ fuel, ∀ more, fuel ≤ more → rtc_get_power_of_2 more number = some power

/-- The call ends with the value and leaves the chip so. -/
def Returns (frequency : Int) (c : Chip) (ret : Int) (c' : Chip) : Prop :=
  ∃ fuel, ∀ more, fuel ≤ more → rtc_set_frequency more frequency c = some (ret,c')

/-- What `rtc_get_power_of_2` should return. -/
structure Logarithm (number : Int) : Prop where
  power : ∀ k : Nat, number = 2 ^ k → PowerReturns number k
  other : (¬ ∃ k : Nat, number = 2 ^ k) → PowerReturns number INT_MAX

/-- The rate is set in the low half of register A, whose high half stays. -/
structure RateSet (k : Nat) (c c' : Chip) : Prop where
  registers : c'.registers = fun r =>
    if r = 0x0A then (c.registers 0x0A &&& 0xF0) ||| BitVec.ofNat 8 (16 - k) else c.registers r
  writes : c'.writes = c.writes ++ [(REGISTER,STATUS_REG_A),(REGISTER,STATUS_REG_A),
    (IO_PORT,(c.registers 0x0A &&& 0xF0) ||| BitVec.ofNat 8 (16 - k))]

/-- What `rtc_set_frequency` should do. -/
structure SetsRate (frequency : Int) : Prop where
  rate : ∀ k : Nat, 1 ≤ k → k ≤ 10 → frequency = 2 ^ k → ∀ c, ∃ c', Returns frequency c 0 c' ∧ RateSet k c c'
  refused : (¬ ∃ k : Nat, 1 ≤ k ∧ k ≤ 10 ∧ frequency = 2 ^ k) → ∀ c, Returns frequency c (-1) c

/-! ### The recursion -/

/-- A sum stored in 32 bits wraps around. -/
theorem i32_u32_wraps (x : Int) : i32 (u32 x) = x.bmod (2 ^ 32) := by
  have stored : BitVec.ofNat 32 (u32 x) = BitVec.ofInt 32 x := by
    apply BitVec.eq_of_toNat_eq
    rw [BitVec.toNat_ofNat,BitVec.toNat_ofInt,u32]
    omega
  rw [i32,stored,BitVec.toInt_ofInt]

/-- The value for an odd factor `m` under `a` halvings. -/
theorem power_of_halvings {a m more : Nat} (odd : m % 2 = 1) (enough : a < more) :
    rtc_get_power_of_2 more ((2 ^ a * m : Nat) : Int) =
      some ((if m = 1 then (a : Int) else INT_MAX + a).bmod (2 ^ 32)) := by
  induction a generalizing more with
  | zero =>
    obtain ⟨fuel,rfl⟩ : ∃ fuel, more = fuel + 1 := ⟨more - 1,by omega⟩
    rw [rtc_get_power_of_2,pow_zero,one_mul]
    by_cases one : m = 1
    · rw [if_pos (by rw [one]; rfl),if_pos one]
      rfl
    · rw [if_neg (by omega),if_pos (by rw [Int.tmod_eq_emod_of_nonneg (by omega)]; omega),if_neg one]
      rfl
  | succ a ih =>
    obtain ⟨fuel,rfl⟩ : ∃ fuel, more = fuel + 1 := ⟨more - 1,by omega⟩
    have twice : ((2 ^ (a + 1) * m : Nat) : Int) = 2 * (2 ^ a * m : Nat) := by
      push_cast
      ring
    have half : (2 * ((2 ^ a * m : Nat) : Int)).tdiv 2 = (2 ^ a * m : Nat) := Int.mul_tdiv_cancel_left _ (by decide)
    rw [twice,rtc_get_power_of_2,if_neg (by omega),if_neg (by rw [Int.tmod_eq_emod_of_nonneg (by omega)]; omega),half,ih (by omega),Option.map_some,
      i32_u32_wraps,Int.add_bmod_bmod]
    congr 2
    split
    · push_cast; ring
    · push_cast; ring

theorem odd_factor_of_power {a k m : Nat} (odd : m % 2 = 1) (power : 2 ^ k = 2 ^ a * m) : m = 1 := by
  have coprime : Nat.Coprime m (2 ^ k) := (Nat.coprime_two_right.mpr (Nat.odd_iff.mpr odd)).pow_right k
  exact coprime.eq_one_of_dvd ⟨2 ^ a,by rw [power,Nat.mul_comm]⟩

/-- Two runs with fuel enough for both return the same. -/
theorem enough_unique {α : Type} {run : Nat → Option α} {a b : α} {few few' : Nat}
    (first : ∀ fuel, few ≤ fuel → run fuel = some a) (second : ∀ fuel, few' ≤ fuel → run fuel = some b) : a = b := by
  have same := (first (max few few') (le_max_left _ _)).symm.trans (second (max few few') (le_max_right _ _))
  exact Option.some.inj same

theorem PowerReturns.unique {number p q : Int} (first : PowerReturns number p) (second : PowerReturns number q) : p = q := by
  obtain ⟨_,first⟩ := first
  obtain ⟨_,second⟩ := second
  exact enough_unique first second

/-- Whatever a positive number is, the recursion ends: with its exponent if it
    is a power of two, with INT_MAX if it is odd, and else with a sum that
    wrapped. -/
theorem power_cases (number : Int) (positive : 0 < number) (fits : number < 2147483648) :
    (∃ k : Nat, number = 2 ^ k ∧ PowerReturns number k) ∨
    (¬ ∃ k : Nat, number = 2 ^ k) ∧
      (number % 2 = 1 ∧ PowerReturns number INT_MAX ∨ number % 2 = 0 ∧ ∃ p, p ≠ INT_MAX ∧ PowerReturns number p) := by
  obtain ⟨n,rfl⟩ : ∃ n : Nat, number = n := ⟨number.toNat,by omega⟩
  obtain ⟨a,m,odd,rfl⟩ := Nat.exists_eq_two_pow_mul_odd (n := n) (by omega)
  rw [Nat.odd_iff] at odd
  have small : a < 31 := by
    by_contra large
    have : 2 ^ 31 ≤ 2 ^ a := Nat.pow_le_pow_right (by decide) (by omega)
    have : 2 ^ a ≤ 2 ^ a * m := Nat.le_mul_of_pos_right _ (by omega)
    omega
  have returns : PowerReturns ((2 ^ a * m : Nat) : Int) ((if m = 1 then (a : Int) else INT_MAX + a).bmod (2 ^ 32)) :=
    ⟨a + 1,fun more enough => power_of_halvings odd (by omega)⟩
  by_cases one : m = 1
  · left
    rw [if_pos one,Int.bmod_eq_of_le (by omega) (by omega)] at returns
    exact ⟨a,by rw [one]; push_cast; ring,returns⟩
  · right
    refine ⟨?_,?_⟩
    · rintro ⟨k,power⟩
      exact one (odd_factor_of_power (a := a) (k := k) odd (by exact_mod_cast power.symm))
    · rw [if_neg one] at returns
      by_cases none_ : a = 0
      · left
        subst none_
        exact ⟨by rw [pow_zero,one_mul]; omega,returns⟩
      · right
        obtain ⟨b,rfl⟩ : ∃ b, a = b + 1 := ⟨a - 1,by omega⟩
        refine ⟨by rw [pow_succ,Nat.mul_right_comm]; omega,_,?_,returns⟩
        rw [Int.bmod]
        simp only [INT_MAX]
        omega

/-! ### The rate -/

theorem write_rate_set {k : Nat} (low : 1 ≤ k) (high : k ≤ 10) (c : Chip) : RateSet k c (write_rate k c) := by
  have rates : ∀ k : Fin 11, 1 ≤ k.val →
      ((16 - BitVec.ofInt 32 k.val) &&& SIXTEEN).setWidth 8 = BitVec.ofNat 8 (16 - k.val) := by decide
  have rate := rates ⟨k,by omega⟩ low
  constructor
  · simp only [write_rate,outb,inb,REGISTER,IO_PORT,reduceIte,rate]
    rfl
  · simp only [write_rate,outb,inb,REGISTER,IO_PORT,reduceIte,rate,List.append_assoc]
    rfl

theorem returns_refused {frequency : Int} (out : frequency < 2 ∨ frequency > 1024) (c : Chip) :
    Returns frequency c (-1) c :=
  ⟨0,fun _ _ => if_pos out⟩

/-- What the call does follows from the value of the recursion. -/
theorem returns_of_power {frequency power_of_2 : Int} (low : 2 ≤ frequency) (high : frequency ≤ 1024)
    (returns : PowerReturns frequency power_of_2) (c : Chip) :
    if power_of_2 = INT_MAX then Returns frequency c (-1) c else Returns frequency c 0 (write_rate power_of_2 c) := by
  obtain ⟨fuel,returns⟩ := returns
  have called (more : Nat) (enough : fuel ≤ more) : rtc_set_frequency more frequency c =
      some (if power_of_2 = INT_MAX then (-1,c) else (0,write_rate power_of_2 c)) := by
    rw [rtc_set_frequency,if_neg (by omega),returns more enough,Option.map_some]
  split
  · exact ⟨fuel,fun more enough => by rw [called more enough,if_pos ‹_›]⟩
  · exact ⟨fuel,fun more enough => by rw [called more enough,if_neg ‹_›]⟩

theorem Returns.unique {frequency ret ret' : Int} {c d d' : Chip} (first : Returns frequency c ret d)
    (second : Returns frequency c ret' d') : ret = ret' := by
  obtain ⟨_,first⟩ := first
  obtain ⟨_,second⟩ := second
  exact congrArg Prod.fst (enough_unique first second)

theorem power_bounded {k : Nat} (high : (2 : Int) ^ k ≤ 1024) : k ≤ 10 := by
  by_contra large
  have : (2 : Nat) ^ 11 ≤ 2 ^ k := Nat.pow_le_pow_right (by decide) (by omega)
  have : (2 : Nat) ^ k ≤ 1024 := by exact_mod_cast high
  omega

/-- The rates that should be accepted lie in the range that is checked first. -/
theorem rate_range {frequency : Int} {k : Nat} (low : 1 ≤ k) (high : k ≤ 10) (power : frequency = 2 ^ k) :
    2 ≤ frequency ∧ frequency ≤ 1024 := by
  have least : (2 : Int) ^ 1 ≤ 2 ^ k := pow_le_pow_right₀ (by decide) low
  have most : (2 : Int) ^ k ≤ 2 ^ 10 := pow_le_pow_right₀ (by decide) high
  omega

theorem sets_rate_iff {frequency : Int} : SetsRate frequency ↔
    frequency < 2 ∨ 1024 < frequency ∨ frequency % 2 = 1 ∨ ∃ k : Nat, frequency = 2 ^ k := by
  by_cases out : frequency < 2 ∨ 1024 < frequency
  · refine iff_of_true ⟨?_,?_⟩ (or_assoc.mp (.inl out))
    · intro k low high power
      have := rate_range low high power
      omega
    · exact fun _ c => returns_refused out c
  · have range : 2 ≤ frequency ∧ frequency ≤ 1024 := by omega
    rcases power_cases frequency (by omega) (by omega) with
      ⟨k,power,returns⟩ | ⟨other,⟨odd,returns⟩ | ⟨even,p,wrapped,returns⟩⟩
    · have high := power_bounded (k := k) (by omega)
      refine iff_of_true ⟨?_,?_⟩ (.inr (.inr (.inr ⟨k,power⟩)))
      · intro l above below power'
        have same : l = k := Nat.pow_right_injective le_rfl (by exact_mod_cast power'.symm.trans power)
        intro c
        have called := returns_of_power range.1 range.2 returns c
        rw [if_neg (by simp only [INT_MAX]; omega)] at called
        rw [same]
        exact ⟨_,called,write_rate_set (same ▸ above) high c⟩
      · intro other
        have positive : 1 ≤ k := by
          by_contra zero
          obtain rfl : k = 0 := by omega
          rw [pow_zero] at power
          omega
        exact absurd ⟨k,positive,high,power⟩ other
    · refine iff_of_true ⟨?_,?_⟩ (.inr (.inr (.inl odd)))
      · exact fun k _ _ power => absurd ⟨k,power⟩ other
      · intro _ c
        have called := returns_of_power range.1 range.2 returns c
        rwa [if_pos rfl] at called
    · refine iff_of_false ?_ ?_
      · rintro ⟨-,refused⟩
        have missing : ¬ ∃ k : Nat, 1 ≤ k ∧ k ≤ 10 ∧ frequency = 2 ^ k := fun ⟨k,_,_,power⟩ => other ⟨k,power⟩
        have c : Chip := ⟨none,fun _ => 0,[]⟩
        have called := returns_of_power range.1 range.2 returns c
        rw [if_neg wrapped] at called
        exact absurd ((refused missing c).unique called) (by decide)
      · rintro (low | high | odd | power)
        · omega
        · omega
        · omega
        · exact other power

theorem logarithm_iff {number : Int} (positive : 0 < number) (fits : number < 2147483648) :
    Logarithm number ↔ number % 2 = 1 ∨ ∃ k : Nat, number = 2 ^ k := by
  rcases power_cases _ positive fits with ⟨k,power,returns⟩ | ⟨other,⟨odd,returns⟩ | ⟨even,p,wrapped,returns⟩⟩
  · refine iff_of_true ⟨?_,fun other => absurd ⟨k,power⟩ other⟩ (.inr ⟨k,power⟩)
    intro l power'
    have same : l = k := Nat.pow_right_injective le_rfl (by exact_mod_cast power'.symm.trans power)
    rw [same]
    exact returns
  · exact iff_of_true ⟨fun k power => absurd ⟨k,power⟩ other,fun _ => returns⟩ (.inl odd)
  · refine iff_of_false ?_ ?_
    · rintro ⟨-,returns'⟩
      exact wrapped (returns.unique (returns' other))
    · rintro (odd | power)
      · omega
      · exact other power

/-- Which frequencies are treated as they should be, and for which numbers the
    recursion returns what it should. -/
theorem frequencies_set_iff (frequency : Word) :
    (SetsRate frequency.toInt ↔ frequency.toInt < 2 ∨ 1024 < frequency.toInt ∨ frequency.toInt % 2 = 1 ∨
      ∃ k : Nat, frequency.toInt = 2 ^ k) ∧
    (0 < frequency.toInt → (Logarithm frequency.toInt ↔ frequency.toInt % 2 = 1 ∨ ∃ k : Nat, frequency.toInt = 2 ^ k)) :=
  ⟨sets_rate_iff,fun positive => logarithm_iff positive frequency.toInt_lt⟩

/-- A request for 6 Hz succeeds and sets the rate 0. -/
theorem six_accepted : ¬ SetsRate 6 ∧ ∀ c, ∃ c', Returns 6 c 0 c' ∧ c'.registers 0x0A = c.registers 0x0A &&& 0xF0 := by
  have wrapped : PowerReturns 6 (-2147483648) := ⟨2,fun more enough => power_of_halvings (a := 1) (m := 3) rfl enough⟩
  have accepted (c : Chip) := returns_of_power (by decide) (by decide) wrapped c
  constructor
  · rw [sets_rate_iff]
    rintro (low | high | odd | ⟨k,power⟩)
    · exact absurd low (by decide)
    · exact absurd high (by decide)
    · exact absurd odd (by decide)
    · have three := odd_factor_of_power (a := 1) (k := k) (m := 3) rfl (by exact_mod_cast power.symm)
      exact absurd three (by decide)
  · intro c
    refine ⟨_,accepted c,?_⟩
    simp [write_rate,outb,inb,REGISTER,IO_PORT]

/-- The value returned is that of the model without ports. -/
theorem returns_without_ports (frequency : Word) (c : Chip) :
    ∃ c', Returns frequency.toInt c (UserPointers.rtc_set_frequency frequency.toInt) c' := by
  have refuses := UserPointers.rtc_set_frequency_refuses_iff frequency.toInt
  have accepts (other : ¬ UserPointers.rtc_set_frequency frequency.toInt = -1) :
      UserPointers.rtc_set_frequency frequency.toInt = 0 := by
    rw [UserPointers.rtc_set_frequency] at other ⊢
    split_ifs at other ⊢ <;> first | rfl | exact absurd rfl other
  by_cases out : frequency.toInt < 2 ∨ frequency.toInt > 1024
  · rw [refuses.mpr (or_assoc.mp (.inl out))]
    exact ⟨c,returns_refused out c⟩
  · have range : 2 ≤ frequency.toInt ∧ frequency.toInt ≤ 1024 := by omega
    have called {p : Int} (returns : PowerReturns frequency.toInt p) := returns_of_power range.1 range.2 returns c
    rcases power_cases frequency.toInt (by omega) frequency.toInt_lt with
      ⟨k,power,returns⟩ | ⟨-,⟨odd,returns⟩ | ⟨even,p,wrapped,returns⟩⟩
    · have small := power_bounded (k := k) (by omega)
      have even : frequency.toInt % 2 ≠ 1 := by
        cases k with
        | zero => rw [pow_zero] at power; omega
        | succ k => rw [power,pow_succ]; omega
      rw [accepts (fun refused => by have := refuses.mp refused; omega)]
      have done := called returns
      rw [if_neg (by simp only [INT_MAX]; omega)] at done
      exact ⟨_,done⟩
    · rw [refuses.mpr (.inr (.inr odd))]
      exact ⟨c,by simpa using called returns⟩
    · rw [accepts (fun refused => by have := refuses.mp refused; omega)]
      have done := called returns
      rw [if_neg wrapped] at done
      exact ⟨_,done⟩

/-- A write to the device returns what the model of the system call has. -/
theorem rtc_write_returns (m : Mem) (buf : Nat) (c : Chip) : ∃ fuel c', ∀ more, fuel ≤ more →
    rtc_write more m buf c = some (UserPointers.rtc_set_frequency (load32 m buf).toInt,c') := by
  obtain ⟨c',fuel,returns⟩ := returns_without_ports (load32 m buf) c
  exact ⟨fuel,c',returns⟩

end Mp3Kernel.Rtc

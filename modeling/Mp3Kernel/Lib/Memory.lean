import Mathlib.Data.Nat.Basic
import Mathlib.Tactic.SplitIfs

/-!
Machine integers, and a byte-addressed memory with little-endian 32-bit words.
Loads after stores reduce to a comparison of addresses, and a bulk store of
bytes leaves every word outside its range alone.
-/
namespace Mp3Kernel.Memory

abbrev Byte := BitVec 8
abbrev Half := BitVec 16
abbrev Word := BitVec 32

/-- A character constant. -/
def ascii (ch : Char) : Byte := BitVec.ofNat 8 ch.toNat

/-- A 32-bit value read as a signed number, -/
def i32 (n : Nat) : Int := (BitVec.ofNat 32 n).toInt
/-- and a signed number stored in 32 bits. -/
def u32 (n : Int) : Nat := (n % 4294967296).toNat

theorem i32_small {n : Nat} (small : n < 2147483648) : i32 n = n := by
  have value : (BitVec.ofNat 32 n).toNat = n := by rw [BitVec.toNat_ofNat]; omega
  rw [i32,BitVec.toInt_eq_toNat_of_lt (by rw [value]; omega),value]

theorem i32_le (n : Nat) : i32 n ≤ n := by
  rw [i32,BitVec.toInt_eq_toNat_cond,BitVec.toNat_ofNat]
  have below := Nat.mod_le n (2 ^ 32)
  split <;> omega

theorem u32_small {n : Int} (low : 0 ≤ n) (high : n < 4294967296) : u32 n = n.toNat := by
  rw [u32,Int.emod_eq_of_lt low high]

/-- The byte at each address. -/
abbrev Mem := Nat → Byte

/-- The little-endian word at an address. -/
def load32 (m : Mem) (a : Nat) : Word := m (a + 3) ++ m (a + 2) ++ m (a + 1) ++ m a

def store32 (m : Mem) (a : Nat) (v : Word) : Mem := fun b =>
  if b = a then v.extractLsb' 0 8 else
  if b = a + 1 then v.extractLsb' 8 8 else
  if b = a + 2 then v.extractLsb' 16 8 else
  if b = a + 3 then v.extractLsb' 24 8 else m b

/-- Bytes written to consecutive addresses, the first one at `a`. -/
def storeBytes (m : Mem) (a : Nat) (bytes : List Byte) : Mem := fun b =>
  if a ≤ b ∧ b < a + bytes.length then bytes.getD (b - a) 0 else m b

theorem load32_congr {m m' : Mem} {a : Nat} (same : ∀ b, a ≤ b → b < a + 4 → m b = m' b) :
    load32 m a = load32 m' a := by
  simp only [load32,same a (by omega) (by omega),same (a + 1) (by omega) (by omega),
    same (a + 2) (by omega) (by omega),same (a + 3) (by omega) (by omega)]

theorem word_of_bytes (v : Word) :
    (v.extractLsb' 24 8 ++ v.extractLsb' 16 8 ++ v.extractLsb' 8 8 ++ v.extractLsb' 0 8 : Word) = v := by
  apply BitVec.eq_of_getLsbD_eq
  intro i inside
  simp only [BitVec.getLsbD_append,BitVec.getLsbD_extractLsb']
  by_cases first : i < 8
  · simp [first]
  · by_cases second : i - 8 < 8
    · simp [first,second]; congr 1; omega
    · by_cases third : i - 8 - 8 < 8
      · simp [first,second,third]; congr 1; omega
      · have fourth : i - 8 - 8 - 8 < 8 := by omega
        simp [first,second,third,fourth]; congr 1; omega

@[simp] theorem load32_store32_same (m : Mem) (a : Nat) (v : Word) : load32 (store32 m a v) a = v := by
  have bytes : store32 m a v a = v.extractLsb' 0 8 ∧ store32 m a v (a + 1) = v.extractLsb' 8 8 ∧
      store32 m a v (a + 2) = v.extractLsb' 16 8 ∧ store32 m a v (a + 3) = v.extractLsb' 24 8 := by
    simp [store32]
  obtain ⟨b0,b1,b2,b3⟩ := bytes
  rw [load32,b0,b1,b2,b3]
  exact word_of_bytes v

theorem store32_outside {m : Mem} {a b : Nat} (v : Word) (apart : b < a ∨ a + 4 ≤ b) :
    store32 m a v b = m b := by
  simp only [store32]
  rw [if_neg (by omega),if_neg (by omega),if_neg (by omega),if_neg (by omega)]

/-- A word is overwritten by the next one stored over it. -/
theorem store32_store32_same (m : Mem) (a : Nat) (v w : Word) : store32 (store32 m a v) a w = store32 m a w := by
  funext b
  by_cases outside : b < a ∨ a + 4 ≤ b
  · rw [store32_outside w outside,store32_outside v outside,store32_outside w outside]
  · obtain rfl | rfl | rfl | rfl : b = a ∨ b = a + 1 ∨ b = a + 2 ∨ b = a + 3 := by omega
    all_goals simp [store32]

/-- Stores of two words that share no byte can be exchanged. -/
theorem store32_comm {a b : Nat} (m : Mem) (v w : Word) (apart : a + 4 ≤ b ∨ b + 4 ≤ a) :
    store32 (store32 m a v) b w = store32 (store32 m b w) a v := by
  have first (m : Mem) {c : Nat} (low : a ≤ c) (high : c < a + 4) : store32 m b w c = m c :=
    store32_outside w (by omega)
  funext c
  by_cases outside : c < a ∨ a + 4 ≤ c
  · rw [store32_outside v outside]
    simp only [store32]
    split_ifs <;> first | rfl | omega
  · rw [first _ (by omega) (by omega)]
    simp only [store32]
    split_ifs <;> first | rfl | omega

theorem load32_store32_apart {m : Mem} {a b : Nat} (v : Word) (apart : b + 4 ≤ a ∨ a + 4 ≤ b) :
    load32 (store32 m a v) b = load32 m b :=
  load32_congr (fun _ low high => store32_outside v (by omega))

theorem storeBytes_outside {m : Mem} {a b : Nat} {bytes : List Byte}
    (apart : b < a ∨ a + bytes.length ≤ b) : storeBytes m a bytes b = m b := by
  rw [storeBytes,if_neg (by omega)]

theorem storeBytes_inside {m : Mem} {a i : Nat} {bytes : List Byte} (inside : i < bytes.length) :
    storeBytes m a bytes (a + i) = bytes[i] := by
  rw [storeBytes,if_pos (by omega)]
  simp [inside]

theorem load32_storeBytes_apart {m : Mem} {a b : Nat} {bytes : List Byte}
    (apart : b + 4 ≤ a ∨ a + bytes.length ≤ b) : load32 (storeBytes m a bytes) b = load32 m b :=
  load32_congr (fun _ low high => storeBytes_outside (by omega))

/-! ### Half words -/

def load16 (m : Mem) (a : Nat) : Half := m (a + 1) ++ m a

def store16 (m : Mem) (a : Nat) (v : Half) : Mem := fun b =>
  if b = a then v.extractLsb' 0 8 else if b = a + 1 then v.extractLsb' 8 8 else m b

theorem half_of_bytes (v : Half) : (v.extractLsb' 8 8 ++ v.extractLsb' 0 8 : Half) = v := by
  apply BitVec.eq_of_getLsbD_eq
  intro i inside
  simp only [BitVec.getLsbD_append,BitVec.getLsbD_extractLsb']
  by_cases first : i < 8
  · simp [first]
  · have second : i - 8 < 8 := by omega
    simp [first,second]; congr 1; omega

@[simp] theorem load16_store16_same (m : Mem) (a : Nat) (v : Half) : load16 (store16 m a v) a = v := by
  have bytes : store16 m a v a = v.extractLsb' 0 8 ∧ store16 m a v (a + 1) = v.extractLsb' 8 8 := by
    simp [store16]
  rw [load16,bytes.1,bytes.2]
  exact half_of_bytes v

/-- The low half of a stored word comes first. -/
theorem load16_store32_same (m : Mem) (a : Nat) (v : Word) : load16 (store32 m a v) a = v.setWidth 16 := by
  have bytes : store32 m a v a = v.extractLsb' 0 8 ∧ store32 m a v (a + 1) = v.extractLsb' 8 8 := by
    simp [store32]
  rw [load16,bytes.1,bytes.2]
  apply BitVec.eq_of_getLsbD_eq
  intro i inside
  simp only [BitVec.getLsbD_append,BitVec.getLsbD_extractLsb',BitVec.getLsbD_setWidth]
  by_cases first : i < 8
  · simp [first,inside]
  · have second : i - 8 < 8 := by omega
    simp [first,second,inside]; congr 1; omega

/-- A word is read as a half by its low bytes. -/
theorem load16_eq (m : Mem) (a : Nat) : load16 m a = (load32 m a).setWidth 16 := by
  apply BitVec.eq_of_getLsbD_eq
  intro i inside
  simp only [load16,load32,BitVec.getLsbD_append,BitVec.getLsbD_setWidth]
  by_cases first : i < 8
  · simp [first,inside]
  · have second : i - 8 < 8 := by omega
    simp [first,second,inside]

theorem store16_outside {m : Mem} {a b : Nat} (v : Half) (apart : b < a ∨ a + 2 ≤ b) : store16 m a v b = m b := by
  simp only [store16]
  rw [if_neg (by omega),if_neg (by omega)]

theorem load32_store16_apart {m : Mem} {a b : Nat} (v : Half) (apart : b + 4 ≤ a ∨ a + 2 ≤ b) :
    load32 (store16 m a v) b = load32 m b :=
  load32_congr (fun _ low high => store16_outside v (by omega))

theorem load16_congr {m m' : Mem} {a : Nat} (same : ∀ b, a ≤ b → b < a + 2 → m b = m' b) :
    load16 m a = load16 m' a := by
  simp only [load16,same a (by omega) (by omega),same (a + 1) (by omega) (by omega)]

theorem load16_store32_apart {m : Mem} {a b : Nat} (v : Word) (apart : b + 2 ≤ a ∨ a + 4 ≤ b) :
    load16 (store32 m a v) b = load16 m b :=
  load16_congr (fun _ low high => store32_outside v (by omega))

theorem load16_store16_apart {m : Mem} {a b : Nat} (v : Half) (apart : b + 2 ≤ a ∨ a + 2 ≤ b) :
    load16 (store16 m a v) b = load16 m b :=
  load16_congr (fun _ low high => store16_outside v (by omega))

end Mp3Kernel.Memory

import Mp3Kernel.Lib.Memory
import Mathlib.Logic.Function.Basic

/-!
Byte sequences and zero-terminated strings in memory. `Bytes` says what a range
holds, and `Text` that a string starts at an address; both survive whatever
leaves their range alone.
-/
namespace Mp3Kernel.CString
open Mp3Kernel.Memory

/-- Memory holds the bytes from address `a` on. -/
def Bytes (m : Mem) (a : Nat) (bytes : List Byte) : Prop := ∀ i (inside : i < bytes.length), m (a + i) = bytes[i]

/-- The string at address `a`, without its terminator. -/
structure Text (m : Mem) (a : Nat) (s : List Byte) : Prop where
  bytes : Bytes m a s
  terminator : m (a + s.length) = 0
  plain : ∀ c ∈ s, c ≠ 0

variable {m m' : Mem} {a b : Nat} {s t : List Byte}

theorem bytes_nil : Bytes m a [] := fun _ inside => absurd inside (Nat.not_lt_zero _)

theorem bytes_cons {c : Byte} : Bytes m a (c :: s) ↔ m a = c ∧ Bytes m (a + 1) s := by
  constructor
  · intro bytes
    refine ⟨bytes 0 (Nat.succ_pos _),?_⟩
    intro i inside
    rw [Nat.add_assoc,Nat.add_comm 1 i]
    exact bytes (i + 1) (Nat.succ_lt_succ inside)
  · rintro ⟨first,rest⟩ i inside
    cases i with
    | zero => exact first
    | succ i =>
      have later := rest i (Nat.lt_of_succ_lt_succ inside)
      rwa [Nat.add_assoc,Nat.add_comm 1 i] at later

theorem bytes_append : Bytes m a (s ++ t) ↔ Bytes m a s ∧ Bytes m (a + s.length) t := by
  induction s generalizing a with
  | nil => exact ⟨fun bytes => ⟨bytes_nil,bytes⟩,And.right⟩
  | cons c s ih =>
    rw [List.cons_append,bytes_cons,bytes_cons,ih,and_assoc,List.length_cons,Nat.add_assoc a 1,Nat.add_comm 1]

theorem Bytes.take (bytes : Bytes m a s) (n : Nat) : Bytes m a (s.take n) := by
  rw [← List.take_append_drop n s] at bytes
  exact (bytes_append.mp bytes).1

theorem Bytes.drop {n : Nat} (bytes : Bytes m a s) (within : n ≤ s.length) : Bytes m (a + n) (s.drop n) := by
  rw [← List.take_append_drop n s] at bytes
  have rest := (bytes_append.mp bytes).2
  rwa [List.length_take,Nat.min_eq_left within] at rest

theorem Bytes.congr (bytes : Bytes m a s) (same : ∀ c, a ≤ c → c < a + s.length → m' c = m c) : Bytes m' a s := by
  intro i inside
  rw [same (a + i) (by omega) (by omega)]
  exact bytes i inside

theorem bytes_storeBytes (m : Mem) (a : Nat) (s : List Byte) : Bytes (storeBytes m a s) a s :=
  fun _ inside => storeBytes_inside inside

/-- A byte stored behind a sequence extends it. -/
theorem update_storeBytes (m : Mem) (a : Nat) (s : List Byte) (c : Byte) :
    Function.update (storeBytes m a s) (a + s.length) c = storeBytes m a (s ++ [c]) := by
  funext b
  by_cases here : b = a + s.length
  · subst here
    rw [Function.update_self,storeBytes_inside (by simp)]
    simp
  · rw [Function.update_of_ne here,storeBytes,storeBytes,List.length_append,List.length_singleton]
    by_cases inside : a ≤ b ∧ b < a + s.length
    · rw [if_pos inside,if_pos (by omega),List.getD_eq_getElem?_getD,List.getD_eq_getElem?_getD,
        List.getElem?_append_left (by omega)]
    · rw [if_neg inside,if_neg (by omega)]

theorem Bytes.eq_range (bytes : Bytes m a s) : (List.range s.length).map (fun i => m (a + i)) = s := by
  apply List.ext_getElem
  · simp
  · intro i low high
    simpa using bytes i high

/-- Two sequences of one length at one address are the same. -/
theorem Bytes.unique (bytes : Bytes m a s) (others : Bytes m a t) (length : s.length = t.length) : s = t := by
  rw [← bytes.eq_range,← others.eq_range,length]

theorem Text.congr (text : Text m a s) (same : ∀ c, a ≤ c → c ≤ a + s.length → m' c = m c) : Text m' a s where
  bytes := text.bytes.congr (fun c low high => same c low (by omega))
  terminator := (same _ (by omega) le_rfl).trans text.terminator
  plain := text.plain

theorem Text.tail {c : Byte} (text : Text m a (c :: s)) : Text m (a + 1) s where
  bytes := (bytes_cons.mp text.bytes).2
  terminator := by
    have stop := text.terminator
    rwa [List.length_cons,Nat.add_comm s.length,← Nat.add_assoc] at stop
  plain := fun d inside => text.plain d (List.mem_cons_of_mem c inside)

theorem Text.head {c : Byte} (text : Text m a (c :: s)) : m a = c ∧ c ≠ 0 :=
  ⟨(bytes_cons.mp text.bytes).1,text.plain c List.mem_cons_self⟩

/-- A string starts with the characters of a list where it has them first. -/
theorem Text.prefix_iff (text : Text m a s) (plain : ∀ c ∈ t, c ≠ 0) : Bytes m a t ↔ t <+: s := by
  constructor
  · intro bytes
    induction t generalizing a s with
    | nil => exact List.nil_prefix
    | cons c t ih =>
      obtain ⟨first,rest⟩ := bytes_cons.mp bytes
      have nonzero := plain c List.mem_cons_self
      cases s with
      | nil => exact absurd (first.symm.trans text.terminator) nonzero
      | cons d s =>
        obtain rfl := first.symm.trans text.head.1
        rw [List.cons_prefix_cons]
        exact ⟨rfl,ih text.tail (fun c inside => plain c (List.mem_cons_of_mem _ inside)) rest⟩
  · rintro ⟨rest,rfl⟩
    exact (bytes_append.mp text.bytes).1

end Mp3Kernel.CString

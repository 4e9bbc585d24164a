import Mp3Kernel.Lib.Memory
import Mathlib.Logic.Function.Basic

/-!
Copies and fills of a range of memory. `copied` reads every source byte before
it writes any, so ranges may overlap; a copy in pieces is the whole copy when no
piece overwrites what a later one reads: from the low end when the destination
does not lie behind the source, from the high end when it does not lie before
it.
-/
namespace Mp3Kernel.Copy
open Mp3Kernel.Memory

def copied (m : Mem) (dest src n : Nat) : Mem := fun a =>
  if dest ≤ a ∧ a < dest + n then m (src + (a - dest)) else m a

def filled (m : Mem) (dest n : Nat) (b : Byte) : Mem := fun a => if dest ≤ a ∧ a < dest + n then b else m a

variable {m : Mem} {dest src k l : Nat} {b : Byte}

@[simp] theorem copied_zero : copied m dest src 0 = m := by
  funext a
  rw [copied,if_neg (by omega)]

@[simp] theorem filled_zero : filled m dest 0 b = m := by
  funext a
  rw [filled,if_neg (by omega)]

theorem copied_inside {i : Nat} (inside : i < k) : copied m dest src k (dest + i) = m (src + i) := by
  rw [copied,if_pos (by omega),Nat.add_sub_cancel_left]

theorem copied_outside {a : Nat} (outside : a < dest ∨ dest + k ≤ a) : copied m dest src k a = m a := by
  rw [copied,if_neg (by omega)]

/-- The low piece first. -/
theorem copied_forward (apart : dest ≤ src ∨ src + (k + l) ≤ dest) :
    copied (copied m dest src k) (dest + k) (src + k) l = copied m dest src (k + l) := by
  funext a
  by_cases high : dest + k ≤ a ∧ a < dest + k + l
  · obtain ⟨i,rfl⟩ : ∃ i, a = dest + k + i := ⟨a - (dest + k),by omega⟩
    rw [copied_inside (by omega),copied_outside (by omega),Nat.add_assoc dest,copied_inside (by omega),Nat.add_assoc]
  · rw [copied_outside (by omega)]
    by_cases low : dest ≤ a ∧ a < dest + k
    · obtain ⟨i,rfl⟩ : ∃ i, a = dest + i := ⟨a - dest,by omega⟩
      rw [copied_inside (by omega),copied_inside (by omega)]
    · rw [copied_outside (by omega),copied_outside (by omega)]

/-- The high piece first. -/
theorem copied_backward (apart : src ≤ dest ∨ dest + (k + l) ≤ src) :
    copied (copied m (dest + k) (src + k) l) dest src k = copied m dest src (k + l) := by
  funext a
  by_cases low : dest ≤ a ∧ a < dest + k
  · obtain ⟨i,rfl⟩ : ∃ i, a = dest + i := ⟨a - dest,by omega⟩
    rw [copied_inside (by omega),copied_outside (by omega),copied_inside (by omega)]
  · rw [copied_outside (by omega)]
    by_cases high : dest + k ≤ a ∧ a < dest + k + l
    · obtain ⟨i,rfl⟩ : ∃ i, a = dest + k + i := ⟨a - (dest + k),by omega⟩
      rw [copied_inside (by omega),Nat.add_assoc dest,copied_inside (by omega),Nat.add_assoc]
    · rw [copied_outside (by omega),copied_outside (by omega)]

theorem filled_append : filled (filled m dest k b) (dest + k) l b = filled m dest (k + l) b := by
  funext a
  simp only [filled]
  split_ifs <;> first | rfl | omega

/-- One byte, -/
theorem copied_byte (m : Mem) (dest src : Nat) : Function.update m dest (m src) = copied m dest src 1 := by
  funext a
  by_cases here : a = dest
  · subst here
    rw [Function.update_self]
    exact (copied_inside (i := 0) (by omega)).symm
  · rw [Function.update_of_ne here,copied_outside (by omega)]

theorem filled_byte (m : Mem) (dest : Nat) (b : Byte) : Function.update m dest b = filled m dest 1 b := by
  funext a
  by_cases here : a = dest
  · subst here
    rw [Function.update_self,filled,if_pos (by omega)]
  · rw [Function.update_of_ne here,filled,if_neg (by omega)]

theorem load32_byte (m : Mem) (a : Nat) {i : Nat} (inside : i < 4) : (load32 m a).extractLsb' (8 * i) 8 = m (a + i) := by
  have bit (j : Nat) (below : j < 8) : (load32 m a).getLsbD (8 * i + j) = (m (a + i)).getLsbD j := by
    obtain rfl | rfl | rfl | rfl : i = 0 ∨ i = 1 ∨ i = 2 ∨ i = 3 := by omega
    · simp only [load32,BitVec.getLsbD_append]
      rw [if_pos (by omega)]
      congr 1
      omega
    · simp only [load32,BitVec.getLsbD_append]
      rw [if_neg (by omega),if_pos (by omega)]
      congr 1
      omega
    · simp only [load32,BitVec.getLsbD_append]
      rw [if_neg (by omega),if_neg (by omega),if_pos (by omega)]
      congr 1
      omega
    · simp only [load32,BitVec.getLsbD_append]
      rw [if_neg (by omega),if_neg (by omega),if_neg (by omega)]
      congr 1
      omega
  apply BitVec.eq_of_getLsbD_eq
  intro j below
  rw [BitVec.getLsbD_extractLsb']
  simp [below,bit j below]

theorem store32_byte (m : Mem) (a : Nat) (v : Word) {i : Nat} (inside : i < 4) :
    store32 m a v (a + i) = v.extractLsb' (8 * i) 8 := by
  obtain rfl | rfl | rfl | rfl : i = 0 ∨ i = 1 ∨ i = 2 ∨ i = 3 := by omega
  all_goals simp [store32]

/-- and one word. -/
theorem copied_word (m : Mem) (dest src : Nat) : store32 m dest (load32 m src) = copied m dest src 4 := by
  funext a
  by_cases outside : a < dest ∨ dest + 4 ≤ a
  · rw [store32_outside _ outside,copied_outside outside]
  · obtain ⟨i,inside,rfl⟩ : ∃ i, i < 4 ∧ a = dest + i := ⟨a - dest,by omega,by omega⟩
    rw [copied_inside inside,store32_byte m dest _ inside,load32_byte m src inside]

/-- A word of four equal bytes. -/
def repeated (b : Byte) : Word := b ++ b ++ b ++ b

theorem filled_word (m : Mem) (dest : Nat) (b : Byte) : store32 m dest (repeated b) = filled m dest 4 b := by
  have word : repeated b = load32 (fun _ => b) 0 := rfl
  funext a
  by_cases outside : a < dest ∨ dest + 4 ≤ a
  · rw [store32_outside _ outside,filled,if_neg (by omega)]
  · obtain ⟨i,inside,rfl⟩ : ∃ i, i < 4 ∧ a = dest + i := ⟨a - dest,by omega,by omega⟩
    rw [filled,if_pos (by omega),store32_byte m dest _ inside,word,load32_byte _ 0 inside]

end Mp3Kernel.Copy

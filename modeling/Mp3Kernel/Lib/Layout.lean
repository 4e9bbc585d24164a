import Mp3Kernel.Lib.Memory
import Mathlib.Data.List.Basic

/-!
Data laid out in bytes: words in little-endian order, records at a fixed
stride, and items of different lengths one after the other, each found at the
length of what precedes it.
-/
namespace Mp3Kernel.Layout
open Mp3Kernel.Memory
universe u v

/-! ### Words -/

/-- Byte `j` of a word, the lowest one first. -/
def wordByte (w : Word) (j : Nat) : Byte := w.extractLsb' (8 * j) 8

theorem load32_wordByte {m : Mem} {a : Nat} {w : Word} (bytes : ∀ j < 4, m (a + j) = wordByte w j) : load32 m a = w := by
  have b0 := bytes 0 (by omega)
  have b1 := bytes 1 (by omega)
  have b2 := bytes 2 (by omega)
  have b3 := bytes 3 (by omega)
  rw [Nat.add_zero] at b0
  rw [load32,b0,b1,b2,b3]
  exact word_of_bytes w

/-! ### Records at a stride -/

/-- Records of `size` bytes, one after the other. -/
def strided (size : Nat) (record : Nat → Nat → Byte) (o : Nat) : Byte := record (o / size) (o % size)

theorem strided_at {size : Nat} (record : Nat → Nat → Byte) (k : Nat) {j : Nat} (inside : j < size) :
    strided size record (k * size + j) = record k j := by
  have quotient : (k * size + j) / size = k := by
    rw [Nat.add_comm,Nat.add_mul_div_right _ _ (by omega),Nat.div_eq_of_lt inside,Nat.zero_add]
  have remainder : (k * size + j) % size = j := by
    rw [Nat.add_comm,Nat.add_mul_mod_self_right,Nat.mod_eq_of_lt inside]
  rw [strided,quotient,remainder]

/-! ### Items one after the other -/

section
variable {α : Type u} {β : Type v} (f : α → List β) (xs : List α)

/-- Where item `k` starts. -/
def offset (k : Nat) : Nat := ((xs.take k).flatMap f).length

variable {f xs} {k : Nat}

theorem flatMap_split (inside : k < xs.length) :
    xs.flatMap f = (xs.take k).flatMap f ++ (f xs[k] ++ (xs.drop (k + 1)).flatMap f) := by
  conv_lhs => rw [← List.take_append_drop k xs,List.drop_eq_getElem_cons inside]
  rw [List.flatMap_append,List.flatMap_cons]

/-- An item is found from its start on. -/
theorem flatMap_at (inside : k < xs.length) {i : Nat} (within : i < (f xs[k]).length) :
    (xs.flatMap f)[offset f xs k + i]? = (f xs[k])[i]? := by
  rw [flatMap_split inside,offset,List.getElem?_append_right (by omega),Nat.add_sub_cancel_left,
    List.getElem?_append_left within]

theorem offset_end (inside : k < xs.length) : offset f xs k + (f xs[k]).length ≤ (xs.flatMap f).length := by
  rw [flatMap_split inside,offset,List.length_append,List.length_append]
  omega

theorem flatMap_dvd {size : Nat} (aligned : ∀ x ∈ xs, size ∣ (f x).length) : size ∣ (xs.flatMap f).length := by
  induction xs with
  | nil => exact Nat.dvd_zero size
  | cons x rest ih =>
    rw [List.flatMap_cons,List.length_append]
    exact Nat.dvd_add (aligned x List.mem_cons_self) (ih (fun y listed => aligned y (List.mem_cons_of_mem x listed)))

/-- Items that all take a multiple of `size` start at multiples of it. -/
theorem offset_dvd {size : Nat} (aligned : ∀ x ∈ xs, size ∣ (f x).length) (k : Nat) : size ∣ offset f xs k :=
  flatMap_dvd (fun x taken => aligned x (List.mem_of_mem_take taken))

theorem flatMap_length_le {bound : Nat} (short : ∀ x ∈ xs, (f x).length ≤ bound) :
    (xs.flatMap f).length ≤ xs.length * bound := by
  induction xs with
  | nil => simp
  | cons x rest ih =>
    have first := short x List.mem_cons_self
    have later := ih (fun y listed => short y (List.mem_cons_of_mem x listed))
    rw [List.flatMap_cons,List.length_append,List.length_cons,Nat.succ_mul]
    omega

end

end Mp3Kernel.Layout

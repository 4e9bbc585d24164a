import Mathlib.Data.Nat.Digits.Lemmas

/-!
Positional notation with the most significant digit first: Horner's rule, the
digits that a number is written with, and numerals over any alphabet whose
characters stand for digits.
-/
namespace Mp3Kernel.Positional
universe u

/-- Horner's rule. -/
def value (radix : Nat) (ds : List Nat) : Nat := ds.foldl (fun n d => n * radix + d) 0

/-- The digits of a number. Zero has one digit, other numbers have no leading zero. -/
def written (radix n : Nat) : List Nat := if n = 0 then [0] else (Nat.digits radix n).reverse

variable {radix n : Nat} {ds : List Nat}

theorem value_reverse (radix : Nat) (ds : List Nat) : value radix ds.reverse = Nat.ofDigits radix ds := by
  rw [value,List.foldl_reverse,Nat.ofDigits_eq_foldr]
  refine congrArg (fun f => ds.foldr f 0) ?_
  funext d n
  rw [Nat.cast_id,Nat.mul_comm,Nat.add_comm]

theorem value_zeros (k : Nat) : value radix (List.replicate k 0 ++ ds) = value radix ds := by
  induction k with
  | zero => rfl
  | succ k ih => rw [List.replicate_succ,List.cons_append,value,List.foldl_cons,Nat.zero_mul,← value,ih]

theorem value_written (radix n : Nat) : value radix (written radix n) = n := by
  rw [written]
  split
  · rw [‹n = 0›]
    simp [value]
  · rw [value_reverse,Nat.ofDigits_digits]

theorem written_lt (large : 1 < radix) : ∀ d ∈ written radix n, d < radix := by
  intro d digit
  rw [written] at digit
  split at digit
  · rw [List.mem_singleton.mp digit]
    omega
  · exact Nat.digits_lt_base large (List.mem_reverse.mp digit)

theorem written_ne_nil (radix n : Nat) : written radix n ≠ [] := by
  rw [written]
  split
  · exact List.cons_ne_nil 0 []
  · simpa [Nat.digits_eq_nil_iff_eq_zero]

/-- A number of at most `k` digits. -/
theorem written_length {k : Nat} (large : 1 < radix) (some_ : 0 < k) (fits : n < radix ^ k) :
    (written radix n).length ≤ k := by
  rw [written]
  split
  · exact some_
  · rw [List.length_reverse]
    exact (Nat.digits_length_le_iff large n).mpr fits

theorem written_head (positive : n ≠ 0) : ∃ d rest, written radix n = d :: rest ∧ d ≠ 0 := by
  obtain ⟨d,rest,digits⟩ := List.exists_cons_of_ne_nil (written_ne_nil radix n)
  refine ⟨d,rest,digits,?_⟩
  rw [written,if_neg positive] at digits
  have last := Nat.getLast_digit_ne_zero radix positive
  have first : (Nat.digits radix n).getLast (Nat.digits_ne_nil_iff_ne_zero.mpr positive) = d := by
    have back : Nat.digits radix n = (d :: rest).reverse := by rw [← digits,List.reverse_reverse]
    simp [back]
  rwa [first] at last

/-! ### Numerals -/

variable {C : Type u} {decode : C → Option Nat}

/-- Reads on after the number `n`. -/
def read_from (decode : C → Option Nat) (radix : Nat) : Nat → List C → Option Nat
  | n, [] => some n
  | n, c :: text => (decode c).bind fun d => if d < radix then read_from decode radix (n * radix + d) text else none

/-- The number that a text denotes: it has a character, and each is a digit of the radix. -/
def read (decode : C → Option Nat) (radix : Nat) (text : List C) : Option Nat :=
  if text.isEmpty then none else read_from decode radix 0 text

theorem read_from_encoded {encode : Nat → C} (decoded : ∀ d < radix, decode (encode d) = some d)
    (valid : ∀ d ∈ ds, d < radix) (n : Nat) :
    read_from decode radix n (ds.map encode) = some (ds.foldl (fun n d => n * radix + d) n) := by
  induction ds generalizing n with
  | nil => rfl
  | cons d ds ih =>
    have small := valid d List.mem_cons_self
    rw [List.map_cons,read_from,decoded d small,Option.bind_some,if_pos small,List.foldl_cons]
    exact ih (fun d' later => valid d' (List.mem_cons_of_mem d later)) (n * radix + d)

/-- Where each digit's character stands for it, numerals read back. -/
theorem read_encoded {encode : Nat → C} (decoded : ∀ d < radix, decode (encode d) = some d)
    (valid : ∀ d ∈ ds, d < radix) (some_ : ds ≠ []) : read decode radix (ds.map encode) = some (value radix ds) := by
  rw [read,if_neg (by simpa using some_)]
  exact read_from_encoded decoded valid 0

end Mp3Kernel.Positional

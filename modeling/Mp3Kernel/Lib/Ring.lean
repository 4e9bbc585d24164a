import Mathlib.Data.List.Basic

/-!
A ring of `n` slots that keeps the last `n` of the values put into it, without
ever clearing one. `holds` relates what is stored in a slot to the value it was
stored for.
-/
namespace Mp3Kernel.Ring
universe u v

variable {α : Type u} {β : Type v}

/-- The next slot is the count of the values modulo the size; a value that is
    less than a turn old is still in its slot, and a slot that was never used is
    as it was at the start. -/
structure Keeps (holds : α → β → Prop) (unused : α → Prop) (n : Nat) (slots : Nat → α) (next : Nat)
    (values : List β) : Prop where
  next_slot : next = values.length % n
  kept : ∀ i (inside : i < values.length), values.length ≤ i + n → holds (slots (i % n)) values[i]
  fresh : ∀ j, values.length ≤ j → j < n → unused (slots j)

variable {holds : α → β → Prop} {unused : α → Prop} {n next : Nat} {slots slots' : Nat → α} {values : List β} {v : β}

theorem keeps_nil (start : ∀ j < n, unused (slots j)) : Keeps holds unused n slots 0 [] := by
  refine ⟨(Nat.zero_mod n).symm,?_,?_⟩
  · intro i inside
    cases inside
  · intro j _ bound
    exact start j bound

theorem Keeps.congr (keeps : Keeps holds unused n slots next values) (same : ∀ j < n, slots' j = slots j) :
    Keeps holds unused n slots' next values := by
  refine ⟨keeps.next_slot,?_,?_⟩
  · intro i inside young
    rw [same _ (Nat.mod_lt i (by omega))]
    exact keeps.kept i inside young
  · intro j old bound
    rw [same j bound]
    exact keeps.fresh j old bound

/-- Two values less than a turn apart are in different slots. -/
theorem slot_ne {i j : Nat} (before : i < j) (near : j < i + n) : i % n ≠ j % n := by
  intro same
  have turns : n ∣ j - i := Nat.dvd_of_mod_eq_zero (Nat.sub_mod_eq_zero_of_mod_eq same.symm)
  have small := Nat.eq_zero_of_dvd_of_lt turns (by omega)
  omega

/-- A value is put into the next slot, over the value of a turn ago. -/
theorem Keeps.push (keeps : Keeps holds unused n slots next values) (positive : 0 < n)
    (others : ∀ j < n, j ≠ next → slots' j = slots j) (stored : holds (slots' next) v) :
    Keeps holds unused n slots' ((next + 1) % n) (values ++ [v]) := by
  have slot := keeps.next_slot
  refine ⟨?_,?_,?_⟩
  · rw [slot,Nat.mod_add_mod,List.length_append,List.length_singleton]
  · intro i inside young
    rw [List.length_append,List.length_singleton] at inside young
    by_cases last : i = values.length
    · subst last
      rw [← slot,List.getElem_append_right (Nat.le_refl _)]
      simpa using stored
    · have earlier : i < values.length := by omega
      have apart : i % n ≠ next := slot ▸ slot_ne earlier (by omega)
      rw [others _ (Nat.mod_lt i positive) apart,List.getElem_append_left earlier]
      exact keeps.kept i earlier (by omega)
  · intro j old bound
    rw [List.length_append,List.length_singleton] at old
    have apart : j ≠ next := by
      rw [slot,Nat.mod_eq_of_lt (by omega)]
      omega
    rw [others j bound apart]
    exact keeps.fresh j (by omega) bound

/-- The next slot tells whether a value more or less was put in. -/
theorem Keeps.next_ne {next' : Nat} (keeps : Keeps holds unused n slots next values) (many : 2 ≤ n)
    (more : Keeps holds unused n slots' next' (values ++ [v])) : next ≠ next' := by
  rw [keeps.next_slot,more.next_slot,List.length_append,List.length_singleton]
  exact slot_ne (Nat.lt_succ_self _) (by omega)

end Mp3Kernel.Ring

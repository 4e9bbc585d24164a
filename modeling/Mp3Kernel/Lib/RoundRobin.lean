import Mathlib.Data.Finset.Sort
import Mathlib.Data.Int.ModEq

/-!
The members of a finite set in cyclic order. Whoever moves from each member to
the one that follows it meets every member exactly once in every window of as
many steps as there are members.
-/
namespace Mp3Kernel.RoundRobin
universe u

variable {α : Type u} [LinearOrder α] {s : Finset α} {p q q' : α}

/-- The next larger member, or the least one behind the largest. -/
def Follows (s : Finset α) (p q : α) : Prop :=
  q ∈ s ∧ (p < q ∧ (∀ r ∈ s, p < r → q ≤ r) ∨ (∀ r ∈ s, r ≤ p) ∧ ∀ r ∈ s, q ≤ r)

theorem Follows.unique (follows : Follows s p q) (follows' : Follows s p q') : q = q' := by
  obtain ⟨member,larger | last⟩ := follows
  · obtain ⟨member',larger' | last'⟩ := follows'
    · exact le_antisymm (larger.2 q' member' larger'.1) (larger'.2 q member larger.1)
    · exact absurd (last'.1 q member) (not_le.mpr larger.1)
  · obtain ⟨member',larger' | last'⟩ := follows'
    · exact absurd (last.1 q' member') (not_le.mpr larger'.1)
    · exact le_antisymm (last.2 q' member') (last'.2 q member)

/-- The members by their places, counted around. -/
def place (s : Finset α) (filled : 0 < s.card) (i : Nat) : α :=
  s.orderEmbOfFin rfl ⟨i % s.card,Nat.mod_lt i filled⟩

variable (filled : 0 < s.card)

theorem exists_place (member : p ∈ s) : ∃ i < s.card, place s filled i = p := by
  have listed : p ∈ Set.range (s.orderEmbOfFin rfl) := by
    rw [Finset.range_orderEmbOfFin]
    exact member
  obtain ⟨⟨i,inside⟩,rfl⟩ := listed
  exact ⟨i,inside,by simp only [place,Nat.mod_eq_of_lt inside]⟩

theorem place_eq_iff (i j : Nat) : place s filled i = place s filled j ↔ i % s.card = j % s.card := by
  rw [place,place,(s.orderEmbOfFin rfl).injective.eq_iff,Fin.mk.injEq]

theorem place_le {i j : Nat} (le : i % s.card ≤ j % s.card) : place s filled i ≤ place s filled j :=
  (s.orderEmbOfFin rfl).monotone le

theorem place_lt_iff {i j : Nat} : place s filled i < place s filled j ↔ i % s.card < j % s.card :=
  (s.orderEmbOfFin rfl).lt_iff_lt

/-- Each place is followed by the next one. -/
theorem follows_place (i : Nat) : Follows s (place s filled i) (place s filled (i + 1)) := by
  refine ⟨Finset.orderEmbOfFin_mem s rfl _,?_⟩
  by_cases last : i % s.card + 1 = s.card
  · have wraps : (i + 1) % s.card = 0 := by rw [← Nat.mod_add_mod,last,Nat.mod_self]
    right
    constructor
    · intro r member
      obtain ⟨j,inside,rfl⟩ := exists_place filled member
      refine place_le filled ?_
      have := Nat.mod_lt j filled
      omega
    · intro r member
      obtain ⟨j,inside,rfl⟩ := exists_place filled member
      refine place_le filled ?_
      omega
  · have next : (i + 1) % s.card = i % s.card + 1 := by
      have below := Nat.mod_lt i filled
      rw [← Nat.mod_add_mod,Nat.mod_eq_of_lt (by omega)]
    left
    refine ⟨(place_lt_iff filled).mpr (by omega),?_⟩
    intro r member later
    obtain ⟨j,inside,rfl⟩ := exists_place filled member
    have := (place_lt_iff filled).mp later
    exact place_le filled (by omega)

variable {turn : Nat → α}

/-- A walk from member to member goes from place to place. -/
theorem turn_place (steps : ∀ t, Follows s (turn t) (turn (t + 1))) {k : Nat} (start : turn 0 = place s filled k)
    (t : Nat) : turn t = place s filled (k + t) := by
  induction t with
  | zero => exact start
  | succ t ih =>
    have moved := steps t
    rw [ih] at moved
    exact moved.unique (follows_place filled (k + t))

/-- In every window each member has exactly one turn. -/
theorem window_turn (steps : ∀ t, Follows s (turn t) (turn (t + 1))) (start : turn 0 ∈ s) (t : Nat) (member : p ∈ s) :
    ∃! i, i < s.card ∧ turn (t + i) = p := by
  have filled : 0 < s.card := Finset.card_pos.mpr ⟨p,member⟩
  obtain ⟨k,-,first⟩ := exists_place filled start
  obtain ⟨j,inside,rfl⟩ := exists_place filled member
  have turns (i : Nat) : turn (t + i) = place s filled j ↔ k + t + i ≡ j [MOD s.card] := by
    rw [turn_place filled steps first.symm,← Nat.add_assoc,place_eq_iff,Nat.ModEq]
  have gap := Nat.mod_lt (k + t) filled
  have reached : k + t + (j + (s.card - (k + t) % s.card)) % s.card ≡ j [MOD s.card] := by
    rw [Nat.ModEq,Nat.add_mod_mod,← Nat.mod_add_mod,
      show (k + t) % s.card + (j + (s.card - (k + t) % s.card)) = j + s.card from by omega,Nat.add_mod_right]
  refine ⟨(j + (s.card - (k + t) % s.card)) % s.card,⟨Nat.mod_lt _ filled,(turns _).mpr reached⟩,?_⟩
  rintro i ⟨below,turned⟩
  have same := Nat.ModEq.add_left_cancel' (k + t) (((turns i).mp turned).trans reached.symm)
  rwa [Nat.ModEq,Nat.mod_mod,Nat.mod_eq_of_lt below] at same

end Mp3Kernel.RoundRobin

import Mathlib.Logic.Function.Basic
import Mathlib.Data.List.Nodup
import Mathlib.Data.List.Forall2

/-!
A family of stacks that share no item. A fresh item may be pushed and the top
of a stack popped; `Linked` says that a stack is spelled out by a pointer from
each item to the one below it.
-/
namespace Mp3Kernel.Stacks
universe u v

section
variable {ι : Type u} {α : Type v} [DecidableEq ι] {family : ι → List α} {i : ι} {a b : α}

def push (family : ι → List α) (i : ι) (a : α) : ι → List α := Function.update family i (a :: family i)
def pop (family : ι → List α) (i : ι) : ι → List α := Function.update family i (family i).tail

/-- The item is on one of the stacks. -/
def Held (family : ι → List α) (a : α) : Prop := ∃ i, a ∈ family i

/-- No item occurs twice. -/
structure Apart (family : ι → List α) : Prop where
  nodup : ∀ i, (family i).Nodup
  disjoint : ∀ i j a, a ∈ family i → a ∈ family j → i = j

@[simp] theorem push_same : push family i a i = a :: family i := Function.update_self ..
@[simp] theorem push_other {j : ι} (other : j ≠ i) : push family i a j = family j := Function.update_of_ne other ..
@[simp] theorem pop_same : pop family i i = (family i).tail := Function.update_self ..
@[simp] theorem pop_other {j : ι} (other : j ≠ i) : pop family i j = family j := Function.update_of_ne other ..

theorem mem_push {j : ι} : b ∈ push family i a j ↔ b ∈ family j ∨ j = i ∧ b = a := by
  by_cases same : j = i
  · subst same
    simp [or_comm]
  · simp [same]

theorem held_push : Held (push family i a) b ↔ Held family b ∨ b = a := by
  simp only [Held,mem_push]
  constructor
  · rintro ⟨j,before | ⟨-,now⟩⟩
    · exact .inl ⟨j,before⟩
    · exact .inr now
  · rintro (⟨j,before⟩ | now)
    · exact ⟨j,.inl before⟩
    · exact ⟨i,.inr ⟨rfl,now⟩⟩

/-- A fresh item keeps the stacks apart. -/
theorem apart_push (apart : Apart family) (fresh : ¬ Held family a) : Apart (push family i a) where
  nodup j := by
    by_cases same : j = i
    · subst same
      rw [push_same]
      exact List.nodup_cons.mpr ⟨fun inside => fresh ⟨j,inside⟩,apart.nodup j⟩
    · rw [push_other same]
      exact apart.nodup j
  disjoint j l b := by
    intro left right
    rw [mem_push] at left right
    rcases left with left | ⟨rfl,rfl⟩
    · rcases right with right | ⟨rfl,rfl⟩
      · exact apart.disjoint j l b left right
      · exact absurd ⟨j,left⟩ fresh
    · rcases right with right | ⟨rfl,-⟩
      · exact absurd ⟨l,right⟩ fresh
      · rfl

theorem mem_pop {j : ι} {rest : List α} (apart : Apart family) (top : family i = a :: rest) :
    b ∈ pop family i j ↔ b ∈ family j ∧ b ≠ a := by
  have held : a ∈ family i := by rw [top]; exact List.mem_cons_self
  by_cases same : j = i
  · subst same
    have below : a ∉ rest := by
      have nodup := apart.nodup j
      rw [top,List.nodup_cons] at nodup
      exact nodup.1
    rw [pop_same,top,List.tail_cons,List.mem_cons]
    constructor
    · intro inside
      exact ⟨.inr inside,fun equal => below (equal ▸ inside)⟩
    · rintro ⟨equal | inside,other⟩
      · exact absurd equal other
      · exact inside
  · rw [pop_other same]
    constructor
    · intro inside
      exact ⟨inside,fun equal => same (apart.disjoint j i b inside (equal ▸ held))⟩
    · exact And.left

theorem held_pop {rest : List α} (apart : Apart family) (top : family i = a :: rest) :
    Held (pop family i) b ↔ Held family b ∧ b ≠ a := by
  simp only [Held,mem_pop apart top,exists_and_right]

theorem apart_pop (apart : Apart family) : Apart (pop family i) where
  nodup j := by
    by_cases same : j = i
    · subst same
      rw [pop_same]
      exact (apart.nodup j).sublist (List.tail_sublist _)
    · rw [pop_other same]
      exact apart.nodup j
  disjoint j l b := by
    have inside {m : ι} (found : b ∈ pop family i m) : b ∈ family m := by
      by_cases same : m = i
      · subst same
        rw [pop_same] at found
        exact List.mem_of_mem_tail found
      · rwa [pop_other same] at found
    intro left right
    exact apart.disjoint j l b (inside left) (inside right)

end

section
variable {ι : Type u} {α β : Type v} {R S : α → β → Prop} {family : ι → List α} {family' : ι → List β} {i : ι} {a : α} {b : β}

/-- Two families of stacks that agree item for item. -/
def Matched (R : α → β → Prop) (family : ι → List α) (family' : ι → List β) : Prop :=
  ∀ i, List.Forall₂ R (family i) (family' i)

/-- Items that are held may be matched in another way. -/
theorem Matched.imp (matched : Matched R family family') (other : ∀ a b, Held family a → R a b → S a b) :
    Matched S family family' := by
  intro i
  refine List.forall₂_iff_get.mpr ⟨(matched i).length_eq,?_⟩
  intro n left right
  exact other _ _ ⟨i,List.getElem_mem left⟩ ((matched i).get left right)

theorem Matched.top {rest : List α} (matched : Matched R family family') (top : family i = a :: rest) :
    ∃ b rest', family' i = b :: rest' ∧ R a b ∧ rest'.length = rest.length := by
  have both := matched i
  rw [top,List.forall₂_cons_left_iff] at both
  obtain ⟨b,rest',here,below,same⟩ := both
  exact ⟨b,rest',same,here,below.length_eq.symm⟩

variable [DecidableEq ι]

theorem Matched.push (matched : Matched R family family') (new : R a b) :
    Matched R (push family i a) (push family' i b) := by
  intro j
  by_cases same : j = i
  · subst same
    rw [push_same,push_same]
    exact .cons new (matched j)
  · rw [push_other same,push_other same]
    exact matched j

theorem Matched.pop (matched : Matched R family family') : Matched R (pop family i) (pop family' i) := by
  intro j
  by_cases same : j = i
  · subst same
    rw [pop_same,pop_same]
    have both := matched j
    generalize family j = left,family' j = right at both
    cases both with
    | nil => exact .nil
    | cons _ below => exact below
  · rw [pop_other same,pop_other same]
    exact matched j

end

variable {α : Type u}

/-- Each item points to the one below it, and the lowest to `bottom`. -/
def Linked (next : α → α) (bottom : α) : List α → Prop
  | [] => True
  | a :: rest => next a = rest.headD bottom ∧ Linked next bottom rest

theorem linked_congr {next next' : α → α} {bottom : α} {items : List α}
    (same : ∀ a ∈ items, next' a = next a) (linked : Linked next bottom items) : Linked next' bottom items := by
  induction items with
  | nil => trivial
  | cons a rest ih =>
    refine ⟨?_,ih (fun b inside => same b (List.mem_cons_of_mem _ inside)) linked.2⟩
    rw [same a List.mem_cons_self]
    exact linked.1

/-- Whatever is pointed to lies below the top. -/
theorem linked_below {next : α → α} {bottom a : α} {items : List α} (linked : Linked next bottom items)
    (inside : a ∈ items) : next a = bottom ∨ next a ∈ items.tail := by
  induction items with
  | nil => cases inside
  | cons b rest ih =>
    have lower : ∀ c, c ∈ rest.tail → c ∈ rest := fun c => List.mem_of_mem_tail
    rcases List.mem_cons.mp inside with rfl | inside
    · cases rest with
      | nil => exact .inl linked.1
      | cons c rest =>
        refine .inr ?_
        rw [linked.1]
        exact List.mem_cons_self
    · rcases ih linked.2 inside with ends | below
      · exact .inl ends
      · exact .inr (lower _ below)

end Mp3Kernel.Stacks

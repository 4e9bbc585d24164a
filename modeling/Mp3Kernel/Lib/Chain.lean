import Mathlib.Data.List.Nodup
import Mathlib.Logic.Function.Basic

/-!
Singly linked lists in a table of cells. `Leads next p items` says that the
pointer `p` leads through `items` to the null pointer. A chain is determined by
its first pointer, so no cell is on it twice; pushing a fresh cell and
unlinking one change a single pointer.
-/
namespace Mp3Kernel.Chain
universe u

/-- The pointer leads through the items, in order, to the null pointer. -/
def Leads {ι : Type u} (next : ι → Option ι) : Option ι → List ι → Prop
  | p, [] => p = none
  | p, a :: rest => p = some a ∧ Leads next (next a) rest

section
variable {ι : Type u} {next next' : ι → Option ι} {p : Option ι} {a b : ι} {items items' front rest : List ι}

@[simp] theorem leads_nil : Leads next p [] ↔ p = none := Iff.rfl
@[simp] theorem leads_cons : Leads next p (a :: rest) ↔ p = some a ∧ Leads next (next a) rest := Iff.rfl

theorem leads_none : Leads next none items ↔ items = [] := by
  cases items <;> simp

/-- Two chains from one pointer pass the same items. -/
theorem leads_unique (one : Leads next p items) (other : Leads next p items') : items = items' := by
  induction items generalizing p items' with
  | nil =>
    cases one
    exact (leads_none.mp other).symm
  | cons a rest ih =>
    obtain ⟨rfl,later⟩ := one
    cases items' with
    | nil => exact absurd other (by simp)
    | cons b rest' =>
      obtain ⟨same,later'⟩ := other
      obtain rfl := Option.some.inj same
      rw [ih later later']

theorem leads_append : Leads next p (front ++ items) ↔
    ∃ q, Leads next q items ∧ ∀ tail, Leads next q tail → Leads next p (front ++ tail) := by
  constructor
  · induction front generalizing p with
    | nil => exact fun chain => ⟨p,chain,fun _ later => later⟩
    | cons a front ih =>
      rintro ⟨first,chain⟩
      obtain ⟨q,later,extend⟩ := ih chain
      exact ⟨q,later,fun tail inside => ⟨first,extend tail inside⟩⟩
  · rintro ⟨q,later,extend⟩
    exact extend items later

/-- The part of a chain from one of its items on is a chain itself. -/
theorem leads_from (chain : Leads next p (front ++ a :: rest)) : Leads next (some a) (a :: rest) := by
  obtain ⟨q,later,-⟩ := leads_append.mp chain
  obtain ⟨rfl,below⟩ := later
  exact ⟨rfl,below⟩

/-- No cell is on a chain twice: it would be followed by two different chains. -/
theorem leads_nodup (chain : Leads next p items) : items.Nodup := by
  induction items generalizing p with
  | nil => exact List.nodup_nil
  | cons a rest ih =>
    obtain ⟨rfl,later⟩ := chain
    refine List.nodup_cons.mpr ⟨?_,ih later⟩
    intro again
    obtain ⟨front,tail,rfl⟩ := List.append_of_mem again
    have whole : Leads next (some a) (a :: (front ++ a :: tail)) := ⟨rfl,later⟩
    have same := congrArg List.length (leads_unique whole (leads_from later))
    simp at same
    omega

/-- Only the pointers of its own items matter to a chain. -/
theorem leads_congr (same : ∀ a ∈ items, next a = next' a) (chain : Leads next p items) : Leads next' p items := by
  induction items generalizing p with
  | nil => exact chain
  | cons a rest ih =>
    obtain ⟨first,later⟩ := chain
    refine ⟨first,?_⟩
    rw [← same a List.mem_cons_self]
    exact ih (fun b inside => same b (List.mem_cons_of_mem a inside)) later


variable [DecidableEq ι]

/-- A cell off the chain, pointed at its first item, is pushed on it. -/
theorem leads_push (chain : Leads next p items) (fresh : a ∉ items) :
    Leads (Function.update next a p) (some a) (a :: items) := by
  refine ⟨rfl,?_⟩
  rw [Function.update_self]
  refine leads_congr ?_ chain
  intro b inside
  rw [Function.update_of_ne]
  rintro rfl
  exact fresh inside

/-- The pointer of the item before `b`, moved past it, unlinks `b`. -/
theorem leads_unlink (chain : Leads next p (front ++ a :: b :: rest)) :
    Leads (Function.update next a (next b)) p (front ++ a :: rest) := by
  have nodup := leads_nodup chain
  have unchanged : ∀ c ∈ front ++ rest, next c = Function.update next a (next b) c := by
    intro c inside
    rw [Function.update_of_ne]
    rintro rfl
    rw [List.nodup_append] at nodup
    rcases List.mem_append.mp inside with before | after
    · exact nodup.2.2 c before c List.mem_cons_self rfl
    · exact (List.nodup_cons.mp nodup.2.1).1 (List.mem_cons_of_mem b after)
  have below : Leads next (next b) rest := (leads_from chain).2.2
  clear nodup
  induction front generalizing p with
  | nil =>
    refine ⟨chain.1,?_⟩
    rw [Function.update_self]
    exact leads_congr (fun c inside => unchanged c (by simpa using inside)) below
  | cons c front ih =>
    obtain ⟨first,later⟩ := chain
    refine ⟨first,?_⟩
    rw [← unchanged c (by simp)]
    refine ih later ?_
    intro d inside
    refine unchanged d ?_
    rw [List.cons_append]
    exact List.mem_cons_of_mem c inside

end

end Mp3Kernel.Chain

import Mathlib.Data.List.Basic

/-!
Runs of a partial step function that answers each event, and their refinement
of a total one: where a relation between the two states is kept by every
admitted event, with equal answers, a run never gets stuck and answers as the
abstract run does.
-/
namespace Mp3Kernel.Refine
universe u v w x

section
variable {S : Type u} {E : Type v} {O : Type w} {A : Type x}

/-- The last state of a run and its answers, or nothing once a step is stuck. -/
def answers (step : S → E → Option (S × O)) : S → List E → Option (S × List O)
  | s, [] => some (s,[])
  | s, e :: es => do
    let (s',o) ← step s e
    let (t,os) ← answers step s' es
    return (t,o :: os)

/-- The last state and the answers of an abstract run. -/
def expected (spec : A → E → A × O) : A → List E → A × List O
  | a, [] => (a,[])
  | a, e :: es =>
    let later := expected spec (spec a e).1 es
    (later.1,(spec a e).2 :: later.2)

variable {step : S → E → Option (S × O)} {spec : A → E → A × O} {R : S → A → Prop} {G : E → Prop}

@[simp] theorem answers_nil (s : S) : answers step s [] = some (s,[]) := rfl
@[simp] theorem expected_nil (a : A) : expected spec a [] = (a,[]) := rfl

theorem answers_cons {s s' t : S} {e : E} {es : List E} {o : O} {os : List O} (first : step s e = some (s',o))
    (later : answers step s' es = some (t,os)) : answers step s (e :: es) = some (t,o :: os) := by
  simp [answers,first,later]

/-- What one admitted event keeps, with the answer the abstract step gives, a
    whole run keeps. -/
theorem answers_refine
    (keeps : ∀ s a e, R s a → G e → ∃ s', step s e = some (s',(spec a e).2) ∧ R s' (spec a e).1)
    {s : S} {a : A} {es : List E} (start : R s a) (admitted : ∀ e ∈ es, G e) :
    ∃ t, answers step s es = some (t,(expected spec a es).2) ∧ R t (expected spec a es).1 := by
  induction es generalizing s a with
  | nil => exact ⟨s,rfl,start⟩
  | cons e es ih =>
    obtain ⟨s',first,related⟩ := keeps s a e start (admitted e List.mem_cons_self)
    obtain ⟨t,later,last⟩ := ih related (fun f inside => admitted f (List.mem_cons_of_mem e inside))
    exact ⟨t,answers_cons first later,last⟩

end

end Mp3Kernel.Refine

import Mathlib.Data.List.Basic
import Mathlib.Data.List.Infix

/-!
Runs of a partial step function over a list of events. `StepsMeet` says that
every step of a run meets a condition in the state where it is taken, and
`StatesMeet` that every state of the run satisfies a property; the rules below
trade one for the other. A step that is not enabled ends the run.
-/
namespace Mp3Kernel.Runs
universe u v

variable {S : Type u} {E : Type v}

/-- The state after the events, or nothing once an event is not enabled. -/
def run (step : S → E → Option S) : S → List E → Option S
  | s, [] => some s
  | s, e :: es => (step s e).bind (fun s' => run step s' es)

/-- Every step of the run is taken in a state where the condition admits it. -/
def StepsMeet (step : S → E → Option S) (G : S → E → Prop) : S → List E → Prop
  | _, [] => True
  | s, e :: es => G s e ∧ ∀ s', step s e = some s' → StepsMeet step G s' es

/-- Every state of the run, the first one included, satisfies the property. -/
def StatesMeet (step : S → E → Option S) (I : S → Prop) : S → List E → Prop
  | s, [] => I s
  | s, e :: es => I s ∧ ∀ s', step s e = some s' → StatesMeet step I s' es

variable {step : S → E → Option S} {G : S → E → Prop} {I : S → Prop}

@[simp] theorem run_nil (s : S) : run step s [] = some s := rfl

theorem run_cons (s : S) (e : E) (es : List E) :
    run step s (e :: es) = (step s e).bind (fun s' => run step s' es) := rfl

theorem run_cons_eq_some {s t : S} {e : E} {es : List E} :
    run step s (e :: es) = some t ↔ ∃ s', step s e = some s' ∧ run step s' es = some t := by
  rw [run_cons,Option.bind_eq_some_iff]

theorem run_append {s t u : S} {xs ys : List E} (first : run step s xs = some t) (second : run step t ys = some u) :
    run step s (xs ++ ys) = some u := by
  induction xs generalizing s with
  | nil =>
    cases first
    exact second
  | cons e xs ih =>
    obtain ⟨s',taken,rest⟩ := run_cons_eq_some.mp first
    exact run_cons_eq_some.mpr ⟨s',taken,ih rest⟩

/-- An enabled first step, taken. -/
theorem stepsMeet_cons {s s' : S} {e : E} {es : List E} (taken : step s e = some s') :
    StepsMeet step G s (e :: es) ↔ G s e ∧ StepsMeet step G s' es := by
  simp [StepsMeet,taken]

theorem stepsMeet_of_always {es : List E} (always : ∀ s, ∀ e ∈ es, G s e) (s : S) : StepsMeet step G s es := by
  induction es generalizing s with
  | nil => trivial
  | cons e es ih =>
    refine ⟨always s e List.mem_cons_self,?_⟩
    intro s' _
    exact ih (fun t f inside => always t f (List.mem_cons_of_mem e inside)) s'

/-- What a run meets it meets from any state on that it reaches. -/
theorem stepsMeet_drop {s t : S} {xs ys : List E} (meets : StepsMeet step G s (xs ++ ys))
    (reached : run step s xs = some t) : StepsMeet step G t ys := by
  induction xs generalizing s with
  | nil =>
    cases reached
    exact meets
  | cons e xs ih =>
    obtain ⟨s',taken,rest⟩ := run_cons_eq_some.mp reached
    exact ih (meets.2 s' taken) rest

theorem statesMeet_start {s : S} {es : List E} (meets : StatesMeet step I s es) : I s := by
  cases es with
  | nil => exact meets
  | cons e es => exact meets.1

theorem statesMeet_last {s t : S} {es : List E} (meets : StatesMeet step I s es)
    (reached : run step s es = some t) : I t := by
  induction es generalizing s with
  | nil => cases reached; exact meets
  | cons e es ih =>
    obtain ⟨s',taken,rest⟩ := run_cons_eq_some.mp reached
    exact ih (meets.2 s' taken) rest

/-- A property that every admitted step keeps holds in every state of a run
    whose steps are all admitted. -/
theorem statesMeet_of_stepsMeet (keeps : ∀ s e s', I s → G s e → step s e = some s' → I s')
    {s : S} {es : List E} (start : I s) (meets : StepsMeet step G s es) : StatesMeet step I s es := by
  induction es generalizing s with
  | nil => exact start
  | cons e es ih =>
    refine ⟨start,?_⟩
    intro s' taken
    exact ih (keeps s e s' start meets.1 taken) (meets.2 s' taken)

/-- Where a property that the admitted steps keep makes them meet a second
    condition, a run that meets the first one meets the second. -/
theorem stepsMeet_of_invariant {H : S → E → Prop} (implies : ∀ s e, I s → G s e → H s e)
    (keeps : ∀ s e s', I s → G s e → step s e = some s' → I s') {s : S} {es : List E} (start : I s)
    (meets : StepsMeet step G s es) : StepsMeet step H s es := by
  induction es generalizing s with
  | nil => trivial
  | cons e es ih =>
    refine ⟨implies s e start meets.1,?_⟩
    intro s' taken
    exact ih (keeps s e s' start meets.1 taken) (meets.2 s' taken)

/-- A property that every step keeps holds wherever a run leads. -/
theorem run_invariant (keeps : ∀ s e s', I s → step s e = some s' → I s')
    {s t : S} {es : List E} (start : I s) (reached : run step s es = some t) : I t := by
  induction es generalizing s with
  | nil => cases reached; exact start
  | cons e es ih =>
    obtain ⟨s',taken,rest⟩ := run_cons_eq_some.mp reached
    exact ih (keeps s e s' start taken) rest

/-- A property that every step keeps holds in every state of a run. -/
theorem statesMeet_invariant (keeps : ∀ s e s', I s → step s e = some s' → I s')
    {s : S} {es : List E} (start : I s) : StatesMeet step I s es := by
  induction es generalizing s with
  | nil => exact start
  | cons e es ih => exact ⟨start,fun s' taken => ih (keeps s e s' start taken)⟩

theorem statesMeet_and {J : S → Prop} {s : S} {es : List E} :
    StatesMeet step (fun s => I s ∧ J s) s es ↔ StatesMeet step I s es ∧ StatesMeet step J s es := by
  induction es generalizing s with
  | nil => exact Iff.rfl
  | cons e es ih =>
    simp only [StatesMeet,ih]
    constructor
    · rintro ⟨⟨i,j⟩,later⟩
      exact ⟨⟨i,fun s' taken => (later s' taken).1⟩,⟨j,fun s' taken => (later s' taken).2⟩⟩
    · rintro ⟨⟨i,laterI⟩,⟨j,laterJ⟩⟩
      exact ⟨⟨i,j⟩,fun s' taken => ⟨laterI s' taken,laterJ s' taken⟩⟩

theorem statesMeet_mono {J : S → Prop} (weaker : ∀ s, I s → J s) {s : S} {es : List E}
    (meets : StatesMeet step I s es) : StatesMeet step J s es := by
  induction es generalizing s with
  | nil => exact weaker s meets
  | cons e es ih => exact ⟨weaker s meets.1,fun s' taken => ih (meets.2 s' taken)⟩

/-- Where the condition is exactly what one step needs to keep the property, a
    run keeps the property throughout exactly when all its steps are admitted. -/
theorem statesMeet_iff_stepsMeet (blocked : ∀ s e, I s → step s e = none → G s e)
    (exact : ∀ s e s', I s → step s e = some s' → (I s' ↔ G s e))
    {s : S} {es : List E} (start : I s) : StatesMeet step I s es ↔ StepsMeet step G s es := by
  induction es generalizing s with
  | nil => exact ⟨fun _ => trivial,fun _ => start⟩
  | cons e es ih =>
    cases taken : step s e with
    | none =>
      have idle {P : S → Prop} : ∀ t, step s e = some t → P t := by intro t; simp [taken]
      exact ⟨fun _ => ⟨blocked s e start taken,idle⟩,fun _ => ⟨start,idle⟩⟩
    | some s' =>
      have only {P : S → Prop} : (∀ t, step s e = some t → P t) ↔ P s' := by simp [taken]
      have next := exact s e s' start taken
      simp only [StatesMeet,StepsMeet,only]
      constructor
      · rintro ⟨_,later⟩
        have good : I s' := statesMeet_start later
        exact ⟨next.mp good,(ih good).mp later⟩
      · rintro ⟨admitted,later⟩
        exact ⟨start,(ih (next.mpr admitted)).mpr later⟩

/-- Two conditions that agree in the states of admitted runs admit the same
    runs. -/
theorem stepsMeet_congr {H : S → E → Prop} (agree : ∀ s e, I s → (G s e ↔ H s e))
    (keeps : ∀ s e s', I s → G s e → step s e = some s' → I s')
    {s : S} {es : List E} (start : I s) : StepsMeet step G s es ↔ StepsMeet step H s es := by
  induction es generalizing s with
  | nil => exact Iff.rfl
  | cons e es ih =>
    constructor
    · rintro ⟨admitted,later⟩
      refine ⟨(agree s e start).mp admitted,?_⟩
      intro s' taken
      exact (ih (keeps s e s' start admitted taken)).mp (later s' taken)
    · rintro ⟨admitted,later⟩
      have good := (agree s e start).mpr admitted
      refine ⟨good,?_⟩
      intro s' taken
      exact (ih (keeps s e s' start good taken)).mpr (later s' taken)

end Mp3Kernel.Runs

import Mp3Kernel.Lib.Runs

/-!
Tasks that wait for the RTC in `rtc_read`. All of them clear and watch the one
flag that the interrupt sets, so a tick is there for those that look before
someone else begins to wait.
-/
namespace Mp3Kernel.RtcWait
open Mp3Kernel.Runs
universe u

variable {T : Type u} [DecidableEq T]

/-- The flag, the tasks in the loop of `rtc_read`, and which of them an
    interrupt has come for since they cleared the flag. -/
structure Clock (T : Type u) where
  interrupt_received : Int
  waiting : T → Bool
  ticked : T → Bool

inductive Event (T : Type u) where
  /-- `rtc_read` is called: it clears the flag and goes into its loop -/
  | start (task : T)
  /-- one look at the flag in the loop -/
  | poll (task : T)
  /-- `rtc_process_interrupt` -/
  | interrupt
  /-- `rtc_open`, whose `rtc_init` clears the flag too -/
  | init

def step (s : Clock T) : Event T → Option (Clock T)
  | .start task =>
    if s.waiting task then none else
      some { interrupt_received := 0
             waiting := fun t => if t = task then true else s.waiting t
             ticked := fun t => if t = task then false else s.ticked t }
  | .poll task =>
    if ¬ s.waiting task then none
    else if s.interrupt_received = 1 then some { s with waiting := fun t => if t = task then false else s.waiting t }
    else some s
  | .interrupt => some { s with interrupt_received := 1, ticked := s.waiting }
  | .init => some { s with interrupt_received := 0 }

/-- The task waits, and an interrupt has come since it cleared the flag. -/
def Due (s : Clock T) (task : T) : Prop := s.waiting task = true ∧ s.ticked task = true

/-- Its next poll takes the task out of the loop. -/
def Leaves (s : Clock T) (task : T) : Prop := ∃ s', step s (.poll task) = some s' ∧ s'.waiting task = false

/-- Every task that is due leaves. -/
def Served (s : Clock T) : Prop := ∀ task, Due s task → Leaves s task

/-- The flag is not cleared while some task is due. -/
def Undisturbed (s : Clock T) : Event T → Prop
  | .start task => s.waiting task = true ∨ ∀ t, ¬ Due s t
  | .init => ∀ t, ¬ Due s t
  | .poll _ | .interrupt => True

/-- No task waits. -/
def quiet (interrupt_received : Int) : Clock T := ⟨interrupt_received,fun _ => false,fun _ => false⟩

/-! ### One step -/

variable {s s' : Clock T} {task : T}

/-- A waiting task leaves by the flag alone. -/
theorem leaves_iff (waits : s.waiting task = true) : Leaves s task ↔ s.interrupt_received = 1 := by
  rw [Leaves,step,if_neg (not_not.mpr waits)]
  by_cases received : s.interrupt_received = 1
  · rw [if_pos received]
    exact iff_of_true ⟨_,rfl,if_pos rfl⟩ received
  · rw [if_neg received]
    refine iff_of_false ?_ received
    rintro ⟨s',same,left⟩
    obtain rfl := Option.some.inj same
    rw [waits] at left
    cases left

theorem served_iff : Served s ↔ ∀ task, Due s task → s.interrupt_received = 1 :=
  forall_congr' fun _ => imp_congr_right fun due => leaves_iff due.1

/-- Once the flag is clear, nobody may be due. -/
theorem served_cleared (clear : s.interrupt_received = 0) : Served s ↔ ∀ task, ¬ Due s task := by
  rw [served_iff]
  refine forall_congr' fun task => ⟨fun served due => ?_,fun free due => absurd due free⟩
  exact absurd (clear.symm.trans (served due)) (by decide)

theorem due_start {t : T} (idle : s.waiting task = false) (taken : step s (.start task) = some s') :
    Due s' t ↔ Due s t := by
  rw [step,if_neg (by simp [idle])] at taken
  cases taken
  by_cases same : t = task
  · subst same
    simp [Due,idle]
  · simp [Due,same]

/-- A step serves those that are due exactly when it does not disturb them. -/
theorem served_step_iff (served : Served s) {e : Event T} (taken : step s e = some s') :
    Served s' ↔ Undisturbed s e := by
  cases e with
  | start task =>
    have idle : s.waiting task = false := by
      by_contra waits
      rw [step,if_pos (by simpa using waits)] at taken
      cases taken
    have clear : s'.interrupt_received = 0 := by
      rw [step,if_neg (by simp [idle])] at taken
      cases taken
      rfl
    rw [served_cleared clear,Undisturbed,or_iff_right (by simp [idle])]
    exact forall_congr' fun t => not_congr (due_start idle taken)
  | poll task =>
    refine iff_of_true ?_ trivial
    rw [served_iff] at served ⊢
    rw [step] at taken
    split at taken
    · cases taken
    · split at taken
      · cases taken
        exact fun _ _ => ‹s.interrupt_received = 1›
      · cases taken
        exact served
  | interrupt =>
    refine iff_of_true ?_ trivial
    cases taken
    exact served_iff.mpr fun _ _ => rfl
  | init =>
    cases taken
    rw [served_cleared rfl]
    rfl

/-! ### Runs -/

theorem undisturbed_blocked {e : Event T} (blocked : step s e = none) : Undisturbed s e := by
  cases e with
  | start task =>
    left
    by_contra idle
    rw [step,if_neg idle] at blocked
    cases blocked
  | poll task => trivial
  | interrupt => trivial
  | init => cases blocked

/-- In every run, with any number of tasks, all that are due would leave at
    their next poll in every state, exactly when nobody begins to wait while
    some task is due. -/
theorem ticks_served_iff (interrupt_received : Int) (evs : List (Event T)) :
    StatesMeet step Served (quiet interrupt_received) evs ↔ StepsMeet step Undisturbed (quiet interrupt_received) evs :=
  statesMeet_iff_stepsMeet (fun _ _ _ blocked => undisturbed_blocked blocked)
    (fun _ _ _ served taken => served_step_iff served taken) (fun _ due => absurd due.1 (by simp [quiet]))

/-- Task 0 waits when the interrupt comes, task 1 begins to wait, and task 0
    stays in its loop. -/
theorem tick_stolen : ∃ s : Clock (Fin 2), run step (quiet 0) [.start 0,.interrupt,.start 1] = some s ∧
    Due s 0 ∧ ¬ Leaves s 0 ∧ ¬ StatesMeet step Served (quiet (T := Fin 2) 0) [.start 0,.interrupt,.start 1] := by
  obtain ⟨s,reached,due,clear⟩ : ∃ s : Clock (Fin 2), run step (quiet 0) [.start 0,.interrupt,.start 1] = some s ∧
      Due s 0 ∧ s.interrupt_received = 0 := ⟨_,rfl,⟨rfl,rfl⟩,rfl⟩
  have stays : ¬ Leaves s 0 := by
    rw [leaves_iff due.1,clear]
    decide
  exact ⟨s,reached,due,stays,fun served => stays (statesMeet_last served reached 0 due)⟩

end Mp3Kernel.RtcWait

import Mp3Kernel.Terminal.Handshake
import Mp3Kernel.Terminal.LineEditor

/-!
Enter, pressed while a task waits for a whole line. The pending line takes 127
characters, the newline among them, so a line of 127 characters has no room for
the newline that would complete it.
-/
namespace Mp3Kernel.EnterKey
open Mp3Kernel.Memory (Byte)
open Mp3Kernel.Screen Mp3Kernel.Tty Mp3Kernel.Runs Mp3Kernel.Lines Mp3Kernel.TerminalRead
open Mp3Kernel.CursorRange (Event)
open Mp3Kernel.LogicalScreen (blank_console)
open Mp3Kernel.Handshake (key_state backspace_state)

/-- The reader goes on, or something other than a newline is typed. -/
def Types : Act → Prop
  | .reader | .console .backspace => True
  | .console (.key _ ch) => ch ≠ NEWLINE
  | _ => False

/-- The reader is in the loop of `keyboard_wait_for_new_line`. -/
def in_loop : Phase → Bool
  | .wait _ _ | .poll _ _ => true
  | _ => false

/-- Once Enter is pressed. -/
def enter (pName : Nat → Byte) (t : Int) (s : Reader) : Reader :=
  { s with
    console := terminal_add_to_buffer pName NEWLINE s.console
    typed := s.typed.event t s.console (.key pName NEWLINE) }

/-- Enter completes the line, and the loop returns its length at the next poll:
    at most its condition, its two tests and the length are still to be read. -/
structure Completes (pName : Nat → Byte) (t nbytes : Int) (s : Reader) : Prop where
  state : ((enter pName t s).console.terminal_list t).state = .TERMINAL_DONE_READ
  previous : Holds ((enter pName t s).console.terminal_list t).previous_input (s.typed.pending ++ [NEWLINE])
  empty : Holds ((enter pName t s).console.terminal_list t).input []
  exits : ∃ n ≤ 4, ∃ r, run (step t nbytes) (enter pName t s) (List.replicate n .reader) = some r ∧
    r.phase = .copy (s.typed.pending.length + 1) 0

/-! ### While characters are typed -/

/-- What is known of the reader up to its wait. -/
def Awaits (t : Int) (s : Reader) : Prop :=
  match s.phase with
  | .start | .echo => True
  | .mark max_chars => max_chars = 128
  | .note max_chars => max_chars = 128 ∧ (s.console.terminal_list t).state = .TERMINAL_READ
  | .wait max_chars old | .poll max_chars old =>
    max_chars = 128 ∧ 0 ≤ old ∧ (s.console.terminal_list t).state = .TERMINAL_READ
  | _ => False

structure Waiting (t : Int) (s : Reader) : Prop where
  displayed : s.console.current_terminal_index = t
  editing : Editing (s.console.terminal_list t) s.typed
  awaits : Awaits t s

variable {t nbytes : Int} {s s' : Reader}

theorem waiting_reader (asked : 128 ≤ nbytes) (waiting : Waiting t s) (taken : reader_step t nbytes s = some s') :
    Waiting t s' := by
  obtain ⟨displayed,editing,awaits⟩ := waiting
  have room := editing.room
  have pointer := editing.pending.1
  rw [Awaits] at awaits
  cases reader_step_cases taken with
  | start phase => exact ⟨displayed,editing.of_sameLines (keepsText_take_offset _ t).lines,trivial⟩
  | nothing phase none_asked => omega
  | echo phase =>
    refine ⟨(keeps_index_echo_pending t _).trans displayed,editing.of_sameLines (keepsText_echo_pending _ t t).lines,?_⟩
    rw [Awaits,BUFFER_SIZE]
    dsimp only
    split <;> omega
  | mark phase =>
    rw [phase] at awaits
    refine ⟨displayed,editing_set_state t _ editing,awaits,?_⟩
    simp [set_state]
  | note phase =>
    rw [phase] at awaits
    exact ⟨displayed,editing,awaits.1,by rw [pointer]; omega,awaits.2⟩
  | wait phase =>
    rw [phase] at awaits
    exact ⟨displayed,editing,awaits⟩
  | count phase ends =>
    rw [phase] at awaits
    omega
  | poll phase finished =>
    rw [phase] at awaits
    cases awaits.2.2.symm.trans finished
  | again phase =>
    rw [phase] at awaits
    exact ⟨displayed,editing,awaits⟩
  | room phase => rw [phase] at awaits; cases awaits
  | crowded phase => rw [phase] at awaits; cases awaits
  | line phase => rw [phase] at awaits; cases awaits
  | byte phase => rw [phase] at awaits; cases awaits
  | last phase => rw [phase] at awaits; cases awaits

/-- Typing leaves the reader where it is. -/
theorem awaits_typing {c : Console} {typed : Typed} (awaits : Awaits t s)
    (state : (c.terminal_list t).state = (s.console.terminal_list t).state) :
    Awaits t { s with console := c, typed := typed } := by
  unfold Awaits at *
  dsimp only
  cases phase : s.phase with
  | note m => rw [phase] at awaits; exact ⟨awaits.1,state.trans awaits.2⟩
  | wait m o | poll m o => rw [phase] at awaits; exact ⟨awaits.1,awaits.2.1,state.trans awaits.2.2⟩
  | start | echo => trivial
  | mark m => rw [phase] at awaits; exact awaits
  | room m o | line | copy i j | done r => rw [phase] at awaits; cases awaits

theorem waiting_step {act : Act} (asked : 128 ≤ nbytes) (waiting : Waiting t s) (types : Types act)
    (taken : step t nbytes s act = some s') : Waiting t s' := by
  have displayed := waiting.displayed
  cases act with
  | reader => exact waiting_reader asked waiting taken
  | idle e => cases types
  | console ev =>
    cases ev with
    | key pName ch =>
      cases taken
      have editing := (follows_key pName ch waiting.editing).1
      have state := key_state pName ch displayed
      rw [if_neg (fun completed => types completed.2)] at state
      exact ⟨(keeps_index_add_to_buffer ..).trans displayed,editing,awaits_typing waiting.awaits state⟩
    | backspace =>
      cases taken
      have editing := (follows_backspace waiting.editing).1
      exact ⟨(keeps_index_backspace _).trans displayed,editing,awaits_typing waiting.awaits (backspace_state _ _)⟩
    | clear => cases types
    | write e buf n => cases types
    | read e null n => cases types
    | switch k => cases types

theorem waiting_run {acts : List Act} (asked : 128 ≤ nbytes) (start : Waiting t s) (types : ∀ act ∈ acts, Types act)
    (reached : run (step t nbytes) s acts = some s') : Waiting t s' := by
  have meets : StepsMeet (step t nbytes) (fun _ act => Types act) s acts := stepsMeet_of_always (fun _ => types) s
  exact statesMeet_last (statesMeet_of_stepsMeet (fun _ _ _ waiting types taken => waiting_step asked waiting types taken)
    start meets) reached

/-! ### Enter -/

variable (pName : Nat → Byte)

/-- A poll that finds the line completed returns its length. -/
theorem poll_exits {m o length : Int} (phase : s.phase = .poll m o) (displayed : s.console.current_terminal_index = t)
    (done : (s.console.terminal_list t).state = .TERMINAL_DONE_READ)
    (empty : (s.console.terminal_list t).input.input_pointer = 0)
    (previous : (s.console.terminal_list t).previous_input.input_pointer = length) (low : 0 ≤ length) (high : length < 256) :
    run (step t nbytes) s (List.replicate 3 .reader) = some (s.at (.copy length 0)) := by
  subst displayed
  simp [List.replicate,run_cons,step,reader_step,Reader.at,phase,done,empty,previous,Int.emod_eq_of_lt low high]

variable (nbytes) in
theorem wait_polls {m o : Int} (phase : s.phase = .wait m o)
    (goes : o > (s.console.terminal_list t).input.input_pointer - m) :
    step t nbytes s .reader = some (s.at (.poll m o)) := by
  simp only [step,reader_step,phase]
  rw [if_pos goes]

/-- With room for it, the newline ends the wait. -/
theorem completes_room (waiting : Waiting t s) (loop : in_loop s.phase = true)
    (room : (s.console.terminal_list t).input.input_pointer < 127) : Completes pName t nbytes s := by
  obtain ⟨displayed,editing,awaits⟩ := waiting
  have pointer := editing.pending.1
  have state := key_state pName NEWLINE displayed
  rw [if_pos ⟨room,rfl⟩] at state
  have edited := (follows_key pName NEWLINE editing).1
  rw [if_pos displayed,Typed.key,if_neg (by omega),if_pos rfl] at edited
  have previous := (edited.previous (s.typed.pending ++ [NEWLINE]) List.getLast?_concat).1
  have length : (s.typed.pending ++ [NEWLINE]).length = s.typed.pending.length + 1 := List.length_append
  have index : (enter pName t s).console.current_terminal_index = t := (keeps_index_add_to_buffer ..).trans displayed
  have returned := previous.1
  rw [length,Nat.cast_add,Nat.cast_one] at returned
  have exits {m o : Int} {r : Reader} (same : r.console = (enter pName t s).console) (phase : r.phase = .poll m o) :
      run (step t nbytes) r (List.replicate 3 .reader) = some (r.at (.copy (s.typed.pending.length + 1) 0)) :=
    poll_exits (t := t) (s := r) phase (by rw [same]; exact index) (by rw [same]; exact state)
      (by rw [same]; exact edited.pending.1) (by rw [same]; exact returned) (by omega) (by omega)
  refine ⟨state,previous,edited.pending,?_⟩
  rw [Awaits] at awaits
  cases phase : s.phase with
  | poll m o => exact ⟨3,by decide,_,exits rfl phase,rfl⟩
  | wait m o =>
    rw [phase] at awaits
    have goes : o > ((enter pName t s).console.terminal_list t).input.input_pointer - m := by
      have empty := edited.pending.1
      change o > ((terminal_add_to_buffer pName NEWLINE s.console).terminal_list t).input.input_pointer - m
      rw [empty,awaits.1]
      have := awaits.2.1
      simp only [List.length_nil]
      omega
    have polls := wait_polls nbytes (s := enter pName t s) phase goes
    exact ⟨4,le_rfl,_,run_cons_eq_some.mpr ⟨_,polls,exits rfl rfl⟩,rfl⟩
  | start | echo | mark m | note m | room m o | line | copy i j | done r =>
    rw [phase] at loop
    cases loop

/-- Without, it is dropped and the reader goes on waiting. -/
theorem not_completes_full (waiting : Waiting t s) (loop : in_loop s.phase = true)
    (full : 127 ≤ (s.console.terminal_list t).input.input_pointer) : ¬ Completes pName t nbytes s := by
  rintro ⟨done,-,-,-⟩
  have dropped : terminal_add_to_buffer pName NEWLINE s.console = s.console :=
    if_pos (by rw [waiting.displayed]; exact full)
  have awaits := waiting.awaits
  rw [enter,dropped] at done
  rw [Awaits] at awaits
  cases phase : s.phase with
  | wait m o | poll m o =>
    rw [phase] at awaits
    cases awaits.2.2.symm.trans done
  | start | echo | mark m | note m | room m o | line | copy i j | done r =>
    rw [phase] at loop
    cases loop

/-- A task of the displayed terminal reads a line while characters are typed:
    Enter completes the line exactly when fewer than 127 are pending. -/
theorem enter_completes_iff {c : Console} {typed : Typed} (acts : List Act) (asked : 128 ≤ nbytes)
    (displayed : c.current_terminal_index = t) (editing : Editing (c.terminal_list t) typed)
    (types : ∀ act ∈ acts, Types act) (reached : run (step t nbytes) ⟨c,.start,[],typed⟩ acts = some s)
    (loop : in_loop s.phase = true) :
    Completes pName t nbytes s ↔ (s.console.terminal_list t).input.input_pointer < 127 := by
  have start : Waiting t ⟨c,.start,[],typed⟩ := ⟨displayed,editing,trivial⟩
  have waiting := waiting_run asked start types reached
  constructor
  · intro completes
    by_contra full
    exact not_completes_full pName waiting loop (by omega) completes
  · exact completes_room pName waiting loop

/-- The first four steps of a read, up to its wait. -/
def starts : List Act := List.replicate 4 .reader

def letters (n : Nat) : List Act := List.replicate n (.console (.key (fun _ => 0) 97))

theorem types_letters (n : Nat) : ∀ act ∈ starts ++ letters n, Types act := by
  intro act listed
  rcases List.mem_append.mp listed with reader | key
  · rw [List.eq_of_mem_replicate reader]
    trivial
  · rw [List.eq_of_mem_replicate key]
    exact show (97 : Byte) ≠ NEWLINE from by decide

/-- Letters fill the line. -/
theorem letters_pending (n : Nat) (waiting : Waiting t s) (asked : 128 ≤ nbytes)
    (room : s.typed.pending.length + n ≤ 127) : ∃ s', run (step t nbytes) s (letters n) = some s' ∧
      s'.phase = s.phase ∧ s'.typed.pending.length = s.typed.pending.length + n := by
  induction n generalizing s with
  | zero => exact ⟨s,rfl,rfl,rfl⟩
  | succ n ih =>
    obtain ⟨s₁,taken,phase,typed⟩ : ∃ s₁, step t nbytes s (.console (.key (fun _ => 0) 97)) = some s₁ ∧
        s₁.phase = s.phase ∧ s₁.typed = s.typed.key 97 :=
      ⟨_,rfl,rfl,if_pos waiting.displayed⟩
    rw [Typed.key,if_neg (by omega),if_neg (by decide)] at typed
    have length := congrArg (fun typed => typed.pending.length) typed
    simp only [List.length_append,List.length_singleton] at length
    have types : Types (.console (.key (fun _ => 0) 97)) := show (97 : Byte) ≠ NEWLINE from by decide
    obtain ⟨s',reached,phase',length'⟩ := ih (waiting_step asked waiting types taken) (by omega)
    exact ⟨s',run_cons_eq_some.mpr ⟨s₁,taken,reached⟩,phase'.trans phase,by omega⟩

theorem enter_completes_iff_typed : ∃ s, run (step 0 128) (begin_read (terminal_open blank_console))
      (starts ++ letters 1) = some s ∧
    (Completes (fun _ => 0) 0 128 s ↔ (s.console.terminal_list 0).input.input_pointer < 127) := by
  refine ⟨_,rfl,?_⟩
  exact enter_completes_iff (fun _ => 0) (starts ++ letters 1) le_rfl rfl (LineEditor.editing_open le_rfl (by decide))
    (types_letters 1) rfl rfl

/-- After 127 letters Enter does nothing. -/
theorem enter_dropped : ∃ s, run (step 0 128) (begin_read (terminal_open blank_console))
      (starts ++ letters 127) = some s ∧ in_loop s.phase = true ∧ ¬ Completes (fun _ => 0) 0 128 s := by
  obtain ⟨s₁,reached,loop,empty⟩ : ∃ s₁, run (step 0 128) (begin_read (terminal_open blank_console)) starts = some s₁ ∧
      in_loop s₁.phase = true ∧ s₁.typed = ⟨[],[]⟩ := ⟨_,rfl,rfl,rfl⟩
  have begun : Waiting 0 (begin_read (terminal_open blank_console)) :=
    ⟨rfl,LineEditor.editing_open le_rfl (by decide),trivial⟩
  have waiting := waiting_run le_rfl begun (fun act reader => types_letters 0 act (List.mem_append_left _ reader)) reached
  obtain ⟨s,typed,phase,length⟩ := letters_pending 127 waiting le_rfl (by rw [empty]; decide)
  have still := waiting_run le_rfl waiting
    (fun act key => types_letters 127 act (List.mem_append_right _ key)) typed
  rw [empty] at length
  rw [← phase] at loop
  refine ⟨s,run_append reached typed,loop,not_completes_full _ still loop ?_⟩
  rw [still.editing.pending.1,length]
  decide

end Mp3Kernel.EnterKey

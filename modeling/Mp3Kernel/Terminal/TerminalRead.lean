import Mp3Kernel.Terminal.Lines

/-!
A task that reads from its terminal while keys arrive, the display is switched
and tasks of the other terminals print and read. Every access of
`terminal_read` and `keyboard_wait_for_new_line` to the shared state is a step
of its own; `Undisturbed` says which steps go wrong.
-/
namespace Mp3Kernel.TerminalRead
open Mp3Kernel.Memory (Byte)
open Mp3Kernel.Screen Mp3Kernel.Tty Mp3Kernel.Runs Mp3Kernel.Lines
open Mp3Kernel.CursorRange (Event)

/-- Where a reader is; `i` is what `keyboard_wait_for_new_line` returned. -/
inductive Phase where
  | start
  | echo
  /-- about to mark the terminal as being read -/
  | mark (max_chars : Int)
  /-- about to note the start of the line -/
  | note (max_chars : Int)
  /-- at the condition of the wait loop -/
  | wait (max_chars old_input_pointer : Int)
  /-- at the test of the state, -/
  | poll (max_chars old_input_pointer : Int)
  /-- and of the room left in the line -/
  | room (max_chars old_input_pointer : Int)
  | line
  | copy (i j : Int)
  | done (ret : Int)
  deriving DecidableEq

/-- A reader with the console it shares, what it has stored in its buffer, and
    what was typed on its terminal since the call began. -/
structure Reader where
  console : Console
  phase : Phase
  output : List Byte
  typed : Typed

def Reader.at (s : Reader) (phase : Phase) : Reader := { s with phase := phase }

/-- The next step of `terminal_read(buf, nbytes)` by a task of terminal `t`. -/
def reader_step (t nbytes : Int) (s : Reader) : Option Reader :=
  let own := s.console.terminal_list t
  let shown := s.console.terminal_list s.console.current_terminal_index
  match s.phase with
  | .start => some { s with console := take_offset s.console, phase := .echo }
  | .echo =>
    some { s with
      console := echo_pending t s.console
      phase := if nbytes ≤ 0 then .done 0 else .mark (if nbytes > BUFFER_SIZE then BUFFER_SIZE else nbytes) }
  | .mark max_chars => some { s with console := set_state t .TERMINAL_READ s.console, phase := .note max_chars }
  | .note max_chars => some (s.at (.wait max_chars own.input.input_pointer))
  | .wait max_chars old => some (s.at (if old > own.input.input_pointer - max_chars then .poll max_chars old
      -- no newline: `max_chars` characters are pending
      else .copy max_chars 0))
  | .poll max_chars old => some (s.at (if own.state = .TERMINAL_DONE_READ then .room max_chars old else .wait max_chars old))
  | .room max_chars old => some (s.at (if own.input.input_pointer < BUFFER_SIZE - 1 then .line else .wait max_chars old))
  -- the length comes back as an `unsigned char`
  | .line => some (s.at (.copy (shown.previous_input.input_pointer % 256) 0))
  | .copy i j =>
    if j < i - 1 then
      some { s with phase := .copy i (j + 1), output := s.output ++ [shown.previous_input.line j] }
    else some { s with console := set_state t .TERMINAL_IDLE s.console, phase := .done (i - 1) }
  | .done _ => none

/-- What the next step can do, by what it finds. -/
inductive Stepped (t nbytes : Int) (s : Reader) : Reader → Prop where
  | start (phase : s.phase = .start) : Stepped t nbytes s { s with console := take_offset s.console, phase := .echo }
  | nothing (phase : s.phase = .echo) (asked : nbytes ≤ 0) :
    Stepped t nbytes s { s with console := echo_pending t s.console, phase := .done 0 }
  | echo (phase : s.phase = .echo) (asked : 0 < nbytes) : Stepped t nbytes s { s with
      console := echo_pending t s.console
      phase := .mark (if nbytes > BUFFER_SIZE then BUFFER_SIZE else nbytes) }
  | mark {m : Int} (phase : s.phase = .mark m) :
    Stepped t nbytes s { s with console := set_state t .TERMINAL_READ s.console, phase := .note m }
  | note {m : Int} (phase : s.phase = .note m) :
    Stepped t nbytes s (s.at (.wait m (s.console.terminal_list t).input.input_pointer))
  | wait {m o : Int} (phase : s.phase = .wait m o) (waits : o > (s.console.terminal_list t).input.input_pointer - m) :
    Stepped t nbytes s (s.at (.poll m o))
  | count {m o : Int} (phase : s.phase = .wait m o) (ends : ¬ o > (s.console.terminal_list t).input.input_pointer - m) :
    Stepped t nbytes s (s.at (.copy m 0))
  | poll {m o : Int} (phase : s.phase = .poll m o) (finished : (s.console.terminal_list t).state = .TERMINAL_DONE_READ) :
    Stepped t nbytes s (s.at (.room m o))
  | again {m o : Int} (phase : s.phase = .poll m o) (typing : (s.console.terminal_list t).state ≠ .TERMINAL_DONE_READ) :
    Stepped t nbytes s (s.at (.wait m o))
  | room {m o : Int} (phase : s.phase = .room m o)
    (free : (s.console.terminal_list t).input.input_pointer < BUFFER_SIZE - 1) : Stepped t nbytes s (s.at .line)
  | crowded {m o : Int} (phase : s.phase = .room m o)
    (full : ¬ (s.console.terminal_list t).input.input_pointer < BUFFER_SIZE - 1) : Stepped t nbytes s (s.at (.wait m o))
  | line (phase : s.phase = .line) : Stepped t nbytes s
      (s.at (.copy ((s.console.terminal_list s.console.current_terminal_index).previous_input.input_pointer % 256) 0))
  | byte {i j : Int} (phase : s.phase = .copy i j) (goes : j < i - 1) : Stepped t nbytes s { s with
      phase := .copy i (j + 1)
      output := s.output ++ [(s.console.terminal_list s.console.current_terminal_index).previous_input.line j] }
  | last {i j : Int} (phase : s.phase = .copy i j) (ends : ¬ j < i - 1) :
    Stepped t nbytes s { s with console := set_state t .TERMINAL_IDLE s.console, phase := .done (i - 1) }

theorem reader_step_cases {t nbytes : Int} {s s' : Reader} (taken : reader_step t nbytes s = some s') :
    Stepped t nbytes s s' := by
  rw [reader_step] at taken
  cases phase : s.phase with
  | done r =>
    rw [phase] at taken
    cases taken
  | echo =>
    rw [phase] at taken
    cases taken
    by_cases asked : nbytes ≤ 0
    · rw [if_pos asked]
      exact .nothing phase asked
    · rw [if_neg asked]
      exact .echo phase (by omega)
  | wait m o =>
    rw [phase] at taken
    cases taken
    by_cases waits : o > (s.console.terminal_list t).input.input_pointer - m
    · rw [if_pos waits]
      exact .wait phase waits
    · rw [if_neg waits]
      exact .count phase waits
  | poll m o =>
    rw [phase] at taken
    cases taken
    by_cases finished : (s.console.terminal_list t).state = .TERMINAL_DONE_READ
    · rw [if_pos finished]
      exact .poll phase finished
    · rw [if_neg finished]
      exact .again phase finished
  | room m o =>
    rw [phase] at taken
    cases taken
    by_cases free : (s.console.terminal_list t).input.input_pointer < BUFFER_SIZE - 1
    · rw [if_pos free]
      exact .room phase free
    · rw [if_neg free]
      exact .crowded phase free
  | copy i j =>
    rw [phase] at taken
    dsimp only at taken
    by_cases goes : j < i - 1
    · rw [if_pos goes] at taken
      cases taken
      exact .byte phase goes
    · rw [if_neg goes] at taken
      cases taken
      exact .last phase goes
  | start =>
    rw [phase] at taken
    cases taken
    exact .start phase
  | mark m =>
    rw [phase] at taken
    cases taken
    exact .mark phase
  | note m =>
    rw [phase] at taken
    cases taken
    exact .note phase
  | line =>
    rw [phase] at taken
    cases taken
    exact .line phase

inductive Act where
  /-- the reader is scheduled for one step -/
  | reader
  /-- a key, a display switch, or what a task of another terminal does -/
  | console (ev : Event)
  /-- a reader of another terminal is finished -/
  | idle (e : Int)

/-- No other task of the reader's terminal runs. -/
def foreign (t : Int) : Event → Bool
  | .read e _ _ => e ≠ t
  | .write e _ _ => e ≠ t
  | _ => true

def step (t nbytes : Int) (s : Reader) : Act → Option Reader
  | .reader => reader_step t nbytes s
  | .console ev =>
    if foreign t ev then
      (CursorRange.step s.console ev).map fun c => { s with console := c, typed := s.typed.event t s.console ev }
    else none
  | .idle e => if e ≠ t then some { s with console := set_state e .TERMINAL_IDLE s.console } else none

/-- The call begins with an empty pending line. -/
def begin_read (c : Console) : Reader := ⟨c,.start,[],⟨[],[]⟩⟩

/-- A finished read returned at most what was asked for, and its bytes are the
    first that were typed since the call began. -/
def Delivered (nbytes : Int) (s : Reader) : Prop :=
  ∀ r, s.phase = .done r → 0 ≤ r ∧ r ≤ nbytes ∧ s.output.length = r ∧ s.output = s.typed.text.take r.toNat

/-- The condition on the reader's own steps: the wait does not end by the
    number of characters, but for a read of 1; and from the wake-up until the
    last byte is copied the reader's terminal is displayed, one line is completed
    since the call began, and it fits. -/
def Undisturbed (t nbytes : Int) (s : Reader) : Act → Prop
  | .reader =>
    match s.phase with
    | .wait max_chars old => old > (s.console.terminal_list t).input.input_pointer - max_chars ∨ nbytes = 1
    | .line => s.console.current_terminal_index = t ∧ ∃ line, s.typed.lines = [line] ∧ line.length ≤ nbytes + 1
    | .copy i j => j < i - 1 → s.console.current_terminal_index = t ∧ s.typed.lines.length = 1
    | _ => True
  | _ => True

/-! ### What a run keeps -/

/-- The bytes are the first of the first line completed. -/
def FirstBytes (s : Typed) (output : List Byte) : Prop :=
  output = [] ∨ ∃ line rest, s.lines = line :: rest ∧ output <+: line

/-- What is known of the reader in each phase. -/
def Progress (nbytes : Int) (s : Reader) : Prop :=
  match s.phase with
  | .start | .echo | .line => s.output = []
  | .mark max_chars | .note max_chars | .wait max_chars _ | .poll max_chars _ | .room max_chars _ =>
    s.output = [] ∧ (nbytes = 1 → max_chars = 1)
  | .copy i j =>
    0 ≤ j ∧ j ≤ i - 1 ∧ i - 1 ≤ nbytes ∧ s.output.length = j ∧ FirstBytes s.typed s.output ∧
      (i = 1 ∨ ∃ line rest, s.typed.lines = line :: rest ∧ i = line.length)
  | .done r => 0 ≤ r ∧ r ≤ nbytes ∧ s.output.length = r ∧ FirstBytes s.typed s.output

/-- The reader's terminal is edited as typed, and the reader is on its way. -/
structure Reads (t nbytes : Int) (s : Reader) : Prop where
  editing : Editing (s.console.terminal_list t) s.typed
  progress : Progress nbytes s

variable {t nbytes : Int} {s s' : Reader}

theorem first_line {typed typed' : Typed} (more : typed.lines <+: typed'.lines) {line : List Byte} {rest : List (List Byte)}
    (first : typed.lines = line :: rest) : ∃ rest', typed'.lines = line :: rest' := by
  obtain ⟨later,same⟩ := more
  exact ⟨rest ++ later,by rw [← same,first,List.cons_append]⟩

theorem FirstBytes.more {typed typed' : Typed} {output : List Byte} (first : FirstBytes typed output)
    (more : typed.lines <+: typed'.lines) : FirstBytes typed' output := by
  rcases first with empty | ⟨line,rest,lines,start⟩
  · exact .inl empty
  · obtain ⟨rest',lines'⟩ := first_line more lines
    exact .inr ⟨line,rest',lines',start⟩

/-- Typing goes on without harm to what the reader has. -/
theorem progress_more (console : Console) {typed : Typed} (progress : Progress nbytes s)
    (more : s.typed.lines <+: typed.lines) : Progress nbytes { s with console := console, typed := typed } := by
  unfold Progress at *
  dsimp only
  cases phase : s.phase with
  | copy i j =>
    rw [phase] at progress
    obtain ⟨low,high,fits,length,first,whole⟩ := progress
    refine ⟨low,high,fits,length,first.more more,?_⟩
    rcases whole with one | ⟨line,rest,lines,whole⟩
    · exact .inl one
    · obtain ⟨rest',lines'⟩ := first_line more lines
      exact .inr ⟨line,rest',lines',whole⟩
  | done r =>
    rw [phase] at progress
    obtain ⟨low,high,length,first⟩ := progress
    exact ⟨low,high,length,first.more more⟩
  | start => rw [phase] at progress; exact progress
  | echo => rw [phase] at progress; exact progress
  | line => rw [phase] at progress; exact progress
  | mark m => rw [phase] at progress; exact progress
  | note m => rw [phase] at progress; exact progress
  | wait m o => rw [phase] at progress; exact progress
  | poll m o => rw [phase] at progress; exact progress
  | room m o => rw [phase] at progress; exact progress

theorem editing_set_state {c : Console} {typed : Typed} (e : Int) (state : TerminalState)
    (editing : Editing (c.terminal_list t) typed) : Editing ((set_state e state c).terminal_list t) typed := by
  by_cases here : t = e
  · subst here
    rw [set_state,setTerminal_same]
    exact ⟨editing.pending,editing.room,editing.previous⟩
  · rw [set_state,setTerminal_other _ _ here]
    exact editing

/-- A byte copied from the displayed line of the reader's own terminal. -/
theorem firstBytes_copy {i j : Int} (reads : Reads t nbytes s) (phase : s.phase = .copy i j) (goes : j < i - 1)
    (displayed : s.console.current_terminal_index = t) (single : s.typed.lines.length = 1) :
    FirstBytes s.typed
      (s.output ++ [(s.console.terminal_list s.console.current_terminal_index).previous_input.line j]) := by
  have progress := reads.progress
  rw [Progress,phase] at progress
  obtain ⟨low,-,-,length,first,whole⟩ := progress
  obtain one | ⟨line,rest,lines,whole⟩ := whole
  · omega
  · obtain rfl : rest = [] := by simpa [lines] using single
    have start : s.output <+: line := by
      rcases first with empty | ⟨other,others,same,start⟩
      · rw [empty]
        exact List.nil_prefix
      · obtain ⟨rfl,-⟩ := List.cons.inj (lines.symm.trans same)
        exact start
    obtain ⟨⟨-,chars⟩,-,-⟩ := reads.editing.previous line (by rw [lines]; rfl)
    have inside : s.output.length < line.length := by omega
    have next : s.output ++ [(line)[s.output.length]] = line.take (s.output.length + 1) := by
      rw [List.take_succ_eq_append_getElem inside,← List.prefix_iff_eq_take.mp start]
    rw [displayed,← length,chars _ inside,next]
    exact .inr ⟨line,[],lines,List.take_prefix _ _⟩

theorem reads_reader_step (asked : 1 ≤ nbytes) (reads : Reads t nbytes s) (calm : Undisturbed t nbytes s .reader)
    (taken : reader_step t nbytes s = some s') : Reads t nbytes s' := by
  have progress := reads.progress
  have editing := reads.editing
  rw [Undisturbed] at calm
  rw [Progress] at progress
  cases reader_step_cases taken with
  | start phase =>
    rw [phase] at progress
    exact ⟨editing.of_sameLines (keepsText_take_offset s.console t).lines,progress⟩
  | nothing phase none_asked => omega
  | echo phase =>
    rw [phase] at progress
    refine ⟨editing.of_sameLines (keepsText_echo_pending s.console t t).lines,progress,?_⟩
    intro single
    rw [BUFFER_SIZE,if_neg (by omega),single]
  | mark phase =>
    rw [phase] at progress
    exact ⟨editing_set_state t _ editing,progress⟩
  | note phase =>
    rw [phase] at progress
    exact ⟨editing,progress⟩
  | wait phase =>
    rw [phase] at progress
    exact ⟨editing,progress⟩
  | @count m o phase ends =>
    rw [phase] at progress calm
    have one : m = 1 := progress.2 (calm.resolve_left ends)
    have empty := progress.1
    exact ⟨editing,le_rfl,by omega,by omega,by rw [Reader.at,empty]; rfl,.inl empty,.inl one⟩
  | poll phase =>
    rw [phase] at progress
    exact ⟨editing,progress⟩
  | again phase =>
    rw [phase] at progress
    exact ⟨editing,progress⟩
  | room phase =>
    rw [phase] at progress
    exact ⟨editing,progress.1⟩
  | crowded phase =>
    rw [phase] at progress
    exact ⟨editing,progress⟩
  | line phase =>
    rw [phase] at progress calm
    obtain ⟨displayed,line,lines,fits⟩ := calm
    obtain ⟨⟨pointer,-⟩,some_,short⟩ := editing.previous line (by rw [lines]; rfl)
    rw [displayed,pointer,Int.emod_eq_of_lt (by omega) (by omega)]
    exact ⟨editing,le_rfl,by omega,by omega,by rw [Reader.at,progress]; rfl,.inl progress,.inr ⟨line,[],lines,rfl⟩⟩
  | byte phase goes =>
    rw [phase] at progress calm
    obtain ⟨displayed,single⟩ := calm goes
    have copied := firstBytes_copy reads phase goes displayed single
    obtain ⟨low,-,fits,length,-,whole⟩ := progress
    refine ⟨editing,by omega,by omega,fits,?_,copied,whole⟩
    rw [List.length_append,List.length_singleton]
    omega
  | last phase ends =>
    rw [phase] at progress
    obtain ⟨low,high,fits,length,first,-⟩ := progress
    exact ⟨editing_set_state t _ editing,by omega,fits,by dsimp only; omega,first⟩

theorem reads_step {act : Act} (asked : 1 ≤ nbytes) (reads : Reads t nbytes s) (calm : Undisturbed t nbytes s act)
    (taken : step t nbytes s act = some s') : Reads t nbytes s' := by
  cases act with
  | reader => exact reads_reader_step asked reads calm taken
  | console ev =>
    rw [step] at taken
    by_cases alien : foreign t ev
    · rw [if_pos alien,Option.map_eq_some_iff] at taken
      obtain ⟨c,moved,rfl⟩ := taken
      have other (null : Bool) (n : Int) : ev ≠ .read t null n := by
        rintro rfl
        simp [foreign] at alien
      exact ⟨(follows_step moved reads.editing other).1,progress_more c reads.progress (lines_head t s.console s.typed ev)⟩
    · rw [if_neg alien] at taken
      cases taken
  | idle e =>
    rw [step] at taken
    split at taken
    · cases taken
      exact ⟨editing_set_state e _ reads.editing,progress_more _ reads.progress List.prefix_rfl⟩
    · cases taken

theorem delivered_of_reads (reads : Reads t nbytes s) : Delivered nbytes s := by
  intro r finished
  have progress := reads.progress
  rw [Progress,finished] at progress
  obtain ⟨low,high,length,first⟩ := progress
  refine ⟨low,high,length,?_⟩
  have start : s.output <+: s.typed.text := by
    rcases first with empty | ⟨line,rest,lines,start⟩
    · rw [empty]
      exact List.nil_prefix
    · rw [Typed.text,lines,List.flatten_cons,List.append_assoc]
      exact start.trans (List.prefix_append _ _)
  have count : r.toNat = s.output.length := by omega
  rw [count]
  exact List.prefix_iff_eq_take.mp start

/-- Whatever is typed, displayed and scheduled in between: a read whose steps
    are undisturbed delivers the first characters typed since it began. -/
theorem terminal_read_delivers (asked : 1 ≤ nbytes) {c : Console}
    (empty : (c.terminal_list t).input.input_pointer = 0) (acts : List Act)
    (calm : StepsMeet (step t nbytes) (Undisturbed t nbytes) (begin_read c) acts) :
    StatesMeet (step t nbytes) (Delivered nbytes) (begin_read c) acts := by
  have start : Reads t nbytes (begin_read c) := by
    refine ⟨⟨⟨empty,fun i inside => by cases inside⟩,Nat.zero_le _,?_⟩,rfl⟩
    intro line last
    cases last
  have all : StatesMeet (step t nbytes) (Reads t nbytes) (begin_read c) acts :=
    statesMeet_of_stepsMeet (fun _ _ _ reads calm taken => reads_step asked reads calm taken) start calm
  exact statesMeet_mono (fun _ reads => delivered_of_reads reads) all

/-- An `a` and a newline while the reader waits. -/
def short_line : List Act :=
  [.reader,.reader,.reader,.reader,.console (.key (fun _ => 0) 97),.console (.key (fun _ => 0) 10)]

theorem terminal_read_delivers_short_line :
    StatesMeet (step 0 5) (Delivered 5) (begin_read (terminal_open LogicalScreen.blank_console))
      (short_line ++ [.reader,.reader,.reader,.reader,.reader,.reader]) := by
  refine terminal_read_delivers (by decide) rfl _ ?_
  refine (stepsMeet_cons rfl).mpr ⟨trivial,?_⟩
  refine (stepsMeet_cons rfl).mpr ⟨trivial,?_⟩
  refine (stepsMeet_cons rfl).mpr ⟨trivial,?_⟩
  refine (stepsMeet_cons rfl).mpr ⟨trivial,?_⟩
  refine (stepsMeet_cons rfl).mpr ⟨trivial,?_⟩
  refine (stepsMeet_cons rfl).mpr ⟨trivial,?_⟩
  refine (stepsMeet_cons rfl).mpr ⟨.inl (by decide),?_⟩
  refine (stepsMeet_cons rfl).mpr ⟨trivial,?_⟩
  refine (stepsMeet_cons rfl).mpr ⟨trivial,?_⟩
  refine (stepsMeet_cons rfl).mpr ⟨⟨rfl,[97,10],rfl,by decide⟩,?_⟩
  refine (stepsMeet_cons rfl).mpr ⟨fun _ => ⟨rfl,rfl⟩,?_⟩
  refine (stepsMeet_cons rfl).mpr ⟨fun _ => ⟨rfl,rfl⟩,?_⟩
  trivial

/-- The display is switched before the reader wakes up. -/
theorem read_returns_negative :
    ((terminal_open LogicalScreen.blank_console).terminal_list 0).input.input_pointer = 0 ∧
      ¬ StatesMeet (step 0 5) (Delivered 5) (begin_read (terminal_open LogicalScreen.blank_console))
        (short_line ++ [.console (.switch 1),.reader,.reader,.reader,.reader,.reader]) := by
  refine ⟨rfl,?_⟩
  intro delivered
  obtain ⟨s,reached,finished⟩ : ∃ s, run (step 0 5) (begin_read (terminal_open LogicalScreen.blank_console))
      (short_line ++ [.console (.switch 1),.reader,.reader,.reader,.reader,.reader]) = some s ∧ s.phase = .done (-1) :=
    ⟨_,rfl,by decide⟩
  have low := (statesMeet_last delivered reached (-1) finished).1
  omega

end Mp3Kernel.TerminalRead

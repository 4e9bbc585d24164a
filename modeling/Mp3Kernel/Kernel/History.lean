import Mp3Kernel.Lib.Ring
import Mp3Kernel.Terminal.LineEditor
import Mp3Kernel.Kernel.VideoMapping
import Mp3Kernel.Kernel.Preemption

/-!
The history of every terminal along the steps of the whole machine, with keys,
switches of the display and the accesses of system calls to the terminals in
between. A line belongs into the history of the terminal that it is typed on
when that terminal's foreground task is a shell; `terminal_copy_to_history`
asks the task that the key interrupted, and `Recorded` says when that is the
same.
-/
namespace Mp3Kernel.History
open Mp3Kernel.Memory (Byte Word)
open Mp3Kernel.Filesys Mp3Kernel.Screen Mp3Kernel.Tty Mp3Kernel.Tasks Mp3Kernel.Scheduler Mp3Kernel.Runs Mp3Kernel.Lines
open Mp3Kernel.Preemption (Machine statement begin_machine kernel_frame first_tick begin_standing tick_turns
  execute_runs)
open Mp3Kernel.CursorRange (entered shown add_to_buffer_eq deleted backspace_terminal)
open Mp3Kernel.VideoMapping (open_kernel tasks_init_keeps)
open Mp3Kernel.TaskForest (Booting tasks_init_rule created_first init_shell_created created_shell shell_record
  shell_image shell_image_loads named_image named_image_loads tasks_init_completes tasks_init_leaves shells)

/-- What reaches the terminals. -/
inductive Access where
  /-- `terminal_add_to_buffer`, and the shortcuts of the keyboard -/
  | key (ch : Byte)
  | backspace
  | clear
  | switch (d : Int)
  /-- `terminal_write` by the running task, -/
  | write (buf : Option Buffer) (nbytes : Int)
  /-- what its `terminal_read` does on the way, -/
  | take_offset
  | echo_pending
  | set_state (state : TerminalState)
  /-- and what is put on the screen past the driver -/
  | draw (screen : Surface)

def access (k : Kernel) : Access → Console
  | .key ch => terminal_add_to_buffer (k.tasks (get_cur_task k)).pName ch k.console
  | .backspace => terminal_backspace k.console
  | .clear => terminal_clear k.console
  | .switch d => set_current_terminal d k.console
  | .write buf nbytes => (terminal_write k.scheduler.cur_ptree buf nbytes k.console).2
  | .take_offset => take_offset k.console
  | .echo_pending => echo_pending k.scheduler.cur_ptree k.console
  | .set_state state => set_state k.scheduler.cur_ptree state k.console
  | .draw screen =>
    { k.console with video_mem := screen.cells, screen_x := screen.screen_x, screen_y := screen.screen_y }

inductive Event where
  | tty (act : Access)
  | task (ev : Preemption.Event)

/-- The machine with a lookout: what is typed on each terminal, and the lines
    that were completed on it while a shell was in the foreground. -/
structure Watched where
  machine : Machine
  typed : Int → Typed
  remembered : Int → List (List Byte)

def Watched.console (w : Watched) : Console := w.machine.k.console

/-- The leaf of the process tree of a terminal. -/
def foreground (t : Int) (k : Kernel) : Task := k.tasks (k.scheduler.ptree_tasks t)

def IsShell (task : Task) : Prop := ∀ i ≤ 5, task.pName i = shell_name i

instance (task : Task) : Decidable (IsShell task) := inferInstanceAs (Decidable (∀ i ≤ 5, _))

def typing (t : Int) (c : Console) (s : Typed) : Event → Typed
  | .tty (.key ch) => if c.current_terminal_index = t then s.key ch else s
  | .tty .backspace => if c.current_terminal_index = t then s.backspace else s
  | _ => s

section
variable (file_sys : FileSys) (halt_addr : Word)

/-- In a slice of user code the terminals are reached by accesses of their own. -/
def machine_step (s : Machine) : Event → Option Machine
  | .tty act => some { s with k := { s.k with console := access s.k act } }
  | .task (.slice after) => Preemption.step file_sys halt_addr s (.slice { after with console := s.k.console })
  | .task ev => Preemption.step file_sys halt_addr s ev

def step (w : Watched) (ev : Event) : Option Watched :=
  (machine_step file_sys halt_addr w.machine ev).map fun s => {
    machine := s
    typed := fun t => typing t w.console (w.typed t) ev
    remembered := fun t =>
      if IsShell (foreground t w.machine.k) then
        w.remembered t ++ (typing t w.console (w.typed t) ev).lines.drop (w.typed t).lines.length
      else w.remembered t }

end

/-- Nothing is typed yet. -/
def watch (s : Machine) : Watched := ⟨s,fun _ => ⟨[],[]⟩,fun _ => []⟩

/-- The history of a terminal is a ring of 16 slots for these lines. -/
def Remembers (t : Terminal) (lines : List (List Byte)) : Prop :=
  ∃ next : Nat, t.history_index = next ∧
    Ring.Keeps Holds (fun l => l.input_pointer = 0) 16 (fun j : Nat => t.input_history j) next lines

/-- Every terminal's history has the lines that it should remember. -/
def Law (w : Watched) : Prop := ∀ t, 0 ≤ t → t < 3 → Remembers (w.console.terminal_list t) (w.remembered t)

/-- A newline that completes a line finds a task running that passes for a shell
    exactly when the foreground task of the displayed terminal is one. -/
def Recorded (w : Watched) : Event → Prop
  | .tty (.key ch) => ch = NEWLINE →
    (w.console.terminal_list w.console.current_terminal_index).input.input_pointer < 127 →
    (strncmp (w.machine.k.tasks (get_cur_task w.machine.k)).pName shell_name 5 = 0 ↔
      IsShell (foreground w.console.current_terminal_index w.machine.k))
  | _ => True

/-! ### What the accesses do to the histories -/

/-- Two terminals with the same history. -/
def SameHistory (t u : Terminal) : Prop := t.history_index = u.history_index ∧ t.input_history = u.input_history

theorem SameHistory.refl (t : Terminal) : SameHistory t t := ⟨rfl,rfl⟩

theorem SameHistory.of_sameText {t u : Terminal} (same : SameText t u) : SameHistory t u := by
  rw [← same]
  exact ⟨rfl,rfl⟩

theorem Remembers.congr {t u : Terminal} {lines : List (List Byte)} (remembers : Remembers t lines)
    (same : SameHistory t u) : Remembers u lines := by
  obtain ⟨next,index,keeps⟩ := remembers
  exact ⟨next,same.1 ▸ index,same.2 ▸ keeps⟩

/-- A history that remembers a line more is another one. -/
theorem Remembers.not_more {t : Terminal} {lines : List (List Byte)} {line : List Byte} (remembers : Remembers t lines) :
    ¬ Remembers t (lines ++ [line]) := by
  rintro ⟨more,index',keeps'⟩
  obtain ⟨next,index,keeps⟩ := remembers
  exact keeps.next_ne (by decide) keeps' (by omega)

theorem backspace_history (c : Console) (t : Int) :
    SameHistory (c.terminal_list t) ((terminal_backspace c).terminal_list t) := by
  rw [backspace_terminal]
  split
  · rw [deleted]
    split <;> exact ⟨rfl,rfl⟩
  · exact .refl _

variable {k : Kernel} {t : Int} {s : Typed} {lines : List (List Byte)}

/-- An access that is no key leaves the histories alone. -/
theorem access_history {act : Access} (silent : ∀ ch, act ≠ .key ch) (t : Int) :
    SameHistory (k.console.terminal_list t) ((access k act).terminal_list t) := by
  cases act with
  | key ch => exact absurd rfl (silent ch)
  | backspace => exact backspace_history k.console t
  | clear => exact .of_sameText (keepsText_terminal_clear k.console t)
  | switch d => exact .of_sameText (keepsText_switch d k.console t)
  | write buf nbytes => exact .of_sameText (keepsText_terminal_write k.console _ buf nbytes t)
  | take_offset => exact .of_sameText (keepsText_take_offset k.console t)
  | echo_pending => exact .of_sameText (keepsText_echo_pending k.console _ t)
  | set_state state =>
    rw [access,set_state,Console.setTerminal]
    dsimp only
    split
    · rename_i same
      rw [same]
      exact ⟨rfl,rfl⟩
    · exact .refl _
  | draw screen => exact .refl _

/-- Every access keeps the lines as they are typed. -/
theorem access_typed (act : Access) (editing : Editing (k.console.terminal_list t) s) :
    Editing ((access k act).terminal_list t) (typing t k.console s (.tty act)) := by
  cases act with
  | key ch => exact (follows_key _ ch editing).1
  | backspace => exact (follows_backspace editing).1
  | clear => exact editing.of_sameLines (keepsText_terminal_clear k.console t).lines
  | switch d => exact editing.of_sameLines (keepsText_switch d k.console t).lines
  | write buf nbytes => exact editing.of_sameLines (keepsText_terminal_write k.console _ buf nbytes t).lines
  | take_offset => exact editing.of_sameLines (keepsText_take_offset k.console t).lines
  | echo_pending => exact editing.of_sameLines (keepsText_echo_pending k.console _ t).lines
  | set_state state =>
    rw [access,set_state,Console.setTerminal]
    dsimp only
    split
    · rename_i same
      subst same
      exact ⟨editing.pending,editing.room,editing.previous⟩
    · exact editing
  | draw screen => exact editing

theorem access_index (act : Access) (index : 0 ≤ k.console.current_terminal_index ∧ k.console.current_terminal_index < 3) :
    0 ≤ (access k act).current_terminal_index ∧ (access k act).current_terminal_index < 3 := by
  cases act with
  | key ch => exact (keeps_index_add_to_buffer _ ch k.console).symm ▸ index
  | backspace => exact (keeps_index_backspace k.console).symm ▸ index
  | switch d =>
    rw [access,set_current_terminal]
    dsimp only
    split
    · exact index
    · rename_i valid
      dsimp only
      omega
  | write buf nbytes => exact (keeps_index_write _ buf nbytes k.console).symm ▸ index
  | echo_pending => exact (keeps_index_echo_pending _ k.console).symm ▸ index
  | _ => exact index

/-- Only a newline that is taken completes a line. -/
theorem typed_key (ch : Byte) (s : Typed) :
    (s.key ch).lines.drop s.lines.length =
      if ch = NEWLINE ∧ s.pending.length < 127 then [s.pending ++ [NEWLINE]] else [] := by
  unfold Typed.key
  by_cases room : s.pending.length < 127
  · rw [if_neg (by omega)]
    by_cases newline : ch = NEWLINE
    · rw [if_pos newline,if_pos ⟨newline,room⟩,newline]
      exact List.drop_left
    · rw [if_neg newline,if_neg (fun both => newline both.1)]
      exact List.drop_length
  · rw [if_pos (by omega),if_neg (fun both => room both.2)]
    exact List.drop_length

/-- The newline of a terminal puts its line into the history, or does not, by
    the name of the running task. -/
theorem enter_remembers {u : Terminal} (pName : Nat → Byte) (editing : Editing u s) (remembers : Remembers u lines) :
    Remembers (enter_key pName NEWLINE u)
      (if strncmp pName shell_name 5 = 0 then lines ++ [s.pending ++ [NEWLINE]] else lines) := by
  have pushed := holds_push NEWLINE editing.pending
  obtain ⟨next,index,keeps⟩ := remembers
  rw [enter_key,if_pos rfl,complete_line,terminal_copy_to_history]
  by_cases shell : strncmp pName shell_name 5 = 0
  · simp only [if_pos shell]
    refine ⟨(next + 1) % 16,?_,keeps.push (by decide) ?_ ?_⟩
    · dsimp only [push_key]
      rw [index]
      rfl
    · intro j _ other
      have apart : (j : Int) ≠ u.history_index := by omega
      exact if_neg apart
    · have here : (next : Int) = u.history_index := index.symm
      simp only [push_key,here,if_true]
      exact holds_copy _ pushed
  · simp only [if_neg shell]
    exact ⟨next,index,keeps⟩

theorem enter_key_history (pName : Nat → Byte) {ch : Byte} (plain : ch ≠ NEWLINE) (u : Terminal) :
    SameHistory u (enter_key pName ch u) := by
  rw [enter_key,if_neg plain]
  exact ⟨rfl,rfl⟩

/-- What a key makes of the history of a terminal. -/
theorem key_remembers {c : Console} (pName : Nat → Byte) (ch : Byte) (editing : Editing (c.terminal_list t) s)
    (remembers : Remembers (c.terminal_list t) lines) :
    Remembers ((terminal_add_to_buffer pName ch c).terminal_list t)
      (if c.current_terminal_index = t ∧ ch = NEWLINE ∧ s.pending.length < 127 ∧ strncmp pName shell_name 5 = 0 then
        lines ++ [s.pending ++ [NEWLINE]] else lines) := by
  have length := editing.pending.1
  rw [add_to_buffer_eq]
  by_cases full : 127 ≤ (c.terminal_list c.current_terminal_index).input.input_pointer
  · rw [if_pos full,if_neg]
    · exact remembers
    · rintro ⟨rfl,-,room,-⟩
      omega
  · rw [if_neg full]
    have after : KeepsText (entered pName ch c) (wrap_row (shown pName ch c)) :=
      (keepsText_write_loop _ _ [ch]).trans (keepsText_wrap_row _)
    refine Remembers.congr ?_ (.of_sameText (after t))
    by_cases displayed : c.current_terminal_index = t
    · subst displayed
      rw [entered,setTerminal_same]
      by_cases newline : ch = NEWLINE
      · subst newline
        have same : (c.current_terminal_index = c.current_terminal_index ∧ NEWLINE = NEWLINE ∧ s.pending.length < 127 ∧
            strncmp pName shell_name 5 = 0) ↔ strncmp pName shell_name 5 = 0 :=
          ⟨fun all => all.2.2.2,fun shell => ⟨rfl,rfl,by omega,shell⟩⟩
        rw [if_congr same rfl rfl]
        exact enter_remembers pName editing remembers
      · rw [if_neg (fun all => newline all.2.1)]
        exact remembers.congr (enter_key_history pName newline _)
    · rw [entered,setTerminal_other c _ (Ne.symm displayed),if_neg (fun all => displayed all.1)]
      exact remembers

/-! ### What the tasks do to them -/

/-- The displayed terminal, the lines and the histories stay. -/
structure Keeps (c c' : Console) : Prop where
  index : c'.current_terminal_index = c.current_terminal_index
  text : KeepsText c c'

theorem Keeps.trans {c c' c'' : Console} (first : Keeps c c') (second : Keeps c' c'') : Keeps c c'' :=
  ⟨second.index.trans first.index,first.text.trans second.text⟩

theorem Keeps.of_eq {c c' : Console} (same : c' = c) : Keeps c c' := by
  subst same
  exact ⟨rfl,.refl _⟩

theorem begin_execute_console (file_sys : FileSys) (fname args : Nat → Byte) (esp ebp : Word) (m : Machine) :
    (Preemption.begin_execute file_sys fname args esp ebp m).k.console = m.k.console := by
  have created := create_task_console file_sys fname args m.k
  cases outcome : create_task file_sys fname args m.k with
  | mk pid k' =>
    rw [outcome] at created
    by_cases failed : pid < 0
    · rw [Preemption.begin_execute_failed outcome failed]
      exact created
    · rw [Preemption.begin_execute_done outcome (by omega)]
      exact created

theorem end_line_keeps (k : Kernel) : Keeps k.console (Preemption.end_line k).console := by
  unfold Preemption.end_line
  split
  · exact ⟨keeps_index_write _ _ _ _,keepsText_terminal_write _ _ _ _⟩
  · exact .of_eq rfl

theorem advance_keeps {halt_addr : Word} {m m' : Machine} (taken : Preemption.advance halt_addr m = some m') :
    Keeps m.k.console m'.k.console := by
  unfold Preemption.advance at taken
  cases here : m.point with
  | user =>
    rw [here] at taken
    cases taken
  | executing stage pid eip =>
    have statement_console : (statement halt_addr (m.made pid) pid stage m.k).console = m.k.console := by
      cases stage <;> rfl
    rw [here] at taken
    dsimp only at taken
    split at taken
    · split at taken
      · cases taken
      · cases taken
        exact .of_eq statement_console
    · cases taken
      exact .of_eq statement_console
  | halting status fault =>
    rw [here] at taken
    cases taken
    exact end_line_keeps m.k
  | leaving status fault =>
    rcases Preemption.advance_leaving here (by rw [Preemption.advance]; exact taken) with ⟨-,rfl⟩ | ⟨-,rfl⟩
    · exact .of_eq rfl
    · exact .of_eq rfl
  | checking status fault esp ebp =>
    rw [here] at taken
    cases taken
    exact .of_eq rfl
  | ending ret status fault esp ebp =>
    rw [here] at taken
    cases taken
    exact .of_eq rfl
  | returning ret call status fault esp ebp =>
    rw [here] at taken
    cases taken
    exact .of_eq rfl

/-- The tasks print, but they type nothing. -/
theorem task_keeps {file_sys : FileSys} {halt_addr : Word} {m m' : Machine} {ev : Preemption.Event}
    (taken : machine_step file_sys halt_addr m (.task ev) = some m') : Keeps m.k.console m'.k.console := by
  have enabled {P : Prop} [Decidable P] {n : Machine} (taken : (if P then some n else none) = some m')
      (same : n.k.console = m.k.console) : Keeps m.k.console m'.k.console := by
    split at taken
    · cases taken
      exact .of_eq same
    · cases taken
  cases ev with
  | slice after => exact enabled taken rfl
  | execute fname args esp ebp => exact enabled taken (begin_execute_console file_sys fname args esp ebp m)
  | halt status => exact enabled taken rfl
  | fault => exact enabled taken rfl
  | advance => exact advance_keeps taken
  | tick regs frame => exact enabled taken (timer_tick_console regs frame m.k)

/-! ### Every run -/

/-- What all steps keep: a terminal is displayed, and the lines are the typed
    ones. -/
structure Kept (w : Watched) : Prop where
  index : 0 ≤ w.console.current_terminal_index ∧ w.console.current_terminal_index < 3
  editing : ∀ t, 0 ≤ t → t < 3 → Editing (w.console.terminal_list t) (w.typed t)

variable {file_sys : FileSys} {halt_addr : Word} {w w' : Watched} {ev : Event}

theorem kept_step (kept : Kept w) (taken : step file_sys halt_addr w ev = some w') : Kept w' := by
  obtain ⟨m,moved,rfl⟩ := Option.map_eq_some_iff.mp taken
  cases ev with
  | tty act =>
    cases moved
    exact ⟨access_index act kept.index,fun t low high => access_typed act (kept.editing t low high)⟩
  | task ev =>
    have keeps := task_keeps moved
    exact ⟨keeps.index.symm ▸ kept.index,fun t low high => (kept.editing t low high).of_sameLines (keeps.text t).lines⟩

/-- Without a new line there is nothing more to remember. -/
theorem remembered_same {t : Int} (quiet : (typing t w.console (w.typed t) ev).lines = (w.typed t).lines) :
    (if IsShell (foreground t w.machine.k) then
      w.remembered t ++ (typing t w.console (w.typed t) ev).lines.drop (w.typed t).lines.length
    else w.remembered t) = w.remembered t := by
  rw [quiet,List.drop_length,List.append_nil]
  exact ite_self _

theorem typing_silent {act : Access} (silent : ∀ ch, act ≠ .key ch) (t : Int) (c : Console) (s : Typed) :
    (typing t c s (.tty act)).lines = s.lines := by
  cases act with
  | key ch => exact absurd rfl (silent ch)
  | backspace =>
    rw [typing]
    split <;> rfl
  | _ => rfl

/-- What a key adds to the lines that a terminal should remember. -/
theorem remembered_key (ch : Byte) (c : Console) (t : Int) (s : Typed) (lines : List (List Byte)) (task : Task) :
    (if IsShell task then lines ++ (typing t c s (.tty (.key ch))).lines.drop s.lines.length else lines) =
      if c.current_terminal_index = t ∧ ch = NEWLINE ∧ s.pending.length < 127 ∧ IsShell task then
        lines ++ [s.pending ++ [NEWLINE]] else lines := by
  rw [typing]
  by_cases displayed : c.current_terminal_index = t
  · rw [if_pos displayed,typed_key]
    by_cases completes : ch = NEWLINE ∧ s.pending.length < 127
    · rw [if_pos completes]
      exact if_congr ⟨fun shell => ⟨displayed,completes.1,completes.2,shell⟩,fun all => all.2.2.2⟩ rfl rfl
    · rw [if_neg completes,List.append_nil,ite_self,if_neg (fun all => completes ⟨all.2.1,all.2.2.1⟩)]
  · rw [if_neg displayed,List.drop_length,List.append_nil,ite_self,if_neg (fun all => displayed all.1)]

/-- A history holds one list of lines only, and so tells what was recorded. -/
theorem remembers_iff {t : Terminal} {lines : List (List Byte)} {line : List Byte} {P Q : Prop} [Decidable P] [Decidable Q]
    (recorded : Remembers t (if P then lines ++ [line] else lines))
    (due : Remembers t (if Q then lines ++ [line] else lines)) : P ↔ Q := by
  by_cases p : P
  · by_cases q : Q
    · exact iff_of_true p q
    · rw [if_pos p] at recorded
      rw [if_neg q] at due
      exact absurd recorded due.not_more
  · by_cases q : Q
    · rw [if_neg p] at recorded
      rw [if_pos q] at due
      exact absurd due recorded.not_more
    · exact iff_of_false p q

/-- The law behind a key. -/
theorem key_law_iff (ch : Byte) (law : Law w) (kept : Kept w) : (∀ t, 0 ≤ t → t < 3 →
      Remembers ((access w.machine.k (.key ch)).terminal_list t) (if IsShell (foreground t w.machine.k) then
        w.remembered t ++ (typing t w.console (w.typed t) (.tty (.key ch))).lines.drop (w.typed t).lines.length
      else w.remembered t)) ↔ Recorded w (.tty (.key ch)) := by
  have recorded (t : Int) (low : 0 ≤ t) (high : t < 3) :=
    key_remembers (w.machine.k.tasks (get_cur_task w.machine.k)).pName ch (kept.editing t low high) (law t low high)
  have length (t : Int) (low : 0 ≤ t) (high : t < 3) := (kept.editing t low high).pending.1
  simp only [remembered_key]
  constructor
  · intro law' newline room
    obtain ⟨low,high⟩ := kept.index
    have pending : (w.typed w.console.current_terminal_index).pending.length < 127 := by
      have := length _ low high
      omega
    have same := remembers_iff (recorded _ low high) (law' _ low high)
    constructor
    · intro shell
      exact (same.mp ⟨rfl,newline,pending,shell⟩).2.2.2
    · intro shell
      exact (same.mpr ⟨rfl,newline,pending,shell⟩).2.2.2
  · intro right t low high
    have same : (w.console.current_terminal_index = t ∧ ch = NEWLINE ∧ (w.typed t).pending.length < 127 ∧
          strncmp (w.machine.k.tasks (get_cur_task w.machine.k)).pName shell_name 5 = 0) ↔
        (w.console.current_terminal_index = t ∧ ch = NEWLINE ∧ (w.typed t).pending.length < 127 ∧
          IsShell (foreground t w.machine.k)) := by
      refine and_congr_right fun displayed => and_congr_right fun newline => and_congr_right fun room => ?_
      subst displayed
      refine right newline ?_
      have := length _ low high
      omega
    rw [← if_congr same rfl rfl]
    exact recorded t low high

/-- A step keeps the law exactly when it is recorded right. -/
theorem law_step_iff (law : Law w) (kept : Kept w) (taken : step file_sys halt_addr w ev = some w') :
    Law w' ↔ Recorded w ev := by
  obtain ⟨m,moved,rfl⟩ := Option.map_eq_some_iff.mp taken
  cases ev with
  | task ev =>
    refine iff_of_true ?_ trivial
    intro t low high
    dsimp only
    rw [remembered_same rfl]
    exact (law t low high).congr (.of_sameText ((task_keeps moved).text t))
  | tty act =>
    cases moved
    by_cases silent : ∀ ch, act ≠ .key ch
    · have free : Recorded w (.tty act) := by
        cases act with
        | key ch => exact absurd rfl (silent ch)
        | _ => trivial
      refine iff_of_true ?_ free
      intro t low high
      dsimp only
      rw [remembered_same (typing_silent silent t _ _)]
      exact (law t low high).congr (access_history silent t)
    · obtain ⟨ch,rfl⟩ := not_forall_not.mp silent
      exact key_law_iff ch law kept

theorem law_start {m : Machine} {c : Console} (opened : m.k.console = terminal_open c) : Law (watch m) := by
  intro t low high
  refine ⟨0,?_,Ring.keeps_nil ?_⟩
  · rw [Watched.console,watch,opened,terminal_open,set_cursor_pos]
    dsimp only
    rw [if_pos ⟨low,high⟩]
    rfl
  · intro j inside
    rw [Watched.console,watch,opened,terminal_open,set_cursor_pos]
    dsimp only
    rw [if_pos ⟨low,high⟩]
    have slot : (j : Int) < 16 := by omega
    dsimp only
    rw [if_pos ⟨by omega,slot⟩]

theorem kept_start {m : Machine} {c : Console} (opened : m.k.console = terminal_open c) : Kept (watch m) := by
  refine ⟨?_,?_⟩
  · rw [Watched.console,watch,opened]
    exact ⟨le_refl (0 : Int),show (0 : Int) < 3 by decide⟩
  · intro t low high
    rw [Watched.console,watch,opened]
    exact LineEditor.editing_open low high

/-- Where the law holds so far, a run keeps it exactly when all its steps are
    recorded right. -/
theorem law_run_iff {evs : List Event} (law : Law w) (kept : Kept w) :
    StatesMeet (step file_sys halt_addr) Law w evs ↔ StepsMeet (step file_sys halt_addr) Recorded w evs := by
  have always : StatesMeet (step file_sys halt_addr) Kept w evs :=
    statesMeet_invariant (fun _ _ _ kept taken => kept_step kept taken) kept
  refine (and_iff_left always).symm.trans (statesMeet_and.symm.trans ?_)
  refine statesMeet_iff_stepsMeet ?_ ?_ ⟨law,kept⟩
  · intro v ev _ blocked
    cases ev with
    | tty act => cases blocked
    | task ev => trivial
  · intro v ev v' good taken
    exact (and_iff_left (kept_step good.2 taken)).trans (law_step_iff good.1 good.2 taken)

/-- From the opening of the terminals on, in every run every history is the ring
    of the lines that its terminal should remember, exactly when every newline
    that completes a line finds a task running that passes for a shell just when
    the displayed terminal's foreground task is one. -/
theorem histories_kept_iff {m : Machine} {c : Console} (evs : List Event) (opened : m.k.console = terminal_open c) :
    StatesMeet (step file_sys halt_addr) Law (watch m) evs ↔
      StepsMeet (step file_sys halt_addr) Recorded (watch m) evs :=
  law_run_iff (law_start opened) (kept_start opened)

/-! ### From the boot on -/

theorem created_name {fname args : Nat → Byte} {k k' : Kernel} {pid : Int} (created : Created file_sys fname args k pid k')
    {i : Nat} (short : i ≤ 5) : (k'.tasks pid).pName i = fname i := by
  obtain ⟨exe_addr,-,-,made⟩ := created.loaded
  rw [made,loaded_record]
  dsimp only
  rw [if_pos (by omega),if_neg (by omega)]

/-- The idle task and the first shells go by the name of the shell. -/
theorem tasks_init_names {k k' : Kernel} (start : k.scheduler = scheduler) (unwritten : (k.tasks 0).ptid = 0)
    (booted : tasks_init file_sys k = some k') {pid : Int} (low : 0 ≤ pid) (high : pid ≤ 3) : IsShell (k'.tasks pid) := by
  have named {k k' : Kernel} {pid : Int} (created : Created file_sys shell_name (fun _ => 0) k pid k') :
      IsShell (k'.tasks pid) := fun i short => created_name created short
  have first (q : Int) (k₁ : Kernel) (created : Created file_sys shell_name (fun _ => 0) k q k₁) :
      ∀ pid : Int, 0 ≤ pid → pid ≤ ((0 : Nat) : Int) → IsShell ((set_cur_task 0 k₁).tasks pid) := by
    intro pid low high
    obtain rfl := created_first start created
    obtain rfl : pid = 0 := by omega
    have shell := named created
    exact shell
  have next (n : Nat) (k k' : Kernel) (few : n < 3) (ready : Booting k n)
      (names : ∀ pid : Int, 0 ≤ pid → pid ≤ n → IsShell (k.tasks pid)) (done : init_shell file_sys k = some k') :
      ∀ pid : Int, 0 ≤ pid → pid ≤ ((n + 1 : Nat) : Int) → IsShell (k'.tasks pid) := by
    intro pid low high
    obtain ⟨q,k₁,ptid,_,_,_,created,rfl⟩ := init_shell_created (by rw [ready.max_tasks]; omega) done
    obtain rfl := created_shell few ready created
    by_cases last : pid = n + 1
    · subst last
      exact (setTask_same k₁ _ _).symm ▸ named created
    · have other := (setTask_other k₁ (shell_record ptid (k₁.tasks (n + 1))) last).trans (created.others pid last)
      exact other.symm ▸ names pid low (by omega)
  obtain ⟨k₁,-,names,rfl⟩ := tasks_init_rule (P := fun n k => ∀ pid : Int, 0 ≤ pid → pid ≤ n → IsShell (k.tasks pid))
    start unwritten booted first next
  by_cases idle : pid = 0
  · subst idle
    exact (setTask_same k₁ 0 _).symm ▸ names 0 low high
  · rw [idle_task,setTask_other _ _ idle]
    exact names pid low high

theorem strncmp_shell {task : Task} (shell : IsShell task) : strncmp task.pName shell_name 5 = 0 := by
  have same (i : Nat) (short : i ≤ 5) := shell i short
  simp only [strncmp,strncmp_from,same 0 (by decide),same 1 (by decide),same 2 (by decide),same 3 (by decide),
    same 4 (by decide)]
  decide

/-- Names that differ at the start are told apart. -/
theorem strncmp_first {s1 s2 : Nat → Byte} (n : Nat) (differ : s1 0 ≠ s2 0) : strncmp s1 s2 (n + 1) ≠ 0 := by
  rw [strncmp,strncmp_from,if_pos (.inl differ)]
  intro same
  exact differ (BitVec.eq_of_toInt_eq (by omega))

/-- While only shells are around everything is recorded right. -/
theorem recorded_shells {k : Kernel} {ev : Event} (same : w.machine.k.tasks = k.tasks ∧ w.machine.k.scheduler = k.scheduler)
    (running : IsShell (k.tasks (get_cur_task k))) (kept : Kept w)
    (shells : ∀ t, 0 ≤ t → t < 3 → IsShell (foreground t k)) : Recorded w ev := by
  have cur : get_cur_task w.machine.k = get_cur_task k := by rw [get_cur_task,get_cur_task,same.2]
  have leaf (t : Int) : foreground t w.machine.k = foreground t k := by rw [foreground,foreground,same.1,same.2]
  cases ev with
  | task ev => trivial
  | tty act =>
    cases act with
    | key ch =>
      intro _ _
      rw [same.1,cur,leaf]
      exact iff_of_true (strncmp_shell running) (shells _ kept.index.1 kept.index.2)
    | _ => trivial

/-- After the boot a line is typed, the last key on another terminal. -/
theorem histories_kept_booted : ∃ k, tasks_init shell_image open_kernel = some k ∧
    StatesMeet (step shell_image 0) Law (watch (begin_machine k))
      [.tty (.key 108),.tty (.key 115),.tty (.key NEWLINE),.tty (.switch 1),.tty (.key NEWLINE)] := by
  obtain ⟨k,booted⟩ := tasks_init_completes shell_image_loads (k := open_kernel) rfl rfl
  obtain ⟨leaves,cur_task,-⟩ := tasks_init_leaves 0 (k := open_kernel) rfl rfl booted
  have opened : (begin_machine k).k.console = terminal_open LogicalScreen.blank_console := (tasks_init_keeps rfl rfl booted).2
  have running : IsShell (k.tasks (get_cur_task k)) := by
    rw [get_cur_task,cur_task]
    exact tasks_init_names (k := open_kernel) rfl rfl booted (le_refl 0) (by decide)
  have front (t : Int) (low : 0 ≤ t) (high : t < 3) : IsShell (foreground t k) := by
    have leaf := List.mem_singleton.mp (leaves.leaf_held ⟨t.toNat,by omega⟩)
    have place : ((⟨t.toNat,by omega⟩ : Fin 3).val : Int) = t := by
      dsimp only
      omega
    rw [place] at leaf
    rw [foreground,leaf]
    exact tasks_init_names (k := open_kernel) rfl rfl booted (by omega) (by omega)
  refine ⟨k,booted,(histories_kept_iff _ opened).mpr ?_⟩
  refine stepsMeet_of_invariant (G := fun _ ev => ∃ act, ev = .tty act)
    (I := fun w => (w.machine.k.tasks = k.tasks ∧ w.machine.k.scheduler = k.scheduler) ∧ Kept w) ?_ ?_
    ⟨⟨rfl,rfl⟩,kept_start opened⟩ (stepsMeet_of_always (by simp) _)
  · rintro w ev ⟨same,kept⟩ -
    exact recorded_shells same running kept front
  · rintro w _ w' ⟨same,kept⟩ ⟨act,rfl⟩ taken
    refine ⟨?_,kept_step kept taken⟩
    cases taken
    exact same

/-! ### A shell's line while another program runs -/

def cat_name : Nat → Byte := fun i => [99,97,116].getD i 0

def cat_image : FileSys :=
  named_image 2 fun i => { file_name := if i = 0 then shell_name else cat_name, file_type := 2, inode_num := 0 }

/-- The shell of terminal 1 executes `cat`. -/
def cat_run : List Preemption.Event :=
  .tick default kernel_frame :: .execute cat_name (fun _ => 0) 0 0 :: List.replicate 11 .advance

theorem tick_name {m m' : Machine} {regs : Regs} {frame : IretFrame}
    (taken : Preemption.step file_sys halt_addr m (.tick regs frame) = some m') (pid : Int) :
    (m'.k.tasks pid).pName = (m.k.tasks pid).pName := by
  rw [Preemption.step] at taken
  split at taken
  · obtain rfl := Option.some.inj taken
    obtain ⟨tss,state,same⟩ := saved_tick_same regs frame m.k pid
    dsimp only
    rw [timer_tick_eq,switch_task_tasks,same]
  · cases taken

/-- `cat` runs on terminal 1, and the shell waits on terminal 0. -/
theorem cat_running {k : Kernel} (booted : tasks_init cat_image open_kernel = some k) :
    ∃ m, run (Preemption.step cat_image 0) (begin_machine k) cat_run = some m ∧
      (m.k.tasks (get_cur_task m.k)).pName 0 = 99 ∧ IsShell (foreground 0 m.k) := by
  obtain ⟨m₁,first,user,busy,vector,ten⟩ := first_tick 0 default kernel_frame (k := open_kernel) rfl rfl booted rfl
  have start := begin_standing (k := open_kernel) rfl rfl booted
  obtain ⟨standing,-,q,turn,mine⟩ := tick_turns start id first
  obtain ⟨pid,k₂,outcome,created⟩ : ∃ pid k₂, create_task cat_image cat_name (fun _ => 0) m₁.k = (pid,k₂) ∧
      Created cat_image cat_name (fun _ => 0) m₁.k pid k₂ :=
    create_task_succeeds (i := 4) (fun _ => 0) (by omega) (named_image_loads (i := 1) (by decide) (by decide) ⟨rfl,rfl⟩)
      (by omega) (by rw [vector]; decide)
  have shell := List.mem_singleton.mp (standing.seated 0).leaf_held
  have other : (1 : Int) ≠ pid := by
    rintro rfl
    exact (standing.forest.fresh created.fresh).2 ⟨0,List.mem_cons_self⟩
  have hidden : q ≠ 0 := by
    rintro rfl
    have ptree : (begin_machine k).k.scheduler.cur_ptree = 0 := (tasks_init_leaves 0 (k := open_kernel) rfl rfl booted).2.2.1
    rw [ptree] at turn
    exact absurd turn (by decide)
  obtain ⟨ptid,m,reached,done⟩ := execute_runs 0 0 0 standing mine user busy outcome created
  refine ⟨m,run_cons_eq_some.mpr ⟨m₁,first,reached⟩,?_,?_⟩
  · have current : get_cur_task m.k = pid := by
      rw [done,get_cur_task,execute_task_scheduler]
      exact if_neg (Int.not_lt.mpr created.low)
    rw [current,done,execute_task_started]
    exact created_name created (Nat.zero_le 5)
  · have leaf : m.k.scheduler.ptree_tasks 0 = 1 := by
      rw [done,execute_task_scheduler,created.scheduler]
      dsimp only
      rw [ptid,if_neg (by omega)]
      exact shell
    rw [foreground,leaf,done,execute_task_other _ _ _ _ _ other,created.others 1 other]
    intro i short
    rw [tick_name first 1]
    exact tasks_init_names (k := open_kernel) rfl rfl booted (by decide) (by decide) i short

/-- The terminals see of a run of the tasks only what is printed. -/
theorem run_tasks {evs : List Preemption.Event} (slices : ∀ ev ∈ evs, ∀ after, ev ≠ .slice after) {m : Machine}
    (reached : run (Preemption.step file_sys halt_addr) w.machine evs = some m) :
    ∃ w', run (step file_sys halt_addr) w (evs.map .task) = some w' ∧ w'.machine = m ∧ Keeps w.console w'.console := by
  induction evs generalizing w with
  | nil =>
    obtain rfl := Option.some.inj reached
    exact ⟨w,rfl,rfl,.of_eq rfl⟩
  | cons ev evs ih =>
    obtain ⟨m₁,taken,rest⟩ := run_cons_eq_some.mp reached
    have moved : machine_step file_sys halt_addr w.machine (.task ev) = some m₁ := by
      cases ev with
      | slice after => exact absurd rfl (slices _ List.mem_cons_self after)
      | _ => exact taken
    obtain ⟨w₁,stepped,machine⟩ : ∃ w₁, step file_sys halt_addr w (.task ev) = some w₁ ∧ w₁.machine = m₁ :=
      ⟨_,Option.map_eq_some_iff.mpr ⟨m₁,moved,rfl⟩,rfl⟩
    subst machine
    obtain ⟨w',rest',same,keeps⟩ := ih (fun ev inside => slices ev (List.mem_cons_of_mem _ inside)) rest
    exact ⟨w',run_cons_eq_some.mpr ⟨w₁,stepped,rest'⟩,same,(task_keeps moved).trans keeps⟩

/-- Enter on terminal 0 while `cat` runs on terminal 1. -/
theorem shell_line_lost : ∃ k, tasks_init cat_image open_kernel = some k ∧
    ¬ StatesMeet (step cat_image 0) Law (watch (begin_machine k)) (cat_run.map .task ++ [.tty (.key NEWLINE)]) := by
  obtain ⟨k,booted⟩ : ∃ k, tasks_init cat_image open_kernel = some k :=
    tasks_init_completes (named_image_loads (i := 0) (by decide) (by decide) ⟨rfl,rfl⟩) rfl rfl
  have opened : (begin_machine k).k.console = terminal_open LogicalScreen.blank_console := (tasks_init_keeps rfl rfl booted).2
  obtain ⟨m,reached,running,shell⟩ := cat_running booted
  obtain ⟨w,run_,same,keeps⟩ := run_tasks (w := watch (begin_machine k)) (by simp [cat_run]) reached
  refine ⟨k,booted,?_⟩
  intro kept
  have meets := stepsMeet_drop ((law_run_iff (law_start opened) (kept_start opened)).mp kept) run_
  have index : w.console.current_terminal_index = 0 := by
    rw [keeps.index,Watched.console,watch,opened]
    rfl
  have room : (w.console.terminal_list 0).input.input_pointer = 0 := by
    rw [← (keeps.text 0).lines.1,Watched.console,watch,opened]
    rfl
  have recorded := meets.1 rfl
  rw [index,room,same] at recorded
  refine strncmp_first 4 ?_ ((recorded (by decide)).mpr shell)
  rw [running]
  decide

end Mp3Kernel.History

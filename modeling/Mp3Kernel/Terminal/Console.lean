import Mp3Kernel.Terminal.Screen

/-!
The terminal driver: the three terminals of terminal.c and the video memory and
shared cursor of lib.c. The executing terminal, `scheduler.cur_ptree` in the
source, is an argument `e`; the blinking cursor is a VGA register that nothing
reads back and is left out.
-/
namespace Mp3Kernel.Tty
open Mp3Kernel.Memory (Byte Word)
open Mp3Kernel.Screen

abbrev MAX_SUPPORTED_TERMINALS : Int := 3
abbrev BUFFER_SIZE : Int := 128
abbrev MAX_SUPPORTED_HISTORY : Int := 16
abbrev SHELL_OFFSET : Int := 7

inductive TerminalState where
  | TERMINAL_IDLE
  | TERMINAL_READ
  | TERMINAL_DONE_READ
  | TERMINAL_WRITE
  deriving DecidableEq, Repr, Inhabited

structure TerminalLine where
  input_pointer : Int
  line : Buffer
  deriving Inhabited

structure Terminal where
  screen_x : Int
  screen_y : Int
  history_index : Int
  chars_printed : Int
  starting_offset : Int
  input : TerminalLine
  previous_input : TerminalLine
  video_buffer : Buffer
  ptid : Int
  input_history : Int → TerminalLine
  state : TerminalState
  deriving Inhabited

/-- The globals of terminal.c and the statics of lib.c. -/
structure Console where
  terminal_list : Int → Terminal
  current_terminal_index : Int
  video_mem : Buffer
  screen_x : Int
  screen_y : Int
  deriving Inhabited

def Console.setTerminal (c : Console) (i : Int) (t : Terminal) : Console :=
  { c with terminal_list := fun j => if j = i then t else c.terminal_list j }

@[simp] theorem setTerminal_same (c : Console) (i : Int) (t : Terminal) :
    (c.setTerminal i t).terminal_list i = t := by simp [Console.setTerminal]
@[simp] theorem setTerminal_other {i j : Int} (c : Console) (t : Terminal) (other : j ≠ i) :
    (c.setTerminal i t).terminal_list j = c.terminal_list j := by simp [Console.setTerminal,other]
@[simp] theorem setTerminal_index (c : Console) (i : Int) (t : Terminal) :
    (c.setTerminal i t).current_terminal_index = c.current_terminal_index := rfl
@[simp] theorem setTerminal_video (c : Console) (i : Int) (t : Terminal) :
    (c.setTerminal i t).video_mem = c.video_mem := rfl
@[simp] theorem setTerminal_x (c : Console) (i : Int) (t : Terminal) :
    (c.setTerminal i t).screen_x = c.screen_x := rfl
@[simp] theorem setTerminal_y (c : Console) (i : Int) (t : Terminal) :
    (c.setTerminal i t).screen_y = c.screen_y := rfl

/-- Video memory with the shared cursor. -/
def Console.video (c : Console) : Surface := ⟨c.video_mem,c.screen_x,c.screen_y⟩
/-- A terminal's own buffer with its own cursor. -/
def Terminal.own (t : Terminal) : Surface := ⟨t.video_buffer,t.screen_x,t.screen_y⟩

/-! ### lib.c -/

def putc (ch : Byte) (c : Console) : Console :=
  let s := put_char ch c.video
  { c with video_mem := s.cells, screen_x := s.screen_x, screen_y := s.screen_y }

def vputc (ch : Byte) (t : Terminal) : Terminal :=
  let s := put_char ch t.own
  { t with video_buffer := s.cells, screen_x := s.screen_x, screen_y := s.screen_y }

/-- A coordinate off the screen is ignored. -/
def set_cursor_pos (x y : Int) (c : Console) : Console :=
  { c with
    screen_x := if 0 ≤ x ∧ x < NUM_COLS then x else c.screen_x
    screen_y := if 0 ≤ y ∧ y < NUM_ROWS then y else c.screen_y }

/-- `get_cursor_pos` into the cursor fields of terminal `i`. -/
def get_cursor_pos (i : Int) (c : Console) : Console :=
  c.setTerminal i { c.terminal_list i with screen_x := c.screen_x, screen_y := c.screen_y }

/-- The loop of `strncmp` from index `i`, with `n` characters left. -/
def strncmp_from (s1 s2 : Nat → Byte) (i : Nat) : Nat → Int
  | 0 => 0
  | n + 1 => if s1 i ≠ s2 i ∨ s1 i = 0 then (s1 i).toInt - (s2 i).toInt else strncmp_from s1 s2 (i + 1) n

def strncmp (s1 s2 : Nat → Byte) (n : Nat) : Int := strncmp_from s1 s2 0 n

/-! ### terminal.c -/

def shell_name : Nat → Byte := fun i => [115,104,101,108,108].getD i 0

def terminal_open (c : Console) : Console :=
  let opened : Int → Terminal := fun i =>
    let t := c.terminal_list i
    if 0 ≤ i ∧ i < MAX_SUPPORTED_TERMINALS then
      { t with
        screen_x := 0, screen_y := 0, history_index := 0, chars_printed := 0
        starting_offset := SHELL_OFFSET
        input := { input_pointer := 0
                   line := fun j => if 0 ≤ j ∧ j < BUFFER_SIZE then 0 else t.input.line j }
        ptid := i
        state := .TERMINAL_IDLE
        input_history := fun h =>
          if 0 ≤ h ∧ h < MAX_SUPPORTED_HISTORY then
            { input_pointer := 0
              line := fun j => if 0 ≤ j ∧ j < BUFFER_SIZE then 0 else (t.input_history h).line j }
          else t.input_history h
        video_buffer := clear t.video_buffer }
    else t
  set_cursor_pos 0 0
    { c with terminal_list := opened, current_terminal_index := 0, video_mem := clear c.video_mem }

/-- One character of terminal `e` on the screen: through video memory and the
    shared cursor while `e` is displayed, else into its own buffer. -/
def print_char (e : Int) (ch : Byte) (c : Console) : Console :=
  if e = c.current_terminal_index then
    let t := c.terminal_list e
    get_cursor_pos e (putc ch (set_cursor_pos t.screen_x t.screen_y c))
  else c.setTerminal e (vputc ch (c.terminal_list e))

def set_chars_printed (e n : Int) (c : Console) : Console :=
  c.setTerminal e { c.terminal_list e with chars_printed := n }

/-- The end of the loop body: print, then count the character. -/
def print_counted (e : Int) (ch : Byte) (c : Console) : Console :=
  let c := print_char e ch c
  set_chars_printed e ((c.terminal_list e).chars_printed + 1) c

/-- The body of the loops of `terminal_write` and `terminal_write_keypress`. -/
def write_char (e : Int) (c : Console) (ch : Byte) : Console :=
  -- a 0 is skipped only when no line break was due
  if (c.terminal_list e).chars_printed > NUM_COLS then
    print_counted e ch (set_chars_printed e 0 (print_char e NEWLINE c))
  else if ch = NEWLINE then print_counted e ch (set_chars_printed e 0 c)
  else if ch = 0 then c
  else print_counted e ch c

/-- The first `n` bytes behind a pointer. -/
def bytes_of (buf : Buffer) (n : Int) : List Byte := (List.range n.toNat).map (fun i : Nat => buf i)

/-- `terminal_write` by a task of terminal `e`; no buffer is a null pointer. -/
def terminal_write (e : Int) (buf : Option Buffer) (nbytes : Int) (c : Console) : Int × Console :=
  match buf with
  | none => (-1,c)
  | some buf => if nbytes ≤ 0 then (0,c) else (0,(bytes_of buf nbytes).foldl (write_char e) c)

/-- The displayed terminal is printed to as by `terminal_write` of its own task. -/
def terminal_write_keypress (buf : Option Buffer) (nbytes : Int) (c : Console) : Int × Console :=
  terminal_write c.current_terminal_index buf nbytes c

def terminal_backspace (c : Console) : Console :=
  let d := c.current_terminal_index
  let t := c.terminal_list d
  if t.input.input_pointer ≤ 0 then c else
    let t := if t.input.input_pointer ≠ NUM_COLS - t.starting_offset then
        { t with screen_x := t.screen_x - 1 }
      else
        { t with screen_y := if 0 < t.screen_y then t.screen_y - 1 else t.screen_y, screen_x := NUM_COLS - 1 }
    let t := { t with
      chars_printed := t.chars_printed - 1
      input := { t.input with input_pointer := t.input.input_pointer - 1 } }
    putc SPACE (set_cursor_pos t.screen_x t.screen_y (c.setTerminal d t))

def terminal_clear (c : Console) : Console :=
  let d := c.current_terminal_index
  set_cursor_pos 0 0 ({ c with video_mem := clear c.video_mem }.setTerminal d
    { c.terminal_list d with screen_x := 0, screen_y := 0 })

/-- `terminal_copy_to_history` on the displayed terminal, while the running
    task is named `pName`. -/
def terminal_copy_to_history (pName : Nat → Byte) (t : Terminal) : Terminal :=
  let not_copy_to_history := strncmp pName shell_name 5
  let n := t.input.input_pointer
  let t := { t with previous_input := { input_pointer := n, line := memcpy t.previous_input.line t.input.line n } }
  if not_copy_to_history = 0 then
    { t with
      input_history := fun h =>
        if h = t.history_index then
          { input_pointer := n, line := memcpy (t.input_history h).line t.input.line n }
        else t.input_history h
      history_index := (t.history_index + 1) % MAX_SUPPORTED_HISTORY }
  else t

/-- A newline completes the pending line and archives it. -/
def complete_line (pName : Nat → Byte) (t : Terminal) : Terminal :=
  let t := terminal_copy_to_history pName { t with state := .TERMINAL_DONE_READ }
  { t with input := { t.input with input_pointer := 0 } }

def push_key (ch : Byte) (t : Terminal) : Terminal :=
  { t with input := { input_pointer := t.input.input_pointer + 1
                      line := store t.input.line t.input.input_pointer ch } }

def enter_key (pName : Nat → Byte) (ch : Byte) (t : Terminal) : Terminal :=
  if ch = NEWLINE then complete_line pName (push_key ch t) else push_key ch t

/-- The end of `terminal_add_to_buffer`: a line that fills its row goes on in
    the next. -/
def wrap_row (c : Console) : Console :=
  let d := c.current_terminal_index
  let t := c.terminal_list d
  if t.screen_x = 0 ∧ NUM_COLS - t.starting_offset ≤ t.input.input_pointer then
    -- scrolls on the last rows, but the row is advanced all the same
    let c := c.setTerminal d { t with screen_y := t.screen_y + 1, chars_printed := 0 }
    if NUM_ROWS - 1 ≤ t.screen_y + 1 then { c with video_mem := scroll_up c.video_mem } else c
  else c

def terminal_add_to_buffer (pName : Nat → Byte) (ch : Byte) (c : Console) : Console :=
  let d := c.current_terminal_index
  if BUFFER_SIZE - 1 ≤ (c.terminal_list d).input.input_pointer then c else
    wrap_row (terminal_write_keypress (some fun _ => ch) 1
      (c.setTerminal d (enter_key pName ch (c.terminal_list d)))).2

def set_current_terminal (k : Int) (c : Console) : Console :=
  let d := c.current_terminal_index
  if d = k ∨ k < 0 ∨ k > 2 then c else
    let bytes := NUM_COLS * NUM_ROWS * 2
    let c := c.setTerminal d { c.terminal_list d with
      video_buffer := memcpy (c.terminal_list d).video_buffer c.video_mem bytes }
    { c with
      current_terminal_index := k
      video_mem := memcpy c.video_mem (c.terminal_list k).video_buffer bytes }

def set_state (e : Int) (state : TerminalState) (c : Console) : Console :=
  c.setTerminal e { c.terminal_list e with state := state }

/-- `terminal_read` takes the shared cursor for where the line starts on the
    displayed terminal. -/
def take_offset (c : Console) : Console :=
  let d := c.current_terminal_index
  c.setTerminal d { c.terminal_list d with starting_offset := c.screen_x }

/-- What was typed while the program ran is printed before waiting. -/
def echo_pending (e : Int) (c : Console) : Console :=
  let pending := (c.terminal_list e).input
  if 0 < pending.input_pointer then (terminal_write e (some pending.line) pending.input_pointer c).2 else c

/-- `terminal_read` by a task of terminal `e` up to its wait loop: the value it
    returns at once, or nothing when it goes on to wait for a line. -/
def terminal_read_start (e : Int) (null : Bool) (nbytes : Int) (c : Console) : Option Int × Console :=
  if null then (some (-1),c) else
    let c := echo_pending e (take_offset c)
    if nbytes ≤ 0 then (some 0,c) else (none,set_state e .TERMINAL_READ c)

end Mp3Kernel.Tty

import Mp3Kernel.Terminal.LogicalScreen

/-!
Where the cursors of the three terminals can go. Printing keeps a cursor on the
screen, and the pending line and the history index always stay inside their
arrays; only `terminal_backspace` and the row wrap of `terminal_add_to_buffer`
move a cursor off the screen, and `Safe` says exactly when they do not.
-/
namespace Mp3Kernel.CursorRange
open Mp3Kernel.Memory (Byte)
open Mp3Kernel.Screen Mp3Kernel.Tty Mp3Kernel.Runs Mp3Kernel.LogicalScreen

inductive Event where
  /-- a displayable key, pressed while the running task is named `pName` -/
  | key (pName : Nat → Byte) (ch : Byte)
  | backspace
  | clear
  | write (e : Int) (buf : Option Buffer) (nbytes : Int)
  /-- `terminal_read` up to its wait loop -/
  | read (e : Int) (null : Bool) (nbytes : Int)
  | switch (k : Int)

def step (c : Console) : Event → Option Console
  | .key pName ch => some (terminal_add_to_buffer pName ch c)
  | .backspace => some (terminal_backspace c)
  | .clear => some (terminal_clear c)
  | .write e buf nbytes => if 0 ≤ e ∧ e < 3 then some (terminal_write e buf nbytes c).2 else none
  | .read e null nbytes => if 0 ≤ e ∧ e < 3 then some (terminal_read_start e null nbytes c).2 else none
  | .switch k => some (set_current_terminal k c)

/-- The bounds of one terminal. -/
structure TerminalBounds (t : Terminal) : Prop where
  x : 0 ≤ t.screen_x ∧ t.screen_x < 80
  y : 0 ≤ t.screen_y ∧ t.screen_y < 25
  pointer : 0 ≤ t.input.input_pointer ∧ t.input.input_pointer < 128
  history : 0 ≤ t.history_index ∧ t.history_index < 16

def Bounded (c : Console) : Prop := ∀ t, 0 ≤ t → t < 3 → TerminalBounds (c.terminal_list t)

/-- The offsets into terminal `e`'s `video_buffer` at which `vputc` stores. -/
def print_offsets (e : Int) (ch : Byte) (c : Console) : List Int :=
  if e = c.current_terminal_index ∨ ch = NEWLINE ∨ ch = RETURN then [] else
    [(c.terminal_list e).own.cell,(c.terminal_list e).own.cell + 1]

def char_offsets (e : Int) (c : Console) (ch : Byte) : List Int :=
  if (c.terminal_list e).chars_printed > NUM_COLS then
    print_offsets e NEWLINE c ++ print_offsets e ch (set_chars_printed e 0 (print_char e NEWLINE c))
  else if ch = NEWLINE then print_offsets e ch (set_chars_printed e 0 c)
  else if ch = 0 then []
  else print_offsets e ch c

def write_offsets (e : Int) : Console → List Byte → List Int
  | _, [] => []
  | c, ch :: s => char_offsets e c ch ++ write_offsets e (write_char e c ch) s

/-- Whatever a task of any terminal prints now is stored inside its buffer. -/
def VputcInside (c : Console) : Prop :=
  ∀ e, 0 ≤ e → e < 3 → ∀ s, ∀ i ∈ write_offsets e c s, 0 ≤ i ∧ i < 4000

/-- The key does not wrap the row below the last line. Without a line break due
    the cursor is in the last column when a plain key wraps; a carriage return
    first moves down, and a 0 prints nothing. -/
def KeySafe (t : Terminal) (ch : Byte) : Prop :=
  127 ≤ t.input.input_pointer ∨ ch = NEWLINE ∨ t.input.input_pointer + 1 < 80 - t.starting_offset ∨
    if ch = RETURN then t.screen_y < if t.chars_printed > 80 then 22 else 23
    else t.chars_printed > 80 ∨ t.screen_y < 24 ∨ t.screen_x ≠ if ch = 0 then 0 else 79

/-- A backspace has nothing to delete, goes up a row, or is not in the first
    column. -/
def BackspaceSafe (t : Terminal) : Prop :=
  t.input.input_pointer ≤ 0 ∨ t.input.input_pointer = 80 - t.starting_offset ∨ 1 ≤ t.screen_x

def Safe (c : Console) : Event → Prop
  | .key _ ch => KeySafe (c.terminal_list c.current_terminal_index) ch
  | .backspace => BackspaceSafe (c.terminal_list c.current_terminal_index)
  | _ => True

/-! ### What every event keeps -/

structure LineBounds (t : Terminal) : Prop where
  offset : 0 ≤ t.starting_offset ∧ t.starting_offset < 80
  pointer : 0 ≤ t.input.input_pointer ∧ t.input.input_pointer < 128
  history : 0 ≤ t.history_index ∧ t.history_index < 16

/-- Everything but the terminals' own cursors is always in range. -/
structure Steady (c : Console) : Prop where
  index : 0 ≤ c.current_terminal_index ∧ c.current_terminal_index < 3
  video : c.video.OnScreen
  lines : ∀ t, 0 ≤ t → t < 3 → LineBounds (c.terminal_list t)

def Cursors (c : Console) : Prop := ∀ t, 0 ≤ t → t < 3 → (c.terminal_list t).own.OnScreen

theorem bounded_iff {c : Console} (steady : Steady c) : Bounded c ↔ Cursors c := by
  constructor
  · intro bounded t low high
    have b := bounded t low high
    exact ⟨b.x.1,b.x.2,b.y.1,b.y.2⟩
  · intro cursors t low high
    obtain ⟨x0,x1,y0,y1⟩ := cursors t low high
    exact ⟨⟨x0,x1⟩,⟨y0,y1⟩,(steady.lines t low high).pointer,(steady.lines t low high).history⟩

theorem onScreen_set_cursor_pos {c : Console} (x y : Int) (on : c.video.OnScreen) :
    (set_cursor_pos x y c).video.OnScreen := by
  obtain ⟨x0,x1,y0,y1⟩ := on
  simp only [Console.video] at x0 x1 y0 y1
  simp only [set_cursor_pos,Console.video,Surface.OnScreen,NUM_COLS,NUM_ROWS]
  refine ⟨?_,?_,?_,?_⟩ <;> split <;> omega

theorem onScreen_putc {c : Console} (ch : Byte) (on : c.video.OnScreen) : (putc ch c).video.OnScreen :=
  onScreen_put_char ch on

theorem onScreen_print_char {c : Console} (e : Int) (ch : Byte) (on : c.video.OnScreen) :
    (print_char e ch c).video.OnScreen := by
  unfold print_char
  split
  · exact onScreen_putc ch (onScreen_set_cursor_pos _ _ on)
  · exact on

theorem onScreen_write_char {c : Console} (e : Int) (ch : Byte) (on : c.video.OnScreen) :
    (write_char e c ch).video.OnScreen := by
  simp only [write_char]
  split
  · exact onScreen_print_char e ch (onScreen_print_char e NEWLINE on)
  · split
    · exact onScreen_print_char e ch on
    · split
      · exact on
      · exact onScreen_print_char e ch on

theorem onScreen_write_loop {c : Console} (e : Int) (s : List Byte) (on : c.video.OnScreen) :
    (s.foldl (write_char e) c).video.OnScreen := by
  induction s generalizing c with
  | nil => exact on
  | cons ch s ih => exact ih (onScreen_write_char e ch on)

theorem LineBounds.of_sameRest {t u : Terminal} (bounds : LineBounds t) (same : SameRest t u) : LineBounds u := by
  rw [← same]
  exact ⟨bounds.offset,bounds.pointer,bounds.history⟩

theorem steady_write_loop {c : Console} (e : Int) (s : List Byte) (steady : Steady c) :
    Steady (s.foldl (write_char e) c) := by
  have only := onlyPrints_write_loop e s c
  refine ⟨only.index ▸ steady.index,onScreen_write_loop e s steady.video,?_⟩
  intro t low high
  by_cases same : t = e
  · exact same ▸ (steady.lines t low high).of_sameRest (same ▸ only.rest)
  · rw [(only.others t same).1]
    exact steady.lines t low high

theorem steady_terminal_write {c : Console} (e : Int) (buf : Option Buffer) (nbytes : Int) (steady : Steady c) :
    Steady (terminal_write e buf nbytes c).2 := by
  rw [terminal_write_eq]
  exact steady_write_loop e _ steady

/-- Replacing one terminal keeps the rest. -/
theorem steady_setTerminal {c : Console} {i : Int} {t : Terminal} (steady : Steady c)
    (bounds : 0 ≤ i → i < 3 → LineBounds t) : Steady (c.setTerminal i t) := by
  refine ⟨steady.index,steady.video,?_⟩
  intro j low high
  by_cases same : j = i
  · subst same; simpa using bounds low high
  · simpa [same] using steady.lines j low high

theorem lineBounds_complete_line {t : Terminal} (pName : Nat → Byte) (offset : 0 ≤ t.starting_offset ∧ t.starting_offset < 80)
    (history : 0 ≤ t.history_index ∧ t.history_index < 16) : LineBounds (complete_line pName t) := by
  unfold complete_line terminal_copy_to_history
  dsimp only
  split
  · refine ⟨offset,by simp,?_⟩
    simp only [MAX_SUPPORTED_HISTORY]
    omega
  · exact ⟨offset,by simp,history⟩

theorem lineBounds_enter_key {t : Terminal} (pName : Nat → Byte) (ch : Byte) (bounds : LineBounds t)
    (room : t.input.input_pointer < 127) : LineBounds (enter_key pName ch t) := by
  unfold enter_key
  split
  · exact lineBounds_complete_line pName bounds.offset bounds.history
  · have p := bounds.pointer
    refine ⟨bounds.offset,?_,bounds.history⟩
    simp only [push_key]
    omega

/-- The console once the key is in the line, -/
def entered (pName : Nat → Byte) (ch : Byte) (c : Console) : Console :=
  c.setTerminal c.current_terminal_index (enter_key pName ch (c.terminal_list c.current_terminal_index))

/-- and once it is printed, before the row wrap. -/
def shown (pName : Nat → Byte) (ch : Byte) (c : Console) : Console :=
  write_char c.current_terminal_index (entered pName ch c) ch

theorem shown_index (pName : Nat → Byte) (ch : Byte) (c : Console) :
    (shown pName ch c).current_terminal_index = c.current_terminal_index :=
  (onlyPrints_write_char _ _ ch).index

theorem add_to_buffer_eq (pName : Nat → Byte) (ch : Byte) (c : Console) :
    terminal_add_to_buffer pName ch c =
      if 127 ≤ (c.terminal_list c.current_terminal_index).input.input_pointer then c else
        wrap_row (shown pName ch c) := rfl

theorem steady_shown {c : Console} (pName : Nat → Byte) (ch : Byte) (steady : Steady c)
    (room : (c.terminal_list c.current_terminal_index).input.input_pointer < 127) : Steady (shown pName ch c) :=
  steady_write_loop _ [ch] (steady_setTerminal steady (fun low high =>
    lineBounds_enter_key pName ch (steady.lines _ low high) room))

theorem steady_wrap_row {c : Console} (steady : Steady c) : Steady (wrap_row c) := by
  have moved (y n : Int) : Steady (c.setTerminal c.current_terminal_index
      { c.terminal_list c.current_terminal_index with screen_y := y, chars_printed := n }) :=
    steady_setTerminal steady (fun low high =>
      ⟨(steady.lines _ low high).offset,(steady.lines _ low high).pointer,(steady.lines _ low high).history⟩)
  unfold wrap_row
  dsimp only
  split
  · split
    · have next := moved ((c.terminal_list c.current_terminal_index).screen_y + 1) 0
      exact ⟨next.index,next.video,next.lines⟩
    · exact moved _ _
  · exact steady

/-- What a backspace leaves of the displayed terminal when something is
    pending. -/
def deleted (t : Terminal) : Terminal :=
  if t.input.input_pointer ≠ NUM_COLS - t.starting_offset then
    { t with
      screen_x := t.screen_x - 1
      chars_printed := t.chars_printed - 1
      input := { t.input with input_pointer := t.input.input_pointer - 1 } }
  else
    { t with
      screen_x := NUM_COLS - 1
      screen_y := if 0 < t.screen_y then t.screen_y - 1 else t.screen_y
      chars_printed := t.chars_printed - 1
      input := { t.input with input_pointer := t.input.input_pointer - 1 } }

theorem backspace_eq {c : Console} (pending : 0 < (c.terminal_list c.current_terminal_index).input.input_pointer) :
    terminal_backspace c =
      let t := deleted (c.terminal_list c.current_terminal_index)
      putc SPACE (set_cursor_pos t.screen_x t.screen_y (c.setTerminal c.current_terminal_index t)) := by
  rw [terminal_backspace,deleted]
  dsimp only
  rw [if_neg (by omega)]
  split <;> rfl

theorem backspace_terminal (c : Console) (t : Int) : (terminal_backspace c).terminal_list t =
    if t = c.current_terminal_index ∧ 0 < (c.terminal_list c.current_terminal_index).input.input_pointer then
      deleted (c.terminal_list t) else c.terminal_list t := by
  by_cases pending : 0 < (c.terminal_list c.current_terminal_index).input.input_pointer
  · rw [backspace_eq pending]
    by_cases displayed : t = c.current_terminal_index
    · subst displayed
      rw [if_pos ⟨rfl,pending⟩]
      exact setTerminal_same ..
    · rw [if_neg (fun both => displayed both.1)]
      exact setTerminal_other _ _ displayed
  · have idle : terminal_backspace c = c := if_pos (by omega)
    rw [idle,if_neg (fun both => pending both.2)]

theorem steady_backspace {c : Console} (steady : Steady c) : Steady (terminal_backspace c) := by
  unfold terminal_backspace
  dsimp only
  split
  · exact steady
  · rename_i pending
    have line := steady.lines _ steady.index.1 steady.index.2
    have p := line.pointer
    have next (x y n : Int) : Steady (c.setTerminal c.current_terminal_index
        { c.terminal_list c.current_terminal_index with
          screen_x := x, screen_y := y, chars_printed := n
          input := { (c.terminal_list c.current_terminal_index).input with
            input_pointer := (c.terminal_list c.current_terminal_index).input.input_pointer - 1 } }) :=
      steady_setTerminal steady (fun _ _ => ⟨line.offset,⟨by dsimp only; omega,by dsimp only; omega⟩,line.history⟩)
    refine ⟨steady.index,onScreen_putc SPACE (onScreen_set_cursor_pos _ _ steady.video),?_⟩
    split
    · exact (next _ _ _).lines
    · exact (next _ _ _).lines

theorem steady_terminal_clear {c : Console} (steady : Steady c) : Steady (terminal_clear c) := by
  have line := steady.lines _ steady.index.1 steady.index.2
  refine ⟨steady.index,onScreen_set_cursor_pos 0 0 steady.video,?_⟩
  exact (steady_setTerminal steady (fun _ _ => (⟨line.offset,line.pointer,line.history⟩ :
    LineBounds { c.terminal_list c.current_terminal_index with screen_x := 0, screen_y := 0 }))).lines

theorem steady_take_offset {c : Console} (steady : Steady c) : Steady (take_offset c) :=
  steady_setTerminal steady (fun low high =>
    ⟨⟨steady.video.1,steady.video.2.1⟩,(steady.lines _ low high).pointer,(steady.lines _ low high).history⟩)

theorem steady_echo_pending {c : Console} (e : Int) (steady : Steady c) : Steady (echo_pending e c) := by
  unfold echo_pending
  dsimp only
  split
  · exact steady_terminal_write e _ _ steady
  · exact steady

theorem steady_set_state {c : Console} (e : Int) (state : TerminalState) (steady : Steady c) :
    Steady (set_state e state c) :=
  steady_setTerminal steady (fun low high =>
    ⟨(steady.lines _ low high).offset,(steady.lines _ low high).pointer,(steady.lines _ low high).history⟩)

theorem steady_read_start {c : Console} (e : Int) (null : Bool) (nbytes : Int) (steady : Steady c) :
    Steady (terminal_read_start e null nbytes c).2 := by
  have ready := steady_echo_pending e (steady_take_offset steady)
  unfold terminal_read_start
  dsimp only
  split
  · exact steady
  · split
    · exact ready
    · exact steady_set_state e _ ready

theorem steady_switch {c : Console} (k : Int) (steady : Steady c) : Steady (set_current_terminal k c) := by
  unfold set_current_terminal
  dsimp only
  split
  · exact steady
  · have line := steady.lines _ steady.index.1 steady.index.2
    have saved : Steady (c.setTerminal c.current_terminal_index
        { c.terminal_list c.current_terminal_index with
          video_buffer := memcpy (c.terminal_list c.current_terminal_index).video_buffer c.video_mem (80 * 25 * 2) }) :=
      steady_setTerminal steady (fun _ _ => ⟨line.offset,line.pointer,line.history⟩)
    exact ⟨⟨by dsimp only; omega,by dsimp only; omega⟩,steady.video,saved.lines⟩

theorem steady_step {c c' : Console} {ev : Event} (steady : Steady c) (taken : step c ev = some c') : Steady c' := by
  cases ev with
  | key pName ch =>
    cases taken
    rw [add_to_buffer_eq]
    split
    · exact steady
    · exact steady_wrap_row (steady_shown pName ch steady (by omega))
  | backspace => cases taken; exact steady_backspace steady
  | clear => cases taken; exact steady_terminal_clear steady
  | write e buf nbytes =>
    simp only [step] at taken
    split at taken
    · cases taken; exact steady_terminal_write e buf nbytes steady
    · cases taken
  | read e null nbytes =>
    simp only [step] at taken
    split at taken
    · cases taken; exact steady_read_start e null nbytes steady
    · cases taken
  | switch k => cases taken; exact steady_switch k steady

/-! ### Which events keep the cursors on the screen -/

theorem cursors_setTerminal_iff {c : Console} {i : Int} {t : Terminal} (cursors : Cursors c)
    (low : 0 ≤ i) (high : i < 3) : Cursors (c.setTerminal i t) ↔ t.own.OnScreen := by
  constructor
  · intro all; simpa using all i low high
  · intro on j lowj highj
    by_cases same : j = i
    · subst same; simpa using on
    · simpa [same] using cursors j lowj highj

theorem cursors_write_loop {c : Console} {e : Int} (s : List Byte) (cursors : Cursors c)
    (low : 0 ≤ e) (high : e < 3) : Cursors (s.foldl (write_char e) c) := by
  intro t lowt hight
  by_cases same : t = e
  · exact same ▸ (page_write_loop s (cursors e low high)).2
  · rw [((onlyPrints_write_loop e s c).others t same).1]
    exact cursors t lowt hight

theorem cursors_terminal_write {c : Console} {e : Int} (buf : Option Buffer) (nbytes : Int) (cursors : Cursors c)
    (low : 0 ≤ e) (high : e < 3) : Cursors (terminal_write e buf nbytes c).2 := by
  rw [terminal_write_eq]
  exact cursors_write_loop _ cursors low high

/-- A printed character that ends in the first column leaves a row below it
    exactly in these cases. -/
theorem write_char_wraps_iff {p : Page} {ch : Byte} (on : p.surface.OnScreen) (plain : ch ≠ NEWLINE) :
    ((p.write_char ch).surface.screen_x ≠ 0 ∨ (p.write_char ch).surface.screen_y < 24) ↔
      if ch = RETURN then p.surface.screen_y < if p.chars_printed > 80 then 22 else 23
      else p.chars_printed > 80 ∨ p.surface.screen_y < 24 ∨ p.surface.screen_x ≠ if ch = 0 then 0 else 79 := by
  have broken := onScreen_put_char NEWLINE on
  have bx := put_char_x NEWLINE on
  have byy := put_char_y NEWLINE on
  have cx := put_char_x ch broken
  have cy := put_char_y ch broken
  have x := put_char_x ch on
  have y := put_char_y ch on
  obtain ⟨x0,x1,y0,y1⟩ := on
  rw [if_pos (.inl rfl)] at bx byy
  simp only [plain,false_or,bx] at cx cy
  simp only [plain,false_or] at x y
  simp only [Page.write_char,plain,↓reduceIte]
  by_cases full : p.chars_printed > 80
  · simp only [full,↓reduceIte,true_or,Page.count,Page.print,Page.restart,cx,cy]
    by_cases ret : ch = RETURN
    · simp only [if_pos ret,if_pos (Or.inl ret : ch = RETURN ∨ (0 : Int) = 79)]
      omega
    · have neither : ¬ (ch = RETURN ∨ (0 : Int) = 79) := not_or.mpr ⟨ret,by decide⟩
      simp only [if_neg ret,if_neg neither]
      exact ⟨fun _ => trivial,fun _ => .inl (by decide)⟩
  · simp only [full,↓reduceIte,false_or]
    by_cases nul : ch = 0
    · have ret : ch ≠ RETURN := by rw [nul]; decide
      simp only [if_pos nul,if_neg ret]
      omega
    · simp only [if_neg nul,Page.count,Page.print,x,y]
      by_cases ret : ch = RETURN
      · simp only [if_pos ret,if_pos (Or.inl ret : ch = RETURN ∨ p.surface.screen_x = 79)]
        omega
      · simp only [ret,false_or,↓reduceIte]
        split <;> omega

theorem enter_key_cursor (pName : Nat → Byte) (ch : Byte) (t : Terminal) :
    (enter_key pName ch t).own = t.own ∧ (enter_key pName ch t).chars_printed = t.chars_printed ∧
      (enter_key pName ch t).starting_offset = t.starting_offset := by
  unfold enter_key complete_line terminal_copy_to_history push_key
  dsimp only
  split
  · split <;> exact ⟨rfl,rfl,rfl⟩
  · exact ⟨rfl,rfl,rfl⟩

theorem enter_key_pointer (pName : Nat → Byte) (ch : Byte) (t : Terminal) :
    (enter_key pName ch t).input.input_pointer = if ch = NEWLINE then 0 else t.input.input_pointer + 1 := by
  unfold enter_key complete_line push_key
  split <;> rfl

theorem cursors_wrap_row_iff {c : Console} (steady : Steady c) (cursors : Cursors c) :
    Cursors (wrap_row c) ↔
      (c.terminal_list c.current_terminal_index).input.input_pointer <
          80 - (c.terminal_list c.current_terminal_index).starting_offset ∨
        (c.terminal_list c.current_terminal_index).screen_x ≠ 0 ∨
          (c.terminal_list c.current_terminal_index).screen_y < 24 := by
  obtain ⟨low,high⟩ := steady.index
  obtain ⟨x0,x1,y0,y1⟩ := cursors _ low high
  have moved := cursors_setTerminal_iff (t := { c.terminal_list c.current_terminal_index with
    screen_y := (c.terminal_list c.current_terminal_index).screen_y + 1, chars_printed := 0 }) cursors low high
  simp only [Surface.OnScreen,Terminal.own] at moved x0 x1 y0 y1
  by_cases wraps : (c.terminal_list c.current_terminal_index).screen_x = 0 ∧
      80 - (c.terminal_list c.current_terminal_index).starting_offset ≤
        (c.terminal_list c.current_terminal_index).input.input_pointer
  · have same : Cursors (wrap_row c) ↔ Cursors (c.setTerminal c.current_terminal_index
        { c.terminal_list c.current_terminal_index with
          screen_y := (c.terminal_list c.current_terminal_index).screen_y + 1, chars_printed := 0 }) := by
      simp only [wrap_row,NUM_COLS,wraps.1,wraps.2,and_self,↓reduceIte]
      split <;> exact Iff.rfl
    rw [same,moved]
    omega
  · have same : wrap_row c = c := by simp only [wrap_row,NUM_COLS,wraps,↓reduceIte]
    rw [same]
    exact ⟨fun _ => by omega,fun _ => cursors⟩

theorem cursors_entered {c : Console} (pName : Nat → Byte) (ch : Byte) (steady : Steady c) (cursors : Cursors c) :
    Cursors (entered pName ch c) := by
  obtain ⟨low,high⟩ := steady.index
  obtain ⟨own,-,-⟩ := enter_key_cursor pName ch (c.terminal_list c.current_terminal_index)
  exact (cursors_setTerminal_iff cursors low high).mpr (own ▸ cursors _ low high)

theorem page_entered (pName : Nat → Byte) (ch : Byte) (c : Console) :
    let p := page (entered pName ch c) c.current_terminal_index
    let t := c.terminal_list c.current_terminal_index
    p.surface.screen_x = t.screen_x ∧ p.surface.screen_y = t.screen_y ∧ p.chars_printed = t.chars_printed := by
  obtain ⟨own,count,-⟩ := enter_key_cursor pName ch (c.terminal_list c.current_terminal_index)
  have x := congrArg Surface.screen_x own
  have y := congrArg Surface.screen_y own
  simp only [Terminal.own] at x y
  simp only [page,logical,entered,setTerminal_same]
  exact ⟨x,y,count⟩

/-- The pending line survives the printing of the key. -/
theorem shown_line (pName : Nat → Byte) (ch : Byte) (c : Console) :
    let t := (shown pName ch c).terminal_list c.current_terminal_index
    t.input.input_pointer = (if ch = NEWLINE then 0 else
        (c.terminal_list c.current_terminal_index).input.input_pointer + 1) ∧
      t.starting_offset = (c.terminal_list c.current_terminal_index).starting_offset := by
  obtain ⟨-,-,offset⟩ := enter_key_cursor pName ch (c.terminal_list c.current_terminal_index)
  have pointer := enter_key_pointer pName ch (c.terminal_list c.current_terminal_index)
  have rest := (onlyPrints_write_char (entered pName ch c) c.current_terminal_index ch).rest
  have sameInput := congrArg Terminal.input rest
  have sameOffset := congrArg Terminal.starting_offset rest
  simp only [entered,setTerminal_same] at sameInput sameOffset
  simp only [shown,entered,← sameInput,← sameOffset]
  exact ⟨pointer,offset⟩

/-- A key leaves every cursor on the screen exactly when it is safe. -/
theorem cursors_key_iff {c : Console} (pName : Nat → Byte) (ch : Byte) (steady : Steady c) (cursors : Cursors c) :
    Cursors (terminal_add_to_buffer pName ch c) ↔ KeySafe (c.terminal_list c.current_terminal_index) ch := by
  rw [add_to_buffer_eq]
  obtain ⟨low,high⟩ := steady.index
  by_cases full : 127 ≤ (c.terminal_list c.current_terminal_index).input.input_pointer
  · rw [if_pos full]
    exact ⟨fun _ => .inl full,fun _ => cursors⟩
  · rw [if_neg full]
    have line := (steady.lines _ low high).offset
    have typed := cursors_entered pName ch steady cursors
    obtain ⟨atX,atY,counted⟩ := page_entered pName ch c
    obtain ⟨pointer,offset⟩ := shown_line pName ch c
    have printed := page_write_char (e := c.current_terminal_index) ch (typed _ low high)
    have shownX := congrArg (fun p => p.surface.screen_x) printed
    have shownY := congrArg (fun p => p.surface.screen_y) printed
    have wrap := cursors_wrap_row_iff (steady_shown pName ch steady (by omega))
      (cursors_write_loop [ch] typed low high)
    rw [shown_index] at wrap
    change ((shown pName ch c).terminal_list c.current_terminal_index).screen_x = _ at shownX
    change ((shown pName ch c).terminal_list c.current_terminal_index).screen_y = _ at shownY
    rw [pointer,offset,shownX,shownY] at wrap
    rw [wrap,KeySafe]
    by_cases newline : ch = NEWLINE
    · rw [if_pos newline]
      exact ⟨fun _ => .inr (.inl newline),fun _ => .inl (by omega)⟩
    · have wraps := write_char_wraps_iff (p := page (entered pName ch c) c.current_terminal_index)
        (typed _ low high) newline
      rw [atX,atY,counted] at wraps
      rw [if_neg newline]
      simp only [full,newline,false_or]
      exact or_congr Iff.rfl wraps

theorem cursors_backspace_iff {c : Console} (steady : Steady c) (cursors : Cursors c) :
    Cursors (terminal_backspace c) ↔ BackspaceSafe (c.terminal_list c.current_terminal_index) := by
  obtain ⟨low,high⟩ := steady.index
  obtain ⟨x0,x1,y0,y1⟩ := cursors _ low high
  simp only [Terminal.own] at x0 x1 y0 y1
  have moved (t : Terminal) : Cursors (c.setTerminal c.current_terminal_index t) ↔ t.own.OnScreen :=
    cursors_setTerminal_iff cursors low high
  unfold terminal_backspace BackspaceSafe
  dsimp only
  by_cases pending : (c.terminal_list c.current_terminal_index).input.input_pointer ≤ 0
  · rw [if_pos pending]
    exact ⟨fun _ => .inl pending,fun _ => cursors⟩
  · rw [if_neg pending]
    -- the deleted cell is blanked through the shared cursor, which touches no terminal
    refine Iff.trans (moved _) ?_
    simp only [NUM_COLS]
    by_cases up : (c.terminal_list c.current_terminal_index).input.input_pointer =
        80 - (c.terminal_list c.current_terminal_index).starting_offset
    · simp only [up,not_true,ne_eq,↓reduceIte,true_or,or_true,iff_true]
      refine ⟨?_,?_,?_,?_⟩ <;> dsimp only [Terminal.own] <;> omega
    · simp only [up,ne_eq,not_false_iff,↓reduceIte,false_or,Surface.OnScreen,Terminal.own]
      omega

theorem cursors_terminal_clear {c : Console} (steady : Steady c) (cursors : Cursors c) :
    Cursors (terminal_clear c) := by
  obtain ⟨low,high⟩ := steady.index
  exact (cursors_setTerminal_iff (t := { c.terminal_list c.current_terminal_index with screen_x := 0, screen_y := 0 })
    cursors low high).mpr (by simp [Terminal.own,Surface.OnScreen])

/-- A terminal that keeps its cursor keeps it on the screen. -/
theorem cursors_setTerminal {c : Console} {i : Int} {t : Terminal} (cursors : Cursors c)
    (same : t.own = (c.terminal_list i).own) : Cursors (c.setTerminal i t) := by
  intro j low high
  by_cases here : j = i
  · subst here
    rw [setTerminal_same,same]
    exact cursors j low high
  · rw [setTerminal_other c t here]
    exact cursors j low high

theorem cursors_read_start {c : Console} {e : Int} (null : Bool) (nbytes : Int) (cursors : Cursors c)
    (low : 0 ≤ e) (high : e < 3) : Cursors (terminal_read_start e null nbytes c).2 := by
  have offset : Cursors (take_offset c) := cursors_setTerminal cursors rfl
  have ready : Cursors (echo_pending e (take_offset c)) := by
    unfold echo_pending
    dsimp only
    split
    · exact cursors_terminal_write _ _ offset low high
    · exact offset
  unfold terminal_read_start
  dsimp only
  split
  · exact cursors
  · split
    · exact ready
    · exact cursors_setTerminal ready rfl

theorem cursors_switch {c : Console} (k : Int) (steady : Steady c) (cursors : Cursors c) :
    Cursors (set_current_terminal k c) := by
  obtain ⟨low,high⟩ := steady.index
  unfold set_current_terminal
  dsimp only
  split
  · exact cursors
  · exact (cursors_setTerminal_iff (t := { c.terminal_list c.current_terminal_index with
      video_buffer := memcpy (c.terminal_list c.current_terminal_index).video_buffer c.video_mem (80 * 25 * 2) })
      cursors low high).mpr (cursors _ low high)

theorem cursors_step_iff {c c' : Console} {ev : Event} (steady : Steady c) (cursors : Cursors c)
    (taken : step c ev = some c') : Cursors c' ↔ Safe c ev := by
  cases ev with
  | key pName ch => cases taken; exact cursors_key_iff pName ch steady cursors
  | backspace => cases taken; exact cursors_backspace_iff steady cursors
  | clear =>
    cases taken
    exact ⟨fun _ => trivial,fun _ => cursors_terminal_clear steady cursors⟩
  | write e buf nbytes =>
    simp only [step] at taken
    split at taken
    · rename_i task
      cases taken
      exact ⟨fun _ => trivial,fun _ => cursors_terminal_write buf nbytes cursors task.1 task.2⟩
    · cases taken
  | read e null nbytes =>
    simp only [step] at taken
    split at taken
    · rename_i task
      cases taken
      exact ⟨fun _ => trivial,fun _ => cursors_read_start null nbytes cursors task.1 task.2⟩
    · cases taken
  | switch k =>
    cases taken
    exact ⟨fun _ => trivial,fun _ => cursors_switch k steady cursors⟩

/-! ### Where `vputc` stores -/

theorem print_offsets_inside {c : Console} {e : Int} {ch : Byte} (on : (c.terminal_list e).own.OnScreen) :
    ∀ i ∈ print_offsets e ch c, 0 ≤ i ∧ i < 4000 := by
  have cell := cell_inside on
  intro i used
  unfold print_offsets at used
  split at used
  · cases used
  · simp only [List.mem_cons,List.not_mem_nil,or_false] at used
    omega

theorem char_offsets_inside {c : Console} {e : Int} {ch : Byte} (cursors : Cursors c)
    (low : 0 ≤ e) (high : e < 3) : ∀ i ∈ char_offsets e c ch, 0 ≤ i ∧ i < 4000 := by
  have here := cursors e low high
  intro i used
  unfold char_offsets at used
  split at used
  · have broken : (logical (print_char e NEWLINE c) e).OnScreen := by
      rw [logical_print_char NEWLINE here]
      exact onScreen_put_char NEWLINE here
    rcases List.mem_append.mp used with used | used
    · exact print_offsets_inside here i used
    · refine print_offsets_inside ?_ i used
      rw [set_chars_printed,setTerminal_same]
      exact broken
  · split at used
    · refine print_offsets_inside ?_ i used
      rw [set_chars_printed,setTerminal_same]
      exact here
    · split at used
      · cases used
      · exact print_offsets_inside here i used

theorem write_offsets_inside {c : Console} {e : Int} (s : List Byte) (cursors : Cursors c)
    (low : 0 ≤ e) (high : e < 3) : ∀ i ∈ write_offsets e c s, 0 ≤ i ∧ i < 4000 := by
  induction s generalizing c with
  | nil => intro i used; cases used
  | cons ch s ih =>
    intro i used
    rcases List.mem_append.mp used with used | used
    · exact char_offsets_inside cursors low high i used
    · exact ih (cursors_write_loop [ch] cursors low high) i used

/-! ### Every run -/

theorem steady_terminal_open (c : Console) : Steady (terminal_open c) := by
  refine ⟨⟨by simp [terminal_open,set_cursor_pos],by simp [terminal_open,set_cursor_pos]⟩,?_,?_⟩
  · simp [terminal_open,set_cursor_pos,Console.video,Surface.OnScreen]
  · intro t low high
    simp only [terminal_open,set_cursor_pos,low,high,and_self,↓reduceIte]
    exact ⟨by dsimp only; decide,by dsimp only; decide,by dsimp only; decide⟩

theorem cursors_terminal_open (c : Console) : Cursors (terminal_open c) := by
  intro t low high
  simp [terminal_open,set_cursor_pos,low,high,Terminal.own,Surface.OnScreen]

theorem vputcInside_of_cursors {c : Console} (cursors : Cursors c) : VputcInside c := by
  intro e low high s
  exact write_offsets_inside s cursors low high

/-- From `terminal_open` on, the bounds hold throughout a run, and with them
    whatever is printed to a hidden terminal stays inside its buffer, exactly
    when every key and backspace of the run is safe. -/
theorem cursors_in_range_iff (c : Console) (evs : List Event) :
    (StatesMeet step Bounded (terminal_open c) evs ∧ StatesMeet step VputcInside (terminal_open c) evs) ↔
      StepsMeet step Safe (terminal_open c) evs := by
  let Good (c : Console) : Prop := Steady c ∧ Cursors c
  have start : Good (terminal_open c) := ⟨steady_terminal_open c,cursors_terminal_open c⟩
  have blocked (c : Console) (ev : Event) (good : Good c) (idle : step c ev = none) : Safe c ev := by
    cases ev with
    | write e buf nbytes => trivial
    | read e null nbytes => trivial
    | key pName ch => cases idle
    | backspace => cases idle
    | clear => cases idle
    | switch k => cases idle
  have exact (c : Console) (ev : Event) (c' : Console) (good : Good c) (taken : step c ev = some c') :
      Good c' ↔ Safe c ev := by
    rw [← cursors_step_iff good.1 good.2 taken]
    exact ⟨And.right,fun cursors => ⟨steady_step good.1 taken,cursors⟩⟩
  have safe : StatesMeet step Good (terminal_open c) evs ↔ StepsMeet step Safe (terminal_open c) evs :=
    statesMeet_iff_stepsMeet blocked exact start
  have steady : StatesMeet step Steady (terminal_open c) evs :=
    statesMeet_invariant (fun c ev c' steady taken => steady_step steady taken) start.1
  rw [← safe]
  constructor
  · rintro ⟨bounded,-⟩
    exact statesMeet_mono (fun c both => ⟨both.1,(bounded_iff both.1).mp both.2⟩) (statesMeet_and.mpr ⟨steady,bounded⟩)
  · intro good
    exact ⟨statesMeet_mono (fun c good => (bounded_iff good.1).mpr good.2) good,
      statesMeet_mono (fun c good => vputcInside_of_cursors good.2) good⟩

/-- An `a`, a clear, a backspace and a switch: the hidden terminal's cursor is
    left of the screen and its next character is stored before its buffer. -/
def deleted_after_clear : List Event := [.key (fun _ => 0) 97,.clear,.backspace,.switch 1]

theorem cursor_leaves_screen :
    ¬ StatesMeet step Bounded (terminal_open blank_console) deleted_after_clear ∧
      ¬ StatesMeet step VputcInside (terminal_open blank_console) deleted_after_clear := by
  obtain ⟨c,reached,x,offsets⟩ : ∃ c, run step (terminal_open blank_console) deleted_after_clear = some c ∧
      (c.terminal_list 0).screen_x = -1 ∧ write_offsets 0 c [98] = [-2,-1] := ⟨_,rfl,by decide,by decide⟩
  constructor
  · intro bounded
    have inside := (statesMeet_last bounded reached 0 (by decide) (by decide)).x
    omega
  · intro stored
    have inside := statesMeet_last stored reached 0 (by decide) (by decide) [98] (-2) (by rw [offsets]; decide)
    omega

end Mp3Kernel.CursorRange

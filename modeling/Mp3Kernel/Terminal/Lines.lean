import Mp3Kernel.Terminal.CursorRange

/-!
What is typed on a terminal. A line editor of 127 characters is the plain
account of the keys pressed while the terminal is displayed; the pending line
and the last completed one are kept by the driver as the editor has them.
-/
namespace Mp3Kernel.Lines
open Mp3Kernel.Memory (Byte)
open Mp3Kernel.Screen Mp3Kernel.Tty
open Mp3Kernel.LogicalScreen (SameRest onlyPrints_write_loop onlyPrints_write_char terminal_write_eq)
open Mp3Kernel.CursorRange (Event step shown entered shown_index add_to_buffer_eq deleted backspace_terminal)

/-- The lines completed, newlines included, and the line being typed. -/
structure Typed where
  lines : List (List Byte)
  pending : List Byte
  deriving DecidableEq

def Typed.key (ch : Byte) (s : Typed) : Typed :=
  if 127 ≤ s.pending.length then s
  else if ch = NEWLINE then ⟨s.lines ++ [s.pending ++ [ch]],[]⟩
  else ⟨s.lines,s.pending ++ [ch]⟩

def Typed.backspace (s : Typed) : Typed := ⟨s.lines,s.pending.dropLast⟩

/-- Only what happens while `t` is displayed is typed on `t`. -/
def Typed.event (t : Int) (c : Console) (s : Typed) : Event → Typed
  | .key _ ch => if c.current_terminal_index = t then s.key ch else s
  | .backspace => if c.current_terminal_index = t then s.backspace else s
  | _ => s

/-- All characters typed, in order. -/
def Typed.text (s : Typed) : List Byte := s.lines.flatten ++ s.pending

/-- A line of the driver holds the characters. -/
def Holds (l : TerminalLine) (text : List Byte) : Prop :=
  l.input_pointer = text.length ∧ ∀ i (inside : i < text.length), l.line i = text[i]

/-- The driver's lines are the editor's. -/
structure Editing (t : Terminal) (s : Typed) : Prop where
  pending : Holds t.input s.pending
  room : s.pending.length ≤ 127
  previous : ∀ line, s.lines.getLast? = some line → Holds t.previous_input line ∧ 0 < line.length ∧ line.length ≤ 127

/-- Two terminals with the same lines and reading state. -/
def SameLines (t u : Terminal) : Prop :=
  t.input = u.input ∧ t.previous_input = u.previous_input ∧ t.state = u.state

theorem SameLines.refl (t : Terminal) : SameLines t t := ⟨rfl,rfl,rfl⟩
theorem SameLines.trans {t u v : Terminal} (first : SameLines t u) (second : SameLines u v) : SameLines t v :=
  ⟨first.1.trans second.1,first.2.1.trans second.2.1,first.2.2.trans second.2.2⟩

theorem Editing.of_sameLines {t u : Terminal} {s : Typed} (editing : Editing t s) (same : SameLines t u) :
    Editing u s := by
  obtain ⟨input,previous,-⟩ := same
  exact ⟨input ▸ editing.pending,editing.room,fun line last => previous ▸ editing.previous line last⟩

/-- Every terminal keeps its lines. -/
def KeepsLines (c c' : Console) : Prop := ∀ t, SameLines (c.terminal_list t) (c'.terminal_list t)

/-- Two terminals that differ at most in what the screen shows of them. -/
def SameText (t u : Terminal) : Prop :=
  { t with screen_x := u.screen_x, screen_y := u.screen_y, chars_printed := u.chars_printed,
           starting_offset := u.starting_offset, video_buffer := u.video_buffer } = u

theorem SameText.refl (t : Terminal) : SameText t t := rfl
theorem SameText.trans {t u v : Terminal} (first : SameText t u) (second : SameText u v) : SameText t v := by
  unfold SameText at *
  rw [← second,← first]

theorem SameText.of_sameRest {t u : Terminal} (same : SameRest t u) : SameText t u := by
  rw [SameText,← same]

theorem SameText.lines {t u : Terminal} (same : SameText t u) : SameLines t u := by
  rw [← same]
  exact ⟨rfl,rfl,rfl⟩

/-- Nothing but the screens changes. -/
def KeepsText (c c' : Console) : Prop := ∀ t, SameText (c.terminal_list t) (c'.terminal_list t)

theorem KeepsText.refl (c : Console) : KeepsText c c := fun _ => .refl _

theorem KeepsText.trans {c c' c'' : Console} (first : KeepsText c c') (second : KeepsText c' c'') :
    KeepsText c c'' := fun t => (first t).trans (second t)

theorem KeepsText.lines {c c' : Console} (keeps : KeepsText c c') : KeepsLines c c' := fun t => (keeps t).lines

theorem keepsText_setTerminal {c : Console} {i : Int} {t : Terminal} (same : SameText (c.terminal_list i) t) :
    KeepsText c (c.setTerminal i t) := by
  intro j
  by_cases here : j = i
  · subst here
    rw [setTerminal_same]
    exact same
  · rw [setTerminal_other c t here]
    exact .refl _

theorem keepsText_write_loop (c : Console) (e : Int) (s : List Byte) : KeepsText c (s.foldl (write_char e) c) := by
  have only := onlyPrints_write_loop e s c
  intro t
  by_cases same : t = e
  · subst same
    exact .of_sameRest only.rest
  · rw [(only.others t same).1]
    exact .refl _

theorem keepsText_terminal_write (c : Console) (e : Int) (buf : Option Buffer) (nbytes : Int) :
    KeepsText c (terminal_write e buf nbytes c).2 := by
  rw [terminal_write_eq]
  exact keepsText_write_loop c e _

theorem keepsText_terminal_clear (c : Console) : KeepsText c (terminal_clear c) :=
  keepsText_setTerminal (c := c) (t := { c.terminal_list c.current_terminal_index with screen_x := 0, screen_y := 0 })
    rfl

theorem keepsText_take_offset (c : Console) : KeepsText c (take_offset c) := keepsText_setTerminal rfl

theorem keepsText_echo_pending (c : Console) (e : Int) : KeepsText c (echo_pending e c) := by
  unfold echo_pending
  dsimp only
  split
  · exact keepsText_terminal_write c e _ _
  · exact .refl c

theorem keepsText_switch (k : Int) (c : Console) : KeepsText c (set_current_terminal k c) := by
  unfold set_current_terminal
  dsimp only
  split
  · exact .refl c
  · exact keepsText_setTerminal (c := c) (t := { c.terminal_list c.current_terminal_index with
      video_buffer := memcpy (c.terminal_list c.current_terminal_index).video_buffer c.video_mem (80 * 25 * 2) }) rfl

theorem keepsText_wrap_row (c : Console) : KeepsText c (wrap_row c) := by
  have moved : KeepsText c (c.setTerminal c.current_terminal_index
      { c.terminal_list c.current_terminal_index with
        screen_y := (c.terminal_list c.current_terminal_index).screen_y + 1, chars_printed := 0 }) :=
    keepsText_setTerminal rfl
  unfold wrap_row
  dsimp only
  split
  · split
    · exact moved
    · exact moved
  · exact .refl c

theorem keeps_index_write (e : Int) (buf : Option Buffer) (nbytes : Int) (c : Console) :
    (terminal_write e buf nbytes c).2.current_terminal_index = c.current_terminal_index := by
  rw [terminal_write_eq]
  exact (onlyPrints_write_loop e _ c).index

theorem keeps_index_add_to_buffer (pName : Nat → Byte) (ch : Byte) (c : Console) :
    (terminal_add_to_buffer pName ch c).current_terminal_index = c.current_terminal_index := by
  rw [add_to_buffer_eq]
  split
  · rfl
  · unfold wrap_row
    dsimp only
    split
    · split <;> exact shown_index pName ch c
    · exact shown_index pName ch c

theorem keeps_index_backspace (c : Console) :
    (terminal_backspace c).current_terminal_index = c.current_terminal_index := by
  unfold terminal_backspace
  dsimp only
  split <;> rfl

theorem keeps_index_echo_pending (e : Int) (c : Console) :
    (echo_pending e c).current_terminal_index = c.current_terminal_index := by
  unfold echo_pending
  dsimp only
  split
  · exact keeps_index_write e _ _ c
  · rfl

/-- Another terminal's read starts without touching the lines of `t`. -/
theorem sameLines_read_start {c : Console} {e t : Int} (null : Bool) (nbytes : Int) (other : t ≠ e) :
    SameLines (c.terminal_list t) ((terminal_read_start e null nbytes c).2.terminal_list t) := by
  have ready := ((keepsText_take_offset c).trans (keepsText_echo_pending (take_offset c) e)).lines
  unfold terminal_read_start
  dsimp only
  split
  · exact .refl _
  · split
    · exact ready t
    · rw [set_state,setTerminal_other _ _ other]
      exact ready t

/-! ### Keys -/

theorem holds_push {l : TerminalLine} {text : List Byte} (ch : Byte) (holds : Holds l text) :
    Holds { input_pointer := l.input_pointer + 1, line := store l.line l.input_pointer ch } (text ++ [ch]) := by
  obtain ⟨length,chars⟩ := holds
  refine ⟨by dsimp only; rw [length,List.length_append]; rfl,?_⟩
  intro i inside
  rw [List.length_append,List.length_singleton] at inside
  dsimp only
  rw [store,length]
  by_cases last : i = text.length
  · subst last
    simp
  · rw [if_neg (by omega),chars i (by omega),List.getElem_append_left (by omega)]

theorem holds_copy {l : TerminalLine} (dest : TerminalLine) {text : List Byte} (holds : Holds l text) :
    Holds { input_pointer := l.input_pointer, line := memcpy dest.line l.line l.input_pointer } text := by
  obtain ⟨length,chars⟩ := holds
  refine ⟨length,?_⟩
  intro i inside
  dsimp only
  rw [memcpy,if_pos (by omega)]
  exact chars i inside

theorem enter_key_state (pName : Nat → Byte) (ch : Byte) (t : Terminal) :
    (enter_key pName ch t).state = if ch = NEWLINE then .TERMINAL_DONE_READ else t.state := by
  unfold enter_key complete_line terminal_copy_to_history push_key
  split
  · dsimp only
    split <;> rfl
  · rfl

/-- A key that is taken edits the line as the editor does. -/
theorem editing_enter_key {t : Terminal} {s : Typed} (pName : Nat → Byte) (ch : Byte) (editing : Editing t s)
    (room : t.input.input_pointer < 127) : Editing (enter_key pName ch t) (s.key ch) := by
  have short : s.pending.length < 127 := by have length := editing.pending.1; omega
  have pushed := holds_push ch editing.pending
  rw [Typed.key,if_neg (by omega)]
  by_cases newline : ch = NEWLINE
  · have completed : (enter_key pName ch t).previous_input =
          { input_pointer := (push_key ch t).input.input_pointer
            line := memcpy t.previous_input.line (push_key ch t).input.line (push_key ch t).input.input_pointer } ∧
        (enter_key pName ch t).input.input_pointer = 0 := by
      unfold enter_key complete_line terminal_copy_to_history
      rw [if_pos newline]
      dsimp only
      split <;> exact ⟨rfl,rfl⟩
    rw [if_pos newline]
    refine ⟨⟨completed.2,fun i inside => by cases inside⟩,Nat.zero_le _,?_⟩
    intro line last
    obtain rfl : s.pending ++ [ch] = line := by simpa using last
    rw [completed.1]
    refine ⟨holds_copy t.previous_input pushed,by simp,?_⟩
    rw [List.length_append,List.length_singleton]
    omega
  · rw [if_neg newline]
    have same : enter_key pName ch t = push_key ch t := if_neg newline
    rw [same]
    refine ⟨pushed,?_,editing.previous⟩
    rw [List.length_append,List.length_singleton]
    omega

/-- A line once completed stays completed. -/
theorem lines_head (t : Int) (c : Console) (s : Typed) (ev : Event) : s.lines <+: (s.event t c ev).lines := by
  have same : s.lines <+: s.lines := List.prefix_rfl
  cases ev with
  | key pName ch =>
    simp only [Typed.event]
    split
    · unfold Typed.key
      split
      · exact same
      · split
        · exact List.prefix_append _ _
        · exact same
    · exact same
  | backspace =>
    simp only [Typed.event]
    split <;> exact same
  | clear => exact same
  | write e buf nbytes => exact same
  | read e null nbytes => exact same
  | switch k => exact same

/-- What one event makes of the lines of `t`: they stay the editor's, and the
    reading state is only ever completed by a completed line. -/
def Follows (t : Int) (c c' : Console) (s' : Typed) : Prop :=
  Editing (c'.terminal_list t) s' ∧
    ((c'.terminal_list t).state = .TERMINAL_DONE_READ →
      (c.terminal_list t).state = .TERMINAL_DONE_READ ∨ s'.lines ≠ [])

theorem Follows.of_sameLines {t : Int} {c c' : Console} {s : Typed} (editing : Editing (c.terminal_list t) s)
    (same : SameLines (c.terminal_list t) (c'.terminal_list t)) : Follows t c c' s :=
  ⟨editing.of_sameLines same,fun done => .inl (same.2.2 ▸ done)⟩

theorem follows_key {c : Console} {t : Int} {s : Typed} (pName : Nat → Byte) (ch : Byte)
    (editing : Editing (c.terminal_list t) s) :
    Follows t c (terminal_add_to_buffer pName ch c) (if c.current_terminal_index = t then s.key ch else s) := by
  rw [add_to_buffer_eq]
  by_cases full : 127 ≤ (c.terminal_list c.current_terminal_index).input.input_pointer
  · rw [if_pos full]
    have kept : (if c.current_terminal_index = t then s.key ch else s) = s := by
      split
      · rename_i displayed
        have length := editing.pending.1
        rw [displayed] at full
        rw [Typed.key,if_pos (by omega)]
      · rfl
    rw [kept]
    exact .of_sameLines editing (.refl _)
  · rw [if_neg full]
    have after : KeepsText (entered pName ch c) (wrap_row (shown pName ch c)) :=
      (keepsText_write_loop _ _ [ch]).trans (keepsText_wrap_row _)
    by_cases displayed : c.current_terminal_index = t
    · subst displayed
      rw [if_pos rfl]
      have typed := editing_enter_key pName ch editing (by omega)
      have state := enter_key_state pName ch (c.terminal_list c.current_terminal_index)
      have same := after.lines c.current_terminal_index
      rw [entered,setTerminal_same] at same
      refine ⟨typed.of_sameLines same,?_⟩
      rw [← same.2.2,state]
      intro done
      by_cases newline : ch = NEWLINE
      · have length := editing.pending.1
        refine .inr ?_
        rw [Typed.key,if_neg (by omega),if_pos newline]
        simp
      · rw [if_neg newline] at done
        exact .inl done
    · rw [if_neg displayed]
      refine .of_sameLines editing ?_
      have same := after.lines t
      rw [entered,setTerminal_other c _ (Ne.symm displayed)] at same
      exact same

theorem holds_drop {l : TerminalLine} {text : List Byte} (holds : Holds l text) (pending : 0 < text.length) :
    Holds { l with input_pointer := l.input_pointer - 1 } text.dropLast := by
  obtain ⟨length,chars⟩ := holds
  refine ⟨by dsimp only; rw [length,List.length_dropLast]; omega,?_⟩
  intro i inside
  rw [List.length_dropLast] at inside
  rw [List.getElem_dropLast]
  exact chars i (by omega)

/-- A backspace with something to delete only moves the line's end, as far as
    the lines go. -/
theorem backspace_lines {c : Console} (t : Int)
    (pending : 0 < (c.terminal_list c.current_terminal_index).input.input_pointer) :
    let u := c.terminal_list c.current_terminal_index
    SameLines (if t = c.current_terminal_index then
        { u with input := { u.input with input_pointer := u.input.input_pointer - 1 } } else c.terminal_list t)
      ((terminal_backspace c).terminal_list t) := by
  dsimp only
  rw [backspace_terminal]
  by_cases displayed : t = c.current_terminal_index
  · subst displayed
    rw [if_pos rfl,if_pos ⟨rfl,pending⟩,deleted]
    split <;> exact ⟨rfl,rfl,rfl⟩
  · rw [if_neg displayed,if_neg (fun both => displayed both.1)]
    exact .refl _

theorem follows_backspace {c : Console} {t : Int} {s : Typed} (editing : Editing (c.terminal_list t) s) :
    Follows t c (terminal_backspace c) (if c.current_terminal_index = t then s.backspace else s) := by
  by_cases pending : 0 < (c.terminal_list c.current_terminal_index).input.input_pointer
  · have lines := backspace_lines t pending
    dsimp only at lines
    by_cases displayed : c.current_terminal_index = t
    · subst displayed
      rw [if_pos rfl] at lines ⊢
      have length := editing.pending.1
      have edited : Editing { c.terminal_list c.current_terminal_index with
          input := { (c.terminal_list c.current_terminal_index).input with
            input_pointer := (c.terminal_list c.current_terminal_index).input.input_pointer - 1 } } s.backspace := by
        refine ⟨holds_drop editing.pending (by omega),?_,editing.previous⟩
        have room := editing.room
        rw [Typed.backspace,List.length_dropLast]
        omega
      exact ⟨edited.of_sameLines lines,fun done => .inl (lines.2.2 ▸ done)⟩
    · rw [if_neg (Ne.symm displayed)] at lines
      rw [if_neg displayed]
      exact .of_sameLines editing lines
  · have idle : terminal_backspace c = c := if_pos (by omega)
    have kept : (if c.current_terminal_index = t then s.backspace else s) = s := by
      split
      · rename_i displayed
        have length := editing.pending.1
        rw [displayed] at pending
        have empty : s.pending = [] := List.eq_nil_of_length_eq_zero (by omega)
        cases s
        cases empty
        rfl
      · rfl
    rw [idle,kept]
    exact .of_sameLines editing (.refl _)

theorem follows_step {c c' : Console} {t : Int} {s : Typed} {ev : Event} (taken : step c ev = some c')
    (editing : Editing (c.terminal_list t) s) (other : ∀ null nbytes, ev ≠ .read t null nbytes) :
    Follows t c c' (s.event t c ev) := by
  cases ev with
  | key pName ch =>
    cases taken
    exact follows_key pName ch editing
  | backspace =>
    cases taken
    exact follows_backspace editing
  | clear =>
    cases taken
    exact .of_sameLines editing (keepsText_terminal_clear c t).lines
  | write e buf nbytes =>
    simp only [step] at taken
    split at taken
    · cases taken
      exact .of_sameLines editing (keepsText_terminal_write c e buf nbytes t).lines
    · cases taken
  | read e null nbytes =>
    have apart : t ≠ e := by
      rintro rfl
      exact other null nbytes rfl
    simp only [step] at taken
    split at taken
    · cases taken
      exact .of_sameLines editing (sameLines_read_start null nbytes apart)
    · cases taken
  | switch k =>
    cases taken
    exact .of_sameLines editing (keepsText_switch k c t).lines

end Mp3Kernel.Lines

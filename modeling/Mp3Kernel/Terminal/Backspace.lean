import Mp3Kernel.Terminal.CursorRange

/-!
A key and the backspace after it. Inside a row the backspace undoes the key; a
key that fills its row goes on in the next, which starts a new count of printed
characters, and from there the backspace does not find back.
-/
namespace Mp3Kernel.Backspace
open Mp3Kernel.Memory (Byte)
open Mp3Kernel.Screen Mp3Kernel.Tty
open Mp3Kernel.LogicalScreen (Page logical blank_console page_write_char onlyPrints_write_char set_cursor_pos_onScreen)
open Mp3Kernel.CursorRange (shown entered shown_index page_entered add_to_buffer_eq deleted backspace_eq backspace_terminal)

/-- A character with a place on the screen: no 0 and no line break. -/
def Displayable (ch : Byte) : Prop := ch ≠ 0 ∧ ch ≠ NEWLINE ∧ ch ≠ RETURN

instance (ch : Byte) : Decidable (Displayable ch) := inferInstanceAs (Decidable (_ ∧ _ ∧ _))

/-- A terminal in the middle of a line, with the cursor behind what is pending. -/
structure Typing (t : Terminal) : Prop where
  row : 0 ≤ t.screen_y ∧ t.screen_y < 24
  offset : 0 ≤ t.starting_offset ∧ t.starting_offset < 80
  count : 0 ≤ t.chars_printed ∧ t.chars_printed < 80
  pointer : 0 ≤ t.input.input_pointer ∧ t.input.input_pointer < 127
  column : t.screen_x = (t.starting_offset + t.input.input_pointer) % 80

/-- What two terminals with the same line, cursor and count agree on. -/
structure SameTyping (t u : Terminal) : Prop where
  pointer : u.input.input_pointer = t.input.input_pointer
  line : ∀ i, 0 ≤ i → i < t.input.input_pointer → u.input.line i = t.input.line i
  x : u.screen_x = t.screen_x
  y : u.screen_y = t.screen_y
  count : u.chars_printed = t.chars_printed

/-- The key and a backspace leave the displayed terminal as it was, and the cell
    that the key was shown in blank. -/
def Undone (pName : Nat → Byte) (ch : Byte) (c : Console) : Prop :=
  let t := c.terminal_list c.current_terminal_index
  let c' := terminal_backspace (terminal_add_to_buffer pName ch c)
  SameTyping t (c'.terminal_list c.current_terminal_index) ∧
    c'.video_mem t.own.cell = SPACE ∧ c'.video_mem (t.own.cell + 1) = ATTRIB

variable {c : Console} {ch : Byte} {t : Terminal}

theorem Typing.onScreen (typing : Typing t) : t.own.OnScreen := by
  have row := typing.row
  have column := typing.column
  simp only [Surface.OnScreen,Terminal.own]
  omega

/-! ### The key -/

variable (pName : Nat → Byte)

/-- What the key leaves of the displayed terminal, before the row wrap. -/
structure Keyed (ch : Byte) (t u : Terminal) : Prop where
  input : u.input = (push_key ch t).input
  offset : u.starting_offset = t.starting_offset
  x : u.screen_x = if t.screen_x = 79 then 0 else t.screen_x + 1
  y : u.screen_y = t.screen_y
  count : u.chars_printed = t.chars_printed + 1

theorem shown_keyed (displayable : Displayable ch) (typing : Typing (c.terminal_list c.current_terminal_index)) :
    Keyed ch (c.terminal_list c.current_terminal_index) ((shown pName ch c).terminal_list c.current_terminal_index) := by
  obtain ⟨other,newline,ret⟩ := displayable
  have count := typing.count
  obtain ⟨x0,x1,y0,y1⟩ := typing.onScreen
  obtain ⟨atX,atY,counted⟩ := page_entered pName ch c
  have on : (logical (entered pName ch c) c.current_terminal_index).OnScreen :=
    ⟨atX ▸ x0,atX ▸ x1,atY ▸ y0,atY ▸ y1⟩
  have printed := page_write_char ch on
  rw [Page.write_char,if_neg (by rw [counted]; omega),if_neg newline,if_neg other] at printed
  have x := (congrArg (fun p => p.surface.screen_x) printed).trans (put_char_x ch on)
  have y := (congrArg (fun p => p.surface.screen_y) printed).trans (put_char_y ch on)
  rw [if_neg (not_or.mpr ⟨newline,ret⟩)] at y
  have pushed : (entered pName ch c).terminal_list c.current_terminal_index =
      push_key ch (c.terminal_list c.current_terminal_index) := (setTerminal_same ..).trans (if_neg newline)
  have rest := (onlyPrints_write_char (entered pName ch c) c.current_terminal_index ch).rest
  rw [pushed] at rest
  have input := congrArg Terminal.input rest
  have offset := congrArg Terminal.starting_offset rest
  refine ⟨input.symm,offset.symm,?_,y.trans atY,(congrArg Page.chars_printed printed).trans (congrArg (· + 1) counted)⟩
  refine x.trans ?_
  simp only [newline,ret,false_or]
  have column : (logical (entered pName ch c) c.current_terminal_index).screen_x =
      (c.terminal_list c.current_terminal_index).screen_x := atX
  rw [column]

theorem key_shown (typing : Typing (c.terminal_list c.current_terminal_index)) :
    terminal_add_to_buffer pName ch c = wrap_row (shown pName ch c) := by
  have room := typing.pointer.2
  rw [add_to_buffer_eq,if_neg (by omega)]

/-- The row wrap, where the key has left the cursor in the first column. -/
theorem wrap_row_terminal (c : Console) : (wrap_row c).current_terminal_index = c.current_terminal_index ∧
    (wrap_row c).terminal_list c.current_terminal_index =
      let t := c.terminal_list c.current_terminal_index
      if t.screen_x = 0 ∧ 80 - t.starting_offset ≤ t.input.input_pointer then
        { t with screen_y := t.screen_y + 1, chars_printed := 0 }
      else t := by
  rw [wrap_row]
  dsimp only
  split
  · split <;> exact ⟨rfl,setTerminal_same ..⟩
  · exact ⟨rfl,rfl⟩

/-! ### The backspace -/

theorem backspace_deletes (pending : 0 < (c.terminal_list c.current_terminal_index).input.input_pointer) :
    (terminal_backspace c).terminal_list c.current_terminal_index = deleted (c.terminal_list c.current_terminal_index) := by
  rw [backspace_terminal,if_pos ⟨rfl,pending⟩]

/-- The cell that the cursor goes back to is blanked. -/
theorem backspace_blanks (pending : 0 < (c.terminal_list c.current_terminal_index).input.input_pointer) {s : Surface}
    (on : s.OnScreen) (x : (deleted (c.terminal_list c.current_terminal_index)).screen_x = s.screen_x)
    (y : (deleted (c.terminal_list c.current_terminal_index)).screen_y = s.screen_y) :
    (terminal_backspace c).video_mem s.cell = SPACE ∧ (terminal_backspace c).video_mem (s.cell + 1) = ATTRIB := by
  rw [backspace_eq pending]
  dsimp only
  rw [x,y,set_cursor_pos_onScreen _ on]
  simp [putc,put_char,Console.video,Surface.cell,store]

/-! ### One after the other -/

/-- The displayed terminal after the key: in the last column the row wrap moves
    it on. -/
theorem key_terminal (displayable : Displayable ch) (typing : Typing (c.terminal_list c.current_terminal_index)) :
    (terminal_add_to_buffer pName ch c).current_terminal_index = c.current_terminal_index ∧
      ∃ u, Keyed ch (c.terminal_list c.current_terminal_index) u ∧
        (terminal_add_to_buffer pName ch c).terminal_list c.current_terminal_index =
          if (c.terminal_list c.current_terminal_index).screen_x = 79 then
            { u with screen_y := u.screen_y + 1, chars_printed := 0 }
          else u := by
  have keyed := shown_keyed pName displayable typing
  obtain ⟨low,-⟩ := typing.onScreen
  have column := typing.column
  have offset := typing.offset
  have pointer := typing.pointer
  have index := shown_index pName ch c
  obtain ⟨still,wrapped⟩ := wrap_row_terminal (shown pName ch c)
  rw [key_shown pName typing]
  rw [index] at still wrapped
  refine ⟨still,_,keyed,wrapped.trans ?_⟩
  have pushed : ((shown pName ch c).terminal_list c.current_terminal_index).input.input_pointer =
      (c.terminal_list c.current_terminal_index).input.input_pointer + 1 := congrArg TerminalLine.input_pointer keyed.input
  have x := keyed.x
  simp only [Terminal.own] at low
  dsimp only
  by_cases last : (c.terminal_list c.current_terminal_index).screen_x = 79
  · rw [if_pos last] at x ⊢
    rw [if_pos ⟨x,by rw [pushed,keyed.offset]; omega⟩]
  · rw [if_neg last] at x ⊢
    rw [if_neg (fun wraps => by omega)]

/-- Inside its row a key is undone. -/
theorem undone_inside (displayable : Displayable ch) (typing : Typing (c.terminal_list c.current_terminal_index))
    (inside : (c.terminal_list c.current_terminal_index).screen_x ≠ 79) : Undone pName ch c := by
  have column := typing.column
  have offset := typing.offset
  have pointer := typing.pointer
  obtain ⟨index,u,keyed,after⟩ := key_terminal pName displayable typing
  rw [if_neg inside] at after
  have x := keyed.x
  rw [if_neg inside] at x
  have pushed : u.input.input_pointer = (c.terminal_list c.current_terminal_index).input.input_pointer + 1 :=
    congrArg TerminalLine.input_pointer keyed.input
  have pending : 0 < u.input.input_pointer := by omega
  have back : deleted u = { u with
      screen_x := u.screen_x - 1
      chars_printed := u.chars_printed - 1
      input := { u.input with input_pointer := u.input.input_pointer - 1 } } :=
    if_pos (by rw [pushed,keyed.offset,NUM_COLS]; omega)
  rw [← after,← index] at pending back
  have deletes := backspace_deletes pending
  have blanks := backspace_blanks pending typing.onScreen (by rw [back]; dsimp only; rw [index,after,x]; simp [Terminal.own])
    (by rw [back]; dsimp only; rw [index,after,keyed.y]; rfl)
  rw [back,index,after] at deletes
  refine ⟨?_,blanks⟩
  rw [deletes]
  refine ⟨by dsimp only; omega,?_,by dsimp only; omega,keyed.y,by dsimp only; rw [keyed.count]; omega⟩
  intro i low high
  dsimp only
  rw [keyed.input]
  exact if_neg (by omega)

/-- In the last column the count of printed characters is lost. -/
theorem undone_not_last (displayable : Displayable ch) (typing : Typing (c.terminal_list c.current_terminal_index))
    (last : (c.terminal_list c.current_terminal_index).screen_x = 79) : ¬ Undone pName ch c := by
  rintro ⟨same,-⟩
  have count := typing.count
  have pointer := typing.pointer
  obtain ⟨index,u,keyed,after⟩ := key_terminal pName displayable typing
  rw [if_pos last] at after
  have pushed : u.input.input_pointer = (c.terminal_list c.current_terminal_index).input.input_pointer + 1 :=
    congrArg TerminalLine.input_pointer keyed.input
  have pending : 0 < ((terminal_add_to_buffer pName ch c).terminal_list
      (terminal_add_to_buffer pName ch c).current_terminal_index).input.input_pointer := by
    rw [index,after]
    dsimp only
    omega
  have deletes := backspace_deletes pending
  rw [index,after] at deletes
  have lost := same.count
  rw [deletes,deleted] at lost
  dsimp only at lost
  split at lost
  · dsimp only at lost
    omega
  · dsimp only at lost
    omega

/-- A backspace undoes a key exactly outside the last column. -/
theorem undone_iff (displayable : Displayable ch) (typing : Typing (c.terminal_list c.current_terminal_index)) :
    Undone pName ch c ↔ (c.terminal_list c.current_terminal_index).screen_x ≠ 79 := by
  constructor
  · intro undone last
    exact undone_not_last pName displayable typing last undone
  · exact undone_inside pName displayable typing

/-- The shell waits in row 5, with `pending` characters typed. -/
def typed_console (pending : Int) : Console :=
  blank_console.setTerminal 0 { blank_console.terminal_list 0 with
    screen_x := (7 + pending) % 80, screen_y := 5, chars_printed := 20
    input := { input_pointer := pending, line := fun _ => 97 } }

theorem typing_typed_console {pending : Int} (low : 0 ≤ pending) (high : pending < 127) :
    Typing ((typed_console pending).terminal_list 0) where
  row := show (0 : Int) ≤ 5 ∧ (5 : Int) < 24 from by decide
  offset := show (0 : Int) ≤ 7 ∧ (7 : Int) < 80 from by decide
  count := show (0 : Int) ≤ 20 ∧ (20 : Int) < 80 from by decide
  pointer := ⟨low,high⟩
  column := rfl

theorem undone_iff_typed : Undone (fun _ => 0) 97 (typed_console 3) ↔
    ((typed_console 3).terminal_list (typed_console 3).current_terminal_index).screen_x ≠ 79 :=
  undone_iff (fun _ => 0) (by decide) (typing_typed_console (by decide) (by decide))

/-- 72 characters after a prompt of seven: the next one fills the row. -/
theorem last_column_not_undone : Displayable 97 ∧
    Typing ((typed_console 72).terminal_list (typed_console 72).current_terminal_index) ∧
    ¬ Undone (fun _ => 0) 97 (typed_console 72) :=
  ⟨by decide,typing_typed_console (by decide) (by decide),
    undone_not_last (fun _ => 0) (by decide) (typing_typed_console (by decide) (by decide)) rfl⟩

end Mp3Kernel.Backspace

import Mp3Kernel.Terminal.LogicalScreen

/-!
What a task of a hidden terminal does to the displayed one. `terminal_read`
takes the start of the line from the shared cursor and stores it in the
displayed terminal, and `do_halt` ends the line of the halting task when the
shared cursor is not at the start of one; printing itself stays with the
terminal that prints.
-/
namespace Mp3Kernel.Bystander
open Mp3Kernel.Memory (Byte)
open Mp3Kernel.Screen Mp3Kernel.Tty Mp3Kernel.LogicalScreen

/-- The first step of `do_halt` by a task of terminal `e`: a newline when the
    cursor is not at the start of a line, and whether there was one. -/
def halt_newline (e : Int) (c : Console) : Bool × Console :=
  if c.screen_x > 0 then (true,(terminal_write e (some fun _ => NEWLINE) 1 c).2) else (false,c)

/-- No field of terminal `t` and no cell of its logical screen differs. -/
structure Untouched (t : Int) (c c' : Console) : Prop where
  fields : c'.terminal_list t = c.terminal_list t
  screen : logical c' t = logical c t

/-- Terminal `e` is hidden on both consoles, which have the same terminal `e`. -/
structure SameOwn (e : Int) (c₁ c₂ : Console) : Prop where
  hidden₁ : e ≠ c₁.current_terminal_index
  hidden₂ : e ≠ c₂.current_terminal_index
  own : c₁.terminal_list e = c₂.terminal_list e

/-- The start of a read and the newline of a halt leave the displayed terminal
    alone, and do the same to `e` as on a console that has the same `e`. -/
structure Private (e : Int) (null : Bool) (nbytes : Int) (c₁ c₂ : Console) : Prop where
  read_untouched : Untouched c₁.current_terminal_index c₁ (terminal_read_start e null nbytes c₁).2
  halt_untouched : Untouched c₁.current_terminal_index c₁ (halt_newline e c₁).2
  read_own : (terminal_read_start e null nbytes c₁).1 = (terminal_read_start e null nbytes c₂).1 ∧
    (terminal_read_start e null nbytes c₁).2.terminal_list e = (terminal_read_start e null nbytes c₂).2.terminal_list e
  halt_own : (halt_newline e c₁).1 = (halt_newline e c₂).1 ∧
    (halt_newline e c₁).2.terminal_list e = (halt_newline e c₂).2.terminal_list e

variable {c c' c'' c₁ c₂ : Console} {e t : Int}

theorem Untouched.trans (first : Untouched t c c') (second : Untouched t c' c'') : Untouched t c c'' :=
  ⟨second.fields.trans first.fields,second.screen.trans first.screen⟩

theorem untouched_write_loop (c : Console) (s : List Byte) (other : t ≠ e) : Untouched t c (s.foldl (write_char e) c) := by
  obtain ⟨fields,screen⟩ := (onlyPrints_write_loop e s c).others t other
  exact ⟨fields,screen⟩

theorem untouched_terminal_write (c : Console) (buf : Option Buffer) (nbytes : Int) (other : t ≠ e) :
    Untouched t c (terminal_write e buf nbytes c).2 := by
  rw [terminal_write_eq]
  exact untouched_write_loop c _ other

theorem untouched_echo_pending (c : Console) (other : t ≠ e) : Untouched t c (echo_pending e c) := by
  unfold echo_pending
  dsimp only
  split
  · exact untouched_terminal_write c _ _ other
  · exact ⟨rfl,rfl⟩

theorem untouched_set_state (c : Console) (state : TerminalState) (other : t ≠ e) :
    Untouched t c (set_state e state c) := by
  have fields : (set_state e state c).terminal_list t = c.terminal_list t := setTerminal_other _ _ other
  refine ⟨fields,?_⟩
  rw [logical,fields]
  rfl

/-- Behind the note of the start of the line a read leaves the others alone. -/
theorem untouched_read_start (c : Console) (nbytes : Int) (other : t ≠ e) :
    Untouched t (take_offset c) (terminal_read_start e false nbytes c).2 := by
  have echoed := untouched_echo_pending (take_offset c) other
  unfold terminal_read_start
  dsimp only
  rw [if_neg (by decide)]
  split
  · exact echoed
  · exact echoed.trans (untouched_set_state _ _ other)

theorem untouched_halt_newline (c : Console) (other : t ≠ e) : Untouched t c (halt_newline e c).2 := by
  unfold halt_newline
  split
  · exact untouched_terminal_write c _ _ other
  · exact ⟨rfl,rfl⟩

/-- The displayed terminal after the note of the start of the line. -/
theorem take_offset_shown (c : Console) :
    (take_offset c).terminal_list c.current_terminal_index =
      { c.terminal_list c.current_terminal_index with starting_offset := c.screen_x } ∧
    logical (take_offset c) c.current_terminal_index = logical c c.current_terminal_index := by
  have shown : (take_offset c).terminal_list c.current_terminal_index =
      { c.terminal_list c.current_terminal_index with starting_offset := c.screen_x } := setTerminal_same _ _ _
  refine ⟨shown,?_⟩
  rw [logical,shown]
  rfl

/-- A read leaves the displayed terminal alone exactly when its line already
    starts at the shared cursor. -/
theorem read_untouched_iff (null : Bool) (nbytes : Int) (other : c.current_terminal_index ≠ e) :
    Untouched c.current_terminal_index c (terminal_read_start e null nbytes c).2 ↔
      null = true ∨ (c.terminal_list c.current_terminal_index).starting_offset = c.screen_x := by
  cases null with
  | true =>
    have idle : (terminal_read_start e true nbytes c).2 = c := by rfl
    rw [idle]
    exact ⟨fun _ => .inl rfl,fun _ => ⟨rfl,rfl⟩⟩
  | false =>
    have after := untouched_read_start c nbytes other
    obtain ⟨shown,screen⟩ := take_offset_shown c
    constructor
    · intro untouched
      have same := untouched.fields.symm.trans (after.fields.trans shown)
      exact .inr (congrArg Terminal.starting_offset same)
    · rintro (null | starts)
      · cases null
      · refine ⟨?_,after.screen.trans screen⟩
        rw [after.fields,shown,← starts]

/-! ### The executing terminal -/

theorem sameOwn_setTerminal {u : Terminal} (same : SameOwn e c₁ c₂) : SameOwn e (c₁.setTerminal e u) (c₂.setTerminal e u) :=
  ⟨same.hidden₁,same.hidden₂,by rw [setTerminal_same,setTerminal_same]⟩

theorem sameOwn_print_char (ch : Byte) (same : SameOwn e c₁ c₂) : SameOwn e (print_char e ch c₁) (print_char e ch c₂) := by
  rw [print_char,if_neg same.hidden₁,print_char,if_neg same.hidden₂,same.own]
  exact sameOwn_setTerminal same

theorem sameOwn_set_chars_printed (n : Int) (same : SameOwn e c₁ c₂) :
    SameOwn e (set_chars_printed e n c₁) (set_chars_printed e n c₂) := by
  rw [set_chars_printed,set_chars_printed,same.own]
  exact sameOwn_setTerminal same

theorem sameOwn_print_counted (ch : Byte) (same : SameOwn e c₁ c₂) :
    SameOwn e (print_counted e ch c₁) (print_counted e ch c₂) := by
  have printed := sameOwn_print_char ch same
  rw [print_counted,print_counted,printed.own]
  exact sameOwn_set_chars_printed _ printed

theorem sameOwn_write_char (ch : Byte) (same : SameOwn e c₁ c₂) : SameOwn e (write_char e c₁ ch) (write_char e c₂ ch) := by
  simp only [write_char,same.own]
  split
  · exact sameOwn_print_counted ch (sameOwn_set_chars_printed 0 (sameOwn_print_char NEWLINE same))
  · split
    · exact sameOwn_print_counted ch (sameOwn_set_chars_printed 0 same)
    · split
      · exact same
      · exact sameOwn_print_counted ch same

theorem sameOwn_terminal_write (buf : Option Buffer) (nbytes : Int) (same : SameOwn e c₁ c₂) :
    SameOwn e (terminal_write e buf nbytes c₁).2 (terminal_write e buf nbytes c₂).2 := by
  rw [terminal_write_eq,terminal_write_eq]
  induction written buf nbytes generalizing c₁ c₂ with
  | nil => exact same
  | cons ch s ih => exact ih (sameOwn_write_char ch same)

theorem sameOwn_take_offset (same : SameOwn e c₁ c₂) : SameOwn e (take_offset c₁) (take_offset c₂) := by
  refine ⟨same.hidden₁,same.hidden₂,?_⟩
  rw [take_offset,take_offset,setTerminal_other _ _ same.hidden₁,setTerminal_other _ _ same.hidden₂,same.own]

theorem sameOwn_echo_pending (same : SameOwn e c₁ c₂) : SameOwn e (echo_pending e c₁) (echo_pending e c₂) := by
  unfold echo_pending
  dsimp only
  rw [same.own]
  split
  · exact sameOwn_terminal_write _ _ same
  · exact same

/-- What a read does to its own terminal depends on that terminal alone. -/
theorem read_start_own (null : Bool) (nbytes : Int) (same : SameOwn e c₁ c₂) :
    (terminal_read_start e null nbytes c₁).1 = (terminal_read_start e null nbytes c₂).1 ∧
    (terminal_read_start e null nbytes c₁).2.terminal_list e = (terminal_read_start e null nbytes c₂).2.terminal_list e := by
  have echoed := sameOwn_echo_pending (sameOwn_take_offset same)
  unfold terminal_read_start
  dsimp only
  split
  · exact ⟨rfl,same.own⟩
  · split
    · exact ⟨rfl,echoed.own⟩
    · refine ⟨rfl,?_⟩
      rw [set_state,set_state,setTerminal_same,setTerminal_same,echoed.own]

theorem halt_newline_own_iff (same : SameOwn e c₁ c₂) :
    ((halt_newline e c₁).1 = (halt_newline e c₂).1 ∧
      (halt_newline e c₁).2.terminal_list e = (halt_newline e c₂).2.terminal_list e) ↔
    (c₁.screen_x > 0 ↔ c₂.screen_x > 0) := by
  have wrote := sameOwn_terminal_write (some fun _ => NEWLINE) 1 same
  unfold halt_newline
  by_cases first : c₁.screen_x > 0
  · by_cases second : c₂.screen_x > 0
    · rw [if_pos first,if_pos second]
      exact ⟨fun _ => ⟨fun _ => second,fun _ => first⟩,fun _ => ⟨rfl,wrote.own⟩⟩
    · rw [if_pos first,if_neg second]
      refine ⟨?_,fun both => absurd (both.mp first) second⟩
      rintro ⟨equal,-⟩
      cases equal
  · by_cases second : c₂.screen_x > 0
    · rw [if_neg first,if_pos second]
      refine ⟨?_,fun both => absurd (both.mpr second) first⟩
      rintro ⟨equal,-⟩
      cases equal
    · rw [if_neg first,if_neg second]
      exact ⟨fun _ => ⟨fun now => absurd now first,fun now => absurd now second⟩,fun _ => ⟨rfl,same.own⟩⟩

/-- A task of a hidden terminal keeps to its own exactly when the displayed line
    starts at the shared cursor and the cursor is at the start of a row on both
    consoles or on neither. -/
theorem private_iff (null : Bool) (nbytes : Int) (same : SameOwn e c₁ c₂) : Private e null nbytes c₁ c₂ ↔
    (null = true ∨ (c₁.terminal_list c₁.current_terminal_index).starting_offset = c₁.screen_x) ∧
      (c₁.screen_x > 0 ↔ c₂.screen_x > 0) := by
  have other := same.hidden₁.symm
  constructor
  · intro kept
    exact ⟨(read_untouched_iff null nbytes other).mp kept.read_untouched,(halt_newline_own_iff same).mp kept.halt_own⟩
  · rintro ⟨starts,row⟩
    exact ⟨(read_untouched_iff null nbytes other).mpr starts,untouched_halt_newline c₁ other,
      read_start_own null nbytes same,(halt_newline_own_iff same).mpr row⟩

/-- A console whose shared cursor is in column `x`. -/
def console_at (x : Int) : Console := { blank_console with screen_x := x }

/-- The line of the displayed terminal starts behind the prompt. -/
theorem private_behind_prompt : Private 1 false 10 (console_at 7) (console_at 12) ↔
    (false = true ∨ ((console_at 7).terminal_list (console_at 7).current_terminal_index).starting_offset =
      (console_at 7).screen_x) ∧ ((console_at 7).screen_x > 0 ↔ (console_at 12).screen_x > 0) :=
  private_iff false 10 ⟨by decide,by decide,rfl⟩

/-- A read on terminal 1 moves the line of terminal 0, and its halt prints a
    newline for the cursor of terminal 0. -/
theorem read_moves_shown_line : SameOwn 1 (console_at 12) (console_at 0) ∧
    ¬ Untouched 0 (console_at 12) (terminal_read_start 1 false 10 (console_at 12)).2 ∧
    (halt_newline 1 (console_at 12)).1 ≠ (halt_newline 1 (console_at 0)).1 := by
  refine ⟨⟨by decide,by decide,rfl⟩,?_,by decide⟩
  intro untouched
  exact absurd (congrArg Terminal.starting_offset untouched.fields) (by decide)

end Mp3Kernel.Bystander

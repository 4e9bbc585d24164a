import Mp3Kernel.Terminal.Lines

/-!
The driver as a line editor. Whatever is typed on the three terminals and
however often the display is switched in the middle of a line, each terminal
has the line and the last archived line of an editor that sees only what
happens while the terminal is displayed.
-/
namespace Mp3Kernel.LineEditor
open Mp3Kernel.Memory (Byte)
open Mp3Kernel.Screen Mp3Kernel.Tty Mp3Kernel.Runs Mp3Kernel.Lines

inductive Edit where
  /-- `terminal_add_to_buffer`, while the running task is named `pName` -/
  | key (pName : Nat → Byte) (ch : Byte)
  | backspace
  | switch (k : Int)

def edit (c : Console) : Edit → Console
  | .key pName ch => terminal_add_to_buffer pName ch c
  | .backspace => terminal_backspace c
  | .switch k => set_current_terminal k c

/-- A line of at most 127 characters, and the line archived last. -/
structure Editor where
  line : List Byte
  archived : Option (List Byte)
  deriving DecidableEq

def Editor.edit (s : Editor) : Edit → Editor
  | .key _ ch =>
    if ch = NEWLINE then ⟨[],some (s.line ++ [ch])⟩
    else if s.line.length < 127 then { s with line := s.line ++ [ch] }
    else s
  | .backspace => { s with line := s.line.dropLast }
  | .switch _ => s

def replay (edits : List Edit) : Editor := edits.foldl Editor.edit ⟨[],none⟩

/-- What happens while terminal `t` is displayed. -/
def while_displayed (t : Int) : Console → List Edit → List Edit
  | _, [] => []
  | c, e :: es =>
    if c.current_terminal_index = t then e :: while_displayed t (edit c e) es else while_displayed t (edit c e) es

/-- Enter is not pressed while 127 characters are pending. -/
def EnterFits (c : Console) : Edit → Prop
  | .key _ ch => ch = NEWLINE → (c.terminal_list c.current_terminal_index).input.input_pointer ≠ 127
  | _ => True

/-- The terminal holds the editor's line and its last archived one. -/
structure Shows (t : Terminal) (s : Editor) : Prop where
  line : Holds t.input s.line
  archived : ∀ line, s.archived = some line → Holds t.previous_input line

/-- The editor's part of what was typed. -/
def editor (s : Typed) : Editor := ⟨s.pending,s.lines.getLast?⟩

variable {c : Console} {t : Int} {s : Typed}

theorem editor_key (pName : Nat → Byte) (ch : Byte) (room : s.pending.length ≤ 127)
    (fits : ch = NEWLINE → s.pending.length ≠ 127) : editor (s.key ch) = (editor s).edit (.key pName ch) := by
  unfold Typed.key Editor.edit editor
  dsimp only
  by_cases newline : ch = NEWLINE
  · have := fits newline
    rw [if_neg (by omega),if_pos newline,if_pos newline,List.getLast?_concat]
  · rw [if_neg newline,if_neg newline]
    by_cases full : 127 ≤ s.pending.length
    · rw [if_pos full,if_neg (show ¬ s.pending.length < 127 by omega)]
    · rw [if_neg full,if_pos (show s.pending.length < 127 by omega)]

/-- One event: the typed lines go on as the editor does. -/
theorem editing_edit (e : Edit) (editing : Editing (c.terminal_list t) s) (fits : EnterFits c e) :
    ∃ s', Editing ((edit c e).terminal_list t) s' ∧
      editor s' = if c.current_terminal_index = t then (editor s).edit e else editor s := by
  by_cases displayed : c.current_terminal_index = t
  · rw [if_pos displayed]
    cases e with
    | key pName ch =>
      have followed := (follows_key pName ch editing).1
      rw [if_pos displayed] at followed
      refine ⟨_,followed,editor_key pName ch editing.room ?_⟩
      intro newline
      have open_ := fits newline
      rw [displayed,editing.pending.1] at open_
      omega
    | backspace =>
      have followed := (follows_backspace editing).1
      rw [if_pos displayed] at followed
      exact ⟨_,followed,rfl⟩
    | switch k => exact ⟨s,editing.of_sameLines (keepsText_switch k c t).lines,rfl⟩
  · rw [if_neg displayed]
    cases e with
    | key pName ch =>
      have followed := (follows_key pName ch editing).1
      rw [if_neg displayed] at followed
      exact ⟨s,followed,rfl⟩
    | backspace =>
      have followed := (follows_backspace editing).1
      rw [if_neg displayed] at followed
      exact ⟨s,followed,rfl⟩
    | switch k => exact ⟨s,editing.of_sameLines (keepsText_switch k c t).lines,rfl⟩

theorem editing_edits (es : List Edit) (editing : Editing (c.terminal_list t) s)
    (fits : StepsMeet (fun c e => some (edit c e)) EnterFits c es) :
    ∃ s', Editing ((es.foldl edit c).terminal_list t) s' ∧
      editor s' = (while_displayed t c es).foldl Editor.edit (editor s) := by
  induction es generalizing c s with
  | nil => exact ⟨s,editing,rfl⟩
  | cons e es ih =>
    obtain ⟨here,later⟩ := fits
    obtain ⟨s₁,editing₁,same⟩ := editing_edit e editing here
    obtain ⟨s',editing',same'⟩ := ih editing₁ (later _ rfl)
    refine ⟨s',editing',?_⟩
    rw [same',same,while_displayed]
    split <;> rfl

theorem editing_open (low : 0 ≤ t) (high : t < 3) : Editing ((terminal_open c).terminal_list t) ⟨[],[]⟩ := by
  have opened : ((terminal_open c).terminal_list t).input.input_pointer = 0 := by
    simp only [terminal_open,set_cursor_pos]
    rw [if_pos ⟨low,high⟩]
  refine ⟨⟨opened,fun i inside => absurd inside (Nat.not_lt_zero i)⟩,Nat.zero_le _,?_⟩
  intro line last
  cases last

/-- Each terminal holds the line and the last archived line of the editor that
    replays what happened while the terminal was displayed. -/
theorem lines_replayed (c : Console) (es : List Edit) (low : 0 ≤ t) (high : t < 3)
    (fits : StepsMeet (fun c e => some (edit c e)) EnterFits (terminal_open c) es) :
    Shows ((es.foldl edit (terminal_open c)).terminal_list t) (replay (while_displayed t (terminal_open c) es)) := by
  obtain ⟨s,editing,same⟩ := editing_edits es (editing_open (c := c) low high) fits
  have replayed : replay (while_displayed t (terminal_open c) es) = editor s := same.symm
  rw [replayed]
  exact ⟨editing.pending,fun line last => (editing.previous line last).1⟩

/-- A line on terminal 0 with a visit to terminal 1 in the middle. -/
theorem lines_replayed_visit : Shows
    (([.key (fun _ => 0) 97,.switch 1,.key (fun _ => 0) 98,.switch 0,.key (fun _ => 0) 10] : List Edit).foldl edit
      (terminal_open LogicalScreen.blank_console) |>.terminal_list 0)
    (replay (while_displayed 0 (terminal_open LogicalScreen.blank_console)
      [.key (fun _ => 0) 97,.switch 1,.key (fun _ => 0) 98,.switch 0,.key (fun _ => 0) 10])) := by
  refine lines_replayed LogicalScreen.blank_console _ (by decide) (by decide) ?_
  refine (stepsMeet_cons rfl).mpr ⟨fun newline => absurd newline (by decide),?_⟩
  refine (stepsMeet_cons rfl).mpr ⟨trivial,?_⟩
  refine (stepsMeet_cons rfl).mpr ⟨fun newline => absurd newline (by decide),?_⟩
  refine (stepsMeet_cons rfl).mpr ⟨trivial,?_⟩
  refine (stepsMeet_cons rfl).mpr ⟨fun _ => by decide,?_⟩
  trivial

end Mp3Kernel.LineEditor

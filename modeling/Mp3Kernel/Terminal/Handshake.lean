import Mp3Kernel.Terminal.TerminalRead

/-!
One read after another on the displayed terminal, while lines are typed on it.
The interrupt handler hands a line over through the one slot of
`previous_input` and the state of the terminal, both of which the reader and
the next line overwrite; `InTime` says which keys and polls are in time.
-/
namespace Mp3Kernel.Handshake
open Mp3Kernel.Memory (Byte)
open Mp3Kernel.Screen Mp3Kernel.Tty Mp3Kernel.Runs Mp3Kernel.Lines
open Mp3Kernel.CursorRange (entered shown shown_index add_to_buffer_eq deleted backspace_terminal)
open Mp3Kernel.TerminalRead (Phase Reader reader_step)

/-- The reads of the tasks of a terminal: the one in progress or finished last,
    the number of bytes it asked for, and what the finished ones were given. -/
structure Session where
  reader : Reader
  nbytes : Int
  received : List (List Byte)

inductive Act where
  /-- the task calls `terminal_read` for `nbytes` -/
  | call (nbytes : Int)
  /-- the reader is scheduled for one step -/
  | reader
  | key (pName : Nat → Byte) (ch : Byte)
  | backspace

def finished : Phase → Bool
  | .done _ => true
  | _ => false

def step (t : Int) (s : Session) : Act → Option Session
  | .call nbytes =>
    if finished s.reader.phase ∧ 1 ≤ nbytes then
      some { s with reader := { s.reader with phase := .start, output := [] }, nbytes := nbytes }
    else none
  | .reader =>
    (reader_step t s.nbytes s.reader).map fun r =>
      { s with reader := r, received := if finished r.phase then s.received ++ [r.output] else s.received }
  | .key pName ch =>
    some { s with reader := { s.reader with
      console := terminal_add_to_buffer pName ch s.reader.console
      typed := s.reader.typed.event t s.reader.console (.key pName ch) } }
  | .backspace =>
    some { s with reader := { s.reader with
      console := terminal_backspace s.reader.console
      typed := s.reader.typed.event t s.reader.console .backspace } }

/-- No read has been called yet, and `pending` is being typed. -/
def begin_session (c : Console) (pending : List Byte) : Session := ⟨⟨c,.done 0,[],⟨[],pending⟩⟩,0,[]⟩

/-- The lines completed so far, as a read returns them. -/
def Session.lines (s : Session) : List (List Byte) := s.reader.typed.lines.map List.dropLast

/-- What reads do without any further key. -/
def Act.reads : Act → Bool
  | .call _ | .reader => true
  | _ => false

/-- No line is lost: without any further key, reads will have been given all
    completed lines, each of them one line and in the order typed. -/
def NoneLost (t : Int) (s : Session) : Prop :=
  ∃ acts s', (∀ act ∈ acts, act.reads = true) ∧ run (step t) s acts = some s' ∧ s'.received = s.lines

def Session.own (t : Int) (s : Session) : Terminal := s.reader.console.terminal_list t

/-- With `pointer` characters pending the reader still takes a completed line. -/
def Roomy (pointer : Int) : Phase → Prop
  | .note _ | .poll _ _ | .room _ _ => pointer < 127
  | .wait max_chars old => pointer < 127 ∧ pointer - max_chars < old
  | _ => True

/-- The reader has marked the terminal and waits for a line. -/
def waits : Phase → Bool
  | .note _ | .wait _ _ | .poll _ _ => true
  | _ => false

/-- The condition on one step: a newline that is taken finds a reader waiting and
    no other line before it, what is typed behind a line leaves the reader room to
    take it, and no wait ends by the number of characters. -/
def InTime (t : Int) (s : Session) : Act → Prop
  | .key _ ch => (s.own t).input.input_pointer < 127 →
    (ch = NEWLINE → waits s.reader.phase = true ∧ (s.own t).state ≠ .TERMINAL_DONE_READ) ∧
    (ch ≠ NEWLINE → (s.own t).state = .TERMINAL_DONE_READ → Roomy ((s.own t).input.input_pointer + 1) s.reader.phase)
  | .reader => ∀ max_chars old, s.reader.phase = .wait max_chars old →
    (s.own t).input.input_pointer - max_chars < old
  | _ => True

/-! ### What a run keeps -/

/-- A completed line is on its way to the reader, or none is. -/
def Offered (t : Int) (s : Session) : Prop :=
  if (s.own t).state = .TERMINAL_DONE_READ then
    Roomy (s.own t).input.input_pointer s.reader.phase ∧ ∃ line, s.lines = s.received ++ [line]
  else s.received = s.lines

/-- What is known in each phase. -/
def Progress (t : Int) (s : Session) : Prop :=
  match s.reader.phase with
  | .done _ => s.received = s.lines
  | .start | .echo => s.reader.output = [] ∧ s.received = s.lines
  | .mark max_chars => s.reader.output = [] ∧ 1 ≤ max_chars ∧ s.received = s.lines
  | .note max_chars => s.reader.output = [] ∧ 1 ≤ max_chars ∧ Offered t s
  | .wait max_chars old | .poll max_chars old => s.reader.output = [] ∧ 1 ≤ max_chars ∧ 0 ≤ old ∧ Offered t s
  | .room _ _ => s.reader.output = [] ∧ (s.own t).state = .TERMINAL_DONE_READ ∧ Offered t s
  | .line => s.reader.output = [] ∧ ∃ line, s.lines = s.received ++ [line]
  | .copy i j => ∃ line, s.lines = s.received ++ [line] ∧ i = line.length + 1 ∧ 0 ≤ j ∧ j ≤ line.length ∧
    s.reader.output = line.take j.toNat

structure Served (t : Int) (s : Session) : Prop where
  displayed : s.reader.console.current_terminal_index = t
  editing : Editing (s.own t) s.reader.typed
  asked : finished s.reader.phase = false → 1 ≤ s.nbytes
  progress : Progress t s

variable {t : Int} {s s' : Session} {c : Console}

/-- A newline that is taken completes the read; another key leaves the state. -/
theorem key_state (pName : Nat → Byte) (ch : Byte) (displayed : c.current_terminal_index = t) :
    ((terminal_add_to_buffer pName ch c).terminal_list t).state =
      if (c.terminal_list t).input.input_pointer < 127 ∧ ch = NEWLINE then .TERMINAL_DONE_READ
      else (c.terminal_list t).state := by
  subst displayed
  rw [add_to_buffer_eq]
  by_cases full : 127 ≤ (c.terminal_list c.current_terminal_index).input.input_pointer
  · rw [if_pos full,if_neg (by omega)]
  · have after : KeepsLines (entered pName ch c) (wrap_row (shown pName ch c)) :=
      ((keepsText_write_loop _ _ [ch]).trans (keepsText_wrap_row _)).lines
    have same := (after c.current_terminal_index).2.2
    rw [entered,setTerminal_same,enter_key_state] at same
    rw [if_neg full,← same]
    by_cases newline : ch = NEWLINE
    · rw [if_pos newline,if_pos ⟨by omega,newline⟩]
    · rw [if_neg newline,if_neg (fun taken => newline taken.2)]

theorem backspace_state (c : Console) (t : Int) :
    ((terminal_backspace c).terminal_list t).state = (c.terminal_list t).state := by
  rw [backspace_terminal]
  split
  · rw [deleted]
    split <;> rfl
  · rfl

theorem Roomy.less {phase : Phase} {p q : Int} (roomy : Roomy p phase) (less : q ≤ p) : Roomy q phase := by
  cases phase with
  | note m => exact lt_of_le_of_lt less roomy
  | poll m o => exact lt_of_le_of_lt less roomy
  | room m o => exact lt_of_le_of_lt less roomy
  | wait m o => exact ⟨lt_of_le_of_lt less roomy.1,by have := roomy.2; omega⟩
  | start | echo | mark m | line | copy i j | done r => trivial

/-- The session after the interrupt handler has run. -/
def Session.typing (s : Session) (c : Console) (typed : Typed) : Session :=
  { s with reader := { s.reader with console := c, typed := typed } }

/-- Typing that completes no line leaves a waiting line where it is. -/
theorem progress_typing {typed : Typed} (lines : typed.lines = s.reader.typed.lines)
    (state : (c.terminal_list t).state = (s.own t).state)
    (roomy : (s.own t).state = .TERMINAL_DONE_READ → Roomy (s.own t).input.input_pointer s.reader.phase →
      Roomy (c.terminal_list t).input.input_pointer s.reader.phase)
    (progress : Progress t s) : Progress t (s.typing c typed) := by
  have all : (s.typing c typed).lines = s.lines := congrArg (List.map List.dropLast) lines
  have offered (before : Offered t s) : Offered t (s.typing c typed) := by
    unfold Offered at before ⊢
    rw [all]
    change if (c.terminal_list t).state = _ then _ else _
    rw [state]
    split at before
    · rename_i done
      rw [if_pos done]
      exact ⟨roomy done before.1,before.2⟩
    · rename_i open_
      rw [if_neg open_]
      exact before
  have still : (s.typing c typed).reader.phase = s.reader.phase := rfl
  unfold Progress at progress ⊢
  rw [all,still]
  cases phase : s.reader.phase with
  | done r => rw [phase] at progress; exact progress
  | start | echo | mark m | line | copy i j => rw [phase] at progress; exact progress
  | note m => rw [phase] at progress; exact ⟨progress.1,progress.2.1,offered progress.2.2⟩
  | wait m o | poll m o => rw [phase] at progress; exact ⟨progress.1,progress.2.1,progress.2.2.1,offered progress.2.2.2⟩
  | room m o => rw [phase] at progress; exact ⟨progress.1,state.trans progress.2.1,offered progress.2.2⟩

/-- A newline offers its line to a reader that waits for one. -/
theorem progress_newline {typed : Typed} {line : List Byte} (waiting : waits s.reader.phase = true)
    (open_ : (s.own t).state ≠ .TERMINAL_DONE_READ) (lines : typed.lines = s.reader.typed.lines ++ [line])
    (state : (c.terminal_list t).state = .TERMINAL_DONE_READ) (pointer : (c.terminal_list t).input.input_pointer = 0)
    (progress : Progress t s) : Progress t (s.typing c typed) := by
  have all : (s.typing c typed).lines = s.lines ++ [line.dropLast] := by
    change typed.lines.map List.dropLast = _
    rw [lines,List.map_append]
    rfl
  have still : (s.typing c typed).reader.phase = s.reader.phase := rfl
  have offered (before : Offered t s) (roomy : Roomy 0 s.reader.phase) : Offered t (s.typing c typed) := by
    rw [Offered,if_neg open_] at before
    have done : ((s.typing c typed).own t).state = .TERMINAL_DONE_READ := state
    rw [Offered,if_pos done]
    refine ⟨?_,line.dropLast,by rw [all,← before]; rfl⟩
    have empty : ((s.typing c typed).own t).input.input_pointer = 0 := pointer
    rw [empty]
    exact roomy
  unfold Progress at progress ⊢
  rw [still]
  cases phase : s.reader.phase with
  | note m =>
    rw [phase] at progress offered
    exact ⟨progress.1,progress.2.1,offered progress.2.2 (show (0 : Int) < 127 by decide)⟩
  | wait m o =>
    rw [phase] at progress offered
    obtain ⟨empty,asked,low,before⟩ := progress
    exact ⟨empty,asked,low,offered before ⟨by decide,by omega⟩⟩
  | poll m o =>
    rw [phase] at progress offered
    obtain ⟨empty,asked,low,before⟩ := progress
    exact ⟨empty,asked,low,offered before (show (0 : Int) < 127 by decide)⟩
  | start | echo | mark m | room m o | line | copy i j | done r =>
    rw [phase] at waiting
    cases waiting

theorem served_backspace (served : Served t s) :
    Served t (s.typing (terminal_backspace s.reader.console)
      (s.reader.typed.event t s.reader.console .backspace)) := by
  have displayed := served.displayed
  have editing := (follows_backspace served.editing).1
  rw [if_pos displayed] at editing
  have event : s.reader.typed.event t s.reader.console .backspace = s.reader.typed.backspace := if_pos displayed
  rw [event]
  refine ⟨(keeps_index_backspace _).trans displayed,editing,served.asked,?_⟩
  refine progress_typing rfl (backspace_state _ _) ?_ served.progress
  intro _ roomy
  refine roomy.less ?_
  have before := served.editing.pending.1
  have after := editing.pending.1
  rw [Typed.backspace,List.length_dropLast] at after
  omega

theorem served_key {pName : Nat → Byte} {ch : Byte} (served : Served t s) (inTime : InTime t s (.key pName ch)) :
    Served t (s.typing (terminal_add_to_buffer pName ch s.reader.console)
      (s.reader.typed.event t s.reader.console (.key pName ch))) := by
  have displayed := served.displayed
  have editing := (follows_key pName ch served.editing).1
  rw [if_pos displayed] at editing
  have event : s.reader.typed.event t s.reader.console (.key pName ch) = s.reader.typed.key ch := if_pos displayed
  have state := key_state pName ch displayed
  rw [event]
  refine ⟨(keeps_index_add_to_buffer _ _ _).trans displayed,editing,served.asked,?_⟩
  have before := served.editing.pending.1
  have after := editing.pending.1
  by_cases room : (s.own t).input.input_pointer < 127
  · obtain ⟨newline,other⟩ := inTime room
    by_cases ends : ch = NEWLINE
    · obtain ⟨waiting,open_⟩ := newline ends
      rw [if_pos ⟨room,ends⟩] at state
      have key : s.reader.typed.key ch = ⟨s.reader.typed.lines ++ [s.reader.typed.pending ++ [ch]],[]⟩ := by
        rw [Typed.key,if_neg (by omega),if_pos ends]
      rw [key] at after ⊢
      exact progress_newline waiting open_ rfl state after served.progress
    · rw [if_neg (fun taken => ends taken.2)] at state
      have key : s.reader.typed.key ch = ⟨s.reader.typed.lines,s.reader.typed.pending ++ [ch]⟩ := by
        rw [Typed.key,if_neg (by omega),if_neg ends]
      rw [key] at after ⊢
      refine progress_typing rfl state ?_ served.progress
      intro done roomy
      rw [List.length_append,List.length_singleton] at after
      exact (other ends done).less (by omega)
  · have key : s.reader.typed.key ch = s.reader.typed := by rw [Typed.key,if_pos (by omega)]
    rw [if_neg (fun taken => room taken.1)] at state
    rw [key] at after ⊢
    refine progress_typing rfl state ?_ served.progress
    intro _ roomy
    exact roomy.less (by omega)

/-- The session with the reader in another phase. -/
def Session.at (s : Session) (phase : Phase) : Session := { s with reader := s.reader.at phase }

theorem Offered.at {phase : Phase} (offered : Offered t s)
    (roomy : (s.own t).state = .TERMINAL_DONE_READ → Roomy (s.own t).input.input_pointer s.reader.phase →
      Roomy (s.own t).input.input_pointer phase) : Offered t (s.at phase) := by
  unfold Offered at offered ⊢
  have same : (s.at phase).own t = s.own t := rfl
  rw [same]
  by_cases done : (s.own t).state = .TERMINAL_DONE_READ
  · rw [if_pos done] at offered ⊢
    exact ⟨roomy done offered.1,offered.2⟩
  · rw [if_neg done] at offered ⊢
    exact offered

/-- The line that is on its way, as the driver has it. -/
theorem served_line {text : List Byte} (served : Served t s) (flying : s.lines = s.received ++ [text]) :
    (s.own t).previous_input.input_pointer = text.length + 1 ∧ text.length ≤ 126 ∧
      ∀ i (inside : i < text.length), (s.own t).previous_input.line i = text[i] := by
  have last : s.lines.getLast? = some text := by rw [flying,List.getLast?_concat]
  rw [Session.lines,List.getLast?_map,Option.map_eq_some_iff] at last
  obtain ⟨whole,completed,rfl⟩ := last
  obtain ⟨⟨pointer,chars⟩,some_,short⟩ := served.editing.previous whole completed
  have length : whole.dropLast.length = whole.length - 1 := List.length_dropLast
  refine ⟨by omega,by omega,?_⟩
  intro i inside
  rw [chars i (by omega),List.getElem_dropLast]

/-- One byte more of it. -/
theorem copied_next {line : List Byte} {j : Int} (served : Served t s) (flying : s.lines = s.received ++ [line])
    (low : 0 ≤ j) (goes : j < line.length) (copied : s.reader.output = line.take j.toNat) :
    s.reader.output ++ [(s.reader.console.terminal_list s.reader.console.current_terminal_index).previous_input.line j] =
      line.take (j + 1).toNat := by
  obtain ⟨-,-,chars⟩ := served_line served flying
  have inside : j.toNat < line.length := by omega
  have next := chars j.toNat inside
  rw [Int.toNat_of_nonneg low] at next
  have count : (j + 1).toNat = j.toNat + 1 := by omega
  rw [count,List.take_succ_eq_append_getElem inside,← next,← copied,served.displayed]
  rfl

/-- A step of the reader that only moves on. -/
theorem Served.at {phase : Phase} (served : Served t s) (busy : finished s.reader.phase = false)
    (progress : Progress t (s.at phase)) : Served t (s.at phase) :=
  ⟨served.displayed,served.editing,fun _ => served.asked busy,progress⟩

theorem served_reader {r : Reader} (served : Served t s) (inTime : InTime t s .reader)
    (taken : reader_step t s.nbytes s.reader = some r) :
    Served t { s with reader := r, received := if finished r.phase then s.received ++ [r.output] else s.received } := by
  have progress := served.progress
  have displayed := served.displayed
  have editing := served.editing
  have asked := served.asked
  rw [Progress] at progress
  cases TerminalRead.reader_step_cases taken with
  | start phase =>
    rw [phase] at progress asked
    exact ⟨displayed,editing.of_sameLines (keepsText_take_offset _ t).lines,asked,progress⟩
  | nothing phase none_asked =>
    rw [phase] at asked
    have positive := asked rfl
    omega
  | echo phase positive =>
    rw [phase] at progress asked
    refine ⟨(keeps_index_echo_pending t _).trans displayed,editing.of_sameLines (keepsText_echo_pending _ t t).lines,
      asked,progress.1,?_,progress.2⟩
    rw [BUFFER_SIZE]
    split <;> omega
  | mark phase =>
    rw [phase] at progress asked
    have marked : ((set_state t .TERMINAL_READ s.reader.console).terminal_list t).state = .TERMINAL_READ := by
      rw [set_state,setTerminal_same]
    refine ⟨displayed,TerminalRead.editing_set_state t _ editing,asked,progress.1,progress.2.1,?_⟩
    rw [Offered,if_neg]
    · exact progress.2.2
    · intro done
      cases marked.symm.trans done
  | @note m phase =>
    rw [phase] at progress
    obtain ⟨empty,positive,offered⟩ := progress
    have pointer : (0 : Int) ≤ (s.own t).input.input_pointer := by
      rw [editing.pending.1]
      omega
    refine served.at (phase ▸ rfl) ⟨empty,positive,pointer,offered.at ?_⟩
    rw [phase]
    intro _ roomy
    exact ⟨roomy,show (s.own t).input.input_pointer - m < (s.own t).input.input_pointer by omega⟩
  | wait phase =>
    rw [phase] at progress
    obtain ⟨empty,positive,low,offered⟩ := progress
    refine served.at (phase ▸ rfl) ⟨empty,positive,low,offered.at ?_⟩
    rw [phase]
    exact fun _ roomy => roomy.1
  | count phase ends => exact absurd (inTime _ _ phase) ends
  | poll phase done =>
    rw [phase] at progress
    obtain ⟨empty,positive,low,offered⟩ := progress
    refine served.at (phase ▸ rfl) ⟨empty,done,offered.at ?_⟩
    rw [phase]
    exact fun _ roomy => roomy
  | again phase typing =>
    rw [phase] at progress
    obtain ⟨empty,positive,low,offered⟩ := progress
    exact served.at (phase ▸ rfl) ⟨empty,positive,low,offered.at fun now => absurd now typing⟩
  | room phase =>
    rw [phase] at progress
    obtain ⟨empty,done,offered⟩ := progress
    rw [Offered,if_pos done,phase] at offered
    exact served.at (phase ▸ rfl) ⟨empty,offered.2⟩
  | crowded phase full =>
    rw [phase] at progress
    obtain ⟨-,done,offered⟩ := progress
    rw [Offered,if_pos done,phase] at offered
    exact absurd offered.1 full
  | line phase =>
    rw [phase] at progress
    obtain ⟨empty,line,flying⟩ := progress
    obtain ⟨pointer,short,-⟩ := served_line served flying
    refine served.at (phase ▸ rfl) ⟨line,flying,?_,le_rfl,by omega,empty⟩
    rw [displayed]
    change (s.own t).previous_input.input_pointer % 256 = _
    omega
  | @byte i j phase goes =>
    rw [phase] at progress asked
    obtain ⟨line,flying,size,low,high,copied⟩ := progress
    exact ⟨displayed,editing,asked,line,flying,size,by omega,by omega,
      copied_next served flying low (by omega) copied⟩
  | last phase ends =>
    rw [phase] at progress
    obtain ⟨line,flying,size,low,high,copied⟩ := progress
    refine ⟨displayed,TerminalRead.editing_set_state t _ editing,(fun unfinished => by cases unfinished),?_⟩
    have whole : s.reader.output = line := by rw [copied,List.take_of_length_le (by omega)]
    change s.received ++ [s.reader.output] = s.lines
    rw [whole,flying]

theorem served_step {act : Act} (served : Served t s) (inTime : InTime t s act) (taken : step t s act = some s') :
    Served t s' := by
  cases act with
  | call n =>
    rw [step] at taken
    by_cases free : finished s.reader.phase ∧ 1 ≤ n
    · rw [if_pos free] at taken
      cases taken
      have progress := served.progress
      rw [Progress] at progress
      refine ⟨served.displayed,served.editing,fun _ => free.2,rfl,?_⟩
      cases phase : s.reader.phase with
      | done r =>
        rw [phase] at progress
        exact progress
      | start | echo | mark m | note m | wait m o | poll m o | room m o | line | copy i j =>
        rw [phase] at free
        cases free.1
    · rw [if_neg free] at taken
      cases taken
  | reader =>
    obtain ⟨r,moved,rfl⟩ := Option.map_eq_some_iff.mp taken
    exact served_reader served inTime moved
  | key pName ch =>
    cases taken
    exact served_key served inTime
  | backspace =>
    cases taken
    exact served_backspace served

/-! ### A line on its way arrives -/

def waiting_for : Phase → Bool
  | .wait _ _ => true
  | _ => false

/-- The reader alone ends with the line. -/
def Arrives (t : Int) (s : Session) (line : List Byte) : Prop :=
  ∃ n s', run (step t) s (List.replicate n .reader) = some s' ∧ s'.received = s.received ++ [line]

theorem Arrives.step {line : List Byte} (taken : step t s .reader = some s') (same : s'.received = s.received)
    (arrives : Arrives t s' line) : Arrives t s line := by
  obtain ⟨n,s'',reached,received⟩ := arrives
  refine ⟨n + 1,s'',?_,by rw [received,same]⟩
  rw [List.replicate_succ]
  exact run_cons_eq_some.mpr ⟨s',taken,reached⟩

/-- Only the condition of the wait loop can be too late. -/
theorem inTime_reader (other : waiting_for s.reader.phase = false) : InTime t s .reader := by
  intro max_chars old phase
  rw [phase] at other
  cases other

theorem arrives_copy {line : List Byte} (left : Nat) {j : Int} (served : Served t s)
    (flying : s.lines = s.received ++ [line]) (phase : s.reader.phase = .copy (line.length + 1) j)
    (count : j + left = line.length) : Arrives t s line := by
  induction left generalizing s j with
  | zero =>
    have progress := served.progress
    rw [Progress,phase] at progress
    obtain ⟨line',flying',-,low,-,copied⟩ := progress
    have same : line' = line := by simpa using flying'.symm.trans flying
    have whole : s.reader.output = line := by rw [copied,same,List.take_of_length_le (by omega)]
    obtain ⟨s',taken,received⟩ : ∃ s', step t s .reader = some s' ∧ s'.received = s.received ++ [s.reader.output] := by
      rw [step,reader_step,phase]
      dsimp only
      rw [if_neg (by omega)]
      exact ⟨_,rfl,rfl⟩
    exact ⟨1,s',run_cons_eq_some.mpr ⟨s',taken,rfl⟩,by rw [received,whole]⟩
  | succ left ih =>
    obtain ⟨s',taken,phase',received,lines⟩ : ∃ s', step t s .reader = some s' ∧
        s'.reader.phase = .copy (line.length + 1) (j + 1) ∧ s'.received = s.received ∧ s'.lines = s.lines := by
      rw [step,reader_step,phase]
      dsimp only
      rw [if_pos (by omega)]
      exact ⟨_,rfl,rfl,rfl,rfl⟩
    have served' := served_step served (inTime_reader (by rw [phase]; rfl)) taken
    exact (ih served' (by rw [lines,received,flying]) phase' (by omega)).step taken received

/-- A step that only moves the reader on. -/
theorem arrives_moved {line : List Byte} {phase : Phase} (served : Served t s) (flying : s.lines = s.received ++ [line])
    (moved : reader_step t s.nbytes s.reader = some (s.reader.at phase)) (unfinished : finished phase = false)
    (inTime : InTime t s .reader)
    (next : Served t (s.at phase) → (s.at phase).lines = (s.at phase).received ++ [line] → Arrives t (s.at phase) line) :
    Arrives t s line := by
  have taken : step t s .reader = some (s.at phase) := by
    rw [step,moved,Option.map_some]
    have still : finished (s.reader.at phase).phase = false := unfinished
    rw [still,if_neg (by decide)]
    rfl
  exact (next (served_step served inTime taken) flying).step taken rfl

theorem arrives_line {line : List Byte} (served : Served t s) (flying : s.lines = s.received ++ [line])
    (phase : s.reader.phase = .line) : Arrives t s line := by
  obtain ⟨pointer,short,-⟩ := served_line served flying
  have moved : reader_step t s.nbytes s.reader = some (s.reader.at (.copy (line.length + 1) 0)) := by
    rw [reader_step,phase]
    dsimp only
    rw [served.displayed]
    change some (s.reader.at (.copy ((s.own t).previous_input.input_pointer % 256) 0)) = _
    rw [pointer,Int.emod_eq_of_lt (by omega) (by omega)]
  refine arrives_moved served flying moved rfl (inTime_reader (by rw [phase]; rfl)) ?_
  intro served' flying'
  exact arrives_copy line.length served' flying' rfl (by omega)

theorem arrives_room {line : List Byte} {max_chars old : Int} (served : Served t s)
    (flying : s.lines = s.received ++ [line]) (phase : s.reader.phase = .room max_chars old)
    (room : (s.own t).input.input_pointer < 127) : Arrives t s line := by
  have moved : reader_step t s.nbytes s.reader = some (s.reader.at .line) := by
    rw [reader_step,phase]
    exact congrArg (fun phase => some (s.reader.at phase)) (if_pos room)
  refine arrives_moved served flying moved rfl (inTime_reader (by rw [phase]; rfl)) ?_
  intro served' flying'
  exact arrives_line served' flying' rfl

theorem arrives_poll {line : List Byte} {max_chars old : Int} (served : Served t s)
    (flying : s.lines = s.received ++ [line]) (phase : s.reader.phase = .poll max_chars old)
    (done : (s.own t).state = .TERMINAL_DONE_READ) (room : (s.own t).input.input_pointer < 127) : Arrives t s line := by
  have moved : reader_step t s.nbytes s.reader = some (s.reader.at (.room max_chars old)) := by
    rw [reader_step,phase]
    exact congrArg (fun phase => some (s.reader.at phase)) (if_pos done)
  refine arrives_moved served flying moved rfl (inTime_reader (by rw [phase]; rfl)) ?_
  intro served' flying'
  exact arrives_room served' flying' rfl room

theorem arrives_wait {line : List Byte} {max_chars old : Int} (served : Served t s)
    (flying : s.lines = s.received ++ [line]) (phase : s.reader.phase = .wait max_chars old)
    (done : (s.own t).state = .TERMINAL_DONE_READ) (room : (s.own t).input.input_pointer < 127)
    (goes : (s.own t).input.input_pointer - max_chars < old) : Arrives t s line := by
  have moved : reader_step t s.nbytes s.reader = some (s.reader.at (.poll max_chars old)) := by
    rw [reader_step,phase]
    exact congrArg (fun phase => some (s.reader.at phase)) (if_pos goes)
  have inTime : InTime t s .reader := by
    intro m o phase'
    cases phase.symm.trans phase'
    exact goes
  refine arrives_moved served flying moved rfl inTime ?_
  intro served' flying'
  exact arrives_poll served' flying' rfl done room

theorem arrives_note {line : List Byte} {max_chars : Int} (served : Served t s)
    (flying : s.lines = s.received ++ [line]) (phase : s.reader.phase = .note max_chars) (asked : 1 ≤ max_chars)
    (done : (s.own t).state = .TERMINAL_DONE_READ) (room : (s.own t).input.input_pointer < 127) : Arrives t s line := by
  have moved : reader_step t s.nbytes s.reader =
      some (s.reader.at (.wait max_chars (s.own t).input.input_pointer)) := by
    rw [reader_step,phase]
    rfl
  refine arrives_moved served flying moved rfl (inTime_reader (by rw [phase]; rfl)) ?_
  intro served' flying'
  exact arrives_wait served' flying' rfl done room
    (show (s.own t).input.input_pointer - max_chars < (s.own t).input.input_pointer by omega)

/-- A line on its way is in the slot with room for the reader to take it. -/
theorem offered_line {line : List Byte} (offered : Offered t s) (flying : s.lines = s.received ++ [line]) :
    (s.own t).state = .TERMINAL_DONE_READ ∧ Roomy (s.own t).input.input_pointer s.reader.phase := by
  rw [Offered] at offered
  split at offered
  · rename_i done
    exact ⟨done,offered.1⟩
  · rw [← offered] at flying
    simpa using congrArg List.length flying

theorem arrives {line : List Byte} (served : Served t s) (flying : s.lines = s.received ++ [line]) : Arrives t s line := by
  have unread (all : s.received = s.lines) : Arrives t s line := by
    rw [← all] at flying
    simpa using congrArg List.length flying
  have progress := served.progress
  rw [Progress] at progress
  cases phase : s.reader.phase with
  | done r =>
    rw [phase] at progress
    exact unread progress
  | start | echo =>
    rw [phase] at progress
    exact unread progress.2
  | mark m =>
    rw [phase] at progress
    exact unread progress.2.2
  | note m =>
    rw [phase] at progress
    obtain ⟨done,roomy⟩ := offered_line progress.2.2 flying
    rw [phase] at roomy
    exact arrives_note served flying phase progress.2.1 done roomy
  | wait m o =>
    rw [phase] at progress
    obtain ⟨done,roomy⟩ := offered_line progress.2.2.2 flying
    rw [phase] at roomy
    exact arrives_wait served flying phase done roomy.1 roomy.2
  | poll m o =>
    rw [phase] at progress
    obtain ⟨done,roomy⟩ := offered_line progress.2.2.2 flying
    rw [phase] at roomy
    exact arrives_poll served flying phase done roomy
  | room m o =>
    rw [phase] at progress
    obtain ⟨done,roomy⟩ := offered_line progress.2.2 flying
    rw [phase] at roomy
    exact arrives_room served flying phase roomy
  | line => exact arrives_line served flying phase
  | copy i j =>
    rw [phase] at progress
    obtain ⟨line',flying',size,low,high,-⟩ := progress
    have same : line' = line := by simpa using flying'.symm.trans flying
    subst same
    obtain ⟨left,count⟩ : ∃ left : Nat, j + left = line'.length := ⟨(line'.length - j).toNat,by omega⟩
    exact arrives_copy left served flying (by rw [phase,size]) count

/-- All lines are received, but for one on its way. -/
theorem lines_of_served (served : Served t s) : s.received = s.lines ∨ ∃ line, s.lines = s.received ++ [line] := by
  have progress := served.progress
  have ofOffered (offered : Offered t s) : s.received = s.lines ∨ ∃ line, s.lines = s.received ++ [line] := by
    rw [Offered] at offered
    split at offered
    · exact .inr offered.2
    · exact .inl offered
  rw [Progress] at progress
  cases phase : s.reader.phase with
  | done r => rw [phase] at progress; exact .inl progress
  | start | echo => rw [phase] at progress; exact .inl progress.2
  | mark m => rw [phase] at progress; exact .inl progress.2.2
  | note m | room m o => rw [phase] at progress; exact ofOffered progress.2.2
  | wait m o | poll m o => rw [phase] at progress; exact ofOffered progress.2.2.2
  | line => rw [phase] at progress; exact .inr progress.2
  | copy i j =>
    rw [phase] at progress
    obtain ⟨line,flying,-⟩ := progress
    exact .inr ⟨line,flying⟩

theorem noneLost_of_served (served : Served t s) : NoneLost t s := by
  rcases lines_of_served served with all | ⟨line,flying⟩
  · exact ⟨[],s,fun act listed => by (cases listed),rfl,all⟩
  · obtain ⟨n,s',reached,received⟩ := arrives served flying
    refine ⟨_,s',?_,reached,by rw [received,flying]⟩
    intro act listed
    rw [List.eq_of_mem_replicate listed]
    rfl

/-- Whatever is typed and read on the displayed terminal: while every step is in
    time, the reads are given each completed line once and in order. -/
theorem lines_delivered {pending : List Byte} (displayed : c.current_terminal_index = t)
    (typing : Editing (c.terminal_list t) ⟨[],pending⟩) (acts : List Act)
    (inTime : StepsMeet (step t) (InTime t) (begin_session c pending) acts) :
    StatesMeet (step t) (NoneLost t) (begin_session c pending) acts := by
  have start : Served t (begin_session c pending) := ⟨displayed,typing,fun unfinished => by (cases unfinished),rfl⟩
  exact statesMeet_mono (fun _ => noneLost_of_served)
    (statesMeet_of_stepsMeet (fun _ _ _ served inTime taken => served_step served inTime taken) start inTime)

/-- A line on terminal 0 while a read waits for it. -/
def one_line : List Act :=
  [.call 5,.reader,.reader,.reader,.reader,.key (fun _ => 0) 97,.key (fun _ => 0) 10,.reader,.reader]

theorem lines_delivered_one_line :
    StatesMeet (step 0) (NoneLost 0) (begin_session (terminal_open LogicalScreen.blank_console) []) one_line := by
  have typing : Editing ((terminal_open LogicalScreen.blank_console).terminal_list 0) ⟨[],[]⟩ :=
    ⟨⟨rfl,fun i inside => by cases inside⟩,Nat.zero_le _,fun line last => by cases last⟩
  refine lines_delivered rfl typing _ ?_
  refine (stepsMeet_cons rfl).mpr ⟨trivial,?_⟩
  refine (stepsMeet_cons rfl).mpr ⟨(fun _ _ phase => by cases phase),?_⟩
  refine (stepsMeet_cons rfl).mpr ⟨(fun _ _ phase => by cases phase),?_⟩
  refine (stepsMeet_cons rfl).mpr ⟨(fun _ _ phase => by cases phase),?_⟩
  refine (stepsMeet_cons rfl).mpr ⟨(fun _ _ phase => by cases phase),?_⟩
  refine (stepsMeet_cons rfl).mpr ⟨fun _ => ⟨fun newline => absurd newline (by decide),fun _ done => by (cases done)⟩,?_⟩
  refine (stepsMeet_cons rfl).mpr ⟨fun _ => ⟨fun _ => ⟨rfl,fun done => by (cases done)⟩,fun other => absurd rfl other⟩,?_⟩
  refine (stepsMeet_cons rfl).mpr ⟨(fun _ _ phase => by cases phase; decide),?_⟩
  refine (stepsMeet_cons rfl).mpr ⟨(fun _ _ phase => by cases phase),?_⟩
  trivial

theorem typed_kept {r : Reader} (taken : reader_step t s.nbytes s.reader = some r) : r.typed = s.reader.typed := by
  cases TerminalRead.reader_step_cases taken <;> rfl

/-- Reads take nothing back. -/
theorem received_prefix {acts : List Act} (reads : ∀ act ∈ acts, act.reads = true)
    (reached : run (step t) s acts = some s') : s.received <+: s'.received ∧ s'.lines = s.lines := by
  induction acts generalizing s with
  | nil =>
    cases reached
    exact ⟨List.prefix_rfl,rfl⟩
  | cons act acts ih =>
    obtain ⟨s₁,taken,rest⟩ := run_cons_eq_some.mp reached
    obtain ⟨more,lines⟩ := ih (fun later listed => reads later (List.mem_cons_of_mem _ listed)) rest
    have first : s.received <+: s₁.received ∧ s₁.lines = s.lines := by
      cases act with
      | call n =>
        rw [step] at taken
        split at taken
        · cases taken
          exact ⟨List.prefix_rfl,rfl⟩
        · cases taken
      | reader =>
        obtain ⟨r,moved,rfl⟩ := Option.map_eq_some_iff.mp taken
        refine ⟨?_,congrArg (fun typed : Typed => typed.lines.map List.dropLast) (typed_kept moved)⟩
        dsimp only
        split
        · exact List.prefix_append _ _
        · exact List.prefix_rfl
      | key pName ch => cases reads _ List.mem_cons_self
      | backspace => cases reads _ List.mem_cons_self
    exact ⟨first.1.trans more,lines.trans first.2⟩

/-- Two lines between two polls: the read is given the second. -/
theorem first_line_lost : (terminal_open LogicalScreen.blank_console).current_terminal_index = 0 ∧
    ¬ StatesMeet (step 0) (NoneLost 0) (begin_session (terminal_open LogicalScreen.blank_console) [])
      [.call 128,.reader,.reader,.reader,.reader,.key (fun _ => 0) 97,.key (fun _ => 0) 10,.key (fun _ => 0) 98,
        .key (fun _ => 0) 10,.reader,.reader,.reader,.reader,.reader,.reader] := by
  refine ⟨rfl,?_⟩
  intro none_lost
  obtain ⟨s,reached,received,lines⟩ : ∃ s, run (step 0) (begin_session (terminal_open LogicalScreen.blank_console) [])
      [.call 128,.reader,.reader,.reader,.reader,.key (fun _ => 0) 97,.key (fun _ => 0) 10,.key (fun _ => 0) 98,
        .key (fun _ => 0) 10,.reader,.reader,.reader,.reader,.reader,.reader] = some s ∧
      s.received = [[98]] ∧ s.lines = [[97],[98]] := ⟨_,rfl,by decide,by decide⟩
  obtain ⟨acts,s',reads,later,all⟩ := statesMeet_last none_lost reached
  obtain ⟨more,-⟩ := received_prefix reads later
  rw [all,received,lines] at more
  exact absurd more (by decide)

end Mp3Kernel.Handshake

import Mp3Kernel.Lib.Runs
import Mp3Kernel.Terminal.Console

/-!
What the three terminals show. The logical screen of a terminal is video memory
while it is displayed and its own buffer otherwise. Three independent pages,
each with its own cursor, are an abstract model of the driver: the two printing
paths of `terminal_write` and the copies of `set_current_terminal` refine it for
every order of writes and display switches.
-/
namespace Mp3Kernel.LogicalScreen
open Mp3Kernel.Memory (Byte)
open Mp3Kernel.Screen Mp3Kernel.Tty Mp3Kernel.Runs

/-! ### A page that is always printed to through its own cursor -/

structure Page where
  surface : Surface
  chars_printed : Int

def Page.Same (p q : Page) : Prop := p.surface.Same q.surface ∧ p.chars_printed = q.chars_printed

theorem Page.Same.refl (p : Page) : p.Same p := ⟨.refl _,rfl⟩
theorem Page.Same.symm {p q : Page} (same : p.Same q) : q.Same p := ⟨same.1.symm,same.2.symm⟩
theorem Page.Same.trans {p q r : Page} (first : p.Same q) (second : q.Same r) : p.Same r :=
  ⟨first.1.trans second.1,first.2.trans second.2⟩

def Page.print (ch : Byte) (p : Page) : Page := { p with surface := put_char ch p.surface }
def Page.count (p : Page) : Page := { p with chars_printed := p.chars_printed + 1 }
def Page.restart (p : Page) : Page := { p with chars_printed := 0 }

/-- A line break is due after more than a row of characters; a 0 prints nothing
    unless one is. -/
def Page.write_char (p : Page) (ch : Byte) : Page :=
  if p.chars_printed > 80 then ((p.print NEWLINE).restart.print ch).count
  else if ch = NEWLINE then (p.restart.print ch).count
  else if ch = 0 then p
  else (p.print ch).count

def Page.write (p : Page) (s : List Byte) : Page := s.foldl Page.write_char p

theorem same_print {p q : Page} (ch : Byte) (same : p.Same q) : (p.print ch).Same (q.print ch) :=
  ⟨same_put_char ch same.1,same.2⟩
theorem same_count {p q : Page} (same : p.Same q) : p.count.Same q.count :=
  ⟨same.1,congrArg (· + 1) same.2⟩
theorem same_restart {p q : Page} (same : p.Same q) : p.restart.Same q.restart := ⟨same.1,rfl⟩

theorem same_page_write_char {p q : Page} (ch : Byte) (same : p.Same q) :
    (p.write_char ch).Same (q.write_char ch) := by
  simp only [Page.write_char,same.2]
  split
  · exact same_count (same_print ch (same_restart (same_print NEWLINE same)))
  · split
    · exact same_count (same_print ch (same_restart same))
    · split
      · exact same
      · exact same_count (same_print ch same)

theorem same_page_write {p q : Page} (s : List Byte) (same : p.Same q) : (p.write s).Same (q.write s) := by
  induction s generalizing p q with
  | nil => exact same
  | cons ch s ih => exact ih (same_page_write_char ch same)

theorem onScreen_page_write_char {p : Page} (ch : Byte) (on : p.surface.OnScreen) :
    (p.write_char ch).surface.OnScreen := by
  simp only [Page.write_char]
  split
  · exact onScreen_put_char ch (onScreen_put_char NEWLINE on)
  · split
    · exact onScreen_put_char ch on
    · split
      · exact on
      · exact onScreen_put_char ch on

/-! ### The pages that a console shows -/

/-- Video memory for the displayed terminal, else the terminal's own buffer,
    with the terminal's cursor. -/
def logical (c : Console) (t : Int) : Surface :=
  { (c.terminal_list t).own with
    cells := if t = c.current_terminal_index then c.video_mem else (c.terminal_list t).video_buffer }

def page (c : Console) (t : Int) : Page := ⟨logical c t,(c.terminal_list t).chars_printed⟩

/-- The fields of a terminal that printing leaves alone. -/
def SameRest (t u : Terminal) : Prop :=
  { t with screen_x := u.screen_x, screen_y := u.screen_y, chars_printed := u.chars_printed,
           video_buffer := u.video_buffer } = u

/-- Nothing but the logical screen, the cursor and the count of terminal `e`
    differs between two consoles. -/
structure OnlyPrints (e : Int) (c c' : Console) : Prop where
  index : c'.current_terminal_index = c.current_terminal_index
  others : ∀ t, t ≠ e → c'.terminal_list t = c.terminal_list t ∧ logical c' t = logical c t
  rest : SameRest (c.terminal_list e) (c'.terminal_list e)

theorem SameRest.refl (t : Terminal) : SameRest t t := rfl
theorem SameRest.trans {t u v : Terminal} (first : SameRest t u) (second : SameRest u v) : SameRest t v := by
  unfold SameRest at *
  rw [← second,← first]
theorem OnlyPrints.refl (e : Int) (c : Console) : OnlyPrints e c c :=
  ⟨rfl,fun _ _ => ⟨rfl,rfl⟩,.refl _⟩
theorem OnlyPrints.trans {e : Int} {c c' c'' : Console} (first : OnlyPrints e c c')
    (second : OnlyPrints e c' c'') : OnlyPrints e c c'' := by
  refine ⟨second.index.trans first.index,?_,first.rest.trans second.rest⟩
  intro t other
  obtain ⟨t1,l1⟩ := first.others t other
  obtain ⟨t2,l2⟩ := second.others t other
  exact ⟨t2.trans t1,l2.trans l1⟩

theorem set_cursor_pos_onScreen {s : Surface} (c : Console) (on : s.OnScreen) :
    set_cursor_pos s.screen_x s.screen_y c = { c with screen_x := s.screen_x, screen_y := s.screen_y } := by
  obtain ⟨x0,x1,y0,y1⟩ := on
  have x : 0 ≤ s.screen_x ∧ s.screen_x < NUM_COLS := ⟨x0,x1⟩
  have y : 0 ≤ s.screen_y ∧ s.screen_y < NUM_ROWS := ⟨y0,y1⟩
  simp only [set_cursor_pos,if_pos x,if_pos y]

/-- Both printing paths put the character on the logical screen. -/
theorem logical_print_char {c : Console} {e : Int} (ch : Byte) (on : (logical c e).OnScreen) :
    logical (print_char e ch c) e = put_char ch (logical c e) := by
  by_cases displayed : e = c.current_terminal_index
  · have placed := set_cursor_pos_onScreen c on
    simp only [logical,Terminal.own] at placed
    simp only [print_char,if_pos displayed,placed]
    subst displayed
    simp only [get_cursor_pos,putc,logical,Terminal.own,Console.video,Console.setTerminal,↓reduceIte]
  · simp only [print_char,if_neg displayed,logical,vputc,setTerminal_same,setTerminal_index,Terminal.own]

theorem onlyPrints_print_char (c : Console) (e : Int) (ch : Byte) : OnlyPrints e c (print_char e ch c) := by
  by_cases displayed : e = c.current_terminal_index
  · simp only [print_char,if_pos displayed]
    refine ⟨rfl,?_,?_⟩
    · intro t other
      have hidden : t ≠ c.current_terminal_index := displayed ▸ other
      simp [get_cursor_pos,putc,set_cursor_pos,Console.setTerminal,logical,other,hidden]
    · simp [SameRest,get_cursor_pos,putc,set_cursor_pos]
  · simp only [print_char,if_neg displayed]
    refine ⟨rfl,?_,?_⟩
    · intro t other
      simp [Console.setTerminal,logical,other]
    · simp [SameRest,vputc]

theorem page_print_char {c : Console} {e : Int} (ch : Byte) (on : (logical c e).OnScreen) :
    page (print_char e ch c) e = (page c e).print ch := by
  have counted : ((print_char e ch c).terminal_list e).chars_printed = (c.terminal_list e).chars_printed := by
    by_cases displayed : e = c.current_terminal_index
    · simp [print_char,displayed,get_cursor_pos,putc,set_cursor_pos]
    · simp [print_char,displayed,vputc]
  simp only [page,Page.print,logical_print_char ch on,counted]

theorem page_set_chars_printed (c : Console) (e n : Int) :
    page (set_chars_printed e n c) e = { page c e with chars_printed := n } := by
  simp [page,logical,set_chars_printed,Terminal.own]

theorem onlyPrints_set_chars_printed (c : Console) (e n : Int) : OnlyPrints e c (set_chars_printed e n c) := by
  refine ⟨rfl,?_,?_⟩
  · intro t other
    simp [set_chars_printed,logical,Console.setTerminal,other]
  · simp [SameRest,set_chars_printed]

theorem page_print_counted {c : Console} {e : Int} (ch : Byte) (on : (logical c e).OnScreen) :
    page (print_counted e ch c) e = ((page c e).print ch).count := by
  have printed := page_print_char ch on
  have count := congrArg Page.chars_printed printed
  simp only [print_counted,page_set_chars_printed,printed]
  simp only [page,Page.print] at count
  simp only [count,Page.count,Page.print,page]

theorem onlyPrints_print_counted (c : Console) (e : Int) (ch : Byte) : OnlyPrints e c (print_counted e ch c) :=
  (onlyPrints_print_char c e ch).trans (onlyPrints_set_chars_printed _ e _)

theorem onlyPrints_write_char (c : Console) (e : Int) (ch : Byte) : OnlyPrints e c (write_char e c ch) := by
  simp only [write_char]
  split
  · exact ((onlyPrints_print_char c e NEWLINE).trans (onlyPrints_set_chars_printed _ e 0)).trans
      (onlyPrints_print_counted _ e ch)
  · split
    · exact (onlyPrints_set_chars_printed c e 0).trans (onlyPrints_print_counted _ e ch)
    · split
      · exact .refl e c
      · exact onlyPrints_print_counted c e ch

/-- One turn of the printing loop is one turn on the page. -/
theorem page_write_char {c : Console} {e : Int} (ch : Byte) (on : (logical c e).OnScreen) :
    page (write_char e c ch) e = (page c e).write_char ch := by
  simp only [write_char,Page.write_char,NUM_COLS]
  have due : (page c e).chars_printed = (c.terminal_list e).chars_printed := rfl
  rw [due]
  by_cases full : (c.terminal_list e).chars_printed > 80
  · have restarted : page (set_chars_printed e 0 (print_char e NEWLINE c)) e =
        ((page c e).print NEWLINE).restart := by
      rw [page_set_chars_printed,page_print_char NEWLINE on]; rfl
    have still : (logical (set_chars_printed e 0 (print_char e NEWLINE c)) e).OnScreen := by
      have same := congrArg Page.surface restarted
      change logical _ e = _ at same
      rw [same]
      exact onScreen_put_char NEWLINE on
    rw [if_pos full,if_pos full,page_print_counted ch still,restarted]
  · rw [if_neg full,if_neg full]
    by_cases line : ch = NEWLINE
    · have restarted : page (set_chars_printed e 0 c) e = (page c e).restart := page_set_chars_printed c e 0
      have still : (logical (set_chars_printed e 0 c) e).OnScreen := by
        have same := congrArg Page.surface restarted
        change logical _ e = _ at same
        rw [same]
        exact on
      rw [if_pos line,if_pos line,page_print_counted ch still,restarted]
    · rw [if_neg line,if_neg line]
      by_cases nul : ch = 0
      · rw [if_pos nul,if_pos nul]
      · rw [if_neg nul,if_neg nul,page_print_counted ch on]

theorem onlyPrints_write_loop (e : Int) (s : List Byte) (c : Console) :
    OnlyPrints e c (s.foldl (write_char e) c) := by
  induction s generalizing c with
  | nil => exact .refl e c
  | cons ch s ih => exact (onlyPrints_write_char c e ch).trans (ih _)

/-- The printing loop refines writing on the page. -/
theorem page_write_loop {e : Int} (s : List Byte) {c : Console} (on : (logical c e).OnScreen) :
    page (s.foldl (write_char e) c) e = (page c e).write s ∧ (logical (s.foldl (write_char e) c) e).OnScreen := by
  induction s generalizing c with
  | nil => exact ⟨rfl,on⟩
  | cons ch s ih =>
    have turn := page_write_char ch on
    have still : (logical (write_char e c ch) e).OnScreen := by
      have same := congrArg Page.surface turn
      change logical _ e = _ at same
      rw [same]
      exact onScreen_page_write_char ch on
    obtain ⟨written,last⟩ := ih still
    refine ⟨?_,last⟩
    rw [List.foldl_cons,written,turn]
    rfl

/-- The characters that a call of `terminal_write` prints. -/
def written (buf : Option Buffer) (nbytes : Int) : List Byte :=
  match buf with
  | none => []
  | some buf => bytes_of buf nbytes

theorem terminal_write_eq (e : Int) (buf : Option Buffer) (nbytes : Int) (c : Console) :
    (terminal_write e buf nbytes c).2 = (written buf nbytes).foldl (write_char e) c := by
  cases buf with
  | none => rfl
  | some buf =>
    by_cases none_left : nbytes ≤ 0
    · have empty : nbytes.toNat = 0 := by omega
      simp [terminal_write,written,bytes_of,none_left,empty]
    · simp [terminal_write,written,none_left]

/-! ### Any order of writes and display switches -/

inductive Event where
  /-- `terminal_write` by a task of terminal `e` -/
  | write (e : Int) (buf : Option Buffer) (nbytes : Int)
  | switch (k : Int)

def step (c : Console) : Event → Option Console
  | .write e buf nbytes => if 0 ≤ e ∧ e < 3 then some (terminal_write e buf nbytes c).2 else none
  | .switch k => some (set_current_terminal k c)

/-- All the characters written by tasks of terminal `t`, in order. -/
def printed (t : Int) : List Event → List Byte
  | [] => []
  | .write e buf nbytes :: evs => if e = t then written buf nbytes ++ printed t evs else printed t evs
  | .switch _ :: evs => printed t evs

/-- One of the three terminals is displayed and every cursor is on its screen. -/
structure InRange (c : Console) : Prop where
  index : 0 ≤ c.current_terminal_index ∧ c.current_terminal_index < 3
  cursors : ∀ t, 0 ≤ t → t < 3 → (logical c t).OnScreen

/-- What one event may change: a switch no page at all, a write by terminal `e`
    only what `e` shows. -/
def Isolated (c : Console) : Event → Prop
  | .write e buf nbytes => OnlyPrints e c (terminal_write e buf nbytes c).2
  | .switch k => ∀ t, 0 ≤ t → t < 3 → (page (set_current_terminal k c) t).Same (page c t)

/-- A display switch moves every page between video memory and its buffer
    unchanged. -/
theorem switch_keeps_pages (k : Int) (c : Console) (t : Int) :
    (page (set_current_terminal k c) t).Same (page c t) := by
  by_cases ignored : c.current_terminal_index = k ∨ k < 0 ∨ k > 2
  · simp only [set_current_terminal,if_pos ignored]
    exact .refl _
  · have moved : k ≠ c.current_terminal_index := fun same => ignored (.inl same.symm)
    simp only [set_current_terminal,if_neg ignored]
    by_cases left : t = c.current_terminal_index
    · have hidden : t ≠ k := fun same => moved (same.symm.trans left)
      subst left
      refine ⟨⟨?_,?_,?_⟩,?_⟩
      · intro i low high
        have inside : 0 ≤ i ∧ i < NUM_COLS * NUM_ROWS * 2 := ⟨low,by simp only [NUM_COLS,NUM_ROWS]; omega⟩
        simp [page,logical,hidden,memcpy,inside]
      all_goals simp [page,logical,Terminal.own]
    · refine ⟨⟨?_,?_,?_⟩,?_⟩
      · intro i low high
        have inside : 0 ≤ i ∧ i < NUM_COLS * NUM_ROWS * 2 := ⟨low,by simp only [NUM_COLS,NUM_ROWS]; omega⟩
        by_cases shown : t = k
        · subst shown
          simp [page,logical,left,memcpy,inside]
        · simp [page,logical,left,shown]
      all_goals simp [page,logical,Terminal.own,left]

theorem inRange_step {c c' : Console} {ev : Event} (inRange : InRange c) (taken : step c ev = some c') :
    InRange c' := by
  cases ev with
  | write e buf nbytes =>
    by_cases terminal : 0 ≤ e ∧ e < 3
    · simp only [step,if_pos terminal,Option.some.injEq,terminal_write_eq] at taken
      have only := onlyPrints_write_loop e (written buf nbytes) c
      have last := (page_write_loop (written buf nbytes) (inRange.cursors e terminal.1 terminal.2)).2
      rw [taken] at only last
      refine ⟨only.index ▸ inRange.index,?_⟩
      intro t low high
      by_cases same : t = e
      · exact same ▸ last
      · rw [(only.others t same).2]
        exact inRange.cursors t low high
    · simp [step,if_neg terminal] at taken
  | switch k =>
    cases taken
    refine ⟨?_,?_⟩
    · by_cases ignored : c.current_terminal_index = k ∨ k < 0 ∨ k > 2
      · simp only [set_current_terminal,if_pos ignored]; exact inRange.index
      · simp only [set_current_terminal,if_neg ignored]
        exact ⟨by omega,by omega⟩
    · intro t low high
      obtain ⟨-,x,y⟩ := (switch_keeps_pages k c t).1
      obtain ⟨x0,x1,y0,y1⟩ := inRange.cursors t low high
      change (logical (set_current_terminal k c) t).screen_x = (logical c t).screen_x at x
      change (logical (set_current_terminal k c) t).screen_y = (logical c t).screen_y at y
      exact ⟨x ▸ x0,x ▸ x1,y ▸ y0,y ▸ y1⟩

theorem isolated_step (c : Console) (ev : Event) : Isolated c ev := by
  cases ev with
  | write e buf nbytes =>
    simp only [Isolated,terminal_write_eq]
    exact onlyPrints_write_loop e _ c
  | switch k => exact fun t _ _ => switch_keeps_pages k c t

/-- One event leaves every page as what its own characters made of it. -/
theorem page_step {c c' : Console} {ev : Event} (inRange : InRange c) (taken : step c ev = some c')
    {t : Int} (low : 0 ≤ t) (high : t < 3) : (page c' t).Same ((page c t).write (printed t [ev])) := by
  cases ev with
  | write e buf nbytes =>
    by_cases terminal : 0 ≤ e ∧ e < 3
    · simp only [step,if_pos terminal,Option.some.injEq,terminal_write_eq] at taken
      by_cases same : e = t
      · subst same
        have wrote := (page_write_loop (written buf nbytes) (inRange.cursors e low high)).1
        rw [taken] at wrote
        simp only [printed,↓reduceIte,List.append_nil,wrote]
        exact .refl _
      · have only := onlyPrints_write_loop e (written buf nbytes) c
        rw [taken] at only
        obtain ⟨terminalSame,screenSame⟩ := only.others t (Ne.symm same)
        simp only [printed,same,↓reduceIte,Page.write,List.foldl_nil,page,terminalSame,screenSame]
        exact .refl _
    · simp [step,if_neg terminal] at taken
  | switch k =>
    cases taken
    exact switch_keeps_pages k c t

theorem printed_cons (t : Int) (ev : Event) (evs : List Event) :
    printed t (ev :: evs) = printed t [ev] ++ printed t evs := by
  cases ev with
  | write e buf nbytes => by_cases same : e = t <;> simp [printed,same]
  | switch k => simp [printed]

/-- The run refines three independent pages: each is what its own characters
    made of it. -/
theorem page_run {c c' : Console} {evs : List Event} (inRange : InRange c) (reached : run step c evs = some c')
    {t : Int} (low : 0 ≤ t) (high : t < 3) : (page c' t).Same ((page c t).write (printed t evs)) := by
  induction evs generalizing c with
  | nil => cases reached; exact .refl _
  | cons ev evs ih =>
    obtain ⟨next,taken,rest⟩ := run_cons_eq_some.mp reached
    have later := ih (inRange_step inRange taken) rest
    have now := page_step inRange taken low high
    rw [printed_cons,Page.write,List.foldl_append]
    exact later.trans (same_page_write _ now)

theorem isolated_run (c : Console) (evs : List Event) : StepsMeet step Isolated c evs := by
  induction evs generalizing c with
  | nil => trivial
  | cons ev evs ih => exact ⟨isolated_step c ev,fun c' _ => ih c'⟩

/-- For every order of writes by any terminals and display switches: a switch
    changes no logical screen and no cursor, a write changes only what its own
    terminal shows, and what a terminal shows in the end depends on its own
    characters alone, displayed or hidden as it may have been at each of them. -/
theorem logical_screens_independent (c : Console) (evs : List Event) (inRange : InRange c) :
    StepsMeet step Isolated c evs ∧
    ∀ c', run step c evs = some c' → ∀ t, 0 ≤ t → t < 3 →
      (page c' t).Same ((page c t).write (printed t evs)) ∧
      ∀ d evs' d', InRange d → run step d evs' = some d' → (page d t).Same (page c t) →
        printed t evs' = printed t evs → (page d' t).Same (page c' t) := by
  refine ⟨isolated_run c evs,?_⟩
  intro c' reached t low high
  have here := page_run inRange reached low high
  refine ⟨here,?_⟩
  intro d evs' d' inRange' reached' start same
  have there := page_run inRange' reached' low high
  rw [same] at there
  exact there.trans ((same_page_write _ start).trans here.symm)

/-- Three blank terminals, the first one displayed. -/
def blank_console : Console where
  terminal_list i :=
    { screen_x := 0, screen_y := 0, history_index := 0, chars_printed := 0, starting_offset := 7
      input := ⟨0,fun _ => 0⟩, previous_input := ⟨0,fun _ => 0⟩, video_buffer := clear (fun _ => 0)
      ptid := i, input_history := fun _ => ⟨0,fun _ => 0⟩, state := .TERMINAL_IDLE }
  current_terminal_index := 0
  video_mem := clear (fun _ => 0)
  screen_x := 0
  screen_y := 0

theorem inRange_blank_console : InRange blank_console :=
  ⟨by decide,fun t _ _ => by simp [Surface.OnScreen,logical,blank_console,Terminal.own]⟩

/-- Terminal 0 writes while it is displayed and again while terminal 2 is. -/
theorem logical_screens_independent_switched :
    StepsMeet step Isolated blank_console [.write 0 (some fun _ => 65) 3,.switch 2,.write 0 (some fun _ => 66) 2] ∧
    ∀ c', run step blank_console [.write 0 (some fun _ => 65) 3,.switch 2,.write 0 (some fun _ => 66) 2] = some c' →
      ∀ t, 0 ≤ t → t < 3 →
      (page c' t).Same ((page blank_console t).write
        (printed t [.write 0 (some fun _ => 65) 3,.switch 2,.write 0 (some fun _ => 66) 2])) ∧
      ∀ d evs' d', InRange d → run step d evs' = some d' → (page d t).Same (page blank_console t) →
        printed t evs' = printed t [.write 0 (some fun _ => 65) 3,.switch 2,.write 0 (some fun _ => 66) 2] →
        (page d' t).Same (page c' t) :=
  logical_screens_independent blank_console _ inRange_blank_console

end Mp3Kernel.LogicalScreen

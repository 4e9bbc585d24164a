import Mathlib.Data.List.GetD
import Mp3Kernel.Lib.Words
import Mp3Kernel.Terminal.LogicalScreen

/-!
Output laid out in rows. A terminal shows the last rows of what was written to
it as long as each row is broken when it is full: `terminal_write` counts the
characters of a row, but the count starts at 1 only behind a line break, so a
row that the driver itself began is broken one character too late.
-/
namespace Mp3Kernel.Rows
open Mp3Kernel.Memory (Byte)
open Mp3Kernel.Screen Mp3Kernel.Tty Mp3Kernel.Runs Mp3Kernel.LogicalScreen Mp3Kernel.Words

/-- The row being written, and those above it from the last one up. -/
structure Layout where
  row : List Byte
  above : List (List Byte)

/-- A row ends behind its 80th character, or before with a line break. -/
inductive Laid : List Byte → Layout → Prop
  | start : Laid [] ⟨[],[]⟩
  | char {text row : List Byte} {above : List (List Byte)} {ch : Byte} (laid : Laid text ⟨row,above⟩)
      (plain : ¬ (ch = NEWLINE ∨ ch = RETURN)) (room : row.length < 80) : Laid (text ++ [ch]) ⟨row ++ [ch],above⟩
  | line {text row : List Byte} {above : List (List Byte)} {ch : Byte} (laid : Laid text ⟨row,above⟩)
      (ends : ch = NEWLINE ∨ ch = RETURN) : Laid (text ++ [ch]) ⟨[],row :: above⟩
  | full {text row : List Byte} {above : List (List Byte)} (laid : Laid text ⟨row,above⟩)
      (filled : row.length = 80) : Laid text ⟨[],row :: above⟩

/-- Where the row being written stands on the screen, -/
def Layout.last (r : Layout) : Nat := min r.above.length 24

/-- and what the rows of the screen hold. -/
def Layout.screen_row (r : Layout) (y : Nat) : List Byte :=
  if y ≤ r.last then (r.row :: r.above).getD (r.last - y) [] else []

/-- The screen shows the last rows, blank to the right and below, and the cursor
    stands behind the last character. -/
structure Shown (s : Surface) (r : Layout) : Prop where
  chars : ∀ y x : Nat, y < 25 → x < 80 → s.cells ((80 * y + x) * 2) = (r.screen_row y).getD x SPACE
  attribs : ∀ y x : Nat, y < 25 → x < 80 → s.cells ((80 * y + x) * 2 + 1) = ATTRIB
  screen_x : s.screen_x = ((r.row.length % 80 : Nat) : Int)
  screen_y : s.screen_y = r.last

/-- The text keeps to its rows: `lead` is what `chars_printed` was when the row
    began, and `len` characters are in it. A break falls due when the two exceed
    80; a row must be full then, and not before. -/
def Fits : (lead len : Nat) → List Byte → Prop
  | _, _, [] => True
  | lead, len, ch :: rest =>
    if 80 < lead + len then len = 80 ∧ if ch = NEWLINE ∨ ch = RETURN then Fits 1 0 rest else Fits 0 1 rest
    else if ch = NEWLINE then Fits 1 0 rest
    else if ch = RETURN then Fits (lead + len + 1) 0 rest
    else len < 80 ∧ Fits lead (len + 1) rest

variable {s : Surface} {r : Layout} {ch : Byte}

/-! ### Texts that keep to their rows -/

/-- Without carriage returns the first line may fill one row, and every later
    line two. -/
theorem fits_lines {text : List Byte} (plain : ∀ ch ∈ text, ch ≠ RETURN) (len : Nat) (inRow : len ≤ 80) :
    (Fits 0 len text ↔ len + ((text.splitOn NEWLINE).headD []).length ≤ 80 ∧
      ∀ line ∈ (text.splitOn NEWLINE).tail, line.length ≤ 160) ∧
    (Fits 1 len text ↔ len + ((text.splitOn NEWLINE).headD []).length ≤ 160 ∧
      ∀ line ∈ (text.splitOn NEWLINE).tail, line.length ≤ 160) := by
  induction text generalizing len with
  | nil =>
    simp [Fits,List.splitOn]
    omega
  | cons ch rest ih =>
    have later := ih (fun c inside => plain c (List.mem_cons_of_mem _ inside))
    obtain ⟨others,split,-⟩ := splitOn_eq NEWLINE rest
    rw [split] at later
    rw [splitOn_cons,split,Fits,Fits]
    by_cases newline : ch = NEWLINE
    · have fresh := (later 0 (Nat.zero_le 80)).2
      simp only [newline,true_or,↓reduceIte,List.headD_cons,List.tail_cons,List.length_nil,List.forall_mem_cons,
        Nat.zero_add] at fresh ⊢
      rw [if_neg (by omega),fresh]
      refine ⟨(and_iff_right (by omega)).symm,?_⟩
      split
      · exact and_congr_left fun _ => by omega
      · exact (and_iff_right (by omega)).symm
    · have char := plain ch List.mem_cons_self
      have next := later (len + 1)
      simp only [newline,char,or_self,↓reduceIte,List.modifyHead_cons,List.headD_cons,List.tail_cons,
        List.length_cons] at later next ⊢
      by_cases full : len = 80
      · rw [if_neg (by omega),if_pos (by omega),(later 1 (by decide)).1,← and_assoc]
        refine ⟨?_,and_congr_left fun _ => by omega⟩
        constructor
        · rintro ⟨room,-⟩
          omega
        · rintro ⟨room,-⟩
          omega
      · obtain ⟨first,second⟩ := next (by omega)
        rw [if_neg (by omega),if_neg (by omega),first,second,← and_assoc,← and_assoc]
        exact ⟨and_congr_left fun _ => by omega,and_congr_left fun _ => by omega⟩

theorem fits_iff_lines {text : List Byte} (plain : ∀ ch ∈ text, ch ≠ RETURN) : Fits 0 0 text ↔
    ((text.splitOn NEWLINE).headD []).length ≤ 80 ∧ ∀ line ∈ (text.splitOn NEWLINE).tail, line.length ≤ 160 := by
  rw [(fits_lines plain 0 (Nat.zero_le 80)).1,Nat.zero_add]

/-! ### Printing on rows -/

theorem shown_same {s' : Surface} (same : s'.Same s) (shown : Shown s r) : Shown s' r := by
  obtain ⟨cells,x,y⟩ := same
  refine ⟨?_,?_,x.trans shown.screen_x,y.trans shown.screen_y⟩
  · intro y x low high
    rw [cells _ (by omega) (by omega),shown.chars y x low high]
  · intro y x low high
    rw [cells _ (by omega) (by omega),shown.attribs y x low high]

theorem last_lt (r : Layout) : r.last < 25 := by
  rw [Layout.last]
  omega

theorem screen_row_last (r : Layout) : r.screen_row r.last = r.row := by simp [Layout.screen_row]

theorem screen_row_at {y : Nat} (d : Nat) (shown : y + d = r.last) :
    r.screen_row y = (r.row :: r.above).getD d [] := by
  rw [Layout.screen_row,if_pos (by omega),show r.last - y = d from by omega]

theorem screen_row_below {y : Nat} (below : r.last < y) : r.screen_row y = [] := by
  rw [Layout.screen_row,if_neg (by omega)]

/-- Only the last row of the screen depends on the row being written. -/
theorem screen_row_other {y : Nat} (row : List Byte) (other : y ≠ r.last) :
    Layout.screen_row ⟨row,r.above⟩ y = r.screen_row y := by
  have same : Layout.last ⟨row,r.above⟩ = r.last := rfl
  rcases Nat.lt_or_gt_of_ne other with above | below
  · obtain ⟨d,distance⟩ : ∃ d, y + (d + 1) = r.last := ⟨r.last - y - 1,by omega⟩
    rw [screen_row_at (d + 1) (distance.trans same.symm),screen_row_at (d + 1) distance,List.getD_cons_succ,
      List.getD_cons_succ]
  · rw [screen_row_below (by omega),screen_row_below below]

/-- A new row goes below the last one, or moves all rows up. -/
theorem screen_row_line (y : Nat) (inside : y < 25) : Layout.screen_row ⟨[],r.row :: r.above⟩ y =
    if r.last < 24 then r.screen_row y else if y < 24 then r.screen_row (y + 1) else [] := by
  have bound := last_lt r
  have next : Layout.last ⟨[],r.row :: r.above⟩ = min (r.last + 1) 24 := by
    simp only [Layout.last,List.length_cons]
    omega
  by_cases space : r.last < 24
  · rw [if_pos space]
    rcases Nat.lt_trichotomy y (r.last + 1) with shown | rfl | below
    · rw [screen_row_at (r.last - y + 1) (by omega),screen_row_at (r.last - y) (by omega),List.getD_cons_succ]
    · rw [screen_row_at 0 (by omega),screen_row_below (Nat.lt_succ_self _)]
      rfl
    · rw [screen_row_below (by omega),screen_row_below (by omega)]
  · rw [if_neg space]
    by_cases up : y < 24
    · rw [if_pos up,screen_row_at (24 - y - 1 + 1) (by omega),screen_row_at (24 - y - 1) (by omega),List.getD_cons_succ]
    · rw [if_neg up,screen_row_at 0 (by omega)]
      rfl

/-- A character goes behind the row, -/
theorem shown_char (shown : Shown s r) (plain : ¬ (ch = NEWLINE ∨ ch = RETURN)) (room : r.row.length < 80) :
    Shown (put_char ch s) ⟨r.row ++ [ch],r.above⟩ := by
  obtain ⟨chars,attribs,sx,sy⟩ := shown
  rw [Nat.mod_eq_of_lt room] at sx
  have bound := last_lt r
  have cell : s.cell = ((80 * r.last + r.row.length) * 2 : Nat) := by
    simp only [Surface.cell,sx,sy,NUM_COLS]
    omega
  simp only [put_char,if_neg plain,cell]
  refine ⟨?_,?_,?_,?_⟩
  · intro y x low high
    have here := chars y x low high
    simp only [store]
    rw [if_neg (by omega)]
    by_cases row : y = r.last
    · subst row
      rw [show Layout.screen_row ⟨r.row ++ [ch],r.above⟩ r.last = r.row ++ [ch] from screen_row_last ⟨r.row ++ [ch],r.above⟩]
      rw [screen_row_last] at here
      rcases Nat.lt_trichotomy x r.row.length with before | rfl | behind
      · rw [if_neg (by omega),here,List.getD_append _ _ _ _ before]
      · rw [if_pos (by omega)]
        simp
      · rw [if_neg (by omega),here,List.getD_eq_default _ _ (by omega),List.getD_eq_default]
        rw [List.length_append,List.length_singleton]
        omega
    · rw [if_neg (by omega),here,screen_row_other (r.row ++ [ch]) row]
  · intro y x low high
    simp only [store]
    by_cases same : y = r.last ∧ x = r.row.length
    · rw [if_pos (by omega)]
    · rw [if_neg (by omega),if_neg (by omega)]
      exact attribs y x low high
  · simp only [sx,NUM_COLS,List.length_append,List.length_singleton]
    omega
  · simp only [sx,sy,NUM_COLS,NUM_ROWS,Layout.last]
    omega

theorem blank_cell_char (k : Int) : blank_cell (k * 2) = SPACE := by
  rw [blank_cell,if_pos (by omega)]

theorem blank_cell_attrib (k : Int) : blank_cell (k * 2 + 1) = ATTRIB := by
  rw [blank_cell,if_neg (by omega)]

/-- and a line break begins a new row. -/
theorem shown_line (shown : Shown s r) (ends : ch = NEWLINE ∨ ch = RETURN) :
    Shown (put_char ch s) ⟨[],r.row :: r.above⟩ := by
  obtain ⟨chars,attribs,sx,sy⟩ := shown
  have bound := last_lt r
  have next : Layout.last ⟨[],r.row :: r.above⟩ = min (r.last + 1) 24 := by
    simp only [Layout.last,List.length_cons]
    omega
  rw [put_char,if_pos ends]
  by_cases scrolls : NUM_ROWS ≤ s.screen_y + 1
  · rw [if_pos scrolls]
    have full : ¬ r.last < 24 := by simp only [NUM_ROWS] at scrolls; omega
    refine ⟨?_,?_,rfl,by simp only [next]; omega⟩
    · intro y x low high
      rw [screen_row_line y low,if_neg full]
      dsimp only
      rw [scroll_up_apply]
      by_cases up : y < 24
      · rw [if_neg (by omega),if_pos (by omega),if_pos up,← chars (y + 1) x (by omega) high]
        congr 1
        omega
      · rw [if_pos (by omega),if_neg up]
        exact blank_cell_char (80 * y + x)
    · intro y x low high
      dsimp only
      rw [scroll_up_apply]
      by_cases up : y < 24
      · rw [if_neg (by omega),if_pos (by omega),← attribs (y + 1) x (by omega) high]
        congr 1
        omega
      · rw [if_pos (by omega)]
        exact blank_cell_attrib (80 * y + x)
  · rw [if_neg scrolls]
    have space : r.last < 24 := by simp only [NUM_ROWS] at scrolls; omega
    refine ⟨?_,attribs,rfl,by simp only [next]; omega⟩
    intro y x low high
    rw [screen_row_line y low,if_pos space]
    exact chars y x low high

/-! ### Writing on rows -/

/-- A page between two characters of `terminal_write`. -/
structure Writing (text : List Byte) (lead : Nat) (p : Page) (r : Layout) : Prop where
  laid : Laid text r
  shown : Shown p.surface r
  count : p.chars_printed = ((lead + r.row.length : Nat) : Int)

variable {text rest : List Byte} {lead : Nat} {p : Page}

theorem laid_row (laid : Laid text r) : r.row.length ≤ 80 := by
  cases laid with
  | start => exact Nat.zero_le _
  | char laid plain room =>
    rw [List.length_append,List.length_singleton]
    exact room
  | line laid ends => exact Nat.zero_le _
  | full laid filled => exact Nat.zero_le _

/-- One character that keeps to its row. -/
theorem write_char_keeps (writing : Writing text lead p r) (char : ch ≠ 0) (fits : Fits lead r.row.length (ch :: rest)) :
    ∃ lead' r', Writing (text ++ [ch]) lead' (p.write_char ch) r' ∧ Fits lead' r'.row.length rest := by
  obtain ⟨laid,shown,count⟩ := writing
  rw [Fits] at fits
  by_cases due : 80 < lead + r.row.length
  · rw [if_pos due] at fits
    obtain ⟨filled,rest_fits⟩ := fits
    have broken : p.write_char ch = ((p.print NEWLINE).restart.print ch).count := if_pos (by omega)
    rw [broken]
    have fresh := shown_line shown (.inl rfl)
    by_cases ends : ch = NEWLINE ∨ ch = RETURN
    · rw [if_pos ends] at rest_fits
      exact ⟨1,⟨[],[] :: r.row :: r.above⟩,⟨.line (.full laid filled) ends,shown_line fresh ends,rfl⟩,rest_fits⟩
    · rw [if_neg ends] at rest_fits
      exact ⟨0,⟨[ch],r.row :: r.above⟩,⟨.char (.full laid filled) ends (by decide),
        shown_char fresh ends (Nat.zero_lt_succ _),rfl⟩,rest_fits⟩
  · rw [if_neg due] at fits
    have early : ¬ p.chars_printed > 80 := by omega
    by_cases newline : ch = NEWLINE
    · rw [if_pos newline] at fits
      have broken : p.write_char ch = (p.restart.print ch).count := by rw [Page.write_char,if_neg early,if_pos newline]
      rw [broken]
      exact ⟨1,⟨[],r.row :: r.above⟩,⟨.line laid (.inl newline),shown_line shown (.inl newline),rfl⟩,fits⟩
    · have printed : p.write_char ch = (p.print ch).count := by
        rw [Page.write_char,if_neg early,if_neg newline,if_neg char]
      rw [if_neg newline] at fits
      rw [printed]
      have counted : (p.print ch).count.chars_printed = ((lead + r.row.length + 1 : Nat) : Int) := by
        rw [Page.count,Page.print,count]
        rfl
      by_cases return_ : ch = RETURN
      · rw [if_pos return_] at fits
        exact ⟨_,⟨[],r.row :: r.above⟩,⟨.line laid (.inr return_),shown_line shown (.inr return_),counted⟩,fits⟩
      · rw [if_neg return_] at fits
        obtain ⟨room,fits⟩ := fits
        have plain : ¬ (ch = NEWLINE ∨ ch = RETURN) := not_or.mpr ⟨newline,return_⟩
        refine ⟨lead,⟨r.row ++ [ch],r.above⟩,⟨.char laid plain room,shown_char shown plain room,?_⟩,?_⟩
        · rw [counted,List.length_append,List.length_singleton]
          rfl
        · rwa [List.length_append,List.length_singleton]

/-- A text that keeps to its rows. -/
theorem write_keeps (writing : Writing text lead p r) (chars : ∀ ch ∈ rest, ch ≠ 0) (fits : Fits lead r.row.length rest) :
    ∃ lead' r', Writing (text ++ rest) lead' (p.write rest) r' := by
  induction rest generalizing text lead p r with
  | nil => exact ⟨lead,r,by rwa [List.append_nil]⟩
  | cons ch rest ih =>
    obtain ⟨lead₁,r₁,writing₁,fits₁⟩ := write_char_keeps writing (chars ch List.mem_cons_self) fits
    obtain ⟨lead',r',final⟩ := ih writing₁ (fun c later => chars c (List.mem_cons_of_mem _ later)) fits₁
    rw [List.append_assoc,List.singleton_append] at final
    exact ⟨lead',r',final⟩

/-! ### Runs from terminal_open -/

variable {c c' : Console} {t : Int}

theorem clear_inside {i : Int} (b : Buffer) (low : 0 ≤ i) (high : i < 4000) : clear b i = blank_cell i :=
  if_pos ⟨low,by simp only [NUM_ROWS,NUM_COLS]; omega⟩

theorem clear_shown {b : Buffer} : Shown ⟨clear b,0,0⟩ ⟨[],[]⟩ := by
  refine ⟨?_,?_,rfl,rfl⟩
  · intro y x low high
    have blank : Layout.screen_row ⟨[],[]⟩ y = [] := by
      rw [Layout.screen_row]
      split
      · simp [Layout.last]
      · rfl
    have cleared : clear b ((80 * y + x) * 2) = blank_cell ((80 * y + x) * 2) := clear_inside b (by omega) (by omega)
    dsimp only
    rw [blank,cleared,blank_cell_char]
    rfl
  · intro y x low high
    have cleared : clear b ((80 * y + x) * 2 + 1) = blank_cell ((80 * y + x) * 2 + 1) :=
      clear_inside b (by omega) (by omega)
    dsimp only
    rw [cleared,blank_cell_attrib]

theorem page_open (c : Console) (low : 0 ≤ t) (high : t < 3) :
    ∃ b, page (terminal_open c) t = ⟨⟨clear b,0,0⟩,0⟩ := by
  by_cases first : t = 0
  · refine ⟨c.video_mem,?_⟩
    simp [page,logical,terminal_open,set_cursor_pos,Terminal.own,first]
  · refine ⟨(c.terminal_list t).video_buffer,?_⟩
    simp [page,logical,terminal_open,set_cursor_pos,Terminal.own,first,low,high]

theorem inRange_open (c : Console) : InRange (terminal_open c) := by
  refine ⟨by simp [terminal_open,set_cursor_pos],?_⟩
  intro t low high
  obtain ⟨b,opened⟩ := page_open c low high
  rw [show logical (terminal_open c) t = ⟨clear b,0,0⟩ from congrArg Page.surface opened]
  dsimp only [Surface.OnScreen]
  decide

/-- From `terminal_open` on, a terminal shows the last rows of all that was
    written to it, as long as that keeps to its rows. -/
theorem rows_shown {evs : List Event} (reached : run step (terminal_open c) evs = some c') (low : 0 ≤ t) (high : t < 3)
    (chars : ∀ ch ∈ printed t evs, ch ≠ 0) (fits : Fits 0 0 (printed t evs)) :
    ∃ r, Laid (printed t evs) r ∧ Shown (logical c' t) r := by
  obtain ⟨b,opened⟩ := page_open c low high
  have start : Writing [] 0 (page (terminal_open c) t) ⟨[],[]⟩ := by
    rw [opened]
    exact ⟨.start,clear_shown,rfl⟩
  obtain ⟨lead,r,laid,shown,-⟩ := write_keeps start chars fits
  have same := (page_run (inRange_open c) reached low high).1
  exact ⟨r,laid,shown_same same shown⟩

/-- Three letters. -/
theorem rows_shown_letters : ∃ c', run step (terminal_open blank_console) [.write 0 (some fun _ => 97) 3] = some c' ∧
    ∃ r, Laid (printed 0 [.write 0 (some fun _ => 97) 3]) r ∧ Shown (logical c' 0) r :=
  ⟨_,rfl,rows_shown rfl (by decide) (by decide) (by decide) (by simp [printed,written,bytes_of,Fits])⟩

/-- One row alone holds all of its text. -/
theorem laid_one_row (laid : Laid text r) (one : r.above = []) : text = r.row := by
  induction laid with
  | start => rfl
  | char laid plain room ih => rw [ih one]
  | line laid ends ih => cases one
  | full laid filled ih => cases one

/-- Up to the 81st character of a row nothing moves the cursor down. -/
theorem write_stays (plain : ∀ ch ∈ text, ¬ (ch = NEWLINE ∨ ch = RETURN) ∧ ch ≠ 0) (on : p.surface.OnScreen)
    (early : p.chars_printed + text.length ≤ 81) :
    (p.write text).surface.screen_y = p.surface.screen_y := by
  induction text generalizing p with
  | nil => rfl
  | cons ch text ih =>
    obtain ⟨char,some_⟩ := plain ch List.mem_cons_self
    rw [List.length_cons] at early
    have printed : p.write_char ch = (p.print ch).count := by
      rw [Page.write_char,if_neg (by omega),if_neg (not_or.mp char).1,if_neg some_]
    have rest : p.write (ch :: text) = (p.print ch).count.write text := by
      rw [← printed]
      rfl
    have stays : (put_char ch p.surface).screen_y = p.surface.screen_y := by rw [put_char_y ch on,if_neg char]
    rw [rest,ih (fun c later => plain c (List.mem_cons_of_mem _ later)) (onScreen_put_char ch on)]
    · exact stays
    · simp only [Page.count,Page.print]
      omega

/-- 81 characters without a line break do not fit the first row, and no other
    is begun. -/
theorem overlong_row {evs : List Event} (reached : run step (terminal_open c) evs = some c') (low : 0 ≤ t) (high : t < 3)
    (plain : ∀ ch ∈ printed t evs, ¬ (ch = NEWLINE ∨ ch = RETURN) ∧ ch ≠ 0) (length : (printed t evs).length = 81) :
    ¬ ∃ r, Laid (printed t evs) r ∧ Shown (logical c' t) r := by
  rintro ⟨r,laid,shown⟩
  obtain ⟨b,opened⟩ := page_open c low high
  have on := (inRange_open c).cursors t low high
  have same := (page_run (inRange_open c) reached low high).1.2.2
  have stays : (logical c' t).screen_y = 0 := by
    refine same.trans ((write_stays plain on ?_).trans ?_)
    · rw [opened,length]
      exact le_of_eq (zero_add _)
    · rw [opened]
  have one : r.above = [] := by
    have first := shown.screen_y.symm.trans stays
    rw [Layout.last] at first
    exact List.eq_nil_of_length_eq_zero (by omega)
  have row := laid_row laid
  rw [← laid_one_row laid one,length] at row
  exact absurd row (by decide)

/-- 81 letters: the last one goes over the first. -/
theorem letter_overwritten : ∃ c', run step (terminal_open blank_console) [.write 0 (some fun _ => 97) 81] = some c' ∧
    (∀ ch ∈ printed 0 [.write 0 (some fun _ => 97) 81], ch ≠ 0) ∧
    ¬ ∃ r, Laid (printed 0 [.write 0 (some fun _ => 97) 81]) r ∧ Shown (logical c' 0) r := by
  have text : printed 0 [.write 0 (some fun _ => 97) 81] = (List.range 81).map (fun _ => 97) := by
    simp [printed,written,bytes_of]
  have letters : ∀ ch ∈ printed 0 [.write 0 (some fun _ => 97) 81], ch = 97 := by
    rw [text]
    simp
  refine ⟨_,rfl,?_,overlong_row rfl (by decide) (by decide) ?_ ?_⟩
  · intro ch listed
    rw [letters ch listed]
    decide
  · intro ch listed
    rw [letters ch listed]
    decide
  · rw [text]
    simp

end Mp3Kernel.Rows

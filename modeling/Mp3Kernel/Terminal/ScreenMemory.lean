import Mp3Kernel.Terminal.BlockMoves

/-!
The screens as bytes in memory. Video memory and the three `video_buffer`s lie
at addresses of their own; printing stores bytes there, scrolling and switching
the display run the block moves of lib.c. Over every run the four ranges hold
what the console model says, and no other byte changes.
-/
namespace Mp3Kernel.ScreenMemory
open Mp3Kernel.Memory Mp3Kernel.Copy Mp3Kernel.BlockMoves Mp3Kernel.Screen Mp3Kernel.Tty

/-! ### The code -/

/-- The loop over the cells of a line. -/
def clear_cells (temp : Nat) : Nat → Mem → Mem
  | 0, m => m
  | i+1, m => Function.update (Function.update (clear_cells temp i m) (temp + i * 2) SPACE) (temp + i * 2 + 1) ATTRIB

def clear_line_at (video_memory : Nat) (rownum : Int) (m : Mem) : Mem :=
  if rownum < 0 ∨ NUM_ROWS ≤ rownum then m
  else clear_cells (video_memory + (NUM_COLS * rownum * 2).toNat) 80 m

def scroll_up_at (video_memory : Nat) (m : Mem) : Mem :=
  let m := (BlockMoves.memmove video_memory (video_memory + 80 * 2) (80 * (25 - 1) * 2) m).1
  clear_line_at video_memory (NUM_ROWS - 1) m

/-- `putc` and `vputc`, with the bytes at `base` and the cursor in `s`. -/
def put_char_at (base : Nat) (ch : Byte) (x y : Int) (m : Mem) : Mem × Int × Int :=
  if ch = NEWLINE ∨ ch = RETURN then
    if NUM_ROWS ≤ y + 1 then (scroll_up_at base m,0,y + 1 - 1) else (m,0,y + 1)
  else
    let cell := ((NUM_COLS * y + x) * 2).toNat
    let m := Function.update (Function.update m (base + cell) ch) (base + cell + 1) ATTRIB
    let x := (x + 1) % NUM_COLS
    (m,x,(y + x / NUM_COLS) % NUM_ROWS)

/-- Where the screens lie. -/
structure Placement where
  video_mem : Nat
  video_buffer : Fin 3 → Nat

/-- The variables of the screens, with the bytes in memory. -/
structure Screens where
  mem : Mem
  current_terminal_index : Int
  screen_x : Int
  screen_y : Int
  cursor : Fin 3 → Int × Int

/-- A character printed on the display or on a hidden terminal, or a switch of
    the display. -/
inductive Event
  | putc (ch : Byte)
  | vputc (t : Fin 3) (ch : Byte)
  | set_current_terminal (k : Int)

/-- The display is in range, so it has a buffer. -/
def shown (p : Placement) (current : Int) : Nat := p.video_buffer (Fin.ofNat 3 current.toNat)

def switch_at (p : Placement) (k : Int) (s : Screens) : Screens :=
  if s.current_terminal_index = k ∨ k < 0 ∨ k > 2 then s
  else
    let m := BlockMoves.memcpy (shown p s.current_terminal_index) p.video_mem (80 * 25 * 2) s.mem
    let m := BlockMoves.memcpy p.video_mem (shown p k) (80 * 25 * 2) m
    { s with mem := m, current_terminal_index := k }

def step_at (p : Placement) (s : Screens) : Event → Screens
  | .putc ch =>
    let (m,x,y) := put_char_at p.video_mem ch s.screen_x s.screen_y s.mem
    { s with mem := m, screen_x := x, screen_y := y }
  | .vputc t ch =>
    let (m,x,y) := put_char_at (p.video_buffer t) ch (s.cursor t).1 (s.cursor t).2 s.mem
    { s with mem := m, cursor := Function.update s.cursor t (x,y) }
  | .set_current_terminal k => switch_at p k s

/-- The same event on the console. -/
def step (c : Console) : Event → Console
  | .putc ch => putc ch c
  | .vputc t ch => c.setTerminal t (vputc ch (c.terminal_list t))
  | .set_current_terminal k => set_current_terminal k c

/-! ### One range -/

/-- The bytes at an address are those of a buffer. -/
def Holds (m : Mem) (base : Nat) (b : Buffer) : Prop := ∀ i < 4000, m (base + i) = b i

/-- Only bytes of the range differ. -/
def Only (m m' : Mem) (base : Nat) : Prop := ∀ a, a < base ∨ base + 4000 ≤ a → m' a = m a

variable {m m' : Mem} {base : Nat} {b : Buffer}

theorem holds_only (holds : Holds m base b) {other : Nat} (only : Only m m' other)
    (apart : base + 4000 ≤ other ∨ other + 4000 ≤ base) : Holds m' base b := by
  intro i inside
  rw [only (base + i) (by omega)]
  exact holds i inside

theorem clear_cells_at (temp : Nat) (n : Nat) (m : Mem) (a : Nat) :
    clear_cells temp n m a =
      if temp ≤ a ∧ a < temp + n * 2 then blank_cell ((a - temp : Nat) : Int) else m a := by
  induction n with
  | zero => rw [clear_cells,if_neg (by omega)]
  | succ n ih =>
    rw [clear_cells]
    by_cases colour : a = temp + n * 2 + 1
    · subst colour
      rw [Function.update_self,if_pos (by omega),blank_cell,if_neg (by omega)]
    · rw [Function.update_of_ne colour]
      by_cases character : a = temp + n * 2
      · subst character
        rw [Function.update_self,if_pos (by omega),blank_cell,if_pos (by omega)]
      · rw [Function.update_of_ne character,ih]
        by_cases before : temp ≤ a ∧ a < temp + n * 2
        · rw [if_pos before,if_pos (by omega)]
        · rw [if_neg before,if_neg (by omega)]

/-- Scrolling in memory is scrolling the buffer. -/
theorem scroll_up_at_holds (holds : Holds m base b) :
    Holds (scroll_up_at base m) base (scroll_up b) ∧ Only m (scroll_up_at base m) base := by
  have code (a : Nat) : scroll_up_at base m a =
      if base + 3840 ≤ a ∧ a < base + 4000 then blank_cell ((a - (base + 3840) : Nat) : Int)
      else if base ≤ a ∧ a < base + 3840 then m (a + 160) else m a := by
    have line : (NUM_COLS * (NUM_ROWS - 1) * 2).toNat = 3840 := by decide
    rw [scroll_up_at,clear_line_at,if_neg (by decide),line,clear_cells_at,memmove_copies]
    by_cases last : base + 3840 ≤ a ∧ a < base + 4000
    · rw [if_pos last,if_pos (by omega)]
    · rw [if_neg last,if_neg (by omega)]
      dsimp only
      by_cases moved : base ≤ a ∧ a < base + 3840
      · rw [if_pos moved,copied,if_pos (by omega)]
        congr 1
        omega
      · rw [if_neg moved,copied_outside (by omega)]
  refine ⟨?_,?_⟩
  · intro i inside
    rw [code,scroll_up_apply]
    by_cases last : 3840 ≤ i
    · rw [if_pos (by omega),if_pos (by omega),blank_cell,blank_cell]
      have parity : ((base + i - (base + 3840) : Nat) : Int) % 2 = (i : Int) % 2 := by omega
      rw [parity]
    · rw [if_neg (by omega),if_pos (by omega),if_neg (by omega),if_pos (by omega),
        show base + i + 160 = base + (160 + i) by omega,holds _ (by omega)]
      rfl
  · intro a outside
    rw [code,if_neg (by omega),if_neg (by omega)]

/-- Printing in memory is printing on the surface. -/
theorem put_char_at_holds {x y : Int} (ch : Byte) (holds : Holds m base b) (on : (Surface.mk b x y).OnScreen) :
    Holds (put_char_at base ch x y m).1 base (put_char ch ⟨b,x,y⟩).cells ∧ Only m (put_char_at base ch x y m).1 base ∧
      (put_char_at base ch x y m).2 = ((put_char ch ⟨b,x,y⟩).screen_x,(put_char ch ⟨b,x,y⟩).screen_y) := by
  by_cases line : ch = NEWLINE ∨ ch = RETURN
  · by_cases last : NUM_ROWS ≤ y + 1
    · obtain ⟨scrolled,only⟩ := scroll_up_at_holds holds
      simp only [put_char_at,put_char,line,last,↓reduceIte]
      exact ⟨scrolled,only,trivial⟩
    · simp only [put_char_at,put_char,line,last,↓reduceIte]
      exact ⟨holds,fun _ _ => rfl,trivial⟩
  · obtain ⟨low,high⟩ := cell_inside on
    have cell : (NUM_COLS * y + x) * 2 = (Surface.mk b x y).cell := rfl
    simp only [put_char_at,put_char,line,↓reduceIte,cell]
    generalize (Surface.mk b x y).cell = i at low high
    obtain ⟨k,rfl⟩ := Int.eq_ofNat_of_zero_le low
    rw [Int.toNat_natCast]
    refine ⟨?_,?_,trivial⟩
    · intro j inside
      simp only [store]
      by_cases colour : j = k + 1
      · subst colour
        rw [← Nat.add_assoc,Function.update_self,if_pos (by omega)]
      · rw [Function.update_of_ne (by omega),if_neg (by omega)]
        by_cases character : j = k
        · subst character
          rw [Function.update_self,if_pos rfl]
        · rw [Function.update_of_ne (by omega),if_neg (by omega)]
          exact holds j inside
    · intro a outside
      rw [Function.update_of_ne (by omega),Function.update_of_ne (by omega)]

/-! ### All ranges, over runs -/

/-- The four ranges do not overlap. -/
structure Apart (p : Placement) : Prop where
  video : ∀ t, p.video_mem + 4000 ≤ p.video_buffer t ∨ p.video_buffer t + 4000 ≤ p.video_mem
  buffers : ∀ t u, t ≠ u →
    p.video_buffer t + 4000 ≤ p.video_buffer u ∨ p.video_buffer u + 4000 ≤ p.video_buffer t

/-- Memory and the variables show what the console says, with every cursor on
    its screen. -/
structure Laid (p : Placement) (s : Screens) (c : Console) : Prop where
  display : s.current_terminal_index = c.current_terminal_index
  shown_one : 0 ≤ c.current_terminal_index ∧ c.current_terminal_index ≤ 2
  shared : s.screen_x = c.screen_x ∧ s.screen_y = c.screen_y
  own : ∀ t : Fin 3, s.cursor t = ((c.terminal_list t).screen_x,(c.terminal_list t).screen_y)
  video : Holds s.mem p.video_mem c.video_mem
  buffers : ∀ t : Fin 3, Holds s.mem (p.video_buffer t) (c.terminal_list t).video_buffer
  video_on : c.video.OnScreen
  own_on : ∀ t : Fin 3, (c.terminal_list t).own.OnScreen

/-- Only bytes of the four ranges differ. -/
def OnlyScreens (p : Placement) (m m' : Mem) : Prop :=
  ∀ a, (a < p.video_mem ∨ p.video_mem + 4000 ≤ a) →
    (∀ t, a < p.video_buffer t ∨ p.video_buffer t + 4000 ≤ a) → m' a = m a

variable {p : Placement} {s : Screens} {c : Console}

theorem putc_laid (apart : Apart p) (laid : Laid p s c) (ch : Byte) :
    Laid p (step_at p s (.putc ch)) (putc ch c) ∧ OnlyScreens p s.mem (step_at p s (.putc ch)).mem := by
  have on := laid.video_on
  obtain ⟨printed,only,cursor⟩ := put_char_at_holds ch laid.video on
  obtain ⟨x,y⟩ := laid.shared
  simp only [step_at,x,y]
  refine ⟨?_,fun a video _ => only a video⟩
  constructor
  · exact laid.display
  · exact laid.shown_one
  · exact ⟨congrArg Prod.fst cursor,congrArg Prod.snd cursor⟩
  · exact laid.own
  · exact printed
  · exact fun t => holds_only (laid.buffers t) only (apart.video t).symm
  · exact onScreen_put_char ch on
  · exact laid.own_on

theorem vputc_laid (apart : Apart p) (laid : Laid p s c) (t : Fin 3) (ch : Byte) :
    Laid p (step_at p s (.vputc t ch)) (c.setTerminal t (vputc ch (c.terminal_list t))) ∧
      OnlyScreens p s.mem (step_at p s (.vputc t ch)).mem := by
  have on := laid.own_on t
  obtain ⟨printed,only,cursor⟩ := put_char_at_holds ch (laid.buffers t) on
  simp only [step_at,laid.own t]
  refine ⟨?_,fun a _ buffers => only a (buffers t)⟩
  have other {u : Fin 3} (elsewhere : u ≠ t) : (u : Int) ≠ t := by
    intro same
    exact elsewhere (Fin.ext (by exact_mod_cast same))
  constructor
  · exact laid.display
  · exact laid.shown_one
  · exact laid.shared
  · intro u
    by_cases here : u = t
    · subst here
      rw [setTerminal_same]
      simp only [Function.update_self]
      exact cursor
    · rw [setTerminal_other _ _ (other here)]
      simp only [Function.update_of_ne here]
      exact laid.own u
  · exact holds_only laid.video only (apart.video t)
  · intro u
    by_cases here : u = t
    · subst here
      rw [setTerminal_same]
      exact printed
    · rw [setTerminal_other _ _ (other here)]
      exact holds_only (laid.buffers u) only (apart.buffers u t here)
  · exact laid.video_on
  · intro u
    by_cases here : u = t
    · subst here
      rw [setTerminal_same]
      exact onScreen_put_char ch on
    · rw [setTerminal_other _ _ (other here)]
      exact laid.own_on u

theorem copied_holds {m : Mem} {src : Nat} {b : Buffer} (dest : Nat) (d : Buffer) (source : Holds m src b) :
    Holds (copied m dest src 4000) dest (Screen.memcpy d b 4000) ∧ Only m (copied m dest src 4000) dest := by
  refine ⟨?_,fun a outside => copied_outside outside⟩
  intro i inside
  rw [copied_inside inside,Screen.memcpy,if_pos (by omega)]
  exact source i inside

/-- A display in range is one of the three terminals. -/
theorem shown_index {k : Int} (low : 0 ≤ k) (high : k ≤ 2) :
    ∃ t : Fin 3, (t : Int) = k ∧ shown p k = p.video_buffer t := by
  obtain ⟨n,rfl⟩ := Int.eq_ofNat_of_zero_le low
  have small : n < 3 := by omega
  refine ⟨⟨n,small⟩,rfl,?_⟩
  rw [shown]
  congr 1
  exact Fin.ext (Nat.mod_eq_of_lt small)

theorem switch_laid (apart : Apart p) (laid : Laid p s c) (k : Int) :
    Laid p (switch_at p k s) (set_current_terminal k c) ∧ OnlyScreens p s.mem (switch_at p k s).mem := by
  by_cases refused : c.current_terminal_index = k ∨ k < 0 ∨ k > 2
  · rw [switch_at,if_pos (by rw [laid.display]; exact refused),set_current_terminal]
    simp only [refused,↓reduceIte]
    exact ⟨laid,fun _ _ _ => rfl⟩
  · rw [switch_at,if_neg (by rw [laid.display]; exact refused)]
    obtain ⟨low,high⟩ := laid.shown_one
    obtain ⟨d,dIs,dAt⟩ := shown_index (p := p) low high
    obtain ⟨t,tIs,tAt⟩ := shown_index (p := p) (show 0 ≤ k by omega) (by omega)
    have differ : t ≠ d := by
      rintro rfl
      omega
    have aside := apart.video d
    have before := apart.video t
    have saved : BlockMoves.memcpy (p.video_buffer d) p.video_mem 4000 s.mem = _ := memcpy_copies (by omega) s.mem
    have out := copied_holds (p.video_buffer d) (c.terminal_list d).video_buffer laid.video
    have kept (u : Fin 3) (other : u ≠ d) := holds_only (laid.buffers u) out.2 (apart.buffers u d other)
    have loaded : BlockMoves.memcpy p.video_mem (p.video_buffer t) 4000
        (copied s.mem (p.video_buffer d) p.video_mem 4000) = _ := memcpy_copies (by omega) _
    have back := copied_holds p.video_mem c.video_mem (kept t differ)
    simp only [laid.display,dAt,tAt,Nat.reduceMul,saved,loaded]
    have model : set_current_terminal k c =
        { c.setTerminal d { c.terminal_list d with
            video_buffer := Screen.memcpy (c.terminal_list d).video_buffer c.video_mem 4000 } with
          current_terminal_index := k
          video_mem := Screen.memcpy c.video_mem (c.terminal_list t).video_buffer 4000 } := by
      have unchanged : (t : Int) ≠ d := fun same => differ (Fin.ext (by exact_mod_cast same))
      have moved : ¬ ((d : Int) = t ∨ (t : Int) < 0 ∨ (t : Int) > 2) := by rw [tIs,dIs]; exact refused
      rw [set_current_terminal]
      simp only [← tIs,← dIs,moved,↓reduceIte,NUM_COLS,NUM_ROWS,Int.reduceMul,setTerminal_other _ _ unchanged]
      rfl
    rw [model]
    have other {u : Fin 3} (elsewhere : u ≠ d) : (u : Int) ≠ d := by
      intro same
      exact elsewhere (Fin.ext (by exact_mod_cast same))
    refine ⟨?_,?_⟩
    · constructor
      · rfl
      · exact ⟨by dsimp only; omega,by dsimp only; omega⟩
      · exact laid.shared
      · intro u
        by_cases here : u = d
        · subst here
          simp only [setTerminal_same]
          exact laid.own u
        · simp only [setTerminal_other _ _ (other here)]
          exact laid.own u
      · exact back.1
      · intro u
        by_cases here : u = d
        · subst here
          simp only [setTerminal_same]
          exact holds_only out.1 back.2 (apart.video u).symm
        · simp only [setTerminal_other _ _ (other here)]
          exact holds_only (kept u here) back.2 (apart.video u).symm
      · exact laid.video_on
      · intro u
        by_cases here : u = d
        · subst here
          simp only [setTerminal_same]
          exact laid.own_on u
        · simp only [setTerminal_other _ _ (other here)]
          exact laid.own_on u
    · intro a video buffers
      rw [back.2 a video,out.2 a (buffers d)]

theorem step_laid (apart : Apart p) (laid : Laid p s c) (e : Event) :
    Laid p (step_at p s e) (step c e) ∧ OnlyScreens p s.mem (step_at p s e).mem := by
  cases e with
  | putc ch => exact putc_laid apart laid ch
  | vputc t ch => exact vputc_laid apart laid t ch
  | set_current_terminal k => exact switch_laid apart laid k

/-- Every run of prints, on the display and on hidden terminals, and switches of
    the display leaves in memory what the console model computes, and changes no
    byte outside the four screens. -/
theorem screens_refine (apart : Apart p) (laid : Laid p s c) (events : List Event) :
    Laid p (events.foldl (step_at p) s) (events.foldl step c) ∧
      OnlyScreens p s.mem (events.foldl (step_at p) s).mem := by
  induction events generalizing s c with
  | nil => exact ⟨laid,fun _ _ _ => rfl⟩
  | cons e events ih =>
    obtain ⟨once,first⟩ := step_laid apart laid e
    obtain ⟨last,later⟩ := ih once
    refine ⟨last,?_⟩
    intro a video buffers
    rw [List.foldl_cons,later a video buffers,first a video buffers]

/-- The screens of an idle machine, -/
def placement : Placement := { video_mem := 0xB8000, video_buffer := fun t => 0x500000 + t * 0x1000 }

def idle : Screens :=
  { mem := fun _ => 0, current_terminal_index := 0, screen_x := 0, screen_y := 0, cursor := fun _ => (0,0) }

theorem placement_apart : Apart placement := by
  constructor
  · intro t
    exact .inl (by simp only [placement]; omega)
  · intro t u differ
    have apart : (t : Nat) ≠ u := fun same => differ (Fin.ext same)
    simp only [placement]
    omega

theorem idle_laid : Laid placement idle default := by
  constructor
  · rfl
  · exact ⟨by decide,by decide⟩
  · exact ⟨rfl,rfl⟩
  · exact fun _ => rfl
  · exact fun _ _ => rfl
  · exact fun _ _ _ => rfl
  · exact ⟨by decide,by decide,by decide,by decide⟩
  · exact fun _ => (by decide : (default : Terminal).own.OnScreen)

/-- and a character printed on it, hidden by a switch. -/
theorem screens_refine_switch :
    Laid placement ([.putc 65,.set_current_terminal 1].foldl (step_at placement) idle)
      ([.putc 65,.set_current_terminal 1].foldl step default) :=
  (screens_refine placement_apart idle_laid [.putc 65,.set_current_terminal 1]).1

end Mp3Kernel.ScreenMemory

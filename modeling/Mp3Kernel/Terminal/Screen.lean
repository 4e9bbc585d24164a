import Mp3Kernel.Lib.Memory
import Mathlib.Tactic.NormNum
import Mathlib.Tactic.SplitIfs

/-!
The text screen of lib.c. A surface is a character buffer with a cursor: video
memory with the shared cursor for `putc`, a terminal's own `video_buffer` with
its own cursor for `vputc`. Buffers are indexed by byte offset; an offset
outside 0..3999 stands for the memory around the buffer.
-/
namespace Mp3Kernel.Screen
open Mp3Kernel.Memory (Byte)

abbrev NUM_COLS : Int := 80
abbrev NUM_ROWS : Int := 25
abbrev ATTRIB : Byte := 7
abbrev SPACE : Byte := 32
abbrev NEWLINE : Byte := 10
abbrev RETURN : Byte := 13

abbrev Buffer := Int → Byte

/-- A buffer together with the cursor that prints into it. -/
structure Surface where
  cells : Buffer
  screen_x : Int
  screen_y : Int

/-- Overlapping copy of `n` bytes inside one buffer. -/
def memmove (b : Buffer) (dest src n : Int) : Buffer := fun i =>
  if dest ≤ i ∧ i < dest + n then b (src + (i - dest)) else b i

/-- Copy of `n` bytes from one buffer to another, both from their start. -/
def memcpy (dest src : Buffer) (n : Int) : Buffer := fun i =>
  if 0 ≤ i ∧ i < n then src i else dest i

def blank_cell (i : Int) : Byte := if i % 2 = 0 then SPACE else ATTRIB

def clear (b : Buffer) : Buffer := fun i =>
  if 0 ≤ i ∧ i < NUM_ROWS * NUM_COLS * 2 then blank_cell i else b i

def clear_line (b : Buffer) (rownum : Int) : Buffer :=
  if rownum < 0 ∨ NUM_ROWS ≤ rownum then b else fun i =>
    if NUM_COLS * rownum * 2 ≤ i ∧ i < NUM_COLS * rownum * 2 + NUM_COLS * 2 then blank_cell i else b i

def scroll_up (b : Buffer) : Buffer :=
  clear_line (memmove b 0 (NUM_COLS * 2) (NUM_COLS * (NUM_ROWS - 1) * 2)) (NUM_ROWS - 1)

/-- The byte offset at which the next character goes. -/
def Surface.cell (s : Surface) : Int := (NUM_COLS * s.screen_y + s.screen_x) * 2

def store (b : Buffer) (i : Int) (c : Byte) : Buffer := fun j => if j = i then c else b j

/-- The common body of `putc` and `vputc`. -/
def put_char (c : Byte) (s : Surface) : Surface :=
  if c = NEWLINE ∨ c = RETURN then
    -- on the last line the screen scrolls and the cursor stays there
    if NUM_ROWS ≤ s.screen_y + 1 then
      { cells := scroll_up s.cells, screen_x := 0, screen_y := s.screen_y + 1 - 1 }
    else { s with screen_x := 0, screen_y := s.screen_y + 1 }
  else
    -- the row is advanced by the column already reduced, hence never
    let x := (s.screen_x + 1) % NUM_COLS
    { cells := store (store s.cells s.cell c) (s.cell + 1) ATTRIB
      screen_x := x
      screen_y := (s.screen_y + x / NUM_COLS) % NUM_ROWS }

/-- The cursor is on the screen. -/
def Surface.OnScreen (s : Surface) : Prop :=
  0 ≤ s.screen_x ∧ s.screen_x < 80 ∧ 0 ≤ s.screen_y ∧ s.screen_y < 25

instance (s : Surface) : Decidable s.OnScreen :=
  inferInstanceAs (Decidable (_ ∧ _ ∧ _ ∧ _))

/-- Two surfaces that show the same screen with the same cursor. -/
def Surface.Same (s t : Surface) : Prop :=
  (∀ i, 0 ≤ i → i < 4000 → s.cells i = t.cells i) ∧
    s.screen_x = t.screen_x ∧ s.screen_y = t.screen_y

theorem Surface.Same.refl (s : Surface) : s.Same s := ⟨fun _ _ _ => rfl,rfl,rfl⟩
theorem Surface.Same.symm {s t : Surface} (same : s.Same t) : t.Same s :=
  ⟨fun i low high => (same.1 i low high).symm,same.2.1.symm,same.2.2.symm⟩
theorem Surface.Same.trans {s t u : Surface} (first : s.Same t) (second : t.Same u) : s.Same u :=
  ⟨fun i low high => (first.1 i low high).trans (second.1 i low high),
    first.2.1.trans second.2.1,first.2.2.trans second.2.2⟩

/-- The column after a character: 0 after a line break, else one further on,
    back to 0 from the last column. -/
theorem put_char_x {s : Surface} (c : Byte) (on : s.OnScreen) :
    (put_char c s).screen_x = if c = NEWLINE ∨ c = RETURN ∨ s.screen_x = 79 then 0 else s.screen_x + 1 := by
  obtain ⟨x0,x1,-,-⟩ := on
  by_cases line : c = NEWLINE ∨ c = RETURN
  · have either : c = NEWLINE ∨ c = RETURN ∨ s.screen_x = 79 := by
      rcases line with line | line <;> simp [line]
    simp only [put_char,line,either,↓reduceIte]
    split <;> rfl
  · simp only [put_char,line,↓reduceIte,NUM_COLS]
    by_cases last : s.screen_x = 79
    · simp [last]
    · have neither : ¬ (c = NEWLINE ∨ c = RETURN ∨ s.screen_x = 79) := by
        rw [← or_assoc]; exact not_or.mpr ⟨line,last⟩
      rw [if_neg neither]
      omega

/-- Only a line break moves the row, and the last row keeps it. -/
theorem put_char_y {s : Surface} (c : Byte) (on : s.OnScreen) :
    (put_char c s).screen_y =
      if c = NEWLINE ∨ c = RETURN then min (s.screen_y + 1) 24 else s.screen_y := by
  obtain ⟨x0,x1,y0,y1⟩ := on
  by_cases line : c = NEWLINE ∨ c = RETURN
  · simp only [put_char,line,↓reduceIte,NUM_ROWS]
    by_cases last : 25 ≤ s.screen_y + 1
    · rw [if_pos last]; dsimp only; omega
    · rw [if_neg last]; dsimp only; omega
  · simp only [put_char,line,↓reduceIte,NUM_COLS,NUM_ROWS]
    omega

theorem onScreen_put_char {s : Surface} (c : Byte) (on : s.OnScreen) : (put_char c s).OnScreen := by
  have x := put_char_x c on
  have y := put_char_y c on
  obtain ⟨x0,x1,y0,y1⟩ := on
  refine ⟨?_,?_,?_,?_⟩
  · rw [x]; split <;> omega
  · rw [x]; split
    · omega
    · rename_i other
      have : s.screen_x ≠ 79 := fun last => other (.inr (.inr last))
      omega
  · rw [y]; split <;> omega
  · rw [y]; split <;> omega

/-- A character stored on the screen goes inside the buffer. -/
theorem cell_inside {s : Surface} (on : s.OnScreen) : 0 ≤ s.cell ∧ s.cell + 1 < 4000 := by
  obtain ⟨x0,x1,y0,y1⟩ := on
  simp only [Surface.cell,NUM_COLS]
  constructor <;> omega

/-- Scrolling moves every row up by one and blanks the last. -/
theorem scroll_up_apply (b : Buffer) (i : Int) :
    scroll_up b i = if 3840 ≤ i ∧ i < 4000 then blank_cell i else
      if 0 ≤ i ∧ i < 3840 then b (160 + i) else b i := by
  rw [scroll_up,clear_line,if_neg (by decide)]
  simp only [memmove,NUM_COLS,NUM_ROWS]
  norm_num

theorem scroll_up_congr {a b : Buffer} (same : ∀ i, 0 ≤ i → i < 4000 → a i = b i) :
    ∀ i, 0 ≤ i → i < 4000 → scroll_up a i = scroll_up b i := by
  intro i low high
  rw [scroll_up_apply,scroll_up_apply]
  by_cases last : 3840 ≤ i ∧ i < 4000
  · rw [if_pos last,if_pos last]
  · rw [if_neg last,if_neg last,if_pos (by omega),if_pos (by omega)]
    exact same _ (by omega) (by omega)

/-- Printing a character reads nothing but the screen and the cursor. -/
theorem same_put_char {s t : Surface} (c : Byte) (same : s.Same t) : (put_char c s).Same (put_char c t) := by
  obtain ⟨cells,x,y⟩ := same
  by_cases line : c = NEWLINE ∨ c = RETURN
  · simp only [put_char,line,↓reduceIte,y]
    split
    · exact ⟨scroll_up_congr cells,rfl,rfl⟩
    · exact ⟨cells,rfl,rfl⟩
  · simp only [put_char,line,↓reduceIte,x,y]
    refine ⟨?_,rfl,rfl⟩
    intro i low high
    have cell : s.cell = t.cell := by simp only [Surface.cell,x,y]
    simp only [store]
    rw [cell,cells i low high]

end Mp3Kernel.Screen

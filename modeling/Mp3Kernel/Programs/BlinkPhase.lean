import Mp3Kernel.Programs.BlinkList

/-!
The rhythm of a blinking character. An entry whose two lengths are between 1
and 32768, the range in which the signed countdown works, shows its on
character for the first length of every period and its off character for the
rest, for as long as the tasklet runs and whatever else is on the list.
-/
namespace Mp3Kernel.BlinkPhase
open Mp3Kernel.Memory Mp3Kernel.Blink Mp3Kernel.BlinkList Mp3Kernel.Refine

/-- A length that the countdown counts: as a signed number it may only be
    negative before the first decrement. -/
def Counts (length : Half) : Prop := 1 ≤ length.toNat ∧ length.toNat ≤ 32768

/-- The ticks between two times that the entry comes on. -/
def period (b : Blinker) : Nat := b.on_length.toNat + b.off_length.toNat

/-- The entry shows its on character after so many ticks. -/
def Lit (b : Blinker) (ticks : Nat) : Prop := ticks % period b < b.on_length.toNat
instance (b : Blinker) (ticks : Nat) : Decidable (Lit b ticks) := inferInstanceAs (Decidable (_ < _))

/-- The entry so many ticks after it was added. -/
def phase (b : Blinker) (ticks : Nat) : Blinker :=
  if Lit b ticks then
    { b with status := 1, countdown := BitVec.ofNat 16 (b.on_length.toNat - ticks % period b) }
  else { b with status := 0, countdown := BitVec.ofNat 16 (period b - ticks % period b) }

/-- The character on the screen then. -/
def shown (b : Blinker) (ticks : Nat) : Byte := if Lit b ticks then b.on_char else b.off_char

variable {b : Blinker} {ticks : Nat}

theorem countdown_pred {left : Nat} (low : 1 ≤ left) (high : left ≤ 32768) :
    BitVec.ofNat 16 left - 1 = BitVec.ofNat 16 (left - 1) := by
  apply BitVec.eq_of_toNat_eq
  rw [BitVec.toNat_sub,BitVec.toNat_ofNat,BitVec.toNat_ofNat]
  simp
  omega

/-- A countdown of at most 32768 expires exactly at 1. -/
theorem expires_at_one {left : Nat} (low : 1 ≤ left) (high : left ≤ 32768) {b : Blinker}
    (countdown : b.countdown = BitVec.ofNat 16 left) : Expires b ↔ left = 1 := by
  have value : (BitVec.ofNat 16 (left - 1)).toInt = (left - 1 : Nat) := by
    rw [BitVec.toInt_eq_toNat_of_lt (by rw [BitVec.toNat_ofNat]; omega),BitVec.toNat_ofNat,Nat.mod_eq_of_lt (by omega)]
  rw [Expires,countdown,countdown_pred low high,value]
  omega

/-- One more tick modulo the period. -/
theorem succ_mod {p : Nat} (positive : 0 < p) (n : Nat) :
    (n + 1) % p = if n % p + 1 = p then 0 else n % p + 1 := by
  have below := Nat.mod_lt n positive
  rw [← Nat.mod_add_mod]
  split
  case isTrue wraps => rw [wraps,Nat.mod_self]
  case isFalse stays => exact Nat.mod_eq_of_lt (by omega)

theorem phase_lit (lit : Lit b ticks) :
    phase b ticks = { b with status := 1, countdown := BitVec.ofNat 16 (b.on_length.toNat - ticks % period b) } :=
  if_pos lit

theorem phase_dark (dark : ¬ Lit b ticks) :
    phase b ticks = { b with status := 0, countdown := BitVec.ofNat 16 (period b - ticks % period b) } :=
  if_neg dark

/-- A tick that does not end the countdown shortens it, and draws nothing. -/
theorem tick_running {left : Nat} (low : 1 < left) (high : left ≤ 32768) {b : Blinker}
    (countdown : b.countdown = BitVec.ofNat 16 left) :
    tick b = { b with countdown := BitVec.ofNat 16 (left - 1) } ∧ ∀ screen, redraw screen b = screen := by
  have running : ¬ Expires b := by
    rw [expires_at_one (by omega) high countdown]
    omega
  refine ⟨?_,fun _ => if_neg running⟩
  rw [tick,if_neg running,countdown,countdown_pred (by omega) high]

/-- The last tick of a countdown changes the character. -/
theorem tick_last {b : Blinker} (countdown : b.countdown = BitVec.ofNat 16 1) :
    tick b = { b with countdown := if b.status &&& 1 = 0 then b.on_length else b.off_length, status := b.status ^^^ 1 } ∧
      ∀ screen, redraw screen b = draw screen b (if b.status &&& 1 = 0 then b.on_char else b.off_char) := by
  have expires : Expires b := (expires_at_one (le_refl 1) (by omega) countdown).mpr rfl
  exact ⟨if_pos expires,fun _ => if_pos expires⟩

/-- A tick leads to the next phase, and leaves its character on the screen. -/
theorem tick_phase (on : Counts b.on_length) (off : Counts b.off_length) (ticks : Nat) :
    tick (phase b ticks) = phase b (ticks + 1) ∧
      ∀ screen, screen (b.location.toNat * 2) = shown b ticks →
        redraw screen (phase b ticks) (b.location.toNat * 2) = shown b (ticks + 1) := by
  obtain ⟨onLow,onHigh⟩ := on
  obtain ⟨offLow,offHigh⟩ := off
  have total : period b = b.on_length.toNat + b.off_length.toNat := rfl
  have below := Nat.mod_lt ticks (show 0 < period b by omega)
  have next := succ_mod (show 0 < period b by omega) ticks
  by_cases lit : Lit b ticks
  · have inside : ticks % period b < b.on_length.toNat := lit
    rw [if_neg (by omega)] at next
    by_cases last : b.on_length.toNat - ticks % period b = 1
    · have dark : ¬ Lit b (ticks + 1) := by rw [Lit,next]; omega
      have left : period b - (ticks + 1) % period b = b.off_length.toNat := by omega
      obtain ⟨ticked,drawn⟩ := tick_last (b := phase b ticks) (by rw [phase_lit lit,last])
      refine ⟨?_,?_⟩
      · rw [ticked,phase_dark dark,left,phase_lit lit]
        simp
      · intro screen _
        rw [drawn,phase_lit lit,shown,if_neg dark]
        simp [draw]
    · have still : Lit b (ticks + 1) := by rw [Lit,next]; omega
      have left : b.on_length.toNat - (ticks + 1) % period b = b.on_length.toNat - ticks % period b - 1 := by omega
      obtain ⟨ticked,drawn⟩ := tick_running (b := phase b ticks) (by omega)
        (show b.on_length.toNat - ticks % period b ≤ 32768 by omega) (by rw [phase_lit lit])
      refine ⟨?_,?_⟩
      · rw [ticked,phase_lit still,left,phase_lit lit]
      · intro screen before
        rw [drawn,before,shown,shown,if_pos lit,if_pos still]
  · have outside : b.on_length.toNat ≤ ticks % period b := not_lt.mp lit
    by_cases last : period b - ticks % period b = 1
    · rw [if_pos (by omega)] at next
      have bright : Lit b (ticks + 1) := by rw [Lit,next]; omega
      obtain ⟨ticked,drawn⟩ := tick_last (b := phase b ticks) (by rw [phase_dark lit,last])
      refine ⟨?_,?_⟩
      · rw [ticked,phase_lit bright,next,phase_dark lit]
        simp
      · intro screen _
        rw [drawn,phase_dark lit,shown,if_pos bright]
        simp [draw]
    · rw [if_neg (by omega)] at next
      have still : ¬ Lit b (ticks + 1) := by rw [Lit,next]; omega
      have left : period b - (ticks + 1) % period b = period b - ticks % period b - 1 := by omega
      obtain ⟨ticked,drawn⟩ := tick_running (b := phase b ticks) (by omega)
        (show period b - ticks % period b ≤ 32768 by omega) (by rw [phase_dark lit])
      refine ⟨?_,?_⟩
      · rw [ticked,phase_dark still,left,phase_dark lit]
      · intro screen before
        rw [drawn,before,shown,shown,if_neg lit,if_neg still]

/-! ### On the list, among others -/

/-- The youngest entry is in its phase, and alone in its cell. -/
structure InPhase (b : Blinker) (ticks : Nat) (board : Board) : Prop where
  youngest : ∃ rest, board.entries = phase b ticks :: rest ∧ ∀ c ∈ rest, c.location ≠ b.location
  visible : board.screen (b.location.toNat * 2) = shown b ticks

theorem redraws_elsewhere {entries : List Blinker} {screen : Nat → Byte} {location : Half}
    (elsewhere : ∀ c ∈ entries, c.location ≠ location) :
    entries.foldl redraw screen (location.toNat * 2) = screen (location.toNat * 2) := by
  induction entries generalizing screen with
  | nil => rfl
  | cons c rest ih =>
    rw [List.foldl_cons,ih (fun d listed => elsewhere d (List.mem_cons_of_mem c listed)),redraw]
    split
    · have other : location.toNat * 2 ≠ c.location.toNat * 2 := by
        intro same
        exact elsewhere c List.mem_cons_self (BitVec.eq_of_toNat_eq (by omega))
      rw [draw,Function.update_of_ne other]
    · rfl

theorem inPhase_tasklet {board : Board} (on : Counts b.on_length) (off : Counts b.off_length)
    (here : InPhase b ticks board) : InPhase b (ticks + 1) (boardCall board .tasklet).1 := by
  obtain ⟨⟨rest,entries,elsewhere⟩,visible⟩ := here
  obtain ⟨ticked,drawn⟩ := tick_phase on off ticks
  refine ⟨⟨rest.map tick,?_,?_⟩,?_⟩
  · simp only [boardCall]
    rw [entries,List.map_cons,ticked]
  · intro c listed
    obtain ⟨d,old,rfl⟩ := List.mem_map.mp listed
    rw [tick_location]
    exact elsewhere d old
  · simp only [boardCall]
    rw [entries,List.foldl_cons,redraws_elsewhere elsewhere]
    exact drawn board.screen visible

theorem inPhase_tasklets {board : Board} (on : Counts b.on_length) (off : Counts b.off_length)
    (here : InPhase b ticks board) (more : Nat) :
    InPhase b (ticks + more) (expected boardCall board (List.replicate more .tasklet)).1 := by
  induction more generalizing ticks board with
  | zero => exact here
  | succ more ih =>
    have later := ih (inPhase_tasklet on off here)
    rw [show ticks + (more + 1) = ticks + 1 + more by omega]
    exact later

end Mp3Kernel.BlinkPhase

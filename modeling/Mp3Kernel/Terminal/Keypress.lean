import Mp3Kernel.Lib.Runs
import Mp3Kernel.Terminal.Keyboard

/-!
Sequences of keypresses. What should be known of the keys is taken from the
events alone: the last event of each key, how often caps lock went down, and the
characters that were meant. `Paired` says where the two halves of the key map,
which were written by hand, agree with that.
-/
namespace Mp3Kernel.Keypress
open Mp3Kernel.Memory (Byte ascii)
open Mp3Kernel.Runs Mp3Kernel.Keys Mp3Kernel.Tty

/-- The codes that are sent when a key goes down. -/
def MakeCode (code : Nat) : Prop := 1 ≤ code ∧ code ≤ 0x53 ∨ code = 0x57 ∨ code = 0x58

instance (code : Nat) : Decidable (MakeCode code) := inferInstanceAs (Decidable (_ ∨ _))

/-- A key goes down or up while the running task is named `pName`. -/
structure Event where
  make_code : Nat
  valid : MakeCode make_code
  make : Bool
  pName : Nat → Byte

def Event.scan_code (e : Event) : Nat := if e.make then e.make_code else e.make_code + 0x80

/-- The key is the one that the make code stands for. -/
def Event.key (e : Event) : Key := (keymap e.make_code).keyboard_key

/-- The last event of the key was a make. The latest event comes first. -/
def down (key : Key) : List Event → Bool
  | [] => false
  | e :: events => if e.key = key then e.make else down key events

def shift_down (events : List Event) : Bool := down .left_shift events || down .right_shift events

def caps_makes (events : List Event) : Nat := events.countP (fun e => e.key = .caps_lock && e.make)
def caps_on (events : List Event) : Bool := caps_makes events % 2 = 1

/-- The character that a make of the key stands for. -/
def meant (events : List Event) (key : Key) : Char :=
  if shift_down events then key.fields.shift_char
  else if caps_on events && key.fields.lowercase_char.isLower then key.fields.lowercase_char.toUpper
  else key.fields.lowercase_char

/-- The keys held make a shortcut; with control and C held no other one is looked for. -/
def shortcut (s : Keyboard) : Bool :=
  is_control_pressed s && is_pressed s .l ||
    !(is_control_pressed s && is_pressed s .c) &&
      (is_pressed s .backspace || is_alt_pressed s && (is_pressed s .f1 || is_pressed s .f2 || is_pressed s .f3))

/-- The driver, with the events so far and the characters that they should have added. -/
structure Typing where
  keyboard : Keyboard
  events : List Event
  expected : List Byte

def begin (console : Console) : Typing := ⟨keyboard_init console,[],[]⟩

def step (s : Typing) (e : Event) : Option Typing :=
  let events := e :: s.events
  let adds := e.make && e.key.fields.to_display && !shortcut (s.keyboard.setPressed e.key true)
  some { keyboard := process_keypress e.pName e.scan_code s.keyboard
         events := events
         expected := if adds then s.expected ++ [ascii (meant events e.key)] else s.expected }

/-- The keys whose marks are not those of their last events. -/
def excepted : List Key := [.caps_lock,.backspace,.f1,.f2,.f3]

/-- Keys, caps lock and characters are as the events say. -/
structure Read (s : Typing) : Prop where
  keys : ∀ key, key ∉ excepted → s.keyboard.pressed key = down key s.events
  caps : s.keyboard.pressed .caps_lock = caps_on s.events
  characters : s.keyboard.added = s.expected

/-- The event is one that the map has right, in view of the events so far. -/
structure Paired (s : Typing) (e : Event) : Prop where
  i : e.make = false → e.key = .i → down .i s.events = false ∧ down .home s.events = false
  home : e.make = false → e.key = .home → down .home s.events = false
  delete : e.make = false → e.key = .delete → down .delete s.events = false ∧ down .page_down s.events = false
  caps_make : e.make = true → e.key = .caps_lock → caps_on s.events = false
  caps_break : e.make = false → e.key = .caps_lock → caps_on s.events = true
  z : e.make = true → e.key = .z → caps_on s.events = true → shift_down s.events = true ∨ shortcut s.keyboard = true

/-! ### The map -/

/-- What the second half of the map has for a key. -/
def break_entry : Key → KeyOrientation
  | .i => released .home
  | .home => released .keypad_7
  | .delete => released .page_down
  | .caps_lock => pressed .caps_lock
  | key => released key

theorem keymap_pairs : ∀ code < 0x59, MakeCode code →
    (keymap code).orientation = true ∧ (keymap code).keyboard_key ≠ .keypad_7 ∧
    keymap (code + 0x80) = break_entry (keymap code).keyboard_key := by
  decide +kernel

variable {e : Event}

theorem make_code_lt (e : Event) : e.make_code < 0x59 := by
  rcases e.valid with range | other | other <;> omega

theorem keymap_make (make : e.make = true) : keymap e.scan_code = pressed e.key := by
  have entry := (keymap_pairs _ (make_code_lt e) e.valid).1
  rw [Event.scan_code,if_pos make,Event.key,pressed,← entry]

theorem keymap_break (up : e.make = false) : keymap e.scan_code = break_entry e.key := by
  rw [Event.scan_code,up,Event.key]
  exact (keymap_pairs _ (make_code_lt e) e.valid).2.2

theorem down_keypad_7 (events : List Event) : down .keypad_7 events = false := by
  induction events with
  | nil => rfl
  | cons e events ih =>
    have other : e.key ≠ .keypad_7 := (keymap_pairs _ (make_code_lt e) e.valid).2.1
    rw [down,if_neg other,ih]

/-- Only z has an upper case that is not the one of its letter. -/
theorem uppercase_eq {key : Key} (other : key ≠ .z) : key.fields.uppercase_char =
    if key.fields.lowercase_char.isLower then key.fields.lowercase_char.toUpper else key.fields.lowercase_char := by
  cases key <;> first | rfl | exact absurd rfl other

theorem not_excepted {key : Key} (shown : key.fields.to_display = true) : key ∉ excepted := by
  intro reset
  simp only [excepted,List.mem_cons,List.not_mem_nil,or_false] at reset
  rcases reset with rfl | rfl | rfl | rfl | rfl <;> cases shown

/-! ### The handler -/

variable {s : Keyboard} {key : Key} {pName : Nat → Byte}

theorem setPressed_key (value : Bool) : (s.setPressed key value).pressed key = value := by simp [Keyboard.setPressed]

theorem setPressed_other {other : Key} (value : Bool) (apart : other ≠ key) :
    (s.setPressed key value).pressed other = s.pressed other := by simp [Keyboard.setPressed,apart]

/-- Shortcuts take back the marks of the keys that trigger them, at most. -/
theorem shortcuts_pressed (kept : key ∉ excepted ∨ key = .caps_lock) :
    (process_shortcuts s).pressed key = s.pressed key := by
  have apart : key ≠ .backspace ∧ key ≠ .f1 ∧ key ≠ .f2 ∧ key ≠ .f3 := by
    rcases kept with kept | rfl
    · simp only [excepted,List.mem_cons,List.not_mem_nil,or_false,not_or] at kept
      exact kept.2
    · decide
  simp only [process_shortcuts]
  split_ifs <;> simp [Keyboard.setPressed,apart]

theorem shortcuts_added : (process_shortcuts s).added = s.added := by
  simp only [process_shortcuts]
  split_ifs <;> rfl

theorem shortcuts_received (idle : s.shortcut_received = false) :
    (process_shortcuts s).shortcut_received = shortcut s := by
  simp only [process_shortcuts,shortcut]
  cases control : is_control_pressed s <;> split_ifs <;> simp_all

theorem shortcuts_outside (idle : s.shortcut_received = false) (outside : shortcut s = false) :
    process_shortcuts s = s := by
  simp only [process_shortcuts,shortcut] at outside ⊢
  cases s
  cases idle
  split_ifs <;> simp_all

/-- The modifiers keep their marks, so the character does not change. -/
theorem shortcuts_char : char_to_print (process_shortcuts s) key = char_to_print s key := by
  have shift : is_shift_pressed (process_shortcuts s) = is_shift_pressed s := by
    simp only [is_shift_pressed,is_pressed]
    rw [shortcuts_pressed (.inl (by decide)),shortcuts_pressed (.inl (by decide))]
  have caps : is_caps_lock_pressed (process_shortcuts s) = is_caps_lock_pressed s := shortcuts_pressed (.inr rfl)
  rw [char_to_print,char_to_print,shift,caps]

theorem print_key_pressed : (print_key pName key s).2.pressed = s.pressed := by
  rw [print_key]
  split_ifs <;> rfl

theorem print_key_added : (print_key pName key s).2.added =
    if s.pressed key && key.fields.to_display && !s.shortcut_received then s.added ++ [ascii (char_to_print s key)]
    else s.added := by
  rw [print_key]
  cases s.pressed key <;> cases key.fields.to_display <;> cases s.shortcut_received <;> rfl

theorem keypress_pressed (pName : Nat → Byte) (scan_code : Nat) (kept : key ∉ excepted ∨ key = .caps_lock) :
    (process_keypress pName scan_code s).pressed key =
      (s.setPressed (keymap scan_code).keyboard_key (keymap scan_code).orientation).pressed key := by
  rw [process_keypress]
  dsimp only
  rw [print_key_pressed,shortcuts_pressed kept]

/-- A keypress adds a character exactly when its key has one, is down after it
    and no shortcut is taken. -/
theorem keypress_added (pName : Nat → Byte) {scan_code : Nat} {entry : KeyOrientation} (mapped : keymap scan_code = entry)
    (idle : s.shortcut_received = false) :
    (process_keypress pName scan_code s).added =
      let s' := s.setPressed entry.keyboard_key entry.orientation
      if entry.orientation && entry.keyboard_key.fields.to_display && !shortcut s' then
        s.added ++ [ascii (char_to_print s' entry.keyboard_key)]
      else s.added := by
  rw [process_keypress,mapped]
  dsimp only
  have idle' : (s.setPressed entry.keyboard_key entry.orientation).shortcut_received = false := idle
  rw [print_key_added,shortcuts_added,shortcuts_received idle',shortcuts_char]
  by_cases shown : entry.keyboard_key.fields.to_display = true
  · rw [shortcuts_pressed (.inl (not_excepted shown)),setPressed_key]
    rfl
  · simp only [Bool.not_eq_true] at shown
    simp [shown,Keyboard.setPressed]

/-- Outside a shortcut this is all that the terminals see of the keypress. -/
theorem keypress_console (pName : Nat → Byte) {scan_code : Nat} {entry : KeyOrientation}
    (mapped : keymap scan_code = entry) (idle : s.shortcut_received = false)
    (outside : shortcut (s.setPressed entry.keyboard_key entry.orientation) = false) :
    (process_keypress pName scan_code s).console =
      if entry.orientation && entry.keyboard_key.fields.to_display then
        let s' := s.setPressed entry.keyboard_key entry.orientation
        terminal_add_to_buffer pName (ascii (char_to_print s' entry.keyboard_key)) s.console
      else s.console := by
  have idle' : (s.setPressed entry.keyboard_key entry.orientation).shortcut_received = false := idle
  rw [process_keypress,mapped]
  dsimp only
  rw [shortcuts_outside idle' outside,print_key,setPressed_key,idle']
  cases entry.orientation <;> cases entry.keyboard_key.fields.to_display <;> rfl

/-! ### A make -/

variable {t t' : Typing} {events : List Event}

theorem caps_on_cons : caps_on (e :: events) =
    if e.key = .caps_lock ∧ e.make = true then !caps_on events else caps_on events := by
  by_cases caps : e.key = .caps_lock ∧ e.make = true
  · rw [if_pos caps,caps_on,caps_on,caps_makes,List.countP_cons_of_pos (by simp [caps]),caps_makes]
    rcases Nat.mod_two_eq_zero_or_one (events.countP fun e => e.key = .caps_lock && e.make) with even | odd
    · simp [Nat.add_mod,even]
    · simp [Nat.add_mod,odd]
  · rw [if_neg caps,caps_on,caps_on,caps_makes,List.countP_cons_of_neg (by simpa using caps),caps_makes]

/-- A make marks its key, and the other marks stay. -/
theorem make_marks (read : Read t) (make : e.make = true) (kept : key ∉ excepted) :
    (t.keyboard.setPressed e.key true).pressed key = down key (e :: t.events) := by
  by_cases same : e.key = key
  · subst same
    rw [setPressed_key,down,if_pos rfl,make]
  · rw [setPressed_other true (Ne.symm same),down,if_neg same,read.keys key kept]

theorem make_caps (read : Read t) (other : e.key ≠ .caps_lock) :
    (t.keyboard.setPressed e.key true).pressed .caps_lock = caps_on (e :: t.events) := by
  rw [setPressed_other true (Ne.symm other),read.caps,caps_on_cons,if_neg (fun caps => other caps.1)]

theorem shift_meant (read : Read t) (make : e.make = true) :
    is_shift_pressed (t.keyboard.setPressed e.key true) = shift_down (e :: t.events) := by
  rw [is_shift_pressed,is_pressed,is_pressed,make_marks read make (by decide),make_marks read make (by decide),
    shift_down,Bool.or_comm]

/-- The character printed is the one that was meant, unless it is a capital Z. -/
theorem char_meant (read : Read t) (make : e.make = true) (other : e.key ≠ .caps_lock) :
    ascii (char_to_print (t.keyboard.setPressed e.key true) e.key) = ascii (meant (e :: t.events) e.key) ↔
      (e.key = .z → caps_on (e :: t.events) = true → shift_down (e :: t.events) = true) := by
  have caps : is_caps_lock_pressed (t.keyboard.setPressed e.key true) = caps_on (e :: t.events) := make_caps read other
  rw [char_to_print,meant,shift_meant read make,caps]
  by_cases shift : shift_down (e :: t.events) = true
  · simp [shift]
  · by_cases on : caps_on (e :: t.events) = true
    · by_cases z : e.key = .z
      · rw [z]
        simp [shift,on]
        decide
      · simp [shift,on,z,uppercase_eq z]
    · simp [shift,on]

/-- What an event makes of the driver and of the expectation. -/
theorem step_added (idle : t.keyboard.shortcut_received = false) (make : e.make = true) (taken : step t e = some t') :
    (t'.keyboard.added = if e.key.fields.to_display && !shortcut (t.keyboard.setPressed e.key true) then
        t.keyboard.added ++ [ascii (char_to_print (t.keyboard.setPressed e.key true) e.key)] else t.keyboard.added) ∧
    (t'.expected = if e.key.fields.to_display && !shortcut (t.keyboard.setPressed e.key true) then
        t.expected ++ [ascii (meant (e :: t.events) e.key)] else t.expected) := by
  cases taken
  refine ⟨?_,?_⟩
  · have added := keypress_added e.pName (keymap_make make) idle
    simpa [pressed] using added
  · simp [make]

theorem shortcut_z (value : Bool) : shortcut (s.setPressed .z value) = shortcut s := by
  simp [shortcut,is_control_pressed,is_alt_pressed,is_pressed,Keyboard.setPressed]

theorem shift_down_other (left : e.key ≠ .left_shift) (right : e.key ≠ .right_shift) :
    shift_down (e :: events) = shift_down events := by
  rw [shift_down,shift_down,down,down,if_neg left,if_neg right]

/-- It adds the character that was meant, unless that is a capital Z. -/
theorem characters_iff (read : Read t) (idle : t.keyboard.shortcut_received = false) (make : e.make = true)
    (other : e.key ≠ .caps_lock) (taken : step t e = some t') : t'.keyboard.added = t'.expected ↔
      (e.key = .z → caps_on t.events = true → shift_down t.events = true ∨ shortcut t.keyboard = true) := by
  obtain ⟨added,expected⟩ := step_added idle make taken
  have same := char_meant read make other
  have quiet : caps_on (e :: t.events) = caps_on t.events := by
    rw [caps_on_cons,if_neg (fun caps => other caps.1)]
  rw [added,expected,← read.characters]
  by_cases z : e.key = .z
  · have shift : shift_down (e :: t.events) = shift_down t.events :=
      shift_down_other (by simp [z]) (by simp [z])
    rw [quiet,shift] at same
    have shown : e.key.fields.to_display = true := by
      rw [z]
      rfl
    have short : shortcut (t.keyboard.setPressed e.key true) = shortcut t.keyboard := by rw [z,shortcut_z]
    rw [shown,short]
    by_cases taken : shortcut t.keyboard = true
    · simp [taken]
    · simp [taken,same]
  · rw [same.mpr (fun is_z => absurd is_z z)]
    exact iff_of_true rfl (fun is_z => absurd is_z z)

/-- After a make all is as the events say exactly when the map has it right. -/
theorem read_make_iff (read : Read t) (idle : t.keyboard.shortcut_received = false) (make : e.make = true)
    (taken : step t e = some t') : Read t' ↔ Paired t e := by
  obtain ⟨added,expected⟩ := step_added idle make taken
  have marks {key : Key} (kept : key ∉ excepted ∨ key = .caps_lock) :
      t'.keyboard.pressed key = (t.keyboard.setPressed e.key true).pressed key := by
    cases taken
    have after := keypress_pressed (s := t.keyboard) e.pName e.scan_code kept
    rwa [keymap_make make] at after
  have events : t'.events = e :: t.events := by
    cases taken
    rfl
  have keys : ∀ key, key ∉ excepted → t'.keyboard.pressed key = down key t'.events := by
    intro key kept
    rw [marks (.inl kept),events,make_marks read make kept]
  have up : ¬ e.make = false := by simp [make]
  by_cases caps : e.key = .caps_lock
  · have on : t'.keyboard.pressed .caps_lock = true := by
      rw [marks (.inr rfl),caps,setPressed_key]
    have toggled : caps_on t'.events = !caps_on t.events := by rw [events,caps_on_cons,if_pos ⟨caps,make⟩]
    have characters : t'.keyboard.added = t'.expected := by
      rw [added,expected,caps]
      exact read.characters
    constructor
    · intro after
      have off : caps_on t.events = false := by simpa [on,toggled] using after.caps
      exact ⟨fun down _ => absurd down up,fun down _ => absurd down up,fun down _ => absurd down up,fun _ _ => off,
        fun down _ => absurd down up,fun _ z => absurd (caps.symm.trans z) (by decide)⟩
    · intro paired
      exact ⟨keys,by simp [on,toggled,paired.caps_make make caps],characters⟩
  · have on : t'.keyboard.pressed .caps_lock = caps_on t'.events := by
      rw [marks (.inr rfl),events,make_caps read caps]
    have characters := characters_iff read idle make caps taken
    constructor
    · intro after
      exact ⟨fun down _ => absurd down up,fun down _ => absurd down up,fun down _ => absurd down up,
        fun _ other => absurd other caps,fun down _ => absurd down up,fun _ => characters.mp after.characters⟩
    · intro paired
      exact ⟨keys,on,characters.mpr (paired.z make)⟩

/-! ### A break -/

/-- Taking back the mark of another key is right only while neither is down. -/
theorem unmarked_iff {own other : Key} (read : Read t) (apart : own ≠ other) (first : own ∉ excepted)
    (second : other ∉ excepted) (key_is : e.key = own) (up : e.make = false) :
    (∀ key, key ∉ excepted → (t.keyboard.setPressed other false).pressed key = down key (e :: t.events)) ↔
      down own t.events = false ∧ down other t.events = false := by
  have own_after : down own (e :: t.events) = false := by rw [down,if_pos key_is,up]
  have other_after : down other (e :: t.events) = down other t.events := by
    rw [down,if_neg (fun is_other => apart (key_is.symm.trans is_other))]
  constructor
  · intro all
    refine ⟨?_,?_⟩
    · rw [← read.keys own first,← setPressed_other false apart,all own first,own_after]
    · rw [← other_after,← all other second,setPressed_key]
  · rintro ⟨own_up,other_up⟩ key kept
    by_cases is_other : key = other
    · rw [is_other,setPressed_key,other_after,other_up]
    · rw [setPressed_other false is_other,read.keys key kept]
      by_cases is_own : key = own
      · rw [is_own,own_after,own_up]
      · rw [down,if_neg (fun same => is_own (same.symm.trans key_is))]

theorem break_entry_silent (key : Key) :
    ((break_entry key).orientation && (break_entry key).keyboard_key.fields.to_display) = false := by
  cases key <;> rfl

theorem break_entry_other (i : key ≠ .i) (home : key ≠ .home) (delete : key ≠ .delete) (caps : key ≠ .caps_lock) :
    break_entry key = released key := by
  cases key <;> first | rfl | contradiction

theorem paired_break_iff (up : e.make = false) : Paired t e ↔
    (e.key = .i → down .i t.events = false ∧ down .home t.events = false) ∧
    (e.key = .home → down .home t.events = false) ∧
    (e.key = .delete → down .delete t.events = false ∧ down .page_down t.events = false) ∧
    (e.key = .caps_lock → caps_on t.events = true) := by
  have never : ¬ e.make = true := by simp [up]
  constructor
  · exact fun paired => ⟨paired.i up,paired.home up,paired.delete up,paired.caps_break up⟩
  · rintro ⟨i,home,delete,caps⟩
    exact ⟨fun _ => i,fun _ => home,fun _ => delete,fun make => absurd make never,fun _ => caps,
      fun make => absurd make never⟩

/-- A break adds nothing and does not count for caps lock, so it is all about
    the mark that it changes. -/
theorem read_marked_iff (read : Read t) (idle : t.keyboard.shortcut_received = false) (up : e.make = false)
    {entry : KeyOrientation} (mapped : break_entry e.key = entry) (taken : step t e = some t') : Read t' ↔
      (∀ key, key ∉ excepted →
        (t.keyboard.setPressed entry.keyboard_key entry.orientation).pressed key = down key (e :: t.events)) ∧
      (t.keyboard.setPressed entry.keyboard_key entry.orientation).pressed .caps_lock = caps_on t.events := by
  cases taken
  have code : keymap e.scan_code = entry := (keymap_break up).trans mapped
  have marks {key : Key} (kept : key ∉ excepted ∨ key = .caps_lock) :=
    keypress_pressed (s := t.keyboard) e.pName e.scan_code kept
  have added := keypress_added e.pName code idle
  have silent : (entry.orientation && entry.keyboard_key.fields.to_display) = false := mapped ▸ break_entry_silent e.key
  have count : caps_on (e :: t.events) = caps_on t.events := by
    rw [caps_on_cons,if_neg (by simp [up])]
  rw [code] at marks
  simp only [silent,Bool.false_and,Bool.false_eq_true,if_false] at added
  constructor
  · intro after
    refine ⟨?_,?_⟩
    · intro key kept
      rw [← marks (.inl kept)]
      exact after.keys key kept
    · rw [← marks (.inr rfl),← count]
      exact after.caps
  · rintro ⟨keys,caps⟩
    refine ⟨?_,?_,?_⟩
    · intro key kept
      exact (marks (.inl kept)).trans (keys key kept)
    · exact (marks (.inr rfl)).trans (caps.trans count.symm)
    · simp only [up,Bool.false_and,Bool.false_eq_true,if_false]
      exact added.trans read.characters

theorem not_caps (kept : key ∉ excepted) : Key.caps_lock ≠ key := by
  rintro rfl
  exact kept (by decide)

theorem released_other_iff {own other : Key} (read : Read t) (idle : t.keyboard.shortcut_received = false)
    (up : e.make = false) (key_is : e.key = own) (mapped : break_entry own = released other) (apart : own ≠ other)
    (first : own ∉ excepted) (second : other ∉ excepted) (taken : step t e = some t') :
    Read t' ↔ down own t.events = false ∧ down other t.events = false := by
  have caps : (t.keyboard.setPressed other false).pressed .caps_lock = caps_on t.events :=
    (setPressed_other false (not_caps second)).trans read.caps
  rw [read_marked_iff read idle up (key_is ▸ mapped) taken]
  exact (and_iff_left caps).trans (unmarked_iff read apart first second key_is up)

/-- After a break all is as the events say exactly when the map has it right. -/
theorem read_break_iff (read : Read t) (idle : t.keyboard.shortcut_received = false) (up : e.make = false)
    (taken : step t e = some t') : Read t' ↔ Paired t e := by
  rw [paired_break_iff up]
  by_cases i : e.key = .i
  · rw [released_other_iff read idle up i rfl (by decide) (by decide) (by decide) taken]
    simp [i]
  by_cases home : e.key = .home
  · rw [released_other_iff read idle up home rfl (by decide) (by decide) (by decide) taken]
    simp [home,down_keypad_7]
  by_cases delete : e.key = .delete
  · rw [released_other_iff read idle up delete rfl (by decide) (by decide) (by decide) taken]
    simp [delete]
  have later (key : Key) (other : e.key ≠ key) : down key (e :: t.events) = down key t.events := by
    rw [down,if_neg other]
  by_cases caps : e.key = .caps_lock
  · have keys : ∀ key, key ∉ excepted →
        (t.keyboard.setPressed .caps_lock true).pressed key = down key (e :: t.events) := by
      intro key kept
      rw [setPressed_other true (not_caps kept).symm,read.keys key kept,later key (caps ▸ not_caps kept)]
    have mapped : break_entry e.key = pressed .caps_lock := by
      rw [caps]
      rfl
    have marked : (t.keyboard.setPressed .caps_lock true).pressed .caps_lock = true := setPressed_key true
    rw [read_marked_iff read idle up mapped taken]
    refine (and_iff_right keys).trans ?_
    constructor
    · intro on
      exact ⟨fun is_i => absurd is_i i,fun is_home => absurd is_home home,fun is_delete => absurd is_delete delete,
        fun _ => on.symm.trans marked⟩
    · rintro ⟨-,-,-,on⟩
      exact marked.trans (on caps).symm
  · have keys : ∀ key, key ∉ excepted → (t.keyboard.setPressed e.key false).pressed key = down key (e :: t.events) := by
      intro key kept
      by_cases same : e.key = key
      · rw [← same,setPressed_key,down,if_pos rfl,up]
      · rw [setPressed_other false (Ne.symm same),read.keys key kept,later key same]
    rw [read_marked_iff read idle up (break_entry_other i home delete caps) taken]
    refine iff_of_true ⟨keys,?_⟩ (by simp [i,home,delete,caps])
    exact (setPressed_other false (Ne.symm caps)).trans read.caps

/-! ### Sequences -/

/-- After any sequence of makes and breaks, and all along it, the keys, caps lock
    and the characters are as the events say exactly when each event is one that
    the map has right. -/
theorem keys_read_iff (console : Console) (es : List Event) :
    StatesMeet step Read (begin console) es ↔ StepsMeet step Paired (begin console) es := by
  have idle : StatesMeet step (fun t => t.keyboard.shortcut_received = false) (begin console) es := by
    refine statesMeet_invariant ?_ rfl
    intro t e t' _ taken
    cases taken
    rfl
  have exact_ : StatesMeet step (fun t => Read t ∧ t.keyboard.shortcut_received = false) (begin console) es ↔
      StepsMeet step Paired (begin console) es := by
    refine statesMeet_iff_stepsMeet ?_ ?_ ⟨⟨fun _ _ => rfl,rfl,rfl⟩,rfl⟩
    · intro t e _ blocked
      cases blocked
    · rintro t e t' ⟨read,idle⟩ taken
      have quiet : t'.keyboard.shortcut_received = false := by
        cases taken
        rfl
      rw [and_iff_left quiet]
      cases make : e.make with
      | true => exact read_make_iff read idle make taken
      | false => exact read_break_iff read idle make taken
  rw [← exact_,statesMeet_and]
  exact (and_iff_left idle).symm

/-- The I key goes down and up again. -/
def tap_i : List Event := [⟨0x17,by decide,true,fun _ => 0⟩,⟨0x17,by decide,false,fun _ => 0⟩]

/-- It stays marked. -/
theorem i_stays_pressed : ¬ StatesMeet step Read (begin default) tap_i := by
  intro read
  have last : Read ⟨_,_,_⟩ := statesMeet_last read rfl
  have marked := last.keys .i (by decide)
  revert marked
  decide

end Mp3Kernel.Keypress

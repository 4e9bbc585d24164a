import Mp3Kernel.Terminal.Keypress
import Mp3Kernel.Terminal.LineEditor

/-!
From keys to lines. `strokes` spells an edit as the scancodes of a keyboard:
a key that goes down and up, for some characters with shift held, and for a
display switch with alt held. The keyboard driver does with the codes what the
line editor does with the edits.
-/
namespace Mp3Kernel.Strokes
open Mp3Kernel.Memory (Byte ascii)
open Mp3Kernel.Screen Mp3Kernel.Keys Mp3Kernel.Keypress Mp3Kernel.Tty Mp3Kernel.Runs Mp3Kernel.Lines Mp3Kernel.LineEditor

/-! ### Spelling -/

def strike (code : Nat) : List Nat := [code,code + 0x80]
def holding (modifier : Nat) (codes : List Nat) : List Nat := modifier :: (codes ++ [modifier + 0x80])

def character (shift : Bool) (key : Key) : Byte := ascii (if shift then key.fields.shift_char else key.fields.lowercase_char)

/-- The first key that has the character. -/
def character_code (shift : Bool) (ch : Byte) : Option Nat :=
  (List.range 0x59).find? fun code =>
    decide (MakeCode code) && (keymap code).keyboard_key.fields.to_display && character shift (keymap code).keyboard_key == ch

def strokes : Edit → List Nat
  | .key _ ch =>
    match character_code false ch with
    | some code => strike code
    | none =>
      match character_code true ch with
      | some code => holding 0x2A (strike code)
      | none => []
  | .backspace => strike 0x0E
  | .switch k => holding 0x38 (strike (0x3B + k.toNat))

/-- Some key has the character, or there is such a terminal. -/
def Typeable : Edit → Prop
  | .key _ ch => character_code false ch ≠ none ∨ character_code true ch ≠ none
  | .backspace => True
  | .switch k => 0 ≤ k ∧ k < 3

/-- The name of the task that runs meanwhile. -/
def running : Edit → Nat → Byte
  | .key pName _ => pName
  | _ => fun _ => 0

def type_codes (pName : Nat → Byte) (s : Keyboard) (codes : List Nat) : Keyboard :=
  codes.foldl (fun s code => process_keypress pName code s) s

def type_edit (s : Keyboard) (e : Edit) : Keyboard := type_codes (running e) s (strokes e)

/-- All of printable ASCII and the line break can be typed. -/
theorem typeable_printable (pName : Nat → Byte) :
    ∀ ch : Byte, 32 ≤ ch ∧ ch ≤ 126 ∨ ch = NEWLINE → Typeable (.key pName ch) := by
  have all : ∀ n < 256, 32 ≤ n ∧ n ≤ 126 ∨ n = 10 →
      character_code false (BitVec.ofNat 8 n) ≠ none ∨ character_code true (BitVec.ofNat 8 n) ≠ none := by decide +kernel
  intro ch range
  have found := all ch.toNat ch.isLt (by
    rcases range with ⟨low,high⟩ | rfl
    · exact .inl ⟨BitVec.le_def.mp low,BitVec.le_def.mp high⟩
    · exact .inr rfl)
  rwa [BitVec.ofNat_toNat,BitVec.setWidth_eq] at found

/-! ### The keys that matter -/

/-- The keys that the driver looks at for shortcuts and for the case. -/
def modifiers : List Key :=
  [.left_shift,.left_alt,.right_shift,.right_alt,.caps_lock,.left_control,.right_control,.backspace,.f1,.f2,.f3]

/-- Of these at most the left shift and the left alt key are down. -/
structure Marks (s : Keyboard) (shift alt : Bool) : Prop where
  idle : s.shortcut_received = false
  left_shift : s.pressed .left_shift = shift
  left_alt : s.pressed .left_alt = alt
  others : ∀ key ∈ modifiers, key ≠ .left_shift → key ≠ .left_alt → s.pressed key = false

variable {s : Keyboard} {shift alt : Bool} {pName : Nat → Byte} {code : Nat} {key : Key}

theorem marks_init (c : Console) : Marks (keyboard_init c) false false := ⟨rfl,rfl,rfl,fun _ _ _ _ => rfl⟩

/-- Other keys do not change that. -/
theorem marks_setPressed (marks : Marks s shift alt) (value : Bool) (other : key ∉ modifiers) :
    Marks (s.setPressed key value) shift alt := by
  have kept {held : Key} (inside : held ∈ modifiers) : (s.setPressed key value).pressed held = s.pressed held :=
    setPressed_other value (fun same => other (same ▸ inside))
  refine ⟨marks.idle,(kept (by decide)).trans marks.left_shift,(kept (by decide)).trans marks.left_alt,?_⟩
  intro held inside apart apart'
  exact (kept inside).trans (marks.others held inside apart apart')

theorem marks_shift (marks : Marks s shift alt) (value : Bool) : Marks (s.setPressed .left_shift value) value alt :=
  ⟨marks.idle,setPressed_key value,(setPressed_other value (by decide)).trans marks.left_alt,
    fun held inside apart apart' => (setPressed_other value apart).trans (marks.others held inside apart apart')⟩

theorem marks_alt (marks : Marks s shift alt) (value : Bool) : Marks (s.setPressed .left_alt value) shift value :=
  ⟨marks.idle,(setPressed_other value (by decide)).trans marks.left_shift,setPressed_key value,
    fun held inside apart apart' => (setPressed_other value apart').trans (marks.others held inside apart apart')⟩

theorem shortcut_marks (marks : Marks s shift alt) : shortcut s = false := by
  have up (held : Key) (inside : held ∈ modifiers) (apart : held ≠ .left_shift) (apart' : held ≠ .left_alt) :=
    marks.others held inside apart apart'
  simp only [shortcut,is_control_pressed,is_pressed,up .left_control (by decide) (by decide) (by decide),
    up .right_control (by decide) (by decide) (by decide),up .backspace (by decide) (by decide) (by decide),
    up .f1 (by decide) (by decide) (by decide),up .f2 (by decide) (by decide) (by decide),
    up .f3 (by decide) (by decide) (by decide)]
  simp

theorem char_marks (marks : Marks s shift alt) (key : Key) : ascii (char_to_print s key) = character shift key := by
  have right := marks.others .right_shift (by decide) (by decide) (by decide)
  have caps := marks.others .caps_lock (by decide) (by decide) (by decide)
  simp only [char_to_print,is_shift_pressed,is_caps_lock_pressed,is_pressed,right,caps,marks.left_shift,Bool.false_or]
  rw [character]
  cases shift <;> rfl

/-- A code that makes no shortcut prints its character, if it has one. -/
theorem keypress_marks (pName : Nat → Byte) {entry : KeyOrientation} (mapped : keymap code = entry)
    (marks : Marks (s.setPressed entry.keyboard_key entry.orientation) shift alt) :
    Marks (process_keypress pName code s) shift alt ∧
      (process_keypress pName code s).console =
        if entry.orientation && entry.keyboard_key.fields.to_display then
          terminal_add_to_buffer pName (character shift entry.keyboard_key) s.console
        else s.console := by
  have idle : s.shortcut_received = false := marks.idle
  have outside := shortcut_marks marks
  have pressed : (process_keypress pName code s).pressed = (s.setPressed entry.keyboard_key entry.orientation).pressed := by
    rw [process_keypress,mapped]
    dsimp only
    rw [print_key_pressed,shortcuts_outside marks.idle outside]
  refine ⟨⟨rfl,pressed ▸ marks.left_shift,pressed ▸ marks.left_alt,pressed ▸ marks.others⟩,?_⟩
  rw [keypress_console pName mapped idle outside]
  dsimp only
  rw [char_marks marks]

/-! ### The strokes -/

theorem not_modifier (shown : key.fields.to_display = true) : key ∉ modifiers := by
  cases key <;> first | decide | exact absurd shown (by decide)

/-- What goes up with a key that has a character is none of these keys either. -/
theorem break_not_modifier (shown : key.fields.to_display = true) :
    ∃ other, break_entry key = released other ∧ other ∉ modifiers := by
  cases key <;> first | exact ⟨_,rfl,by decide⟩ | exact absurd shown (by decide)

theorem character_code_some {ch : Byte} (found : character_code shift ch = some code) :
    MakeCode code ∧ code < 0x59 ∧ (keymap code).keyboard_key.fields.to_display = true ∧
      character shift (keymap code).keyboard_key = ch := by
  have inside := List.mem_range.mp (List.mem_of_find?_eq_some found)
  have holds := List.find?_some found
  simp only [Bool.and_eq_true,decide_eq_true_eq,beq_iff_eq] at holds
  exact ⟨holds.1.1,inside,holds.1.2,holds.2⟩

theorem strike_character {ch : Byte} (marks : Marks s shift alt) (pName : Nat → Byte)
    (found : character_code shift ch = some code) :
    Marks (type_codes pName s (strike code)) shift alt ∧
      (type_codes pName s (strike code)).console = terminal_add_to_buffer pName ch s.console := by
  obtain ⟨valid,bound,shown,same⟩ := character_code_some found
  obtain ⟨down,-,up⟩ := keymap_pairs code bound valid
  obtain ⟨other,entry,apart⟩ := break_not_modifier shown
  obtain ⟨marks₁,console₁⟩ := keypress_marks (s := s) pName rfl (marks_setPressed marks _ (not_modifier shown))
  obtain ⟨marks₂,console₂⟩ := keypress_marks pName (up.trans entry) (marks_setPressed marks₁ false apart)
  refine ⟨marks₂,console₂.trans ?_⟩
  rw [if_neg (by simp [released]),console₁,down,shown,same]
  rfl

/-- The keys that make a shortcut without a character. -/
def Resets (key : Key) : Prop := key ∈ modifiers ∧ key ≠ .left_shift ∧ key ≠ .left_alt

/-- Such a key is reset at once, -/
theorem marks_reset (reset : Resets key) (marks : Marks s shift alt) (value : Bool) :
    Marks ((s.setPressed key value).setPressed key false) shift alt := by
  have kept {other : Key} (apart : other ≠ key) : ((s.setPressed key value).setPressed key false).pressed other = s.pressed other :=
    (setPressed_other false apart).trans (setPressed_other value apart)
  refine ⟨marks.idle,(kept reset.2.1.symm).trans marks.left_shift,(kept reset.2.2.symm).trans marks.left_alt,?_⟩
  intro other inside apart apart'
  by_cases same : other = key
  · subst same
    exact setPressed_key false
  · exact (kept same).trans (marks.others other inside apart apart')

variable (code key) in
/-- so the strokes of it leave no mark. -/
theorem strike_shortcut (reset : Resets key) (marks : Marks s shift alt) (pName : Nat → Byte)
    (valid : MakeCode code ∧ code < 0x59) (down : keymap code = pressed key) (plain : break_entry key = released key)
    {c : Console} (taken : process_shortcuts (s.setPressed key true) =
      { (s.setPressed key true).setPressed key false with console := c, shortcut_received := true }) :
    Marks (type_codes pName s (strike code)) shift alt ∧ (type_codes pName s (strike code)).console = c := by
  have up := (keymap_pairs code valid.2 valid.1).2.2
  rw [down] at up
  have first : process_keypress pName code s =
      { (s.setPressed key true).setPressed key false with console := c, shortcut_received := false } := by
    rw [process_keypress,down]
    simp only [pressed]
    rw [taken,print_key]
    simp
  have marks₁ : Marks (process_keypress pName code s) shift alt := by
    have reset := marks_reset reset marks true
    rw [first]
    exact ⟨rfl,reset.left_shift,reset.left_alt,reset.others⟩
  have again := marks_reset reset marks₁ false
  have marks₂ : Marks ((process_keypress pName code s).setPressed key false) shift alt := by
    have twice : ((process_keypress pName code s).setPressed key false).setPressed key false =
        (process_keypress pName code s).setPressed key false := by
      simp only [Keyboard.setPressed]
      congr 1
      funext other
      split <;> rfl
    exact twice ▸ again
  obtain ⟨after,console⟩ := keypress_marks pName (up.trans plain) marks₂
  refine ⟨after,console.trans ?_⟩
  rw [if_neg (by simp [released]),first]

theorem control_up (marks : Marks s shift alt) (other : key ≠ .left_control ∧ key ≠ .right_control) (value : Bool) :
    is_control_pressed (s.setPressed key value) = false := by
  rw [is_control_pressed,is_pressed,is_pressed,setPressed_other value other.1.symm,setPressed_other value other.2.symm,
    marks.others .left_control (by decide) (by decide) (by decide),
    marks.others .right_control (by decide) (by decide) (by decide)]
  rfl

theorem strike_backspace (marks : Marks s false false) (pName : Nat → Byte) :
    Marks (type_codes pName s (strike 0x0E)) false false ∧
      (type_codes pName s (strike 0x0E)).console = terminal_backspace s.console := by
  refine strike_shortcut 0x0E .backspace (by unfold Resets; decide) marks pName (by decide) (by decide +kernel) rfl ?_
  have control := control_up marks (show Key.backspace ≠ .left_control ∧ Key.backspace ≠ .right_control from by decide) true
  simp only [process_shortcuts,control,is_pressed,setPressed_key]
  rfl

def function_key : Int → Key
  | 0 => .f1
  | 1 => .f2
  | _ => .f3

/-- With alt held the function key of a terminal displays it. -/
theorem switch_taken (marks : Marks s false true) {t : Int} (low : 0 ≤ t) (high : t < 3) :
    process_shortcuts (s.setPressed (function_key t) true) =
      { (s.setPressed (function_key t) true).setPressed (function_key t) false with
        console := set_current_terminal t s.console, shortcut_received := true } := by
  have apart : ∀ other ∈ [Key.left_control,.right_control,.backspace,.left_alt], other ≠ function_key t := by
    obtain rfl | rfl | rfl : t = 0 ∨ t = 1 ∨ t = 2 := by omega
    all_goals decide
  have up {other : Key} (inside : other ∈ modifiers) (shift : other ≠ .left_shift) (alt : other ≠ .left_alt)
      (different : other ≠ function_key t) : (s.setPressed (function_key t) true).pressed other = false :=
    (setPressed_other true different).trans (marks.others other inside shift alt)
  have control := control_up marks ⟨(apart .left_control (by decide)).symm,(apart .right_control (by decide)).symm⟩ true
  have backspace := up (by decide) (by decide) (by decide) (apart .backspace (by decide))
  have alt : is_alt_pressed (s.setPressed (function_key t) true) = true := by
    rw [is_alt_pressed,is_pressed,is_pressed,setPressed_other true (apart .left_alt (by decide)),marks.left_alt,Bool.or_true]
  obtain rfl | rfl | rfl : t = 0 ∨ t = 1 ∨ t = 2 := by omega
  · simp only [function_key] at control backspace alt ⊢
    simp only [process_shortcuts,control,is_pressed,backspace,alt,setPressed_key]
    rfl
  · have first := up (show Key.f1 ∈ modifiers by decide) (by decide) (by decide) (by decide)
    simp only [function_key] at control backspace alt first ⊢
    simp only [process_shortcuts,control,is_pressed,backspace,alt,first,setPressed_key]
    rfl
  · have first := up (show Key.f1 ∈ modifiers by decide) (by decide) (by decide) (by decide)
    have second := up (show Key.f2 ∈ modifiers by decide) (by decide) (by decide) (by decide)
    simp only [function_key] at control backspace alt first second ⊢
    simp only [process_shortcuts,control,is_pressed,backspace,alt,first,second,setPressed_key]
    rfl

theorem strike_switch (marks : Marks s false true) (pName : Nat → Byte) {t : Int} (low : 0 ≤ t) (high : t < 3) :
    Marks (type_codes pName s (strike (0x3B + t.toNat))) false true ∧
      (type_codes pName s (strike (0x3B + t.toNat))).console = set_current_terminal t s.console := by
  have taken := switch_taken marks low high
  obtain rfl | rfl | rfl : t = 0 ∨ t = 1 ∨ t = 2 := by omega
  · exact strike_shortcut 0x3B .f1 (by unfold Resets; decide) marks pName (by decide) (by decide +kernel) rfl taken
  · exact strike_shortcut 0x3C .f2 (by unfold Resets; decide) marks pName (by decide) (by decide +kernel) rfl taken
  · exact strike_shortcut 0x3D .f3 (by unfold Resets; decide) marks pName (by decide) (by decide +kernel) rfl taken

/-! ### Edits -/

theorem type_codes_append (pName : Nat → Byte) (s : Keyboard) (xs ys : List Nat) :
    type_codes pName s (xs ++ ys) = type_codes pName (type_codes pName s xs) ys := List.foldl_append

/-- The strokes of an edit do to the terminals what the edit does, and leave no
    key down that matters. -/
theorem type_edit_eq {e : Edit} (marks : Marks s false false) (typeable : Typeable e) :
    Marks (type_edit s e) false false ∧ (type_edit s e).console = edit s.console e := by
  cases e with
  | key pName ch =>
    rw [type_edit,strokes,running,edit]
    cases plain : character_code false ch with
    | some code => exact strike_character marks pName plain
    | none =>
      cases shifted : character_code true ch with
      | none => exact absurd shifted (typeable.resolve_left (not_not.mpr plain))
      | some code =>
        -- shift goes down, and up again behind the key
        have down : keymap 0x2A = pressed .left_shift := by decide +kernel
        have up : keymap (0x2A + 0x80) = released .left_shift := by decide +kernel
        obtain ⟨marks₁,console₁⟩ := keypress_marks pName down (marks_shift marks true)
        obtain ⟨marks₂,console₂⟩ := strike_character marks₁ pName shifted
        obtain ⟨marks₃,console₃⟩ := keypress_marks pName up (marks_shift marks₂ false)
        dsimp only
        rw [holding,← List.singleton_append,type_codes_append,type_codes_append]
        exact ⟨marks₃,console₃.trans (console₂.trans (congrArg _ console₁))⟩
  | backspace => exact strike_backspace marks _
  | switch t =>
    have down : keymap 0x38 = pressed .left_alt := by decide +kernel
    have up : keymap (0x38 + 0x80) = released .left_alt := by decide +kernel
    obtain ⟨marks₁,console₁⟩ := keypress_marks (running (.switch t)) down (marks_alt marks true)
    obtain ⟨marks₂,console₂⟩ := strike_switch marks₁ (running (.switch t)) typeable.1 typeable.2
    obtain ⟨marks₃,console₃⟩ := keypress_marks (running (.switch t)) up (marks_alt marks₂ false)
    rw [type_edit,strokes,holding,← List.singleton_append,type_codes_append,type_codes_append]
    exact ⟨marks₃,console₃.trans (console₂.trans (congrArg _ console₁))⟩

theorem typed_edits {es : List Edit} (marks : Marks s false false) (typeable : ∀ e ∈ es, Typeable e) :
    Marks (es.foldl type_edit s) false false ∧ (es.foldl type_edit s).console = es.foldl edit s.console := by
  induction es generalizing s with
  | nil => exact ⟨marks,rfl⟩
  | cons e es ih =>
    obtain ⟨marks₁,console₁⟩ := type_edit_eq marks (typeable e List.mem_cons_self)
    obtain ⟨marks₂,console₂⟩ := ih marks₁ (fun e' inside => typeable e' (List.mem_cons_of_mem e inside))
    rw [List.foldl_cons,List.foldl_cons,← console₁]
    exact ⟨marks₂,console₂⟩

variable {t : Int}

/-- `L` with shift, a visit to terminal 1, and Enter. -/
def shifted_visit : List Edit := [.key (fun _ => 0) 76,.switch 1,.key (fun _ => 0) 98,.switch 0,.key (fun _ => 0) 10]

end Mp3Kernel.Strokes
